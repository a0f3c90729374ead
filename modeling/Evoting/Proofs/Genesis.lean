/-
When `sawadm genesis` writes the genesis file.

`_validate_depedencies` is a scan of the transactions with the ids so far.  It passes the
batches in which every dependency comes strictly before (`validateDepedencies_ok`), and in
all others names what a first transaction lacks (`validateDepedencies_error`).
`_check_required_settings` crosses off what is proposed, and names what is left
(`checkRequiredSettings_eq`).  Only when both have passed is a file touched.
-/
import Evoting.Lib.Scan
import Evoting.Model.Messages
import Mathlib.Data.List.Forall2
import Mathlib.Data.List.Nodup

namespace Evoting.Genesis

open Scan

/-! ### What is claimed -/

section Claim

variable (pb : Protobuf)

/-- **Every dependency is the id of a transaction strictly before**: in an earlier batch, or earlier
in the same one. -/
def DependenciesMet (batches : List Batch) : Prop :=
  ∀ b t txn txnHeader, At (batches.map Batch.transactions) b t txn →
    pb.transactionHeader txn.header = some txnHeader → ∀ dep ∈ txnHeader.dependencies,
      ∃ b' t' earlier, At (batches.map Batch.transactions) b' t' earlier ∧
        (b' < b ∨ b' = b ∧ t' < t) ∧ earlier.headerSignature = dep

/-- A transaction of the settings family proposes a setting. -/
def Proposes (txn : Transaction) (setting : PyString) : Prop :=
  ∃ txnHeader settingsPayload proposal,
    pb.transactionHeader txn.header = some txnHeader ∧ txnHeader.familyName = settingsFamily ∧
      pb.settingsPayload txn.payload = some settingsPayload ∧ settingsPayload.action = .propose ∧
      pb.settingProposal settingsPayload.data = some proposal ∧ proposal.setting = setting

/-- Each required setting is proposed. -/
def SettingsProposed (batches : List Batch) : Prop :=
  ∀ setting ∈ REQUIRED_SETTINGS, ∃ batch ∈ batches, ∃ txn ∈ batch.transactions,
    Proposes pb txn setting

/-- What the batches have to meet. -/
def Acceptable (args : Args) (batches : List Batch) : Prop :=
  DependenciesMet pb batches ∧ (args.ignoreRequiredSettings = false → SettingsProposed pb batches)

/-- What is read of the payload of a transaction is parsed. -/
def PayloadParses (txn : Transaction) : Prop :=
  ∀ txnHeader, pb.transactionHeader txn.header = some txnHeader →
    txnHeader.familyName = settingsFamily →
    ∃ settingsPayload, pb.settingsPayload txn.payload = some settingsPayload ∧
      (settingsPayload.action = .propose →
        ∃ proposal, pb.settingProposal settingsPayload.data = some proposal)

/-- The headers of all transactions are parsed. -/
def HeadersParse (batches : List Batch) : Prop :=
  ∀ batch ∈ batches, ∀ txn ∈ batch.transactions,
    ∃ txnHeader, pb.transactionHeader txn.header = some txnHeader

/-- What is read of the payloads of all transactions is parsed. -/
def PayloadsParse (batches : List Batch) : Prop :=
  ∀ batch ∈ batches, ∀ txn ∈ batch.transactions, PayloadParses pb txn

/-- **What is assumed**: the data directory exists, the input files hold batch lists, and what is
read of the transactions is parsed. -/
structure Readable (fs : FileSystem) (args : Args) (dataDir : PyString)
    (inputs : List (List Batch)) : Prop where
  dataDir : fs.pathExists dataDir = true
  inputFile : List.Forall₂ (fun path batches =>
    ∃ bytes, fs.contents path = some bytes ∧ pb.batchList bytes = some batches)
      args.inputFile inputs
  headers : HeadersParse pb inputs.flatten
  payloads : args.ignoreRequiredSettings = false → PayloadsParse pb inputs.flatten

/-- A file holds the batches, and no other file has changed. -/
structure Written (fs fs' : FileSystem) (path : PyString) (batches : List Batch) : Prop where
  holds : ∃ bytes, fs'.contents path = some bytes ∧ pb.genesisData bytes = some batches
  others : ∀ other, other ≠ path → fs'.contents other = fs.contents other

end Claim

variable {pb : Protobuf} {batches : List Batch}

/-- The transactions of all batches, in order. -/
def transactions (batches : List Batch) : List Transaction := batches.flatMap Batch.transactions

theorem forall_transactions {P : Transaction → Prop} :
    (∀ txn ∈ transactions batches, P txn) ↔
      ∀ batch ∈ batches, ∀ txn ∈ batch.transactions, P txn := by
  simp only [transactions, List.mem_flatMap]
  grind

/-! ### Dependencies -/

/-- What a transaction depends on. -/
def dependencies (pb : Protobuf) (txn : Transaction) : List PyString :=
  ((pb.transactionHeader txn.header).map TransactionHeader.dependencies).getD []

/-- The dependencies are met where each transaction is supported by those before. -/
theorem dependenciesMet_iff : DependenciesMet pb batches ↔
    Supported Transaction.headerSignature (dependencies pb) ∅ (transactions batches) := by
  rw [transactions, List.flatMap_def, supported_flatten_iff, DependenciesMet]
  constructor
  · intro h b t txn hat dep hdep
    cases hheader : pb.transactionHeader txn.header with
    | none => simp [dependencies, hheader] at hdep
    | some txnHeader =>
        rw [dependencies, hheader] at hdep
        exact h b t txn txnHeader hat hheader dep hdep
  · intro h b t txn txnHeader hat hheader dep hdep
    exact h b t txn hat dep (by rw [dependencies, hheader]; exact hdep)

/-- **One transaction is one element of the scan.** -/
theorem validateTransaction_eq {txn : Transaction} {txnHeader : TransactionHeader}
    (hheader : pb.transactionHeader txn.header = some txnHeader)
    (transactionIds : Finset PyString) : validateTransaction pb transactionIds txn
      = (see Transaction.headerSignature (dependencies pb) transactionIds txn).mapError
          fun deps => .cliException (.unsatisfiedDependency deps) := by
  have hlacking : lacking (dependencies pb) transactionIds txn
      = txnHeader.dependencies.filter (· ∉ transactionIds) := by
    rw [lacking, dependencies, hheader]
    rfl
  rw [validateTransaction, parseFromString, hheader, see, hlacking]
  dsimp only
  rw [ok_bind]
  generalize hdeps : txnHeader.dependencies.filter (· ∉ transactionIds) = unsatisfiedDeps
  by_cases hlacks : unsatisfiedDeps = []
  · simp [hlacks, Except.mapError]
  · have hdependencies : txnHeader.dependencies ≠ [] := by
      intro hnil
      rw [hnil] at hdeps
      exact hlacks hdeps.symm
    simp [hlacks, hdependencies, Except.mapError]

/-- The whole check is the scan. -/
theorem validateDepedencies_eq (hheaders : HeadersParse pb batches) :
    validateDepedencies pb batches
      = ((scan Transaction.headerSignature (dependencies pb) ∅ (transactions batches)).mapError
          fun deps => .cliException (.unsatisfiedDependency deps)).map fun _ => () := by
  have hscan : (transactions batches).foldlM (validateTransaction pb) ∅
      = (scan Transaction.headerSignature (dependencies pb) ∅ (transactions batches)).mapError
          fun deps => .cliException (.unsatisfiedDependency deps) := by
    refine foldlM_mapError _ fun txn htxn transactionIds => ?_
    obtain ⟨txnHeader, hheader⟩ := forall_transactions.mpr hheaders txn htxn
    exact validateTransaction_eq hheader transactionIds
  rw [validateDepedencies, ← foldlM_flatMap, ← transactions, hscan]
  rfl

/-- **Batches whose dependencies are met pass.** -/
theorem validateDepedencies_ok (hheaders : HeadersParse pb batches)
    (h : DependenciesMet pb batches) : validateDepedencies pb batches = .ok () := by
  rw [validateDepedencies_eq hheaders, scan_of_supported (dependenciesMet_iff.mp h)]
  rfl

/-- **In all others** the first transaction that lacks something is named by it. -/
theorem validateDepedencies_error (hheaders : HeadersParse pb batches)
    (h : ¬DependenciesMet pb batches) :
    ∃ before txn after unsatisfiedDeps, transactions batches = before ++ txn :: after ∧
      Supported Transaction.headerSignature (dependencies pb) ∅ before ∧ unsatisfiedDeps ≠ [] ∧
      unsatisfiedDeps
        = (dependencies pb txn).filter (· ∉ before.map Transaction.headerSignature) ∧
      validateDepedencies pb batches
        = .error (.cliException (.unsatisfiedDependency unsatisfiedDeps)) := by
  obtain ⟨before, txn, after, hsplit, hbefore, hlacks, hscan⟩ :=
    scan_of_not_supported fun hsupported => h (dependenciesMet_iff.mpr hsupported)
  refine ⟨before, txn, after, _, hsplit, hbefore, hlacks, ?_, ?_⟩
  · refine List.filter_congr fun dep _ => ?_
    simp [mem_seenAfter_iff]
  · rw [validateDepedencies_eq hheaders, hscan]
    rfl

/-! ### Settings -/

/-- The setting that a transaction proposes. -/
def proposed (pb : Protobuf) (txn : Transaction) : Option PyString := do
  let txnHeader ← pb.transactionHeader txn.header
  if txnHeader.familyName = settingsFamily then
    let settingsPayload ← pb.settingsPayload txn.payload
    if settingsPayload.action = .propose then
      let proposal ← pb.settingProposal settingsPayload.data
      some proposal.setting
    else none
  else none

theorem proposed_eq_some_iff {txn : Transaction} {setting : PyString} :
    proposed pb txn = some setting ↔ Proposes pb txn setting := by
  simp only [proposed, Proposes, Option.bind_eq_bind, Option.bind_eq_some_iff,
    Option.ite_none_right_eq_some, Option.some.injEq]
  grind

/-- **One transaction** crosses off what it proposes. -/
theorem checkTransaction_eq {txn : Transaction} {txnHeader : TransactionHeader}
    (hheader : pb.transactionHeader txn.header = some txnHeader) (hpayload : PayloadParses pb txn)
    (requiredSettings : List PyString) : checkTransaction pb requiredSettings txn
      = .ok (requiredSettings.diff (proposed pb txn).toList) := by
  rw [checkTransaction, parseFromString, hheader, proposed, hheader]
  by_cases hfamily : txnHeader.familyName = settingsFamily
  · obtain ⟨settingsPayload, hsettings, hpropose⟩ := hpayload txnHeader hheader hfamily
    by_cases haction : settingsPayload.action = .propose
    · obtain ⟨proposal, hproposal⟩ := hpropose haction
      by_cases hrequired : proposal.setting ∈ requiredSettings
      · simp [hfamily, hsettings, haction, hproposal, hrequired, parseFromString]
      · simp [hfamily, hsettings, haction, hproposal, hrequired, parseFromString,
          List.erase_of_not_mem]
    · simp [hsettings, haction, parseFromString]
  · simp [hfamily]

theorem foldl_diff {l : List Transaction} (init : List PyString) :
    l.foldl (fun requiredSettings txn => requiredSettings.diff (proposed pb txn).toList) init
      = init.diff (l.filterMap (proposed pb)) := by
  induction l generalizing init with
  | nil => rfl
  | cons txn l ih =>
      rw [List.foldl_cons, ih, List.filterMap_cons]
      cases proposed pb txn with
      | none => rfl
      | some setting =>
          show (init.diff [setting]).diff _ = init.diff (setting :: _)
          rw [List.diff_cons, List.diff_nil, List.diff_cons]

/-- The required settings that no transaction proposes. -/
def missing (pb : Protobuf) (batches : List Batch) : List PyString :=
  REQUIRED_SETTINGS.diff ((transactions batches).filterMap (proposed pb))

theorem mem_missing_iff {setting : PyString} : setting ∈ missing pb batches ↔
    setting ∈ REQUIRED_SETTINGS ∧
      ¬∃ batch ∈ batches, ∃ txn ∈ batch.transactions, Proposes pb txn setting := by
  have hnodup : REQUIRED_SETTINGS.Nodup := by decide
  rw [missing, hnodup.mem_sdiff_iff, List.mem_filterMap]
  refine and_congr_right fun _ => not_congr ⟨?_, ?_⟩
  · rintro ⟨txn, htxn, hproposed⟩
    obtain ⟨batch, hbatch, hmem⟩ := List.mem_flatMap.mp htxn
    exact ⟨batch, hbatch, txn, hmem, proposed_eq_some_iff.mp hproposed⟩
  · rintro ⟨batch, hbatch, txn, hmem, hproposes⟩
    exact ⟨txn, List.mem_flatMap.mpr ⟨batch, hbatch, hmem⟩, proposed_eq_some_iff.mpr hproposes⟩

theorem missing_eq_nil_iff : missing pb batches = [] ↔ SettingsProposed pb batches := by
  rw [List.eq_nil_iff_forall_not_mem, SettingsProposed]
  refine forall_congr' fun setting => ?_
  rw [mem_missing_iff, not_and, not_not]

/-- **The whole check**: what is missing is named. -/
theorem checkRequiredSettings_eq (hheaders : HeadersParse pb batches)
    (hpayloads : PayloadsParse pb batches) :
    checkRequiredSettings pb batches = if missing pb batches = [] then .ok () else
      .error (.cliException (.missingSettings (missing pb batches))) := by
  have hloop : (transactions batches).foldlM (checkTransaction pb) REQUIRED_SETTINGS
      = .ok (missing pb batches) := by
    rw [missing, ← foldl_diff]
    refine foldlM_eq_ok _ fun txn htxn requiredSettings => ?_
    obtain ⟨txnHeader, hheader⟩ := forall_transactions.mpr hheaders txn htxn
    exact checkTransaction_eq hheader (forall_transactions.mpr hpayloads txn htxn) requiredSettings
  rw [checkRequiredSettings, ← foldlM_flatMap, ← transactions, hloop, ok_bind]
  by_cases hnone : missing pb batches = []
  · simp [hnone]
  · simp [hnone]

/-! ### The command -/

section Command

variable {fs : FileSystem} {args : Args} {dataDir : PyString} {inputs : List (List Batch)}

/-- The input files are read in order. -/
theorem foldlM_readInput {inputFiles : List PyString}
    (h : List.Forall₂ (fun path batches =>
      ∃ bytes, fs.contents path = some bytes ∧ pb.batchList bytes = some batches)
        inputFiles inputs) : ∀ read : List Batch,
    inputFiles.foldlM (readInput pb fs) read = .ok (read ++ inputs.flatten) := by
  induction h with
  | nil => simp
  | cons hfile _ ih =>
      intro read
      obtain ⟨bytes, hcontents, hbatches⟩ := hfile
      rw [List.foldlM_cons, readInput, hcontents, Option.bind_some, hbatches]
      dsimp only
      rw [ok_bind, ih, List.flatten_cons, List.append_assoc]

/-- **What stands between the input files and the output file.** -/
theorem genesisBatches_eq (h : Readable pb fs args dataDir inputs) :
    genesisBatches pb fs args dataDir = (do
      validateDepedencies pb inputs.flatten
      if ¬args.ignoreRequiredSettings then checkRequiredSettings pb inputs.flatten
      return inputs.flatten) := by
  rw [genesisBatches, h.dataDir, foldlM_readInput h.inputFile, List.nil_append]
  rfl

/-- Acceptable batches pass both checks. -/
theorem genesisBatches_ok (h : Readable pb fs args dataDir inputs)
    (hacceptable : Acceptable pb args inputs.flatten) :
    genesisBatches pb fs args dataDir = .ok inputs.flatten := by
  obtain ⟨hdependencies, hsettings⟩ := hacceptable
  rw [genesisBatches_eq h, validateDepedencies_ok h.headers hdependencies, ok_bind]
  cases hignore : args.ignoreRequiredSettings with
  | true => rfl
  | false =>
      rw [checkRequiredSettings_eq h.headers (h.payloads hignore),
        if_pos (missing_eq_nil_iff.mpr (hsettings hignore))]
      rfl

/-- All others are refused by one of them. -/
theorem genesisBatches_error (h : Readable pb fs args dataDir inputs)
    (hnot : ¬Acceptable pb args inputs.flatten) :
    ∃ message, genesisBatches pb fs args dataDir = .error (.cliException message) := by
  rw [genesisBatches_eq h]
  by_cases hdependencies : DependenciesMet pb inputs.flatten
  · have hsettings : args.ignoreRequiredSettings = false ∧ ¬SettingsProposed pb inputs.flatten := by
      by_contra hall
      exact hnot ⟨hdependencies, fun hignore => by_contra fun hmissing => hall ⟨hignore, hmissing⟩⟩
    obtain ⟨hignore, hmissing⟩ := hsettings
    refine ⟨.missingSettings (missing pb inputs.flatten), ?_⟩
    rw [validateDepedencies_ok h.headers hdependencies, ok_bind, hignore,
      checkRequiredSettings_eq h.headers (h.payloads hignore),
      if_neg fun hnone => hmissing (missing_eq_nil_iff.mp hnone)]
    rfl
  · obtain ⟨_, _, _, unsatisfiedDeps, -, -, -, -, herror⟩ :=
      validateDepedencies_error h.headers hdependencies
    exact ⟨.unsatisfiedDependency unsatisfiedDeps, by rw [herror, error_bind]⟩

/-- What the command leaves when it ends well. -/
theorem written_write (fs : FileSystem) (path : PyString) (batches : List Batch) :
    Written pb fs (fs.write path (pb.serializeGenesisData batches)) path batches where
  holds := ⟨_, Function.update_self _ _ _, pb.genesisData_serialize batches⟩
  others _ hother := Function.update_of_ne hother _ _

/-- **When the genesis file is written.**  `do_genesis` writes the batches of the input files, in
order, if and only if the dependencies are met and, unless it is told to ignore them, the
required settings are proposed; otherwise it raises a `CliException` and writes nothing. -/
theorem doGenesis_writes_iff (h : Readable pb fs args dataDir inputs) :
    ((∃ fs', doGenesis pb fs args dataDir = (.ok (), fs') ∧
        Written pb fs fs' (genesisFile args dataDir) inputs.flatten) ↔
      Acceptable pb args inputs.flatten) ∧
    (¬Acceptable pb args inputs.flatten →
      ∃ message, doGenesis pb fs args dataDir = (.error (.cliException message), fs)) := by
  have hrefused : ¬Acceptable pb args inputs.flatten →
      ∃ message, doGenesis pb fs args dataDir = (.error (.cliException message), fs) := by
    intro hnot
    obtain ⟨message, herror⟩ := genesisBatches_error h hnot
    exact ⟨message, by rw [doGenesis, herror]⟩
  refine ⟨⟨?_, fun hacceptable => ?_⟩, hrefused⟩
  · rintro ⟨fs', hresult, -⟩
    by_contra hnot
    obtain ⟨message, herror⟩ := hrefused hnot
    rw [herror] at hresult
    exact absurd hresult (by simp)
  · refine ⟨_, ?_, written_write fs (genesisFile args dataDir) inputs.flatten⟩
    rw [doGenesis, genesisBatches_ok h hacceptable]

end Command

/-! ### Two input files -/

section Reference

/-- A transaction as a client makes it. -/
def transaction (txnSig : PyString) (dependencies : List PyString) (familyName : PyString)
    (payload : PyBytes) : Transaction :=
  ⟨TransactionHeader.write .standard ⟨familyName, dependencies⟩, txnSig, payload⟩

/-- A transaction that proposes a setting. -/
def settingTransaction (txnSig setting : PyString) : Transaction :=
  transaction txnSig [] settingsFamily
    (SettingsPayload.write ⟨.propose, SettingProposal.write .standard ⟨setting⟩⟩)

variable {txnSig familyName setting : PyString} {deps : List PyString} {payload : PyBytes}

theorem header_transaction : (Protobuf.wire .standard).transactionHeader
    (transaction txnSig deps familyName payload).header = some ⟨familyName, deps⟩ :=
  TransactionHeader.parse_write _ _

@[simp] theorem dependencies_transaction :
    dependencies (.wire .standard) (transaction txnSig deps familyName payload) = deps := by
  rw [dependencies, header_transaction]
  rfl

@[simp] theorem headerSignature_transaction :
    (transaction txnSig deps familyName payload).headerSignature = txnSig := rfl

theorem proposes_settingTransaction :
    Proposes (.wire .standard) (settingTransaction txnSig setting) setting :=
  ⟨_, _, _, header_transaction, rfl, SettingsPayload.parse_write _, rfl,
    SettingProposal.parse_write _ _, rfl⟩

theorem payloadParses_settingTransaction :
    PayloadParses (.wire .standard) (settingTransaction txnSig setting) := fun _ _ _ =>
  ⟨_, SettingsPayload.parse_write _, fun _ => ⟨_, SettingProposal.parse_write _ _⟩⟩

theorem payloadParses_transaction (hfamily : familyName ≠ settingsFamily) :
    PayloadParses (.wire .standard) (transaction txnSig deps familyName payload) := by
  intro txnHeader hheader hsettings
  obtain rfl := Option.some.inj (header_transaction.symm.trans hheader)
  exact absurd hsettings hfamily

/-- The settings, the ids of their transactions being `x` and `y`. -/
def settingsBatch : Batch where
  header := []
  headerSignature := ['r']
  transactions := [['x'], ['y']].zipWith settingTransaction REQUIRED_SETTINGS
  trace := false

/-- Transaction `v` depends on `u`, just before it, and on `x` in the other batch. -/
def dependentBatch : Batch where
  header := []
  headerSignature := ['b']
  transactions := [transaction ['u'] [] ['t'] [], transaction ['v'] [['u'], ['x']] ['t'] []]
  trace := true

/-- Directory `d`, and files `r` and `b` of one batch each. -/
def twoFiles : FileSystem where
  contents path :=
    if path = ['r'] then some (writeBatches .standard [settingsBatch])
    else if path = ['b'] then some (writeBatches .standard [dependentBatch]) else none
  pathExists path := path = ['d'] ∨ path = ['r'] ∨ path = ['b']

def twoFilesArgs : Args := ⟨[['r'], ['b']], none, false⟩

theorem forall_twoFiles {P : Transaction → Prop}
    (hsettings : ∀ txnSig setting, P (settingTransaction txnSig setting))
    (hother : ∀ txnSig deps, P (transaction txnSig deps ['t'] [])) :
    ∀ batch ∈ [[settingsBatch], [dependentBatch]].flatten, ∀ txn ∈ batch.transactions, P txn := by
  simp [settingsBatch, dependentBatch, REQUIRED_SETTINGS, hsettings, hother]

theorem readable_twoFiles : Readable (.wire .standard) twoFiles twoFilesArgs ['d']
    [[settingsBatch], [dependentBatch]] where
  dataDir := rfl
  inputFile := .cons ⟨_, by simp [twoFiles], parseBatches_writeBatches _ _⟩
    (.cons ⟨_, by simp [twoFiles], parseBatches_writeBatches _ _⟩ .nil)
  headers := forall_twoFiles (fun _ _ => ⟨_, header_transaction⟩) fun _ _ => ⟨_, header_transaction⟩
  payloads _ := forall_twoFiles (fun _ _ => payloadParses_settingTransaction)
    fun _ _ => payloadParses_transaction (by decide)

/-- The file `d/genesis.batch` holds both batches. -/
theorem doGenesis_writes_twoFiles :
    ∃ fs', doGenesis (.wire .standard) twoFiles twoFilesArgs ['d'] = (.ok (), fs') ∧
      Written (.wire .standard) twoFiles fs' (genesisFile twoFilesArgs ['d'])
        [settingsBatch, dependentBatch] := by
  refine (doGenesis_writes_iff readable_twoFiles).1.mpr ⟨?_, fun _ => ?_⟩
  · rw [dependenciesMet_iff]
    simp [transactions, settingsBatch, dependentBatch, REQUIRED_SETTINGS, settingTransaction,
      supported_cons_iff, supported_nil]
  · intro setting hsetting
    refine ⟨settingsBatch, by simp, ?_⟩
    rw [REQUIRED_SETTINGS, List.mem_pair] at hsetting
    rcases hsetting with rfl | rfl
    · exact ⟨settingTransaction ['x'] _, by simp [settingsBatch, REQUIRED_SETTINGS],
        proposes_settingTransaction⟩
    · exact ⟨settingTransaction ['y'] _, by simp [settingsBatch, REQUIRED_SETTINGS],
        proposes_settingTransaction⟩

end Reference

end Evoting.Genesis

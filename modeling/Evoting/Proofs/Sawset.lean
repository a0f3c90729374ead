/-
What `sawadm genesis` makes of the files of `sawset`.

Seen from there, a command says of each file it writes which settings are proposed in it
(`outputs`); the payloads that are written for another family are read as a list of no
batches.  What a file holds after some commands is what the last one that wrote it says
(`written`), and the genesis file depends on nothing else.
-/
import Evoting.Proofs.Genesis
import Evoting.Model.Messages

namespace Evoting.Sawset

open Genesis Machine

/-! ### What commands say of their files -/

/-- Nothing is raised. -/
def Accepted : Command → Prop
  | .genesis _ args => ∀ approvalThreshold ∈ args.approvalThreshold,
      1 ≤ approvalThreshold ∧ approvalThreshold ≤ (authorizedKeys args).length
  | .proposalCreate _ args => ∀ setting ∈ args.setting, '=' ∈ setting

instance : DecidablePred Accepted
  | .genesis _ args => inferInstanceAs (Decidable (∀ approvalThreshold ∈ args.approvalThreshold,
      1 ≤ approvalThreshold ∧ approvalThreshold ≤ (authorizedKeys args).length))
  | .proposalCreate _ args => inferInstanceAs (Decidable (∀ setting ∈ args.setting, '=' ∈ setting))

/-- The settings that `genesis` proposes. -/
def genesisKeys (args : GenesisArgs) : List PyString :=
  AUTHORIZED_KEYS :: args.approvalThreshold.toList.map fun _ => APPROVAL_THRESHOLD

/-- The settings that `proposal create` proposes. -/
def createKeys (args : CreateArgs) : List PyString :=
  args.setting.map fun setting => setting.takeWhile (· ≠ '=')

/-- The files of `proposal create`, with the settings proposed in them. -/
def targetOutputs (keys : List PyString) : Target → List (PyString × List PyString)
  | .output path => [(path, keys)]
  | .sabreOutput path => keys.mapIdx fun i _ => (path ++ "-".toList ++ pyStr i, [])

/-- Those of any command. -/
def outputs : Command → List (PyString × List PyString)
  | .genesis _ args => [(args.output, genesisKeys args)]
  | .proposalCreate _ args => targetOutputs (createKeys args) args.target

/-- What is proposed in each file, after one more command. -/
def noteCommand (proposedIn : PyString → Option (List PyString)) (c : Command) :
    PyString → Option (List PyString) :=
  if Accepted c then
    (outputs c).foldl (fun proposedIn output => Function.update proposedIn output.1 (some output.2))
      proposedIn
  else proposedIn

/-- What is proposed in each file that some commands have written. -/
def written (commands : List Command) : PyString → Option (List PyString) :=
  commands.foldl noteCommand fun _ => none

/-- The settings proposed in some files. -/
def settingsIn (commands : List Command) (inputFile : List PyString) : List PyString :=
  inputFile.flatMap fun path => (written commands path).getD []

/-- A transaction that proposes a setting, and depends on no other. -/
structure ProposesAlone (pb : Protobuf) (txn : Transaction) (setting : PyString) : Prop where
  header : pb.transactionHeader txn.header = some ⟨settingsFamily, []⟩
  payload : ∃ data, pb.settingsPayload txn.payload = some ⟨.propose, data⟩ ∧
    pb.settingProposal data = some ⟨setting⟩

/-- Bytes that are read as batches which propose some settings. -/
def Holds (pb : Protobuf) (bytes : PyBytes) (settings : List PyString) : Prop :=
  ∃ batches, pb.batchList bytes = some batches ∧
    List.Forall₂ (ProposesAlone pb) (transactions batches) settings

variable {pb : Library} {utf8 : PyUtf8} {hashlib : Hashlib} {signer : Signer}

/-! ### Transactions -/

theorem proposesAlone_createProposeTxn (draw : Nat) (settingKey settingValue : PyString) :
    ProposesAlone pb.toProtobuf
      (createProposeTxn pb utf8 hashlib signer draw settingKey settingValue) settingKey where
  header := pb.transactionHeader_serialize _
  payload := ⟨_, pb.settingsPayload_serialize _, pb.settingProposal_serialize _⟩

/-! ### Files -/

theorem splitMax_one {sep : Char} {s : PyString} (h : sep ∈ s) :
    splitMax sep 1 s = [s.takeWhile (· ≠ sep), (s.dropWhile (· ≠ sep)).tail] := by
  simp [splitMax, h]

/-- A transaction of the command for a setting. -/
def IsFor (pb : Library) (utf8 : PyUtf8) (hashlib : Hashlib) (signer : Signer) (txn : Transaction)
    (settingKey : PyString) : Prop :=
  ∃ draw settingValue, txn = createProposeTxn pb utf8 hashlib signer draw settingKey settingValue

/-- The settings that unpack are proposed, in order. -/
theorem createProposeTxns_ok : ∀ (draws : Nat → Nat) {settings : List (List PyString)}
    {keys : List PyString}, List.Forall₂ (fun setting key => ∃ value, setting = [key, value])
      settings keys →
    ∃ txns, createProposeTxns pb utf8 hashlib signer draws settings = .ok txns ∧
      List.Forall₂ (IsFor pb utf8 hashlib signer) txns keys := by
  intro draws settings keys h
  induction h generalizing draws with
  | nil => exact ⟨[], rfl, .nil⟩
  | @cons setting key settings keys hsetting _ ih =>
      obtain ⟨value, rfl⟩ := hsetting
      obtain ⟨txns, htxns, hproposes⟩ := ih fun i => draws (i + 1)
      refine ⟨createProposeTxn pb utf8 hashlib signer (draws 0) key value :: txns, ?_,
        .cons ⟨draws 0, value, rfl⟩ hproposes⟩
      rw [createProposeTxns, unpack, ok_bind]
      dsimp only
      rw [htxns]
      rfl

/-- One that does not is an error. -/
theorem createProposeTxns_error (draws : Nat → Nat) {settings : List (List PyString)}
    (h : ∃ setting ∈ settings, unpack setting = .error .valueError) :
    createProposeTxns pb utf8 hashlib signer draws settings = .error .valueError := by
  induction settings generalizing draws with
  | nil => simp at h
  | cons setting settings ih =>
      rw [createProposeTxns]
      cases hsetting : unpack setting with
      | error e =>
          cases e with
          | valueError => rfl
          | cliException message =>
              unfold unpack at hsetting
              split at hsetting <;> simp at hsetting
      | ok pair =>
          obtain ⟨other, hother, herror⟩ := h
          rcases List.mem_cons.mp hother with rfl | hmem
          · rw [hsetting] at herror
            simp at herror
          · rw [ok_bind]
            dsimp only
            rw [ih _ ⟨other, hmem, herror⟩]
            rfl

variable (pb utf8 hashlib) in
theorem genesisTxns_ok (draws : Nat → Nat) {args : GenesisArgs}
    (h : Accepted (.genesis draws args)) :
    ∃ txns, genesisTxns pb utf8 hashlib draws args = .ok txns ∧
      List.Forall₂ (IsFor pb utf8 hashlib args.signer) txns (genesisKeys args) := by
  unfold genesisTxns genesisSettings genesisKeys
  cases hthreshold : args.approvalThreshold with
  | none => exact createProposeTxns_ok draws (.cons ⟨_, rfl⟩ .nil)
  | some approvalThreshold =>
      obtain ⟨hlow, hhigh⟩ := h approvalThreshold hthreshold
      dsimp only
      rw [if_neg (by omega), if_neg (by omega), ok_bind]
      exact createProposeTxns_ok draws (.cons ⟨_, rfl⟩ (.cons ⟨_, rfl⟩ .nil))

variable (pb utf8 hashlib) in
theorem genesisTxns_error (draws : Nat → Nat) {args : GenesisArgs}
    (h : ¬Accepted (.genesis draws args)) :
    ∃ e, genesisTxns pb utf8 hashlib draws args = .error e := by
  unfold genesisTxns genesisSettings
  cases hthreshold : args.approvalThreshold with
  | none => exact absurd (fun t ht => by rw [hthreshold] at ht; simp at ht) h
  | some approvalThreshold =>
      dsimp only
      by_cases hlow : approvalThreshold < 1
      · rw [if_pos hlow]
        exact ⟨_, rfl⟩
      by_cases hhigh : approvalThreshold > (authorizedKeys args).length
      · rw [if_neg hlow, if_pos hhigh]
        exact ⟨_, rfl⟩
      refine absurd (fun t ht => ?_) h
      obtain rfl : approvalThreshold = t := by
        rw [hthreshold] at ht
        exact Option.some.inj ht
      exact ⟨not_lt.mp hlow, not_lt.mp hhigh⟩

variable (pb utf8 hashlib) in
theorem createTxns_ok (draws : Nat → Nat) {args : CreateArgs}
    (h : Accepted (.proposalCreate draws args)) :
    ∃ txns, createTxns pb utf8 hashlib draws args = .ok txns ∧
      List.Forall₂ (IsFor pb utf8 hashlib args.signer) txns (createKeys args) := by
  refine createProposeTxns_ok draws ?_
  rw [createKeys, List.forall₂_map_left_iff, List.forall₂_map_right_iff, List.forall₂_same]
  exact fun setting hsetting => ⟨_, splitMax_one (h setting hsetting)⟩

variable (pb utf8 hashlib) in
theorem createTxns_error (draws : Nat → Nat) {args : CreateArgs}
    (h : ¬Accepted (.proposalCreate draws args)) :
    ∃ e, createTxns pb utf8 hashlib draws args = .error e := by
  simp only [Accepted, not_forall] at h
  obtain ⟨setting, hsetting, hnone⟩ := h
  refine ⟨.valueError, createProposeTxns_error draws
    ⟨splitMax '=' 1 setting, List.mem_map_of_mem hsetting, ?_⟩⟩
  rw [splitMax, if_neg hnone]
  rfl

theorem holds_batchFile {txns : List Transaction} {keys : List PyString}
    (h : List.Forall₂ (IsFor pb utf8 hashlib signer) txns keys) :
    Holds pb.toProtobuf (pb.serializeBatchList [createBatch pb signer txns]) keys := by
  refine ⟨_, pb.batchList_serialize _, ?_⟩
  have hall : List.Forall₂ (ProposesAlone pb.toProtobuf) txns keys := by
    refine h.imp ?_
    rintro txn key ⟨draw, value, rfl⟩
    exact proposesAlone_createProposeTxn draw key value
  simpa [transactions, createBatch] using hall

/-- **A payload is read as no batches.** -/
theorem holds_payload {txn : Transaction} {key : PyString}
    (h : IsFor pb utf8 hashlib signer txn key) : Holds pb.toProtobuf txn.payload [] := by
  obtain ⟨draw, value, rfl⟩ := h
  exact ⟨[], pb.batchList_payload _, .nil⟩

theorem forall₂_targetFiles {txns : List Transaction} {keys : List PyString}
    (h : List.Forall₂ (IsFor pb utf8 hashlib signer) txns keys) (target : Target) :
    List.Forall₂ (fun file output => file.1 = output.1 ∧ Holds pb.toProtobuf file.2 output.2)
      (targetFiles pb signer txns target) (targetOutputs keys target) := by
  cases target with
  | output path => exact .cons ⟨rfl, holds_batchFile h⟩ .nil
  | sabreOutput path =>
      obtain ⟨hlength, hget⟩ := List.forall₂_iff_get.mp h
      refine List.forall₂_iff_get.mpr
        ⟨by simp [targetFiles, targetOutputs, hlength], fun i hi _ => ?_⟩
      have htxn : i < txns.length := by simpa [targetFiles] using hi
      simp only [targetFiles, targetOutputs, List.get_eq_getElem, List.getElem_mapIdx, true_and]
      exact holds_payload (hget i htxn (hlength ▸ htxn))

variable (pb utf8 hashlib) in
/-- **What a command writes** is what is said of it. -/
theorem files_ok {c : Command} (h : Accepted c) :
    ∃ written, files pb utf8 hashlib c = .ok written ∧
      List.Forall₂ (fun file output => file.1 = output.1 ∧ Holds pb.toProtobuf file.2 output.2)
        written (outputs c) := by
  cases c with
  | genesis draws args =>
      obtain ⟨txns, htxns, hfor⟩ := genesisTxns_ok pb utf8 hashlib draws h
      refine ⟨[batchFile pb args.signer args.output txns], ?_,
        .cons ⟨rfl, holds_batchFile hfor⟩ .nil⟩
      rw [files, htxns, ok_bind]
      rfl
  | proposalCreate draws args =>
      obtain ⟨txns, htxns, hfor⟩ := createTxns_ok pb utf8 hashlib draws h
      refine ⟨targetFiles pb args.signer txns args.target, ?_,
        forall₂_targetFiles hfor args.target⟩
      rw [files, htxns, ok_bind]
      rfl

variable (pb utf8 hashlib) in
theorem files_error {c : Command} (h : ¬Accepted c) :
    ∃ e, files pb utf8 hashlib c = .error e := by
  cases c with
  | genesis draws args =>
      obtain ⟨e, he⟩ := genesisTxns_error pb utf8 hashlib draws h
      exact ⟨e, by rw [files, he]; rfl⟩
  | proposalCreate draws args =>
      obtain ⟨e, he⟩ := createTxns_error pb utf8 hashlib draws h
      exact ⟨e, by rw [files, he]; rfl⟩

/-! ### Runs -/

/-- Each file holds what is said to be proposed in it. -/
def Agrees (pb : Library) (proposedIn : PyString → Option (List PyString)) (fs : FileSystem) :
    Prop :=
  ∀ path settings, proposedIn path = some settings →
    ∃ bytes, fs.contents path = some bytes ∧ Holds pb.toProtobuf bytes settings

variable {proposedIn : PyString → Option (List PyString)} {fs : FileSystem}

theorem Agrees.write (h : Agrees pb proposedIn fs) {bytes : PyBytes} {settings : List PyString}
    (hholds : Holds pb.toProtobuf bytes settings) (path : PyString) :
    Agrees pb (Function.update proposedIn path (some settings)) (fs.write path bytes) := by
  intro other found hfound
  by_cases hpath : other = path
  · subst hpath
    rw [Function.update_self, Option.some.injEq] at hfound
    exact ⟨bytes, Function.update_self _ _ _, hfound ▸ hholds⟩
  · rw [Function.update_of_ne hpath] at hfound
    obtain ⟨held, hcontents, hheld⟩ := h other found hfound
    exact ⟨held, (Function.update_of_ne hpath _ _).trans hcontents, hheld⟩

/-- **One command** keeps the agreement. -/
theorem Agrees.command (h : Agrees pb proposedIn fs) (c : Command) :
    Agrees pb (noteCommand proposedIn c) (Sawset.command pb utf8 hashlib fs c).2 := by
  unfold noteCommand Sawset.command
  by_cases haccepted : Accepted c
  · obtain ⟨written, hfiles, hwritten⟩ := files_ok pb utf8 hashlib haccepted
    rw [if_pos haccepted, hfiles]
    dsimp only
    clear hfiles haccepted
    generalize outputs c = outputs at hwritten ⊢
    induction hwritten generalizing proposedIn fs with
    | nil => exact h
    | cons hfile _ ih =>
        rw [List.foldl_cons, List.foldl_cons]
        exact ih (hfile.1 ▸ h.write hfile.2 _)
  · obtain ⟨e, hfiles⟩ := files_error pb utf8 hashlib haccepted
    rw [if_neg haccepted, hfiles]
    exact h

/-- **A run** of commands does. -/
theorem agrees_run (commands : List Command) (fs : FileSystem) :
    Agrees pb (written commands) (run (Sawset.command pb utf8 hashlib) fs commands) := by
  have hrun : ∀ (commands : List Command) proposedIn fs, Agrees pb proposedIn fs →
      Agrees pb (commands.foldl noteCommand proposedIn)
        (run (Sawset.command pb utf8 hashlib) fs commands) := by
    intro commands
    induction commands with
    | nil => intro _ _ h; exact h
    | cons c commands ih => intro _ _ h; exact ih _ _ (h.command c)
  exact hrun commands _ fs fun path settings h => by simp at h

theorem pathExists_run {path : PyString} (h : fs.pathExists path = true)
    (commands : List Command) :
    (run (Sawset.command pb utf8 hashlib) fs commands).pathExists path = true := by
  suffices hstep : ∀ fs c, fs.pathExists path = true →
      (Sawset.command pb utf8 hashlib fs c).2.pathExists path = true from
    run_invariant _ hstep commands fs h
  intro fs c hfs
  unfold Sawset.command
  cases files pb utf8 hashlib c with
  | error e => exact hfs
  | ok written =>
      dsimp only
      induction written generalizing fs with
      | nil => exact hfs
      | cons file written ih =>
          refine ih _ ?_
          by_cases hpath : path = file.1
          · subst hpath
            exact Function.update_self _ _ _
          · exact (Function.update_of_ne hpath _ _).trans hfs

/-! ### The genesis file -/

section Genesis

variable {pb : Protobuf}

theorem ProposesAlone.proposed {txn : Transaction} {setting : PyString}
    (h : ProposesAlone pb txn setting) : proposed pb txn = some setting := by
  obtain ⟨data, hpayload, hproposal⟩ := h.payload
  exact proposed_eq_some_iff.mpr
    ⟨_, _, _, h.header, rfl, hpayload, rfl, hproposal, rfl⟩

variable {txns : List Transaction} {settings : List PyString}

theorem filterMap_proposed (h : List.Forall₂ (ProposesAlone pb) txns settings) :
    txns.filterMap (proposed pb) = settings := by
  induction h with
  | nil => rfl
  | cons hfirst _ ih => rw [List.filterMap_cons, hfirst.proposed, ih]

theorem exists_setting (h : List.Forall₂ (ProposesAlone pb) txns settings) :
    ∀ txn ∈ txns, ∃ setting, ProposesAlone pb txn setting := by
  induction h with
  | nil => simp
  | cons hfirst _ ih => exact List.forall_mem_cons.mpr ⟨⟨_, hfirst⟩, ih⟩

variable {batches : List Batch}

theorem headersParse_of_proposes
    (h : List.Forall₂ (ProposesAlone pb) (transactions batches) settings) :
    HeadersParse pb batches :=
  forall_transactions.mp fun txn htxn =>
    have ⟨_, hsetting⟩ := exists_setting h txn htxn
    ⟨_, hsetting.header⟩

theorem payloadsParse_of_proposes
    (h : List.Forall₂ (ProposesAlone pb) (transactions batches) settings) :
    PayloadsParse pb batches := by
  refine forall_transactions.mp fun txn htxn _ _ _ => ?_
  obtain ⟨setting, hsetting⟩ := exists_setting h txn htxn
  obtain ⟨data, hpayload, hproposal⟩ := hsetting.payload
  exact ⟨_, hpayload, fun _ => ⟨_, hproposal⟩⟩

theorem dependenciesMet_of_proposes
    (h : List.Forall₂ (ProposesAlone pb) (transactions batches) settings) :
    DependenciesMet pb batches := by
  rw [dependenciesMet_iff]
  intro before txn after hsplit dep hdep
  obtain ⟨setting, hsetting⟩ := exists_setting h txn (by rw [hsplit]; simp)
  simp [dependencies, hsetting.header] at hdep

theorem missing_of_proposes
    (h : List.Forall₂ (ProposesAlone pb) (transactions batches) settings) :
    missing pb batches = REQUIRED_SETTINGS.filter (· ∉ settings) := by
  have hnodup : REQUIRED_SETTINGS.Nodup := by decide
  rw [missing, filterMap_proposed h, hnodup.sdiff_eq_filter]

end Genesis

/-- The batches of files that have been written. -/
theorem exists_inputs {commands : List Command} (hagrees : Agrees pb (written commands) fs)
    {inputFile : List PyString} (h : ∀ path ∈ inputFile, (written commands path).isSome = true) :
    ∃ inputs, List.Forall₂ (fun path batches => ∃ bytes, fs.contents path = some bytes ∧
        pb.batchList bytes = some batches) inputFile inputs ∧
      List.Forall₂ (ProposesAlone pb.toProtobuf) (transactions inputs.flatten)
        (settingsIn commands inputFile) := by
  induction inputFile with
  | nil => exact ⟨[], .nil, .nil⟩
  | cons path inputFile ih =>
      obtain ⟨hpath, hrest⟩ := List.forall_mem_cons.mp h
      obtain ⟨inputs, hinputs, hproposes⟩ := ih hrest
      obtain ⟨settings, hsettings⟩ := Option.isSome_iff_exists.mp hpath
      obtain ⟨bytes, hcontents, batches, hbatches, hfirst⟩ := hagrees path settings hsettings
      refine ⟨batches :: inputs, .cons ⟨bytes, hcontents, hbatches⟩ hinputs, ?_⟩
      rw [settingsIn, List.flatMap_cons, hsettings, List.flatten_cons, transactions,
        List.flatMap_append]
      exact List.rel_append hfirst hproposes

/-- **From `sawset` to the genesis file.**  After any commands that write files, `sawadm genesis`
takes files that were written by them, in a data directory that exists.  Whether it writes the
genesis file is a matter of the settings that the last command to write each file has proposed
there: both required ones have to be among them, unless it is told to ignore that.  The genesis
file then proposes all these settings, in their order; otherwise those that are missing are named,
and no file is changed. -/
theorem sawset_sawadm (pb : Library) (utf8 : PyUtf8) (hashlib : Hashlib) (commands : List Command)
    (fs : FileSystem) (args : Args) (dataDir : PyString) (hdataDir : fs.pathExists dataDir = true)
    (hinputFile : ∀ path ∈ args.inputFile, (written commands path).isSome = true) :
    (args.ignoreRequiredSettings = true ∨
        REQUIRED_SETTINGS ⊆ settingsIn commands args.inputFile →
      ∃ batches fs',
        doGenesis pb.toProtobuf (run (command pb utf8 hashlib) fs commands) args dataDir
          = (.ok (), fs') ∧
        Written pb.toProtobuf (run (command pb utf8 hashlib) fs commands) fs'
          (genesisFile args dataDir) batches ∧
        List.Forall₂ (ProposesAlone pb.toProtobuf) (transactions batches)
          (settingsIn commands args.inputFile)) ∧
    (args.ignoreRequiredSettings = false →
      ¬REQUIRED_SETTINGS ⊆ settingsIn commands args.inputFile →
      doGenesis pb.toProtobuf (run (command pb utf8 hashlib) fs commands) args dataDir
        = (.error (.cliException (.missingSettings
            (REQUIRED_SETTINGS.filter (· ∉ settingsIn commands args.inputFile)))),
          run (command pb utf8 hashlib) fs commands)) := by
  have hagrees : Agrees pb (written commands) (run (command pb utf8 hashlib) fs commands) :=
    agrees_run commands fs
  obtain ⟨inputs, hinputs, hproposes⟩ := exists_inputs hagrees hinputFile
  have hreadable : Readable pb.toProtobuf (run (command pb utf8 hashlib) fs commands) args dataDir
      inputs :=
    ⟨pathExists_run hdataDir commands, hinputs, headersParse_of_proposes hproposes,
      fun _ => payloadsParse_of_proposes hproposes⟩
  have hbatches := genesisBatches_eq hreadable
  rw [validateDepedencies_ok hreadable.headers (dependenciesMet_of_proposes hproposes), ok_bind,
    checkRequiredSettings_eq hreadable.headers (payloadsParse_of_proposes hproposes),
    missing_of_proposes hproposes] at hbatches
  have hmissing : REQUIRED_SETTINGS.filter (· ∉ settingsIn commands args.inputFile) = [] ↔
      REQUIRED_SETTINGS ⊆ settingsIn commands args.inputFile := by
    simp [List.filter_eq_nil_iff, List.subset_def]
  constructor
  · intro henough
    have hok : genesisBatches pb.toProtobuf (run (command pb utf8 hashlib) fs commands) args dataDir
        = .ok inputs.flatten := by
      rw [hbatches]
      rcases henough with hignore | hall
      · rw [hignore]
        rfl
      · rw [if_pos (hmissing.mpr hall)]
        cases args.ignoreRequiredSettings <;> rfl
    exact ⟨inputs.flatten, _, by rw [doGenesis, hok], written_write _ _ _, hproposes⟩
  · intro hignore hnot
    rw [if_neg (mt hmissing.mp hnot), hignore] at hbatches
    rw [doGenesis, hbatches]
    rfl

/-- A key file, its signatures being empty. -/
def referenceSigner : Signer := ⟨['k'], fun _ => []⟩

/-- `sawset genesis -o g`, and `sawset proposal create -o c` of the two settings. -/
def referenceCommands : List Command :=
  [.genesis id ⟨referenceSigner, [], none, ['g']⟩,
    .proposalCreate id
      ⟨referenceSigner, REQUIRED_SETTINGS.map fun setting => setting ++ ['=', '1'], .output ['c']⟩]

/-- `sawadm genesis g c` writes the genesis file, with three proposals. -/
theorem sawset_sawadm_twoFiles : ∃ batches fs',
    doGenesis (.wire .standard)
        (run (command (.wire .standard) .standard ⟨fun _ => [], fun _ => []⟩)
          ⟨fun _ => none, fun _ => true⟩ referenceCommands)
        ⟨[['g'], ['c']], none, false⟩ ['d'] = (.ok (), fs') ∧
      List.Forall₂ (ProposesAlone (.wire .standard)) (transactions batches)
        (AUTHORIZED_KEYS :: REQUIRED_SETTINGS) := by
  have hsettings : settingsIn referenceCommands [['g'], ['c']]
      = AUTHORIZED_KEYS :: REQUIRED_SETTINGS := by decide +kernel
  have hgenesis := sawset_sawadm (.wire .standard) .standard ⟨fun _ => [], fun _ => []⟩
    referenceCommands ⟨fun _ => none, fun _ => true⟩ ⟨[['g'], ['c']], none, false⟩ ['d'] rfl
    (by decide +kernel)
  rw [hsettings] at hgenesis
  obtain ⟨batches, fs', hresult, -, hproposes⟩ := hgenesis.1 (Or.inr (List.subset_cons_self _ _))
  exact ⟨batches, fs', hresult, hproposes⟩

end Evoting.Sawset

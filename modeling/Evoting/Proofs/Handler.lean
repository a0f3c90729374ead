/-
What `apply` can do to a state it has built itself.

An election record is written by `applyCreate` with its two last fields swapped:
the key goes into `cipher`, the ciphertexts into `pubKey`.  `Created` is such a
record, and `Registry` says that every address holds nothing or one of them.
`apply_ok` is the inversion lemma the rest stands on: in such a state the only
transaction that is accepted is a `create` at an address that holds nothing.  A
vote is never accepted, since what it finds in `cipher` is either nothing or a
key.

From there `registry_run` carries the shape over every run, and `data_step` says
that a record, once written, stays.
-/
import Evoting.Proofs.Record
import Evoting.Model.Reference

namespace Evoting

variable {platform : Platform}

/-! ### Unpacking and checking -/

/-- No field of an unpacked transaction contains a comma. -/
theorem comma_not_mem_of_unpacked {request : TpProcessRequest} {tx : TransactionData}
    (h : getUnpackedTransaction platform request = .ok tx) :
    ',' ∉ tx.electionName ∧ ',' ∉ tx.action ∧ ',' ∉ tx.ballotOrKey := by
  simp only [getUnpackedTransaction] at h
  split at h
  · simp at h
  · rw [Except.ok.injEq] at h
    subst h
    have hfield : ∀ i, ',' ∉ (Fields.pad 3 (splitString ','
        (platform.utf8.toStringUtf8 request.payload))).getD i [] := by
      intro i
      rw [List.getD_eq_getElem?_getD]
      rcases hget : (Fields.pad 3 (splitString ','
          (platform.utf8.toStringUtf8 request.payload)))[i]? with _ | f
      · simp
      · rcases List.mem_append.mp (List.mem_of_getElem? hget) with hmem | hmem
        · exact Fields.not_mem_of_mem_split hmem
        · simp [List.eq_of_mem_replicate hmem]
    exact ⟨hfield 0, hfield 1, hfield 2⟩

/-- A payload of three fields, the last one not empty, is unpacked into them. -/
theorem getUnpackedTransaction_of_fields {request : TpProcessRequest} {name action third : JString}
    (h : platform.utf8.toStringUtf8 request.payload = joinStrings ',' [name, action, third])
    (hname : ',' ∉ name) (haction : ',' ∉ action) (hthird : ',' ∉ third) (hne : third ≠ []) :
    getUnpackedTransaction platform request = .ok ⟨name, action, third⟩ := by
  have hsplit : splitString ',' (joinStrings ',' [name, action, third])
      = [name, action, third] := by
    refine Fields.split_join ?_ (by simp) (by simpa using hne)
    intro f hf
    simp only [List.mem_cons, List.not_mem_nil, or_false] at hf
    rcases hf with rfl | rfl | rfl <;> assumption
  rw [getUnpackedTransaction, h, hsplit]
  simp [Fields.pad]

/-- A request of the reference platform that carries a written object is unpacked into its
fields. -/
theorem getUnpackedTransaction_reference {name action : JString} (hname : ',' ∉ name)
    (haction : ',' ∉ action) (o : JObject) :
    getUnpackedTransaction .reference (referenceRequest name action (referenceText o))
      = .ok ⟨name, action, referenceText o⟩ := by
  obtain ⟨hne, hcomma, -⟩ := ObjectStreams.text_of_readBase64 _ (readBase64_reference o)
  exact getUnpackedTransaction_of_fields (Utf8.toStringUtf8_copyFromUtf8 ..) hname haction
    hcomma hne

/-- What the checks of `apply` let through. -/
structure FieldsAccepted (tx : TransactionData) : Prop where
  ne_nil : tx.electionName ≠ []
  bar : '|' ∉ tx.electionName
  action : tx.action = "vote".toList ∨ tx.action = "create".toList

theorem checkFields_eq_ok {tx : TransactionData} : checkFields tx = .ok () ↔ FieldsAccepted tx := by
  unfold checkFields
  constructor
  · intro h
    split at h
    · simp at h
    · split at h
      · simp at h
      · split at h
        · simp at h
        · split at h
          · simp at h
          · rename_i hne hbar _ haction
            exact ⟨hne, hbar, by tauto⟩
  · rintro ⟨hne, hbar, haction⟩
    have hact : tx.action ≠ [] := by
      rcases haction with h | h <;> rw [h] <;> decide
    rw [if_neg hne, if_neg hbar, if_neg hact, if_neg (by tauto)]

/-- The checks refuse with an exception that is reported. -/
theorem isReported_of_checkFields {tx : TransactionData} {e : Throwable}
    (h : checkFields tx = .error e) : e.isReported = true := by
  unfold checkFields at h
  split at h
  · rw [← Except.error.inj h]; rfl
  · split at h
    · rw [← Except.error.inj h]; rfl
    · split at h
      · rw [← Except.error.inj h]; rfl
      · split at h
        · rw [← Except.error.inj h]; rfl
        · simp at h

/-! ### The catch lists -/

theorem catching_ok {α : Type} (message : String) (a : α) :
    catching message (.ok a : Except Throwable α) = .ok a := rfl

@[simp] theorem catching_thrown {α : Type} (message : String) (e : ReadFailure) :
    catching message (.error e.thrown : Except Throwable α)
      = .error (.invalidTransaction message) := by
  cases e <;> rfl

theorem catching_eq_ok {α : Type} {message : String} {x : Except Throwable α} {a : α}
    (h : catching message x = .ok a) : x = .ok a := by
  unfold catching at h
  split at h <;> simp_all

/-- The empty `cipher` field of an absent record is refused. -/
theorem readCipherTexts_nil (message : String) :
    catching message (platform.streams.readCipherTexts [])
      = .error (.invalidTransaction message) := by
  obtain ⟨e, he⟩ := platform.streams.readBase64_nil
  rw [ObjectStreams.readCipherTexts, he]
  exact catching_thrown message e

/-! ### Records as `applyCreate` writes them -/

/-- A record `applyCreate` has written: the key stands in the `cipher` field. -/
structure Created (platform : Platform) (r : ElectionData) : Prop where
  name : PlainName r.electionName
  fields : ∃ pk, platform.streams.readBase64 r.cipher = .ok (.publicKey pk) ∧
    platform.streams.writeBase64
      (.cipherTexts (List.replicate 5 (some pk.getEmptyCipherText))) = .ok r.pubKey

namespace Created

variable {r : ElectionData}

theorem cipher_ne_nil (h : Created platform r) : r.cipher ≠ [] := by
  obtain ⟨pk, hread, -⟩ := h.fields
  exact (platform.streams.text_of_readBase64 hread).1

theorem plain (h : Created platform r) : r.Plain := by
  obtain ⟨pk, hread, hwrite⟩ := h.fields
  obtain ⟨-, hcomma, hbar⟩ := platform.streams.text_of_readBase64 hread
  obtain ⟨-, hcomma', hbar'⟩ := platform.streams.text_of_readBase64
    (platform.streams.readBase64_of_writeBase64 hwrite)
  exact ⟨h.name, ⟨hcomma, hbar⟩, ⟨hcomma', hbar'⟩⟩

/-- Its `cipher` field is not an array of ciphertexts. -/
theorem readCipherTexts (h : Created platform r) :
    platform.streams.readCipherTexts r.cipher = .error .classCast := by
  obtain ⟨pk, hread, -⟩ := h.fields
  rw [ObjectStreams.readCipherTexts, hread]

end Created

/-! ### The two actions -/

theorem applyCreate_of_stored {tx : TransactionData} {r : ElectionData} {player : JString}
    (h : r.cipher ≠ []) : applyCreate platform tx r player
      = .error (.invalidTransaction "Invalid Action: Election already exists") := by
  simp [applyCreate, h]

/-- An accepted `create` finds no election and writes a `Created` record. -/
theorem applyCreate_ok {tx : TransactionData} {r updated : ElectionData} {player : JString}
    (h : applyCreate platform tx r player = .ok updated) :
    r.cipher = [] ∧ ∃ pk, platform.streams.readBase64 tx.ballotOrKey = .ok (.publicKey pk) ∧
      ∃ text, platform.streams.writeBase64
          (.cipherTexts (List.replicate 5 (some pk.getEmptyCipherText))) = .ok text ∧
        updated = ⟨tx.electionName, tx.ballotOrKey, text⟩ := by
  unfold applyCreate at h
  split at h
  · simp at h
  · rename_i hcipher
    refine ⟨by simpa using hcipher, ?_⟩
    obtain ⟨found, hfound, h⟩ := bind_eq_ok_iff.mp h
    obtain ⟨pk, hpk, h⟩ := bind_eq_ok_iff.mp h
    have hread := catching_eq_ok hfound
    unfold ObjectStreams.readPublicKey at hread
    cases found with
    | none => simp [deref] at hpk
    | some found =>
        simp only [deref, Except.ok.injEq] at hpk
        subst hpk
        split at hread
        · simp at hread
        · simp at hread
        · rename_i pk' hpk'
          simp only [Except.ok.injEq, Option.some.injEq] at hread
          subst hread
          refine ⟨pk', hpk', ?_⟩
          dsimp only at h
          split at h
          · simp at h
          · rename_i text htext
            exact ⟨text, htext, by rw [← Except.ok.inj h]⟩
        · simp at hread

/-- A vote on an absent election is refused. -/
theorem applyVote_of_absent {tx : TransactionData} {player : JString}
    {ciphers : Option (List (Option CipherTextObject))}
    (hballot : platform.streams.readCipherTexts tx.ballotOrKey = .ok ciphers) :
    applyVote platform tx .absent player
      = .error (.invalidTransaction "Ballot array is invalid. 2") := by
  rw [applyVote, hballot, catching_ok, ok_bind, ElectionData.absent, readCipherTexts_nil,
    error_bind]

/-- A vote on an election that has been created dies in the cast of its key. -/
theorem applyVote_of_created {tx : TransactionData} {r : ElectionData} {player : JString}
    {ciphers : Option (List (Option CipherTextObject))}
    (hballot : platform.streams.readCipherTexts tx.ballotOrKey = .ok ciphers)
    (h : Created platform r) : applyVote platform tx r player = .error .classCast := by
  rw [applyVote, hballot, catching_ok, ok_bind, h.readCipherTexts]
  rfl

/-! ### The states a run reaches -/

/-- Every address holds nothing, or one election as it was created. -/
def Registry (platform : Platform) (context : Context) : Prop :=
  ∀ a, context.data a = [] ∨
    ∃ r, Created platform r ∧ makeElectionAddress platform r.electionName = a ∧
      context.data a = platform.utf8.copyFromUtf8 r.csv

theorem registry_empty : Registry platform Context.empty := fun _ => Or.inl rfl

/-- What `apply` reads at an address of such a state. -/
theorem Registry.read {context : Context} (h : Registry platform context) (a : Address)
    {name : JString} (hname : ',' ∉ name) :
    (context.data a = [] ∧ readEntry platform context a = [] ∧
        getStateData (readEntry platform context a) name = .absent) ∨
      ∃ r, Created platform r ∧ readEntry platform context a = r.csv ∧
        getStateData (readEntry platform context a) name
          = if name <+: r.electionName then r else .absent := by
  rcases h a with hnil | ⟨r, hr, -, hdata⟩
  · refine Or.inl ⟨hnil, ?_, ?_⟩ <;>
      simp [readEntry, Context.getState, hnil]
  · have hentry : readEntry platform context a = r.csv := by
      simp [readEntry, Context.getState, hdata]
    refine Or.inr ⟨r, hr, hentry, ?_⟩
    rw [hentry, getStateData_csv hr.plain hname]

/-- The record a transaction finds is absent, or one that was created. -/
theorem Registry.read_cases {context : Context} (h : Registry platform context) (a : Address)
    {name : JString} (hname : ',' ∉ name) :
    getStateData (readEntry platform context a) name = .absent ∨
      Created platform (getStateData (readEntry platform context a) name) := by
  rcases h.read a hname with ⟨-, -, habsent⟩ | ⟨r, hr, -, hread⟩
  · exact Or.inl habsent
  · rw [hread]
    split
    · exact Or.inr hr
    · exact Or.inl rfl

/-! ### One transaction -/

theorem prepare_ok {request : TpProcessRequest} {context : Context} {tx : TransactionData}
    {updated : ElectionData} (h : prepare platform request context = .ok (tx, updated)) :
    getUnpackedTransaction platform request = .ok tx ∧ checkBallot platform tx = .ok () ∧
      FieldsAccepted tx ∧
      runElection platform tx
        (getStateData (readEntry platform context (makeElectionAddress platform tx.electionName))
          tx.electionName) request.signerPublicKey = .ok updated := by
  obtain ⟨tx', htx, h⟩ := bind_eq_ok_iff.mp h
  obtain ⟨⟨⟩, hballot, h⟩ := bind_eq_ok_iff.mp h
  obtain ⟨⟨⟩, hfields, h⟩ := bind_eq_ok_iff.mp h
  obtain ⟨updated', hrun, h⟩ := bind_eq_ok_iff.mp h
  simp only [pure_eq_ok, Except.ok.injEq, Prod.mk.injEq] at h
  obtain ⟨rfl, rfl⟩ := h
  exact ⟨htx, hballot, checkFields_eq_ok.mp hfields, hrun⟩

/-- A ballot that passes the first check is read the same way the second time. -/
theorem readCipherTexts_of_checkBallot {tx : TransactionData} (hvote : tx.action = "vote".toList)
    (h : checkBallot platform tx = .ok ()) :
    ∃ ciphers, platform.streams.readCipherTexts tx.ballotOrKey = .ok ciphers := by
  rw [checkBallot, if_pos hvote] at h
  cases hread : catching "Ballot array is invalid. 4"
      (platform.streams.readCipherTexts tx.ballotOrKey) with
  | error e => rw [hread] at h; simp [Except.map] at h
  | ok ciphers => exact ⟨ciphers, catching_eq_ok hread⟩

/-- No vote is accepted on a record `apply` has written itself. -/
theorem runElection_vote {tx : TransactionData} {r : ElectionData} {player : JString}
    (hvote : tx.action = "vote".toList) (hballot : checkBallot platform tx = .ok ())
    (hr : r = .absent ∨ Created platform r) : ∃ e, runElection platform tx r player = .error e := by
  obtain ⟨ciphers, hread⟩ := readCipherTexts_of_checkBallot hvote hballot
  rw [runElection, if_neg (by rw [hvote]; decide), if_pos hvote]
  rcases hr with rfl | hr
  · exact ⟨_, applyVote_of_absent hread⟩
  · exact ⟨_, applyVote_of_created hread hr⟩

/-- **A transaction that throws leaves the state as it was.** -/
theorem apply_error {request : TpProcessRequest} {context : Context} {e : Throwable}
    (h : (apply platform request context).1 = .error e) :
    (apply platform request context).2 = context := by
  unfold apply at h ⊢
  split
  · rfl
  · rename_i tx updated hprep
    rw [hprep] at h
    simp only [storeElectionData_eq] at h ⊢
    split at h
    · rfl
    · simp at h

/-- **The only accepted transaction** is a `create` at an address that holds
nothing, and it writes the created record there. -/
theorem apply_ok {request : TpProcessRequest} {context : Context}
    (hreg : Registry platform context) (h : (apply platform request context).1 = .ok ()) :
    ∃ tx r, getUnpackedTransaction platform request = .ok tx ∧ tx.action = "create".toList ∧
      r.electionName = tx.electionName ∧ r.cipher = tx.ballotOrKey ∧ Created platform r ∧
      context.data (makeElectionAddress platform tx.electionName) = [] ∧
      (apply platform request context).2
        = context.put (makeElectionAddress platform tx.electionName)
            (platform.utf8.copyFromUtf8 r.csv) := by
  unfold apply at h ⊢
  split at h
  · simp at h
  · rename_i tx updated hprep
    obtain ⟨htx, hballot, haccept, hrun⟩ := prepare_ok hprep
    have hcomma := (comma_not_mem_of_unpacked htx).1
    rcases haccept.action with hvote | hcreate
    · obtain ⟨e, he⟩ := runElection_vote hvote hballot (hreg.read_cases _ hcomma)
      rw [he] at hrun
      simp at hrun
    · rw [runElection, if_pos hcreate] at hrun
      obtain ⟨hcipher, pk, hread, text, hwrite, rfl⟩ := applyCreate_ok hrun
      have hcreated : Created platform ⟨tx.electionName, tx.ballotOrKey, text⟩ :=
        ⟨⟨⟨hcomma, haccept.bar⟩, haccept.ne_nil⟩, pk, hread, hwrite⟩
      refine ⟨tx, _, htx, hcreate, rfl, rfl, hcreated, ?_⟩
      simp only [storeElectionData_eq] at h ⊢
      rcases hreg.read (makeElectionAddress platform tx.electionName) hcomma with
        ⟨hnil, hentry, -⟩ | ⟨r, hr, hentry, hfound⟩
      · rw [hentry, updatedEntry_nil]
        exact ⟨hnil, rfl⟩
      · -- a record is there: it is the election itself, or the store throws
        rw [hfound] at hcipher
        rw [hentry, updatedEntry_csv hr.plain hcomma] at h
        split at hcipher
        · exact absurd hcipher hr.cipher_ne_nil
        · rename_i hpre
          rw [if_neg hpre] at h
          simp at h

/-- A `create` with a key, at an address that holds nothing, is accepted. -/
theorem apply_create {request : TpProcessRequest} {context : Context} {tx : TransactionData}
    {pk : PublicKeyObject} {text : JString}
    (htx : getUnpackedTransaction platform request = .ok tx) (hfields : FieldsAccepted tx)
    (hcreate : tx.action = "create".toList)
    (hnil : context.data (makeElectionAddress platform tx.electionName) = [])
    (hread : platform.streams.readBase64 tx.ballotOrKey = .ok (.publicKey pk))
    (hwrite : platform.streams.writeBase64
      (.cipherTexts (List.replicate 5 (some pk.getEmptyCipherText))) = .ok text) :
    apply platform request context = (.ok (),
      context.put (makeElectionAddress platform tx.electionName)
        (platform.utf8.copyFromUtf8
          (ElectionData.csv ⟨tx.electionName, tx.ballotOrKey, text⟩))) := by
  have hentry : readEntry platform context (makeElectionAddress platform tx.electionName) = [] := by
    simp [readEntry, Context.getState, hnil]
  have hcheck : checkBallot platform tx = .ok () := by
    rw [checkBallot, if_neg (by rw [hcreate]; decide)]
  have hrun : runElection platform tx .absent request.signerPublicKey
      = .ok ⟨tx.electionName, tx.ballotOrKey, text⟩ := by
    rw [runElection, if_pos hcreate, applyCreate, if_neg (by simp [ElectionData.absent]),
      ObjectStreams.readPublicKey, hread]
    simp only [catching_ok, ok_bind, deref, hwrite]
  have hprepare : prepare platform request context
      = .ok (tx, ⟨tx.electionName, tx.ballotOrKey, text⟩) := by
    simp only [prepare, htx, hcheck, checkFields_eq_ok.mpr hfields, hentry, getStateData_nil, hrun,
      ok_bind, pure_eq_ok]
  rw [apply, hprepare]
  simp only [storeElectionData_eq, hentry, updatedEntry_nil]

theorem registry_step {request : TpProcessRequest} {context : Context}
    (hreg : Registry platform context) : Registry platform (apply platform request context).2 := by
  cases h : (apply platform request context).1 with
  | error e => rw [apply_error h]; exact hreg
  | ok _ =>
      obtain ⟨tx, r, -, -, hname, -, hr, -, hstate⟩ := apply_ok hreg h
      rw [hstate]
      intro a
      by_cases ha : a = makeElectionAddress platform tx.electionName
      · exact Or.inr ⟨r, hr, by rw [ha, hname], by rw [ha, Context.put_data_self]⟩
      · rw [Context.put_data_of_ne _ _ ha]
        exact hreg a

/-- What was stored stays, byte for byte. -/
theorem data_step {request : TpProcessRequest} {context : Context}
    (hreg : Registry platform context) {a : Address} (ha : context.data a ≠ []) :
    (apply platform request context).2.data a = context.data a := by
  cases h : (apply platform request context).1 with
  | error e => rw [apply_error h]
  | ok _ =>
      obtain ⟨tx, r, -, -, -, -, -, hnil, hstate⟩ := apply_ok hreg h
      rw [hstate, Context.put_data_of_ne]
      rintro rfl
      exact ha hnil

/-! ### Whole runs -/

/-- The state after a run of transactions, accepted or not. -/
abbrev applyAll (platform : Platform) (context : Context) (requests : List TpProcessRequest) :
    Context :=
  Machine.run (fun context request => apply platform request context) context requests

theorem applyAll_append (context : Context) (first rest : List TpProcessRequest) :
    applyAll platform context (first ++ rest)
      = applyAll platform (applyAll platform context first) rest :=
  Machine.run_append _ context first rest

theorem applyAll_cons (context : Context) (request : TpProcessRequest)
    (rest : List TpProcessRequest) : applyAll platform context (request :: rest)
      = applyAll platform (apply platform request context).2 rest := rfl

/-- **Every state a run reaches is a registry.** -/
theorem registry_run (requests : List TpProcessRequest) {context : Context}
    (hreg : Registry platform context) : Registry platform (applyAll platform context requests) :=
  Machine.run_invariant _ (fun _ _ h => registry_step h) requests context hreg

theorem registry_reachable (requests : List TpProcessRequest) :
    Registry platform (applyAll platform Context.empty requests) :=
  registry_run requests registry_empty

end Evoting

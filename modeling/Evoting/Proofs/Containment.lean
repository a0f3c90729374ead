/-
Which exceptions leave `apply`.

The catch lists of the handler name three exceptions.  A text that is not Base64,
an object of the wrong class, a null object and a store past the end of the list
are none of them, and they escape to the processor, which reports only
`InvalidTransactionException` and `InternalError`.  `Contained` is the exact
boundary, stated on the transaction and on the state it meets: one lemma for a
vote, one for a `create`, and `apply_contained_iff` puts them together.
-/
import Evoting.Proofs.Handler

namespace Evoting

variable {platform : Platform}

/-- The text is Base64, and deserializing it fails with an exception that is caught. -/
def Undeserializable (platform : Platform) (text : JString) : Prop :=
  ∃ e : ReadFailure, platform.streams.readBase64 text = .error e.thrown

/-- The object passes the cast to `PaillierCipherText[]`. -/
def JObject.IsBallot : JObject → Prop
  | .null => True
  | .cipherTexts _ => True
  | _ => False

/-- The record `apply` finds for a transaction. -/
def foundRecord (platform : Platform) (context : Context) (tx : TransactionData) : ElectionData :=
  getStateData (readEntry platform context (makeElectionAddress platform tx.electionName))
    tx.electionName

/-- A vote from which nothing escapes: its ballot fails to deserialize, or it is a
ballot, and the vote is refused before the stored array is read. -/
def VoteContained (platform : Platform) (context : Context) (tx : TransactionData) : Prop :=
  Undeserializable platform tx.ballotOrKey ∨
    (∃ o, platform.streams.readBase64 tx.ballotOrKey = .ok o ∧ o.IsBallot) ∧
      (FieldsAccepted tx → (foundRecord platform context tx).cipher = [])

/-- A `create` from which nothing escapes: it is refused before its key is read, the key
fails to deserialize, or it is a key, and the entry is empty or the array cannot be written. -/
def CreateContained (platform : Platform) (context : Context) (tx : TransactionData) : Prop :=
  FieldsAccepted tx → (foundRecord platform context tx).cipher = [] →
    Undeserializable platform tx.ballotOrKey ∨
      ∃ pk, platform.streams.readBase64 tx.ballotOrKey = .ok (.publicKey pk) ∧
        (readEntry platform context (makeElectionAddress platform tx.electionName) = [] ∨
          ∃ e, platform.streams.writeBase64
            (.cipherTexts (List.replicate 5 (some pk.getEmptyCipherText))) = .error e)

/-- Nothing but a reported exception escapes on this transaction in this state. -/
def Contained (platform : Platform) (context : Context) (request : TpProcessRequest) : Prop :=
  ∀ tx, getUnpackedTransaction platform request = .ok tx →
    (tx.action = "vote".toList → VoteContained platform context tx) ∧
      (tx.action = "create".toList → CreateContained platform context tx)

/-- Every exception `x` may end in is reported. -/
def Reported {α : Type} (x : Except Throwable α) : Prop :=
  ∀ e, x = .error e → e.isReported = true

/-! ### Reported results -/

section Reported

variable {α β : Type}

@[simp] theorem reported_ok (a : α) : Reported (.ok a : Except Throwable α) := by
  simp [Reported]

@[simp] theorem reported_error {e : Throwable} :
    Reported (.error e : Except Throwable α) ↔ e.isReported = true := by
  simp [Reported]

@[simp] theorem reported_invalidTransaction (message : String) :
    Reported (.error (.invalidTransaction message) : Except Throwable α) := by
  simp [Throwable.isReported]

theorem reported_map {x : Except Throwable α} (f : α → β) :
    Reported (x.map f) ↔ Reported x := by
  cases x <;> simp [Except.map]

/-- The exceptions of `readObject` are caught; the one of the Base64 decoder is not. -/
theorem readBase64_error_cases {streams : ObjectStreams} {text : JString} {e : Throwable}
    (h : streams.readBase64 text = .error e) :
    e = .illegalArgument ∨ ∃ failure : ReadFailure, e = failure.thrown := by
  unfold ObjectStreams.readBase64 at h
  split at h
  · exact Or.inl (Except.error.inj h).symm
  · split at h
    · exact Or.inr ⟨_, (Except.error.inj h).symm⟩
    · simp at h

theorem not_undeserializable_of_error {text : JString}
    (h : platform.streams.readBase64 text = .error .illegalArgument) :
    ¬Undeserializable platform text := by
  rintro ⟨e, he⟩
  rw [h] at he
  cases e <;> simp [ReadFailure.thrown] at he

theorem not_undeserializable_of_ok {text : JString} {o : JObject}
    (h : platform.streams.readBase64 text = .ok o) : ¬Undeserializable platform text := by
  rintro ⟨e, he⟩
  rw [h] at he
  simp at he

/-- A payload that does not unpack is refused with an exception that is reported. -/
theorem isReported_of_unpacked {request : TpProcessRequest} {e : Throwable}
    (h : getUnpackedTransaction platform request = .error e) : e.isReported = true := by
  simp only [getUnpackedTransaction] at h
  split at h
  · rw [← Except.error.inj h]; rfl
  · simp at h

end Reported

/-! ### The checks of `apply` -/

/-- A ballot that is refused is the end of the transaction. -/
theorem apply_of_unreadable {context : Context} {request : TpProcessRequest} {tx : TransactionData}
    {e : Throwable} (htx : getUnpackedTransaction platform request = .ok tx)
    (hcheck : checkBallot platform tx = .error e) :
    (apply platform request context).1 = .error e := by
  rw [apply, prepare, htx, ok_bind, hcheck, error_bind]

/-- A name or an action that is refused is reported. -/
theorem apply_of_refused {context : Context} {request : TpProcessRequest} {tx : TransactionData}
    (htx : getUnpackedTransaction platform request = .ok tx)
    (hcheck : checkBallot platform tx = .ok ()) (hfields : ¬FieldsAccepted tx) :
    Reported (apply platform request context).1 := by
  cases h : checkFields tx with
  | ok _ => exact absurd (checkFields_eq_ok.mp h) hfields
  | error e =>
      rw [apply, prepare, htx, ok_bind, hcheck, ok_bind, h, error_bind]
      exact reported_error.mpr (isReported_of_checkFields h)

/-- What `apply` returns once the transaction is unpacked and has passed its checks. -/
theorem apply_of_accepted {context : Context} {request : TpProcessRequest} {tx : TransactionData}
    (htx : getUnpackedTransaction platform request = .ok tx)
    (hcheck : checkBallot platform tx = .ok ()) (hfields : FieldsAccepted tx) :
    (apply platform request context).1 =
      match runElection platform tx (foundRecord platform context tx)
          request.signerPublicKey with
      | .error e => .error e
      | .ok updated =>
          (storeElectionData platform.utf8 (makeElectionAddress platform tx.electionName) updated
            (readEntry platform context (makeElectionAddress platform tx.electionName))
            context).1 := by
  rw [apply, prepare, htx, ok_bind, hcheck, ok_bind, checkFields_eq_ok.mpr hfields, ok_bind]
  simp only []
  rw [← foundRecord]
  cases runElection platform tx (foundRecord platform context tx) request.signerPublicKey <;> rfl

/-! ### A vote -/

theorem exists_ballot_of_readCipherTexts {text : JString}
    {ciphers : Option (List (Option CipherTextObject))}
    (h : platform.streams.readCipherTexts text = .ok ciphers) :
    ∃ o, platform.streams.readBase64 text = .ok o ∧ o.IsBallot := by
  unfold ObjectStreams.readCipherTexts at h
  split at h
  · simp at h
  · exact ⟨.null, by assumption, trivial⟩
  · exact ⟨.cipherTexts _, by assumption, trivial⟩
  · simp at h

/-- The first check lets a ballot through, refuses it, or loses an exception. -/
theorem checkBallot_reported_iff {tx : TransactionData} (hvote : tx.action = "vote".toList) :
    Reported (checkBallot platform tx) ↔
      Undeserializable platform tx.ballotOrKey ∨
        ∃ o, platform.streams.readBase64 tx.ballotOrKey = .ok o ∧ o.IsBallot := by
  rw [checkBallot, if_pos hvote, reported_map, ObjectStreams.readCipherTexts]
  cases hread : platform.streams.readBase64 tx.ballotOrKey with
  | error e =>
      rcases readBase64_error_cases hread with rfl | ⟨failure, rfl⟩
      · have hnot := not_undeserializable_of_error hread
        simp [catching, Throwable.isReported, hnot]
      · rw [catching_thrown]
        exact iff_of_true (reported_invalidTransaction _) (Or.inl ⟨failure, hread⟩)
  | ok o =>
      have hnot := not_undeserializable_of_ok hread
      cases o <;> simp [catching, JObject.IsBallot, Throwable.isReported, hnot]

/-- **A vote loses an exception** unless it is refused in time. -/
theorem vote_reported_iff {context : Context} (hreg : Registry platform context)
    {request : TpProcessRequest} {tx : TransactionData}
    (htx : getUnpackedTransaction platform request = .ok tx) (hvote : tx.action = "vote".toList) :
    Reported (apply platform request context).1 ↔ VoteContained platform context tx := by
  have hcomma := (comma_not_mem_of_unpacked htx).1
  cases hcheck : checkBallot platform tx with
  | error e =>
      have hno : ¬∃ o, platform.streams.readBase64 tx.ballotOrKey = .ok o ∧ o.IsBallot := by
        rintro ⟨o, ho, hisBallot⟩
        rw [checkBallot, if_pos hvote, ObjectStreams.readCipherTexts, ho] at hcheck
        cases o <;> simp [JObject.IsBallot, catching, Except.map] at hisBallot hcheck
      have hsame : Reported (checkBallot platform tx) ↔ e.isReported = true := by
        rw [hcheck, reported_error]
      rw [apply_of_unreadable htx hcheck, reported_error, ← hsame,
        checkBallot_reported_iff hvote]
      simp [VoteContained, hno]
  | ok _ =>
      obtain ⟨ciphers, hread⟩ := readCipherTexts_of_checkBallot hvote hcheck
      obtain ⟨o, ho, hisBallot⟩ := exists_ballot_of_readCipherTexts hread
      have hballot : VoteContained platform context tx ↔
          (FieldsAccepted tx → (foundRecord platform context tx).cipher = []) := by
        have hex : ∃ o, platform.streams.readBase64 tx.ballotOrKey = .ok o ∧ o.IsBallot :=
          ⟨o, ho, hisBallot⟩
        simp [VoteContained, not_undeserializable_of_ok ho, hex]
      rw [hballot]
      by_cases hfields : FieldsAccepted tx
      swap
      · exact iff_of_true (apply_of_refused htx hcheck hfields) (fun h => absurd h hfields)
      rw [apply_of_accepted htx hcheck hfields, runElection, if_neg (by rw [hvote]; decide),
        if_pos hvote]
      simp only [hfields, forall_true_left]
      rcases hreg.read_cases (makeElectionAddress platform tx.electionName) hcomma with
        habsent | hcreated
      · rw [foundRecord, habsent, applyVote_of_absent hread]
        exact iff_of_true (reported_invalidTransaction _) rfl
      · rw [foundRecord, applyVote_of_created hread hcreated]
        exact iff_of_false (by simp [Throwable.isReported]) hcreated.cipher_ne_nil

/-! ### A create -/

/-- With a key in hand only the array can still fail to be written. -/
theorem applyCreate_of_key {tx : TransactionData} {r : ElectionData} {player : JString}
    {pk : PublicKeyObject} (h : r.cipher = [])
    (hread : platform.streams.readBase64 tx.ballotOrKey = .ok (.publicKey pk)) :
    applyCreate platform tx r player =
      match platform.streams.writeBase64
          (.cipherTexts (List.replicate 5 (some pk.getEmptyCipherText))) with
      | .error _ => .error (.invalidTransaction "Internal error: ballot array is invalid.")
      | .ok text => .ok ⟨tx.electionName, tx.ballotOrKey, text⟩ := by
  rw [applyCreate, if_neg (by simpa using h), ObjectStreams.readPublicKey, hread]
  rfl

/-- **Anything but a key loses an exception**, unless deserializing it fails. -/
theorem applyCreate_of_not_key {tx : TransactionData} {r : ElectionData} (player : JString)
    (h : r.cipher = [])
    (hread : ∀ pk, platform.streams.readBase64 tx.ballotOrKey ≠ .ok (.publicKey pk)) :
    ∃ e, applyCreate platform tx r player = .error e ∧
      (e.isReported = true ↔ Undeserializable platform tx.ballotOrKey) := by
  rw [applyCreate, if_neg (by simpa using h), ObjectStreams.readPublicKey]
  cases ho : platform.streams.readBase64 tx.ballotOrKey with
  | error e =>
      rcases readBase64_error_cases ho with rfl | ⟨failure, rfl⟩
      · exact ⟨.illegalArgument, rfl,
          iff_of_false (by simp [Throwable.isReported]) (not_undeserializable_of_error ho)⟩
      · simp only [catching_thrown, error_bind]
        exact ⟨_, rfl, iff_of_true rfl ⟨failure, ho⟩⟩
  | ok o =>
      have hnot : ¬Undeserializable platform tx.ballotOrKey := not_undeserializable_of_ok ho
      cases o with
      | publicKey pk => exact absurd ho (hread pk)
      | null => exact ⟨.nullPointer, rfl, iff_of_false (by simp [Throwable.isReported]) hnot⟩
      | cipherTexts cs =>
          exact ⟨.classCast, rfl, iff_of_false (by simp [Throwable.isReported]) hnot⟩
      | other className =>
          exact ⟨.classCast, rfl, iff_of_false (by simp [Throwable.isReported]) hnot⟩

/-- **The store** takes a new record exactly where nothing is stored: next to the record of
another election it runs past its list. -/
theorem store_reported_iff {context : Context} (hreg : Registry platform context)
    {tx : TransactionData} (hcomma : ',' ∉ tx.electionName)
    (hcipher : (foundRecord platform context tx).cipher = []) {updated : ElectionData}
    (hname : updated.electionName = tx.electionName) :
    Reported (storeElectionData platform.utf8 (makeElectionAddress platform tx.electionName) updated
        (readEntry platform context (makeElectionAddress platform tx.electionName)) context).1 ↔
      readEntry platform context (makeElectionAddress platform tx.electionName) = [] := by
  rw [storeElectionData_eq]
  rcases hreg.read (makeElectionAddress platform tx.electionName) hcomma with
    ⟨-, hentry, -⟩ | ⟨r, hr, hentry, hfound⟩
  · rw [hentry, updatedEntry_nil]
    exact iff_of_true (reported_ok _) rfl
  · have hpre : ¬updated.electionName <+: r.electionName := by
      intro hpre
      rw [hname] at hpre
      rw [foundRecord, hfound, if_pos hpre] at hcipher
      exact hr.cipher_ne_nil hcipher
    rw [hentry, updatedEntry_csv hr.plain (hname ▸ hcomma), if_neg hpre]
    exact iff_of_false (by simp [Throwable.isReported]) r.csv_ne_nil

/-- **A create loses an exception** unless it is refused in time, or all of it goes well. -/
theorem create_reported_iff {context : Context} (hreg : Registry platform context)
    {request : TpProcessRequest} {tx : TransactionData}
    (htx : getUnpackedTransaction platform request = .ok tx)
    (hcreate : tx.action = "create".toList) :
    Reported (apply platform request context).1 ↔ CreateContained platform context tx := by
  have hcomma := (comma_not_mem_of_unpacked htx).1
  have hcheck : checkBallot platform tx = .ok () := by
    rw [checkBallot, if_neg (by rw [hcreate]; decide)]
  by_cases hfields : FieldsAccepted tx
  swap
  · exact iff_of_true (apply_of_refused htx hcheck hfields) (fun h => absurd h hfields)
  rw [apply_of_accepted htx hcheck hfields, runElection, if_pos hcreate]
  by_cases hcipher : (foundRecord platform context tx).cipher = []
  swap
  · rw [applyCreate_of_stored hcipher]
    exact iff_of_true (reported_invalidTransaction _) (fun _ h => absurd h hcipher)
  simp only [CreateContained, hfields, hcipher, forall_true_left]
  by_cases hkey : ∃ pk, platform.streams.readBase64 tx.ballotOrKey = .ok (.publicKey pk)
  swap
  · obtain ⟨e, he, hiff⟩ := applyCreate_of_not_key request.signerPublicKey hcipher
      (fun pk hpk => hkey ⟨pk, hpk⟩)
    rw [he, reported_error, hiff]
    refine ⟨Or.inl, fun h => h.resolve_right ?_⟩
    rintro ⟨pk, hpk, -⟩
    exact hkey ⟨pk, hpk⟩
  obtain ⟨pk, hpk⟩ := hkey
  rw [applyCreate_of_key hcipher hpk]
  cases hwrite : platform.streams.writeBase64
      (.cipherTexts (List.replicate 5 (some pk.getEmptyCipherText))) with
  | error e =>
      exact iff_of_true (reported_invalidTransaction _) (Or.inr ⟨pk, hpk, Or.inr ⟨e, hwrite⟩⟩)
  | ok text =>
      dsimp only
      rw [store_reported_iff hreg hcomma hcipher rfl]
      constructor
      · exact fun hnil => Or.inr ⟨pk, hpk, Or.inl hnil⟩
      · rintro (hbad | ⟨pk', hpk', hnil | ⟨e, he⟩⟩)
        · exact absurd hbad (not_undeserializable_of_ok hpk)
        · exact hnil
        · rw [hpk, Except.ok.injEq, JObject.publicKey.injEq] at hpk'
          rw [← hpk', hwrite] at he
          simp at he

/-! ### Every transaction -/

/-- **What escapes, exactly.**  In every state a run reaches, `apply` returns or throws one of
the two reported exceptions if and only if the transaction is contained there. -/
theorem apply_contained_iff (platform : Platform) (requests : List TpProcessRequest)
    (request : TpProcessRequest) :
    (∀ e, (apply platform request (applyAll platform Context.empty requests)).1 = .error e →
        e.isReported = true) ↔
      Contained platform (applyAll platform Context.empty requests) request := by
  have hreg : Registry platform (applyAll platform Context.empty requests) :=
    registry_reachable requests
  set context := applyAll platform Context.empty requests
  show Reported _ ↔ _
  unfold Contained
  cases htx : getUnpackedTransaction platform request with
  | error e =>
      have hresult : (apply platform request context).1 = .error e := by
        rw [apply, prepare, htx, error_bind]
      rw [hresult, reported_error]
      exact iff_of_true (isReported_of_unpacked htx) (by simp)
  | ok tx =>
      simp only [Except.ok.injEq, forall_eq']
      by_cases hvote : tx.action = "vote".toList
      · have hne : tx.action ≠ "create".toList := by rw [hvote]; decide
        rw [vote_reported_iff hreg htx hvote]
        exact ⟨fun h => ⟨fun _ => h, fun h' => absurd h' hne⟩, fun h => h.1 hvote⟩
      · by_cases hcreate : tx.action = "create".toList
        · rw [create_reported_iff hreg htx hcreate]
          exact ⟨fun h => ⟨fun h' => absurd h' hvote, fun _ => h⟩, fun h => h.2 hcreate⟩
        · have hcheck : checkBallot platform tx = .ok () := by rw [checkBallot, if_neg hvote]
          refine iff_of_true (apply_of_refused htx hcheck ?_)
            ⟨fun h => absurd h hvote, fun h => absurd h hcreate⟩
          rintro ⟨-, -, haction⟩
          exact haction.elim hvote hcreate

/-- A ballot that is not Base64 gets past every catch list. -/
theorem not_reported_of_bad_ballot :
    ¬∀ e, (apply .reference (referenceRequest "mayor".toList "vote".toList "!".toList)
      (applyAll .reference Context.empty [])).1 = .error e → e.isReported = true := by
  intro h
  have hescapes : (apply .reference
      (referenceRequest "mayor".toList "vote".toList "!".toList)
      (applyAll .reference Context.empty [])).1 = .error .illegalArgument := by decide +kernel
  exact absurd (h _ hescapes) (by decide)

end Evoting

/-
No election can be created, and no ciphertext is ever voted on.

`applyCreate` writes an array of five ciphertexts, and `PaillierCipherText` does not
implement `Serializable`.  So an array can be written only if all its elements are null
(`writeObject_cipherTexts_iff`), the `catch (IOException e)` of `applyCreate` makes a
rejection of it, and every `create` that gets that far is refused, whatever its key.

`applyVote` writes the array of the sums, which has no null.  So a vote is accepted only
between empty arrays (`applyVote_empty`), and none of the ballots that would destroy what
was counted, such as one of zeros, gets as far as the state.
-/
import Evoting.Model.Serialization
import Evoting.Proofs.Count
import Mathlib.RingTheory.Coprime.Lemmas
import Mathlib.Data.Int.ModEq

namespace Evoting

variable {platform : Platform}

/-! ### What can be written -/

section Writing

variable {streams : ObjectStreams} (hjava : ThrowsNotSerializable streams)
include hjava

theorem writeObject_ok_iff {o : JObject} :
    (∃ bs, streams.writeObject o = .ok bs) ↔ ∀ c ∈ o.graph, c.implementsSerializable = true := by
  have hthrows := hjava o
  cases hwrite : streams.writeObject o with
  | ok bs =>
      rw [hwrite] at hthrows
      simpa using hthrows
  | error e =>
      cases e
      rw [hwrite] at hthrows
      simpa using hthrows

/-- **An array of ciphertexts can be written only if it has none.** -/
theorem writeObject_cipherTexts_iff {cs : List (Option CipherTextObject)} :
    (∃ bs, streams.writeObject (.cipherTexts cs) = .ok bs) ↔ ∀ c ∈ cs, c = none := by
  rw [writeObject_ok_iff hjava]
  constructor
  · intro h c hc
    cases c with
    | none => rfl
    | some c =>
        have hmem : JavaClass.paillierCipherText ∈ (JObject.cipherTexts cs).graph :=
          List.mem_cons_of_mem _ (List.mem_flatMap.mpr ⟨some c, hc, List.mem_cons_self ..⟩)
        exact absurd (h _ hmem) (by decide)
  · intro h c hc
    rcases List.mem_cons.mp hc with rfl | hc
    · rfl
    · obtain ⟨element, helement, hc⟩ := List.mem_flatMap.mp hc
      rw [h element helement] at hc
      simp at hc

/-- The five ciphertexts of a `create` cannot. -/
theorem writeBase64_five (pk : PublicKeyObject) :
    streams.writeBase64 (.cipherTexts (List.replicate 5 (some pk.getEmptyCipherText)))
      = .error .notSerializableException := by
  have hwrite : ¬∃ bs, streams.writeObject
      (.cipherTexts (List.replicate 5 (some pk.getEmptyCipherText))) = .ok bs := by
    rw [writeObject_cipherTexts_iff hjava]
    intro h
    exact absurd (h (some pk.getEmptyCipherText) (by simp)) (by simp)
  rw [ObjectStreams.writeBase64]
  cases hresult : streams.writeObject
      (.cipherTexts (List.replicate 5 (some pk.getEmptyCipherText))) with
  | ok bs => exact absurd ⟨bs, hresult⟩ hwrite
  | error e => cases e; rfl

end Writing

/-! ### `create` -/

/-- A `create` is accepted, and the record written holds the key and an array of five
ciphertexts with text 1 under it, each in one of its two fields. -/
def CreateAccepted (platform : Platform) (request : TpProcessRequest) (context : Context)
    (name : JString) (pk : PaillierPublicKey) : Prop :=
  ∃ context', apply platform request context = (.ok (), context') ∧
    ∃ keyField ∈ [(storedRecord platform context' name).cipher,
      (storedRecord platform context' name).pubKey],
    ∃ arrayField ∈ [(storedRecord platform context' name).cipher,
      (storedRecord platform context' name).pubKey],
    platform.streams.readPublicKey keyField = .ok (some pk.toObject) ∧
    platform.streams.readCipherTexts arrayField = .ok (some (arrayOf pk (List.replicate 5 1)))

/-- What a `create` that gets past the checks comes to. -/
theorem apply_of_create {name : JString} (hname : PlainName name) {pk : PaillierPublicKey}
    {request : TpProcessRequest} (hcreate : IsCreate platform pk name request)
    {context : Context} :
    ∃ text, platform.streams.readPublicKey text = .ok (some pk.toObject) ∧
      ∀ e, applyCreate platform ⟨name, "create".toList, text⟩
          (storedRecord platform context name) request.signerPublicKey = .error e →
        apply platform request context = (.error e, context) := by
  obtain ⟨text, hwrite, hcarries⟩ := hcreate
  have htx := getUnpackedTransaction_of_carries hname (by decide) hwrite hcarries
  have hread := platform.streams.readBase64_of_writeBase64 hwrite
  have hfields := checkFields_eq_ok.mpr (show FieldsAccepted ⟨name, "create".toList, text⟩ from
    ⟨hname.ne_nil, hname.bar, Or.inr rfl⟩)
  have hcheck : checkBallot platform ⟨name, "create".toList, text⟩ = .ok () :=
    if_neg (show "create".toList ≠ "vote".toList by decide)
  refine ⟨text, by rw [ObjectStreams.readPublicKey, hread], fun e he => ?_⟩
  have hrun : runElection platform ⟨name, "create".toList, text⟩
      (storedRecord platform context name) request.signerPublicKey = .error e :=
    (if_pos rfl).trans he
  rw [storedRecord] at hrun
  simp only [apply, prepare, htx, hcheck, hfields, hrun, ok_bind, error_bind]

/-- **A `create` of an unused name is refused** with the text for an invalid array, and the
state stays as it was. -/
theorem create_refused (hjava : ThrowsNotSerializable platform.streams) {name : JString}
    (hname : PlainName name) {pk : PaillierPublicKey} {request : TpProcessRequest}
    (hcreate : IsCreate platform pk name request) {context : Context}
    (hunused : (storedRecord platform context name).cipher = []) :
    apply platform request context
      = (.error (.invalidTransaction "Internal error: ballot array is invalid."), context) := by
  obtain ⟨text, hread, happly⟩ := apply_of_create hname hcreate
  refine happly _ ?_
  rw [applyCreate, if_neg (not_not.mpr hunused), hread]
  simp only [catching_ok, ok_bind, deref, writeBase64_five hjava]

/-- A `create` of a name that is used is refused as well. -/
theorem create_of_used {name : JString} (hname : PlainName name) {pk : PaillierPublicKey}
    {request : TpProcessRequest} (hcreate : IsCreate platform pk name request) {context : Context}
    (hused : (storedRecord platform context name).cipher ≠ []) :
    ∃ message, apply platform request context
      = (.error (.invalidTransaction message), context) := by
  obtain ⟨text, -, happly⟩ := apply_of_create hname hcreate
  exact ⟨_, happly _ (applyCreate_of_stored hused)⟩

theorem not_createAccepted_of_refused {request : TpProcessRequest} {context : Context}
    {name : JString} {pk : PaillierPublicKey} {e : Throwable}
    (h : apply platform request context = (.error e, context)) :
    ¬CreateAccepted platform request context name pk := by
  rintro ⟨context', haccepted, -⟩
  rw [h] at haccepted
  simp at haccepted

/-- **No `create` is ever accepted**, whatever the state and the key. -/
theorem create_never_accepted (hjava : ThrowsNotSerializable platform.streams) {name : JString}
    (hname : PlainName name) {pk : PaillierPublicKey} {request : TpProcessRequest}
    (hcreate : IsCreate platform pk name request) (context : Context) :
    ¬CreateAccepted platform request context name pk := by
  by_cases hunused : (storedRecord platform context name).cipher = []
  · exact not_createAccepted_of_refused (create_refused hjava hname hcreate hunused)
  · obtain ⟨message, hrefused⟩ := create_of_used hname hcreate hunused
    exact not_createAccepted_of_refused hrefused

/-! ### Votes -/

/-- Every text of the array a field holds, if it holds one, is coprime to `n`. -/
def Invertible (platform : Platform) (n : Int) (field : JString) : Prop :=
  ∀ cs, platform.streams.readCipherTexts field = .ok (some cs) →
    ∀ c ∈ cs, ∃ t, textOf c = some t ∧ IsCoprime t n

/-- Every text of the array a field holds can be divided by, modulo `n` squared. -/
def Recoverable (platform : Platform) (n : Int) (field : JString) : Prop :=
  ∀ cs, platform.streams.readCipherTexts field = .ok (some cs) →
    ∀ c ∈ cs, ∃ t, textOf c = some t ∧ ∃ inverse : Int, t * inverse ≡ 1 [ZMOD n ^ 2]

/-- The arrays a record holds are invertible. -/
def InvertibleRecord (platform : Platform) (n : Int) (r : ElectionData) : Prop :=
  ∀ field ∈ [r.cipher, r.pubKey], Invertible platform n field

/-- The record after a run of accepted votes, each with the player that cast it. -/
def voteAll (platform : Platform) (r : ElectionData) (votes : List (TransactionData × JString)) :
    Except Throwable ElectionData :=
  votes.foldlM (fun r vote => applyVote platform vote.1 r vote.2) r

theorem writeObject_of_writeBase64 {streams : ObjectStreams} {o : JObject} {text : JString}
    (h : streams.writeBase64 o = .ok text) : ∃ bs, streams.writeObject o = .ok bs := by
  rw [ObjectStreams.writeBase64] at h
  cases hwrite : streams.writeObject o with
  | ok bs => exact ⟨bs, rfl⟩
  | error e =>
      rw [hwrite] at h
      simp [Except.map] at h

theorem Invertible.recoverable {n : Int} {field : JString} (h : Invertible platform n field) :
    Recoverable platform n field := by
  intro cs hcs c hc
  obtain ⟨t, ht, hcoprime⟩ := h cs hcs c hc
  obtain ⟨inverse, multiple, hone⟩ : IsCoprime t (n ^ 2) := hcoprime.pow_right
  refine ⟨t, ht, inverse, (Int.modEq_iff_dvd.mpr ⟨multiple, ?_⟩)⟩
  rw [← hone]
  ring

/-- **A vote is accepted only between empty arrays**: the sum has no null, and an array of
ciphertexts cannot be written. -/
theorem applyVote_empty (hjava : ThrowsNotSerializable platform.streams) {tx : TransactionData}
    {r updated : ElectionData} {player : JString}
    (h : applyVote platform tx r player = .ok updated) :
    platform.streams.readCipherTexts r.cipher = .ok (some []) ∧
      platform.streams.readCipherTexts tx.ballotOrKey = .ok (some []) ∧
      updated.cipher = r.pubKey ∧
      platform.streams.readCipherTexts updated.pubKey = .ok (some []) := by
  obtain ⟨stateCiphers, ciphers, sum, text, hstate, hballot, hlen, hsum, hwrite, rfl⟩ :=
    applyVote_ok h
  obtain ⟨hsumlen, hsome⟩ := addBallot_ok hsum
  have hnull := (writeObject_cipherTexts_iff hjava).mp (writeObject_of_writeBase64 hwrite)
  obtain rfl : sum = [] :=
    List.eq_nil_iff_forall_not_mem.mpr fun c hc => hsome c hc (hnull c hc)
  rw [← hlen, Nat.min_self, List.length_nil] at hsumlen
  obtain rfl := List.length_eq_zero_iff.mp hsumlen.symm
  obtain rfl := List.length_eq_zero_iff.mp hlen.symm
  exact ⟨hstate, hballot, rfl, by
    rw [ObjectStreams.readCipherTexts, ObjectStreams.readBase64_of_writeBase64 _ hwrite]⟩

theorem invertible_of_empty {n : Int} {field : JString}
    (h : platform.streams.readCipherTexts field = .ok (some [])) :
    Invertible platform n field := by
  intro cs hcs c hc
  obtain rfl : [] = cs := Option.some.inj (Except.ok.inj (h.symm.trans hcs))
  simp at hc

theorem applyVote_invertible (hjava : ThrowsNotSerializable platform.streams) {n : Int}
    {tx : TransactionData} {r updated : ElectionData} {player : JString}
    (h : applyVote platform tx r player = .ok updated) (hr : InvertibleRecord platform n r) :
    InvertibleRecord platform n updated := by
  obtain ⟨-, -, hcipher, hpubKey⟩ := applyVote_empty hjava h
  intro field hfield
  simp only [List.mem_cons, List.not_mem_nil, or_false] at hfield
  rcases hfield with rfl | rfl
  · rw [hcipher]
    exact hr r.pubKey (by simp)
  · exact invertible_of_empty hpubKey

theorem voteAll_invertible (hjava : ThrowsNotSerializable platform.streams) {n : Int}
    {votes : List (TransactionData × JString)} {r final : ElectionData}
    (h : voteAll platform r votes = .ok final) (hr : InvertibleRecord platform n r) :
    InvertibleRecord platform n final := by
  induction votes generalizing r with
  | nil =>
      obtain rfl : r = final := Except.ok.inj h
      exact hr
  | cons vote votes ih =>
      rw [voteAll, List.foldlM_cons] at h
      obtain ⟨next, hnext, h⟩ := bind_eq_ok_iff.mp h
      exact ih h (applyVote_invertible hjava hnext hr)

/-- **No accepted vote destroys what was counted.** If the texts of the stored array are coprime
to `n`, so are those of the array that an accepted vote stores, whatever its ballot, and over a
run of accepted votes the texts that a record holds stay invertible modulo `n` squared. -/
theorem votes_keep_invertible (hjava : ThrowsNotSerializable platform.streams) (n : Int)
    (r : ElectionData) :
    (∀ tx player updated, applyVote platform tx r player = .ok updated →
      Invertible platform n r.cipher → Invertible platform n updated.pubKey) ∧
    ∀ votes final, voteAll platform r votes = .ok final → InvertibleRecord platform n r →
      InvertibleRecord platform n final ∧
        ∀ field ∈ [final.cipher, final.pubKey], Recoverable platform n field := by
  constructor
  · intro tx player updated h _
    exact invertible_of_empty (applyVote_empty hjava h).2.2.2
  · intro votes final h hr
    have hfinal := voteAll_invertible hjava h hr
    exact ⟨hfinal, fun field hfield => (hfinal field hfield).recoverable⟩

/-! ### Java's streams -/

namespace ObjectStreams

/-- The tagged streams, with the check of the classes in `writeObject`. -/
def java : ObjectStreams where
  writeObject o :=
    if o.graph.all JavaClass.implementsSerializable then tagged.writeObject o
    else .error .notSerializableException
  readObject := tagged.readObject
  readObject_writeObject o bs h := by
    split at h
    · exact tagged.readObject_writeObject o bs h
    · simp at h
  header_of_readObject := tagged.header_of_readObject

theorem java_throws : ThrowsNotSerializable java := by
  intro o
  show (if o.graph.all JavaClass.implementsSerializable then tagged.writeObject o
    else .error .notSerializableException) = .error .notSerializableException ↔ _
  split
  · rename_i hall
    simp only [List.all_eq_true] at hall
    constructor
    · intro h
      simp [tagged] at h
    · rintro ⟨c, hc, hnot⟩
      rw [hall c hc] at hnot
      simp at hnot
  · rename_i hnot
    simpa using hnot

end ObjectStreams

/-- The reference platform with the check of the classes. -/
def Platform.javaReference : Platform := ⟨Utf8.standard, recordedSha512, .java⟩

theorem isCreate_javaReference (name : JString) :
    IsCreate .javaReference KeyPair.reference.publicKey name (createReference name) :=
  ⟨referenceText (.publicKey KeyPair.reference.publicKey.toObject), rfl, carries_reference ..⟩

/-- The text of an empty array. -/
def emptyArray : JString := referenceText (.cipherTexts [])

theorem writeBase64_emptyArray :
    Platform.javaReference.streams.writeBase64 (.cipherTexts []) = .ok emptyArray := rfl

theorem readCipherTexts_emptyArray :
    Platform.javaReference.streams.readCipherTexts emptyArray = .ok (some []) := by
  rw [ObjectStreams.readCipherTexts,
    ObjectStreams.readBase64_of_writeBase64 _ writeBase64_emptyArray]

/-- An empty ballot for a record of empty arrays is accepted, and leaves it as it was. -/
theorem applyVote_emptyArray (name player : JString) :
    applyVote .javaReference ⟨name, "vote".toList, emptyArray⟩ ⟨name, emptyArray, emptyArray⟩ player
      = .ok ⟨name, emptyArray, emptyArray⟩ := by
  simp only [applyVote, readCipherTexts_emptyArray, catching_ok, deref, ok_bind, ne_eq,
    not_true_eq_false, if_false, addBallot, writeBase64_emptyArray, electionDataToString,
    List.not_mem_nil, pure_eq_ok]

/-- Two accepted votes. -/
theorem votes_keep_invertible_emptyArray : ∃ final,
    voteAll .javaReference ⟨"mayor".toList, emptyArray, emptyArray⟩
      [(⟨"mayor".toList, "vote".toList, emptyArray⟩, "alice".toList),
        (⟨"mayor".toList, "vote".toList, emptyArray⟩, "bob".toList)] = .ok final ∧
    InvertibleRecord .javaReference 35 final ∧
    ∀ field ∈ [final.cipher, final.pubKey], Recoverable .javaReference 35 field := by
  have hrun : voteAll .javaReference ⟨"mayor".toList, emptyArray, emptyArray⟩
      [(⟨"mayor".toList, "vote".toList, emptyArray⟩, "alice".toList),
        (⟨"mayor".toList, "vote".toList, emptyArray⟩, "bob".toList)]
      = .ok ⟨"mayor".toList, emptyArray, emptyArray⟩ := by
    simp only [voteAll, List.foldlM_cons, List.foldlM_nil, applyVote_emptyArray, ok_bind,
      pure_eq_ok]
  have hstart : InvertibleRecord .javaReference 35 ⟨"mayor".toList, emptyArray, emptyArray⟩ := by
    simpa [InvertibleRecord] using invertible_of_empty readCipherTexts_emptyArray
  exact ⟨_, hrun, (votes_keep_invertible ObjectStreams.java_throws 35 _).2 _ _ hrun hstart⟩

/-- "mayor" is acceptable and unused, and a `create` of it is not accepted. -/
theorem create_never_accepted_mayor :
    ¬CreateAccepted .javaReference (createReference "mayor".toList) Context.empty "mayor".toList
      KeyPair.reference.publicKey :=
  create_never_accepted ObjectStreams.java_throws plainName_mayor
    (isCreate_javaReference "mayor".toList) Context.empty

/-- The first transaction of all, a `create` that meets every assumption, is refused. -/
theorem not_createAccepted_empty :
    ThrowsNotSerializable Platform.javaReference.streams ∧ PlainName "mayor".toList ∧
      (storedRecord .javaReference Context.empty "mayor".toList).cipher = [] ∧
      IsCreate .javaReference KeyPair.reference.publicKey "mayor".toList
        (createReference "mayor".toList) ∧
      ¬CreateAccepted .javaReference (createReference "mayor".toList) Context.empty "mayor".toList
        KeyPair.reference.publicKey := by
  refine ⟨ObjectStreams.java_throws, plainName_mayor, rfl, isCreate_javaReference _, ?_⟩
  exact not_createAccepted_of_refused
    (create_refused ObjectStreams.java_throws plainName_mayor (isCreate_javaReference _) rfl)

end Evoting

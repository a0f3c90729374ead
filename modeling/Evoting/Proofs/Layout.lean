/-
What a vote does to the layout of a record.

`applyVote` reads the ciphertexts in the second field of a record and puts the new ones
in the third, with the key where the ciphertexts were.  `electionDataToString` then
reads the second field again before the record is returned, and on a record laid out as
`getStateData` names the fields it finds the key there (`applyVote_laidOut`).  The cast
to `PaillierCipherText[]` fails, no `catch` is for that, and not even one vote can be
applied.
-/
import Evoting.Proofs.Ballots

namespace Evoting

variable {platform : Platform} {r : ElectionData}

/-- The fields of a record are what their names say: an array of ciphertexts and a key. -/
structure LaidOut (platform : Platform) (r : ElectionData) : Prop where
  cipher : ∃ cs, platform.streams.readCipherTexts r.cipher = .ok (some cs)
  pubKey : ∃ pk, platform.streams.readPublicKey r.pubKey = .ok (some pk)

/-- A vote has left the name and the key as they were, and added its ballot to the
ciphertexts. -/
structure KeepsLayout (platform : Platform) (tx : TransactionData) (r updated : ElectionData) :
    Prop where
  electionName : updated.electionName = r.electionName
  pubKey : updated.pubKey = r.pubKey
  cipher : ∃ stateCiphers ciphers sum,
    platform.streams.readCipherTexts r.cipher = .ok (some stateCiphers) ∧
    platform.streams.readCipherTexts tx.ballotOrKey = .ok (some ciphers) ∧
    addBallot stateCiphers ciphers = .ok sum ∧
    platform.streams.readCipherTexts updated.cipher = .ok (some sum)

/-- The votes can be applied one after another, each with the player that cast it, and
each keeps the layout of the record it is applied to. -/
def VotesKeepLayout (platform : Platform) : ElectionData → List (TransactionData × JString) → Prop
  | _, [] => True
  | r, vote :: votes => ∃ updated, applyVote platform vote.1 r vote.2 = .ok updated ∧
      KeepsLayout platform vote.1 r updated ∧ VotesKeepLayout platform updated votes

/-! ### One vote -/

/-- A text that is read as a key is not an array of ciphertexts. -/
theorem readCipherTexts_of_readPublicKey {streams : ObjectStreams} {field : JString}
    {pk : PublicKeyObject} (h : streams.readPublicKey field = .ok (some pk)) :
    streams.readCipherTexts field = .error .classCast := by
  unfold ObjectStreams.readPublicKey at h
  unfold ObjectStreams.readCipherTexts
  split at h
  · simp at h
  · simp at h
  · rename_i hread
    rw [hread]
  · simp at h

/-- With the key in its second field a record cannot be written out. -/
theorem electionDataToString_of_readPublicKey {updated : ElectionData} {pk : PublicKeyObject}
    (h : platform.streams.readPublicKey updated.cipher = .ok (some pk)) :
    electionDataToString platform updated = .error .classCast := by
  unfold electionDataToString
  rw [readCipherTexts_of_readPublicKey h]

/-- **The layout is lost at once.** A ballot of the right size that can be added and
written ends in a `ClassCastException`. -/
theorem applyVote_laidOut {tx : TransactionData} {player : JString}
    {stateCiphers ciphers sum : List (Option CipherTextObject)} {pk : PublicKeyObject}
    {text : JString} (hpubKey : platform.streams.readPublicKey r.pubKey = .ok (some pk))
    (hstate : platform.streams.readCipherTexts r.cipher = .ok (some stateCiphers))
    (hballot : platform.streams.readCipherTexts tx.ballotOrKey = .ok (some ciphers))
    (hlen : stateCiphers.length = ciphers.length) (hsum : addBallot stateCiphers ciphers = .ok sum)
    (hwrite : platform.streams.writeBase64 (.cipherTexts sum) = .ok text) :
    applyVote platform tx r player = .error .classCast := by
  have hstring : electionDataToString platform ⟨r.electionName, r.pubKey, text⟩
      = .error .classCast := electionDataToString_of_readPublicKey hpubKey
  simp only [applyVote, hballot, hstate, catching_ok, deref, ok_bind, hlen, ne_eq,
    not_true_eq_false, if_false, hsum, hwrite, hstring, error_bind]

/-- No vote is accepted on such a record, whatever its ballot. -/
theorem applyVote_ne_ok (hr : LaidOut platform r) {tx : TransactionData} {player : JString}
    {updated : ElectionData} : applyVote platform tx r player ≠ .ok updated := by
  intro h
  obtain ⟨stateCiphers, ciphers, sum, text, hstate, hballot, hlen, hsum, hwrite, -⟩ :=
    applyVote_ok h
  obtain ⟨pk, hpk⟩ := hr.pubKey
  rw [applyVote_laidOut hpk hstate hballot hlen hsum hwrite] at h
  simp at h

/-! ### Votes one after another -/

/-- **Votes can be applied one after another exactly when there are none.** -/
theorem votesKeepLayout_iff (hr : LaidOut platform r) (votes : List (TransactionData × JString)) :
    VotesKeepLayout platform r votes ↔ votes = [] := by
  constructor
  · intro h
    cases votes with
    | nil => rfl
    | cons vote votes =>
        obtain ⟨updated, haccepted, -⟩ := h
        exact absurd haccepted (applyVote_ne_ok hr)
  · rintro rfl
    trivial

/-- The record of an election with no votes, laid out as its fields are named. -/
def laidOutRecord : ElectionData :=
  ⟨"mayor".toList, referenceArray [1, 1, 1, 1, 1],
    referenceText (.publicKey KeyPair.reference.publicKey.toObject)⟩

theorem laidOut_laidOutRecord : LaidOut .reference laidOutRecord where
  cipher := ⟨_, readCipherTexts_referenceArray _⟩
  pubKey := ⟨KeyPair.reference.publicKey.toObject, by
    rw [ObjectStreams.readPublicKey, laidOutRecord, readBase64_reference]⟩

theorem votesKeepLayout_laidOutRecord : VotesKeepLayout .reference laidOutRecord [] :=
  (votesKeepLayout_iff laidOut_laidOutRecord []).mpr rfl

/-- One ballot of five ciphertexts cannot be applied: the cast of the key fails. -/
theorem not_votesKeepLayout_oneVote :
    LaidOut .reference laidOutRecord ∧
      addBallot (arrayOf KeyPair.reference.publicKey [1, 1, 1, 1, 1])
          (arrayOf KeyPair.reference.publicKey [2, 3, 4, 6, 8])
        = .ok (arrayOf KeyPair.reference.publicKey [2, 3, 4, 6, 8]) ∧
      applyVote .reference ⟨"mayor".toList, "vote".toList, referenceArray [2, 3, 4, 6, 8]⟩
        laidOutRecord [] = .error .classCast ∧
      ¬VotesKeepLayout .reference laidOutRecord
        [(⟨"mayor".toList, "vote".toList, referenceArray [2, 3, 4, 6, 8]⟩, [])] := by
  have hsum : addBallot (arrayOf KeyPair.reference.publicKey [1, 1, 1, 1, 1])
      (arrayOf KeyPair.reference.publicKey [2, 3, 4, 6, 8])
        = .ok (arrayOf KeyPair.reference.publicKey [2, 3, 4, 6, 8]) :=
    addBallot_arrayOf (by decide) rfl
  obtain ⟨pk, hpk⟩ := laidOut_laidOutRecord.pubKey
  refine ⟨laidOut_laidOutRecord, hsum, ?_, ?_⟩
  · exact applyVote_laidOut hpk (readCipherTexts_referenceArray _)
      (readCipherTexts_referenceArray _) rfl hsum (writeBase64_reference _)
  · rintro ⟨updated, haccepted, -⟩
    exact applyVote_ne_ok laidOut_laidOutRecord haccepted

end Evoting

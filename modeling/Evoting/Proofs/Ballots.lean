/-
What a vote does to the array it is added to.

`applyVote` checks the length of a ballot and nothing else of it, so a ballot may
carry any integers under any keys.  `addBallot_objects` says what the loop makes of
it: each stored text is multiplied by the ballot's, modulo the stored key's `nSquared`.
`applyVote_ok` is the inversion lemma: the two last fields of the record change places.
-/
import Evoting.Proofs.Handler

namespace Evoting

variable {platform : Platform}

/-- An array of ciphertexts under one key, with these texts. -/
def arrayOf (pk : PaillierPublicKey) (texts : List Int) : List (Option CipherTextObject) :=
  texts.map fun text => some (PaillierCipherText.toObject ⟨text, pk⟩)

/-- The text an element of an array carries, whatever its key. -/
def textOf (c : Option CipherTextObject) : Option Int := c.bind CipherTextObject.text

/-- The array of these ciphertexts. -/
def objects (cs : List PaillierCipherText) : List (Option CipherTextObject) :=
  cs.map fun c => some c.toObject

/-- The texts of a ballot, whatever its keys. -/
def textsOf (ballot : List (Option CipherTextObject)) : List Int :=
  ballot.map fun c => (textOf c).getD 0

/-- Each ciphertext multiplied by a text, under its own key. -/
def scaled (cs : List PaillierCipherText) (texts : List Int) : List PaillierCipherText :=
  List.zipWith (fun c text => ⟨c.text * text % c.publicKey.nSquared, c.publicKey⟩) cs texts

/-- The keys of the array have a modulus. -/
def HaveModulus (cs : List PaillierCipherText) : Prop := ∀ c ∈ cs, 0 < c.publicKey.nSquared

/-! ### Adding a ballot -/

theorem hAdd_toObject {c : PaillierCipherText} (hpos : 0 < c.publicKey.nSquared)
    {toAdd : CipherTextObject} {text : Int} (htext : toAdd.text = some text) :
    c.toObject.hAdd toAdd = .ok (PaillierCipherText.toObject
      ⟨c.text * text % c.publicKey.nSquared, c.publicKey⟩) := by
  simp only [CipherTextObject.hAdd, PaillierCipherText.toObject, PaillierPublicKey.toObject,
    htext, deref, ok_bind, BigInteger.mod_of_pos hpos, pure_eq_ok]

/-- **Adding a ballot** multiplies, if it has a text everywhere. -/
theorem addBallot_objects {cs : List PaillierCipherText} (hpos : HaveModulus cs)
    {ballot : List (Option CipherTextObject)} (hlen : ballot.length = cs.length)
    (htexts : ∀ c ∈ ballot, (textOf c).isSome) :
    addBallot (objects cs) ballot = .ok (objects (scaled cs (textsOf ballot))) := by
  induction cs generalizing ballot with
  | nil =>
      obtain rfl := List.length_eq_zero_iff.mp hlen
      rfl
  | cons c cs ih =>
      obtain ⟨b, ballot, rfl⟩ := List.exists_cons_of_length_pos (by rw [hlen]; simp)
      obtain ⟨text, htext⟩ := Option.isSome_iff_exists.mp (htexts b (by simp))
      obtain ⟨b, rfl, hb⟩ := Option.bind_eq_some_iff.mp htext
      have hrest := ih (fun c' hc' => hpos c' (by simp [hc'])) (by simpa using hlen)
        fun c' hc' => htexts c' (by simp [hc'])
      have hhead := hAdd_toObject (hpos c (by simp)) hb
      simp only [objects, List.map_cons] at hrest ⊢
      rw [addBallot, deref, ok_bind, deref, ok_bind, hhead, ok_bind, hrest, ok_bind]
      simp [scaled, textsOf, textOf, hb]

theorem objects_map (pk : PaillierPublicKey) (texts : List Int) :
    objects (texts.map fun text => ⟨text, pk⟩) = arrayOf pk texts := by
  simp [objects, arrayOf]

/-- A ballot under any key is added, text by text. -/
theorem addBallot_arrayOf {pk other : PaillierPublicKey} (hpos : 0 < pk.nSquared)
    {texts ballotTexts : List Int} (hlen : texts.length = ballotTexts.length) :
    addBallot (arrayOf pk texts) (arrayOf other ballotTexts) = .ok (arrayOf pk
      (List.zipWith (fun text b => text * b % pk.nSquared) texts ballotTexts)) := by
  have hmodulus : HaveModulus (texts.map fun text => ⟨text, pk⟩) := by
    simpa [HaveModulus] using fun _ _ => hpos
  have htexts : textsOf (arrayOf other ballotTexts) = ballotTexts := by
    simp [textsOf, arrayOf, textOf, PaillierCipherText.toObject, Function.comp_def]
  have hscaled : scaled (texts.map fun text => ⟨text, pk⟩) ballotTexts
      = (List.zipWith (fun text b => text * b % pk.nSquared) texts ballotTexts).map
          fun text => ⟨text, pk⟩ := by
    rw [scaled, List.zipWith_map_left, List.map_zipWith]
  rw [← objects_map, addBallot_objects hmodulus (by simp [arrayOf, hlen])
    (by simp [arrayOf, textOf, PaillierCipherText.toObject]), htexts, hscaled, objects_map]

/-- The sum has an element for every pair of elements, and none of its elements is null. -/
theorem addBallot_ok {cs ballot sum : List (Option CipherTextObject)}
    (h : addBallot cs ballot = .ok sum) :
    sum.length = min cs.length ballot.length ∧ ∀ c ∈ sum, c ≠ none := by
  induction cs generalizing ballot sum with
  | nil =>
      obtain rfl : [] = sum := Except.ok.inj h
      simp
  | cons c cs ih =>
      cases ballot with
      | nil =>
          obtain rfl : [] = sum := Except.ok.inj h
          simp
      | cons b ballot =>
          obtain ⟨_, -, h⟩ := bind_eq_ok_iff.mp h
          obtain ⟨_, -, h⟩ := bind_eq_ok_iff.mp h
          obtain ⟨total, -, h⟩ := bind_eq_ok_iff.mp h
          obtain ⟨rest, hrest, h⟩ := bind_eq_ok_iff.mp h
          obtain rfl := Except.ok.inj h
          obtain ⟨hlen, hsome⟩ := ih hrest
          exact ⟨by simp [hlen, Nat.add_min_add_right], by simpa using hsome⟩

/-! ### One vote -/

/-- **What an accepted vote does to a record.** -/
theorem applyVote_ok {tx : TransactionData} {r updated : ElectionData} {player : JString}
    (h : applyVote platform tx r player = .ok updated) :
    ∃ stateCiphers ciphers sum text,
      platform.streams.readCipherTexts r.cipher = .ok (some stateCiphers) ∧
      platform.streams.readCipherTexts tx.ballotOrKey = .ok (some ciphers) ∧
      stateCiphers.length = ciphers.length ∧ addBallot stateCiphers ciphers = .ok sum ∧
      platform.streams.writeBase64 (.cipherTexts sum) = .ok text ∧
      updated = ⟨r.electionName, r.pubKey, text⟩ := by
  obtain ⟨ciphers, hciphers, h⟩ := bind_eq_ok_iff.mp h
  obtain ⟨stateCiphers, hstate, h⟩ := bind_eq_ok_iff.mp h
  obtain ⟨stateCiphers', hderef, h⟩ := bind_eq_ok_iff.mp h
  obtain ⟨ciphers', hderef', h⟩ := bind_eq_ok_iff.mp h
  cases stateCiphers with
  | none => simp [deref] at hderef
  | some stateCiphers =>
      cases ciphers with
      | none => simp [deref] at hderef'
      | some ciphers =>
          obtain rfl : stateCiphers = stateCiphers' := Except.ok.inj hderef
          obtain rfl : ciphers = ciphers' := Except.ok.inj hderef'
          split at h
          · simp at h
          · rename_i hlen
            obtain ⟨sum, hsum, h⟩ := bind_eq_ok_iff.mp h
            split at h
            · simp at h
            · rename_i text htext
              obtain ⟨⟨⟩, -, h⟩ := bind_eq_ok_iff.mp h
              exact ⟨stateCiphers, ciphers, sum, text, catching_eq_ok hstate,
                catching_eq_ok hciphers, not_not.mp hlen, hsum, htext, (Except.ok.inj h).symm⟩

/-! ### Arrays on the reference platform -/

/-- The text of an array under the reference key. -/
def referenceArray (texts : List Int) : JString :=
  referenceText (.cipherTexts (arrayOf KeyPair.reference.publicKey texts))

theorem readCipherTexts_referenceArray (texts : List Int) :
    Platform.reference.streams.readCipherTexts (referenceArray texts)
      = .ok (some (arrayOf KeyPair.reference.publicKey texts)) := by
  rw [ObjectStreams.readCipherTexts, referenceArray, readBase64_reference]

end Evoting

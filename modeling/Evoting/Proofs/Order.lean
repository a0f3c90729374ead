/-
The order of the votes does not matter to the stored ciphertexts.

`hAdd` is not symmetric: it keeps the key of its left operand, and reduces modulo that
key's `nSquared` whatever the right operand is.  What the loop of `applyVote` does to
the stored array is therefore a multiplication of each text, and two multiplications
of one array can change places (`scaled_right_comm`); that is all a permutation of
the ballots needs.
-/
import Evoting.Proofs.Ballots

namespace Evoting

theorem scaled_right_comm (cs : List PaillierCipherText) (xs ys : List Int) :
    scaled (scaled cs xs) ys = scaled (scaled cs ys) xs := by
  induction cs generalizing xs ys with
  | nil => rfl
  | cons c cs ih =>
      cases xs with
      | nil => cases ys <;> rfl
      | cons x xs =>
          cases ys with
          | nil => rfl
          | cons y ys =>
              have hhead : c.text * x % c.publicKey.nSquared * y % c.publicKey.nSquared
                  = c.text * y % c.publicKey.nSquared * x % c.publicKey.nSquared := by
                refine ((Int.mod_modEq _ _).mul_right y).trans ?_
                rw [Int.mul_right_comm]
                exact ((Int.mod_modEq _ _).mul_right x).symm
              have hrest := ih xs ys
              unfold scaled at hrest ⊢
              simp only [List.zipWith_cons_cons, hhead, hrest]

theorem length_scaled {cs : List PaillierCipherText} {texts : List Int}
    (hlen : texts.length = cs.length) : (scaled cs texts).length = cs.length := by
  rw [scaled, List.length_zipWith, hlen, Nat.min_self]

theorem HaveModulus.scaled {cs : List PaillierCipherText} (h : HaveModulus cs)
    (texts : List Int) : HaveModulus (scaled cs texts) := by
  intro c hc
  obtain ⟨i, hi, rfl⟩ := List.getElem_of_mem hc
  simp only [Evoting.scaled, List.getElem_zipWith]
  exact h _ (List.getElem_mem _)

/-- Each ciphertext multiplied by its texts in some ballots. -/
def counted (cs : List PaillierCipherText) (ballots : List (List (Option CipherTextObject))) :
    List PaillierCipherText :=
  ballots.foldl (fun cs ballot => scaled cs (textsOf ballot)) cs

/-- **The loop over the ballots**, one after the other. -/
theorem foldlM_addBallot {cs : List PaillierCipherText} (hpos : HaveModulus cs)
    {ballots : List (List (Option CipherTextObject))}
    (hballots : ∀ ballot ∈ ballots, ballot.length = cs.length ∧ ∀ c ∈ ballot, (textOf c).isSome) :
    ballots.foldlM addBallot (objects cs) = .ok (objects (counted cs ballots)) := by
  induction ballots generalizing cs with
  | nil => rfl
  | cons ballot ballots ih =>
      obtain ⟨hlen, htexts⟩ := hballots ballot (by simp)
      have hlen' : (scaled cs (textsOf ballot)).length = cs.length :=
        length_scaled (by rw [textsOf, List.length_map, hlen])
      rw [List.foldlM_cons, addBallot_objects hpos hlen htexts, ok_bind,
        ih (hpos.scaled _) fun b hb => hlen' ▸ hballots b (by simp [hb])]
      rfl

theorem counted_perm (cs : List PaillierCipherText)
    {ballots ballots' : List (List (Option CipherTextObject))} (hperm : ballots.Perm ballots') :
    counted cs ballots = counted cs ballots' :=
  hperm.foldl_eq' (fun _ _ _ _ cs => scaled_right_comm cs _ _) cs

/-- **Ballots in any order give the same array**: the same texts under the same keys, each stored
text multiplied by those of all the ballots. -/
theorem ballots_in_any_order {initial : List PaillierCipherText}
    (hpos : ∀ c ∈ initial, 0 < c.publicKey.nSquared)
    {ballots ballots' : List (List (Option CipherTextObject))}
    (hballots : ∀ ballot ∈ ballots,
      ballot.length = initial.length ∧ ∀ c ∈ ballot, (textOf c).isSome)
    (hperm : ballots.Perm ballots') :
    ballots.foldlM addBallot (objects initial) = .ok (objects (counted initial ballots)) ∧
      ballots'.foldlM addBallot (objects initial) = .ok (objects (counted initial ballots)) := by
  have hballots' : ∀ ballot ∈ ballots',
      ballot.length = initial.length ∧ ∀ c ∈ ballot, (textOf c).isSome :=
    fun ballot hballot => hballots ballot (hperm.mem_iff.mpr hballot)
  refine ⟨foldlM_addBallot hpos hballots, ?_⟩
  rw [foldlM_addBallot hpos hballots', counted_perm initial hperm]

/-- A ballot of negative and unreduced texts under a foreign key, and one without keys. -/
def foreignBallots : List (List (Option CipherTextObject)) :=
  [arrayOf ⟨6, 35, 0, 36⟩ [-2, 5000], [some ⟨some 3, none⟩, some ⟨some 0, none⟩]]

/-- 1 · (-2) · 3 modulo 1225, and a zero. -/
theorem ballots_in_any_order_foreign :
    foreignBallots.foldlM addBallot (objects [⟨1, KeyPair.reference.publicKey⟩,
      ⟨1300, KeyPair.reference.publicKey⟩])
        = .ok (objects [⟨1219, KeyPair.reference.publicKey⟩,
          ⟨0, KeyPair.reference.publicKey⟩]) ∧
    foreignBallots.reverse.foldlM addBallot (objects [⟨1, KeyPair.reference.publicKey⟩,
      ⟨1300, KeyPair.reference.publicKey⟩])
        = .ok (objects [⟨1219, KeyPair.reference.publicKey⟩,
          ⟨0, KeyPair.reference.publicKey⟩]) := by
  have hcounted : counted [⟨1, KeyPair.reference.publicKey⟩, ⟨1300, KeyPair.reference.publicKey⟩]
      foreignBallots = [⟨1219, KeyPair.reference.publicKey⟩, ⟨0, KeyPair.reference.publicKey⟩] := by
    decide
  rw [← hcounted]
  exact ballots_in_any_order (by decide) (by decide) (List.reverse_perm _).symm

end Evoting

/-
Adding ciphertexts adds plaintexts, however many there are.

`hAdd` and `Election.homomorphicAdd` are one multiplication modulo `nSquared`, the
first with a key attached (`foldlM_hAdd`).  A fold of either is a product, and the
logarithm that decryption takes turns the product into the sum.  Nothing here is about
how the factors came about: any integers without a factor in common with `n` will do.
-/
import Evoting.Proofs.Decrypt
import Evoting.Proofs.Tally

namespace Evoting

open Election

variable {k : KeyPair} {p q : ℕ} {w : World}

/-- A fold of `hAdd` is a fold of `homomorphicAdd` with the key attached. -/
theorem foldlM_hAdd (hkey : w.electionKeyPair = some k) (cs : List PaillierCipherText)
    (start : Int) : cs.foldlM PaillierCipherText.hAdd ⟨start, k.publicKey⟩
      = ((cs.map (·.text)).foldlM (homomorphicAdd w) start).map fun t => ⟨t, k.publicKey⟩ := by
  induction cs generalizing start with
  | nil => rfl
  | cons c cs ih =>
      rw [List.map_cons, List.foldlM_cons, List.foldlM_cons, PaillierCipherText.hAdd,
        homomorphicAdd, hkey, deref, ok_bind]
      cases BigInteger.mod (start * c.text) k.publicKey.nSquared with
      | error e => rfl
      | ok t => exact ih t

/-- **The total of a fold decrypts to the sum** of the plaintexts of its terms, the start
included. -/
theorem homomorphicAdd_reveals (hk : k.IsPair p q) (hbound : k.upperBound = none)
    (hkey : w.electionKeyPair = some k) (start : Int) {texts : List Int}
    (hcoprime : ∀ c ∈ start :: texts, IsCoprime c k.publicKey.n) :
    ∃ total, texts.foldlM (homomorphicAdd w) start = .ok total ∧
      k.decrypt total = .ok (((start :: texts).map k.plaintext).sum % k.publicKey.n) := by
  obtain ⟨total, htotal, hmod⟩ := foldlM_homomorphicAdd hkey hk.valid.nSquared_pos texts start
  obtain ⟨hprod, hsum⟩ := hk.valid.plaintext_prod hcoprime
  rw [List.prod_cons] at hprod hsum
  refine ⟨total, htotal, ?_⟩
  rw [hk.valid.decrypt_of_unbounded hbound (hk.valid.isCoprime_of_modEq hmod hprod),
    hk.valid.plaintext_congr hmod, hsum]

/-- The empty ciphertext adds nothing. -/
theorem sum_plaintext_one (hk : k.IsPair p q) (texts : List Int) :
    ((1 :: texts).map k.plaintext).sum ≡ (texts.map k.plaintext).sum [ZMOD k.publicKey.n] := by
  have hzero : k.plaintext 1 ≡ 0 [ZMOD k.publicKey.n] := by
    refine (k.plaintext_modEq 1).trans ?_
    have hlog : k.residueLog 1 ≡ 0 [ZMOD k.publicKey.n] := Residue.log_one hk.valid.n_pos.ne'
    simpa using hlog.mul_right k.privateKey.preCalculatedDenominator
  simpa using hzero.add_right (texts.map k.plaintext).sum

/-- **The sum of any list of ciphertexts**, the empty one included: folding `hAdd` from the
empty ciphertext, and folding `homomorphicAdd` from one or from the first of the integers. -/
theorem homomorphic_sum (hk : k.IsPair p q) (hbound : k.upperBound = none)
    (hkey : w.electionKeyPair = some k) {cs : List PaillierCipherText}
    (hcs : ∀ c ∈ cs, IsCoprime c.text k.publicKey.n) :
    ∃ plaintexts, cs.mapM k.decryptCipherText = .ok plaintexts ∧
      (∃ total, cs.foldlM PaillierCipherText.hAdd k.publicKey.getEmptyCipherText = .ok total ∧
        k.decryptCipherText total = .ok (plaintexts.sum % k.publicKey.n) ∧
        revealCipherText w total = .ok (plaintexts.sum % k.publicKey.n)) ∧
      (∃ total, (cs.map (·.text)).foldlM (homomorphicAdd w) 1 = .ok total ∧
        revealResult w total = .ok (plaintexts.sum % k.publicKey.n)) ∧
      ∀ first rest, cs.map (·.text) = first :: rest →
        ∃ total, rest.foldlM (homomorphicAdd w) first = .ok total ∧
          revealResult w total = .ok (plaintexts.sum % k.publicKey.n) := by
  have htexts : ∀ c ∈ cs.map (·.text), IsCoprime c k.publicKey.n := by
    intro c hc
    obtain ⟨cipher, hcipher, rfl⟩ := List.mem_map.mp hc
    exact hcs cipher hcipher
  have hplain : cs.mapM k.decryptCipherText = .ok ((cs.map (·.text)).map k.plaintext) := by
    rw [List.map_map]
    exact mapM_eq_ok fun c hc => hk.valid.decrypt_of_unbounded hbound (hcs c hc)
  have hreveal : ∀ total, revealResult w total = k.decrypt total := by
    intro total
    rw [revealResult, hkey, deref, ok_bind]
  -- both folds from one
  obtain ⟨total, htotal, hdecrypt⟩ := homomorphicAdd_reveals hk hbound hkey
    1 (List.forall_mem_cons.mpr ⟨isCoprime_one_left, htexts⟩)
  rw [(sum_plaintext_one hk _).eq] at hdecrypt
  refine ⟨_, hplain, ⟨⟨total, k.publicKey⟩, ?_, hdecrypt, ?_⟩,
    ⟨total, htotal, (hreveal total).trans hdecrypt⟩, ?_⟩
  · rw [PaillierPublicKey.getEmptyCipherText, foldlM_hAdd hkey, htotal]
    rfl
  · rw [revealCipherText, hkey, deref, ok_bind]
    exact hdecrypt
  · intro first rest hsplit
    rw [hsplit] at htexts ⊢
    obtain ⟨total', htotal', hdecrypt'⟩ := homomorphicAdd_reveals hk hbound hkey first htexts
    exact ⟨total', htotal', (hreveal total').trans hdecrypt'⟩

/-- Three ciphertexts, one of them negative and under another key. -/
def referenceCiphers : List PaillierCipherText :=
  [⟨648, KeyPair.reference.publicKey⟩, ⟨-18, ⟨6, 1, 0, 2⟩⟩, ⟨1999, KeyPair.reference.publicKey⟩]

theorem coprime_referenceCiphers :
    ∀ c ∈ referenceCiphers, IsCoprime c.text KeyPair.reference.publicKey.n := by
  simp only [referenceCiphers, List.forall_mem_cons, Int.isCoprime_iff_gcd_eq_one]
  decide

theorem homomorphic_sum_reference : ∃ plaintexts total,
    referenceCiphers.mapM KeyPair.reference.decryptCipherText = .ok plaintexts ∧
    (referenceCiphers.map (·.text)).foldlM (homomorphicAdd referenceElection) 1 = .ok total ∧
    revealResult referenceElection total = .ok (plaintexts.sum % 35) := by
  obtain ⟨plaintexts, hplaintexts, -, ⟨total, htotal, hreveal⟩, -⟩ :=
    homomorphic_sum isPair_reference rfl (w := referenceElection) rfl coprime_referenceCiphers
  exact ⟨plaintexts, total, hplaintexts, htotal, hreveal⟩

end Evoting

/-
Decryption is a logarithm.

`KeyPair.Valid` is what key generation establishes: distinct primes, and a
generator whose logarithm modulo `n` the private key inverts.  Under it
`decrypt` is the logarithm of `Residue`, scaled, so it turns products of
ciphertexts into sums modulo `n` (`plaintext_prod`).
-/
import Evoting.Lib.Residue
import Evoting.Model.Reference

namespace Evoting

open Residue

namespace KeyPair

/-- A key pair of the primes `p` and `q`. -/
structure Valid (k : KeyPair) (p q : ℕ) : Prop where
  prime_left : p.Prime
  prime_right : q.Prime
  ne : p ≠ q
  n_eq : k.publicKey.n = p * q
  nSquared_eq : k.publicKey.nSquared = k.publicKey.n * k.publicKey.n
  lambda_eq : k.privateKey.lambda = Nat.lcm (p - 1) (q - 1)
  generator : IsCoprime k.publicKey.g k.publicKey.n
  denominator : log k.publicKey.n k.privateKey.lambda.toNat k.publicKey.g
      * k.privateKey.preCalculatedDenominator ≡ 1 [ZMOD k.publicKey.n]

/-- The logarithm decryption takes. -/
def residueLog (k : KeyPair) (c : Int) : Int :=
  log k.publicKey.n k.privateKey.lambda.toNat c

/-- The residue decryption finds. -/
def plaintext (k : KeyPair) (c : Int) : Int :=
  k.residueLog c * k.privateKey.preCalculatedDenominator % k.publicKey.n

theorem plaintext_modEq (k : KeyPair) (c : Int) : k.plaintext c
    ≡ k.residueLog c * k.privateKey.preCalculatedDenominator [ZMOD k.publicKey.n] :=
  Int.mod_modEq _ _

theorem sum_plaintext_modEq (k : KeyPair) (cs : List Int) : (cs.map k.plaintext).sum
    ≡ (cs.map fun c => k.residueLog c * k.privateKey.preCalculatedDenominator).sum
      [ZMOD k.publicKey.n] := by
  induction cs with
  | nil => rfl
  | cons c cs ih =>
      simp only [List.map_cons, List.sum_cons]
      exact (k.plaintext_modEq c).add ih

/-- A plaintext as `decrypt` hands it out: `p` or, above the bound, `p - n`. -/
def withBound (k : KeyPair) (p : Int) : Int :=
  match k.upperBound with
  | none => p
  | some upperBound => if p > upperBound then p - k.publicKey.n else p

theorem withBound_modEq (k : KeyPair) (p : Int) : k.withBound p ≡ p [ZMOD k.publicKey.n] := by
  unfold withBound
  split
  · rfl
  · split
    · simp
    · rfl

namespace Valid

variable {k : KeyPair} {p q : ℕ} (h : k.Valid p q)
include h

theorem n_pos : 0 < k.publicKey.n := by
  rw [h.n_eq]
  exact_mod_cast Nat.mul_pos h.prime_left.pos h.prime_right.pos

theorem nSquared_pos : 0 < k.publicKey.nSquared := by
  rw [h.nSquared_eq]
  exact Int.mul_pos h.n_pos h.n_pos

theorem lambda_nonneg : 0 ≤ k.privateKey.lambda := by
  rw [h.lambda_eq]
  exact Int.natCast_nonneg _

theorem dvd_lambda_left : p - 1 ∣ k.privateKey.lambda.toNat := by
  rw [h.lambda_eq]
  exact Nat.dvd_lcm_left _ _

theorem dvd_lambda_right : q - 1 ∣ k.privateKey.lambda.toNat := by
  rw [h.lambda_eq]
  exact Nat.dvd_lcm_right _ _

/-- Every number without a factor in common with `n` has a logarithm. -/
theorem pow_modEq_one {c : Int} (hc : IsCoprime c k.publicKey.n) :
    c ^ k.privateKey.lambda.toNat ≡ 1 [ZMOD k.publicKey.n] := by
  rw [h.n_eq] at hc ⊢
  exact pow_modEq_one_of_primes h.prime_left h.prime_right h.ne h.dvd_lambda_left
    h.dvd_lambda_right hc

/-- **What `decrypt` computes.** -/
theorem decrypt_eq {c : Int} (hc : IsCoprime c k.publicKey.n) :
    k.decrypt c = .ok (k.withBound (k.plaintext c)) := by
  have hexact := log_exact (h.pow_modEq_one hc)
  rw [← h.nSquared_eq] at hexact
  have hdiv : (c ^ k.privateKey.lambda.toNat % k.publicKey.nSquared - 1).tdiv k.publicKey.n
      = k.residueLog c := by
    rw [← hexact, Int.mul_tdiv_cancel_left _ h.n_pos.ne']
    rfl
  simp only [decrypt, BigInteger.modPow_of_nonneg h.nSquared_pos h.lambda_nonneg, ok_bind,
    BigInteger.divide_of_ne h.n_pos.ne', hdiv, BigInteger.mod_of_pos h.n_pos, withBound, plaintext]
  cases k.upperBound <;> rfl

/-- Without a bound the plaintext is the least residue. -/
theorem decrypt_of_unbounded {c : Int} (hbound : k.upperBound = none)
    (hc : IsCoprime c k.publicKey.n) : k.decrypt c = .ok (k.plaintext c) := by
  rw [h.decrypt_eq hc, withBound, hbound]

/-- The empty ciphertext decrypts to zero. -/
theorem decrypt_one : ∃ v, k.decrypt 1 = .ok v ∧ v ≡ 0 [ZMOD k.publicKey.n] := by
  refine ⟨_, h.decrypt_eq isCoprime_one_left, ?_⟩
  refine (k.withBound_modEq _).trans ((k.plaintext_modEq 1).trans ?_)
  simpa [residueLog] using (log_one h.n_pos.ne').mul_right k.privateKey.preCalculatedDenominator

theorem isCoprime_of_modEq {c d : Int} (hcd : c ≡ d [ZMOD k.publicKey.nSquared])
    (hd : IsCoprime d k.publicKey.n) : IsCoprime c k.publicKey.n := by
  obtain ⟨t, rfl⟩ := Int.modEq_iff_add_fac.mp hcd.symm
  rw [h.nSquared_eq, mul_assoc]
  exact (IsCoprime.add_mul_left_left_iff).mpr hd

theorem plaintext_congr {c d : Int} (hcd : c ≡ d [ZMOD k.publicKey.nSquared]) :
    k.plaintext c = k.plaintext d := by
  rw [h.nSquared_eq] at hcd
  rw [plaintext, plaintext, residueLog, residueLog, log_congr hcd]

/-- **A product decrypts to the sum of the plaintexts of its factors.** -/
theorem plaintext_prod {cs : List Int} (hcs : ∀ c ∈ cs, IsCoprime c k.publicKey.n) :
    IsCoprime cs.prod k.publicKey.n ∧
      k.plaintext cs.prod = (cs.map k.plaintext).sum % k.publicKey.n := by
  refine ⟨?_, ?_⟩
  · induction cs with
    | nil => exact isCoprime_one_left
    | cons c cs ih =>
        rw [List.prod_cons]
        exact (hcs c (by simp)).mul_left (ih fun d hd => hcs d (by simp [hd]))
  · have hlog := (log_prod h.n_pos.ne' fun c hc => h.pow_modEq_one (hcs c hc)).2
    refine Int.ModEq.eq ((hlog.mul_right k.privateKey.preCalculatedDenominator).trans ?_)
    rw [← List.sum_map_mul_right]
    exact (k.sum_plaintext_modEq cs).symm

/-- **The ciphertexts of a plaintext**: `c` decrypts to `m` exactly when it is an encryption
of `m`, that is `g ^ m * r ^ n` for some `r`. -/
theorem plaintext_modEq_iff {c : Int} (hc : IsCoprime c k.publicKey.n) (m : ℕ) :
    k.plaintext c ≡ m [ZMOD k.publicKey.n] ↔ ∃ r : Int, IsCoprime r k.publicKey.n ∧
      c ≡ k.publicKey.g ^ m * r ^ k.publicKey.n.toNat [ZMOD k.publicKey.nSquared] := by
  obtain ⟨hp, hq, hne, hn, hsq, -, hg, hden⟩ := id h
  have hlambda := h.dvd_lambda_left
  have hlambda' := h.dvd_lambda_right
  have hlogpow := log_pow h.n_pos.ne' (h.pow_modEq_one hg) m
  -- the denominator inverts the logarithm of the generator
  have hlogs : k.plaintext c ≡ m [ZMOD k.publicKey.n] ↔
      k.residueLog c ≡ log k.publicKey.n k.privateKey.lambda.toNat (k.publicKey.g ^ m)
        [ZMOD k.publicKey.n] := by
    constructor
    · intro hm
      have hscaled := ((k.plaintext_modEq c).symm.trans hm).mul_right
        (log k.publicKey.n k.privateKey.lambda.toNat k.publicKey.g)
      refine Int.ModEq.trans ?_ (hscaled.trans hlogpow.symm)
      have hone := (hden.mul_left (k.residueLog c)).symm
      rw [mul_one] at hone
      exact hone.trans (by rw [mul_assoc, mul_comm k.privateKey.preCalculatedDenominator])
    · intro hm
      refine (k.plaintext_modEq c).trans ((hm.trans hlogpow).mul_right _ |>.trans ?_)
      simpa [mul_assoc] using hden.mul_left (m : ℤ)
  have hinvertible : IsCoprime (log k.publicKey.n k.privateKey.lambda.toNat k.publicKey.g)
      k.publicKey.n := by
    obtain ⟨t, ht⟩ := hden.dvd
    exact ⟨k.privateKey.preCalculatedDenominator, t, by linear_combination -ht⟩
  rw [hlogs, residueLog, hsq, hn, show ((p * q : ℤ)).toNat = p * q by omega]
  rw [hn] at hc hg hinvertible
  exact log_modEq_iff_exists_pow hp hq hne hlambda hlambda'
    (coprime_of_log_invertible hp hq hne hlambda hlambda' hg hinvertible) hc hg.pow_left

end Valid

end KeyPair

namespace KeyPairBuilder

/-- The builder's `lcm` is the least common multiple. -/
theorem lcm_sub_one {p q : ℕ} (hp : 1 < p) (hq : 1 < q) :
    lcm (p - 1) (q - 1) = .ok (Nat.lcm (p - 1) (q - 1) : ℕ) := by
  have hp' : (p : Int) - 1 = (p - 1 : ℕ) := by omega
  have hq' : (q : Int) - 1 = (q - 1 : ℕ) := by omega
  have hgcd : ((Nat.gcd (p - 1) (q - 1) : ℕ) : Int) ≠ 0 := by
    exact_mod_cast (Nat.gcd_pos_of_pos_left _ (by omega)).ne'
  rw [lcm, hp', hq', Int.gcd_natCast_natCast, Int.natAbs_natCast, Int.natAbs_natCast,
    BigInteger.divide_of_ne hgcd, ok_bind, pure_eq_ok, ← Int.ofNat_tdiv, ← Int.natCast_mul,
    Nat.lcm_eq_mul_div, Nat.div_mul_right_comm (Nat.gcd_dvd_left _ _)]

end KeyPairBuilder

/-- The key pair of the primes 5 and 7 is valid. -/
theorem reference_valid : KeyPair.reference.Valid 5 7 where
  prime_left := by decide
  prime_right := by decide
  ne := by decide
  n_eq := by decide
  nSquared_eq := by decide
  lambda_eq := by decide
  generator := by rw [Int.isCoprime_iff_gcd_eq_one]; decide
  denominator := by decide

end Evoting

/-
Decryption undoes encryption.

A modular power with any exponent, negative ones through the inverse, multiplies the
logarithm of its base by the exponent (`Valid.modPow`).  So the logarithm of a
ciphertext is `m` times that of the generator, which the private denominator inverts,
and decryption finds `m` modulo `n`.  With an upper bound it finds the one number of
that residue between `b - n` and `b`.

`IsPair` is a key pair in the terms of the source: its denominator inverts what
`calculateL` returns.
-/
import Evoting.Proofs.Paillier

namespace Evoting

open Residue

/-- A key pair of the primes `p` and `q`, as `generateKeyPair` puts it together. -/
structure KeyPair.IsPair (k : KeyPair) (p q : ℕ) : Prop where
  prime_left : p.Prime
  prime_right : q.Prime
  ne : p ≠ q
  n_eq : k.publicKey.n = p * q
  nSquared_eq : k.publicKey.nSquared = k.publicKey.n * k.publicKey.n
  lambda_eq : KeyPairBuilder.lcm (p - 1) (q - 1) = .ok k.privateKey.lambda
  generator : IsCoprime k.publicKey.g k.publicKey.n
  /-- The denominator is an inverse of `L(g^lambda mod n^2)` modulo `n`. -/
  denominator : ∃ power helper,
    BigInteger.modPow k.publicKey.g k.privateKey.lambda k.publicKey.nSquared = .ok power ∧
    KeyPairBuilder.calculateL power k.publicKey.n = .ok helper ∧
    Int.gcd helper k.publicKey.n = 1 ∧
    helper * k.privateKey.preCalculatedDenominator ≡ 1 [ZMOD k.publicKey.n]

namespace KeyPairBuilder

/-- **What `calculateL` returns** for a power that is one modulo `n`. -/
theorem calculateL_eq_log {g n : Int} {lambda : ℕ} (hn : n ≠ 0) (hone : g ^ lambda ≡ 1 [ZMOD n]) :
    calculateL (g ^ lambda % (n * n)) n = .ok (log n lambda g) := by
  rw [calculateL, BigInteger.divide_of_ne hn, ← log_exact hone, Int.mul_tdiv_cancel_left _ hn]

end KeyPairBuilder

namespace KeyPair

variable {k : KeyPair} {p q : ℕ}

/-- What is put together so is valid. -/
theorem IsPair.valid (h : k.IsPair p q) : k.Valid p q := by
  obtain ⟨hp, hq, hne, hn, hsq, hlambda, hg, power, helper, hpower, hhelper, -, hinverse⟩ := h
  have hpos : (0 : Int) < k.publicKey.n := by
    rw [hn]
    exact_mod_cast Nat.mul_pos hp.pos hq.pos
  rw [KeyPairBuilder.lcm_sub_one hp.one_lt hq.one_lt, Except.ok.injEq] at hlambda
  have hone : k.publicKey.g ^ Nat.lcm (p - 1) (q - 1) ≡ 1 [ZMOD k.publicKey.n] := by
    rw [hn] at hg ⊢
    exact pow_modEq_one_of_primes hp hq hne (Nat.dvd_lcm_left _ _) (Nat.dvd_lcm_right _ _) hg
  rw [← hlambda, hsq, BigInteger.modPow_of_nonneg (Int.mul_pos hpos hpos)
    (Int.natCast_nonneg _), Int.toNat_natCast, Except.ok.injEq] at hpower
  rw [← hpower, KeyPairBuilder.calculateL_eq_log hpos.ne' hone, Except.ok.injEq] at hhelper
  refine ⟨hp, hq, hne, hn, hsq, hlambda.symm, hg, ?_⟩
  rw [← hlambda, Int.toNat_natCast, hhelper]
  exact hinverse

namespace Valid

variable (h : k.Valid p q)
include h

/-- **A modular power with any exponent** multiplies the logarithm. -/
theorem modPow {g : Int} (hg : IsCoprime g k.publicKey.n) (m : Int) :
    ∃ v, BigInteger.modPow g m k.publicKey.nSquared = .ok v ∧ IsCoprime v k.publicKey.n ∧
      k.residueLog v ≡ m * k.residueLog g [ZMOD k.publicKey.n] := by
  have hpower : ∀ e : ℕ, IsCoprime (g ^ e % k.publicKey.nSquared) k.publicKey.n ∧
      k.residueLog (g ^ e % k.publicKey.nSquared) ≡ e * k.residueLog g [ZMOD k.publicKey.n] := by
    intro e
    refine ⟨h.isCoprime_of_modEq (Int.mod_modEq _ _) hg.pow_left, ?_⟩
    have hred := Int.mod_modEq (g ^ e) k.publicKey.nSquared
    rw [h.nSquared_eq] at hred ⊢
    rw [residueLog, log_congr hred]
    exact log_pow h.n_pos.ne' (h.pow_modEq_one hg) e
  by_cases hm : 0 ≤ m
  · obtain ⟨hcoprime, hlog⟩ := hpower m.toNat
    rw [Int.toNat_of_nonneg hm] at hlog
    exact ⟨_, BigInteger.modPow_of_nonneg h.nSquared_pos hm, hcoprime, hlog⟩
  · -- below zero the power of `-m` is inverted
    obtain ⟨hcoprime, hlog⟩ := hpower (-m).toNat
    rw [Int.toNat_of_nonneg (by omega)] at hlog
    have hunit : Int.gcd (g ^ (-m).toNat % k.publicKey.nSquared) k.publicKey.nSquared = 1 := by
      rw [← Int.isCoprime_iff_gcd_eq_one]
      nth_rewrite 2 [h.nSquared_eq]
      exact hcoprime.mul_right hcoprime
    obtain ⟨v, hv, hinverse⟩ := BigInteger.modInverse_of_coprime h.nSquared_pos hunit
    refine ⟨v, by rw [BigInteger.modPow_of_neg h.nSquared_pos (by omega), hv], ?_, ?_⟩
    · have hn := h.isCoprime_of_modEq hinverse isCoprime_one_left
      exact hn.of_mul_left_right
    · rw [h.nSquared_eq] at hinverse hlog hcoprime
      have hneg := log_inverse h.n_pos.ne' (h.pow_modEq_one hcoprime) hinverse
      refine hneg.trans ?_
      have hsigned := hlog.neg
      rwa [Int.neg_mul, Int.neg_neg] at hsigned

/-- **What `encrypt` computes** from a draw without a factor in common with `n` is a ciphertext
of the residue of `m`. -/
theorem encryptWith {r : Int} (hr : IsCoprime r k.publicKey.n) (m : Int) :
    ∃ c, k.publicKey.encryptWith m r = .ok c ∧ IsCoprime c k.publicKey.n ∧
      k.plaintext c = m % k.publicKey.n := by
  obtain ⟨v, hv, hvcoprime, hvlog⟩ := h.modPow h.generator m
  obtain ⟨x, hx, hxcoprime, hxlog⟩ := h.modPow hr k.publicKey.n
  have hred := Int.mod_modEq (v * x) k.publicKey.nSquared
  refine ⟨v * x % k.publicKey.nSquared, ?_,
    h.isCoprime_of_modEq hred (hvcoprime.mul_left hxcoprime), ?_⟩
  · simp only [PaillierPublicKey.encryptWith, hv, hx, ok_bind,
      BigInteger.mod_of_pos h.nSquared_pos]
  · rw [h.plaintext_congr hred]
    have hlog : k.residueLog (v * x) ≡ m * k.residueLog k.publicKey.g [ZMOD k.publicKey.n] := by
      refine (log_mul h.n_pos.ne' (h.pow_modEq_one hvcoprime) (h.pow_modEq_one hxcoprime)).trans ?_
      -- the `n`-th power of the draw has logarithm zero
      have hzero : k.residueLog x ≡ 0 [ZMOD k.publicKey.n] :=
        hxlog.trans (Int.modEq_zero_iff_dvd.mpr (Dvd.intro _ rfl))
      have hsum := hvlog.add hzero
      rwa [add_zero] at hsum
    refine Int.ModEq.eq ((hlog.mul_right k.privateKey.preCalculatedDenominator).trans ?_)
    have hone := h.denominator.mul_left m
    rwa [mul_one, ← Int.mul_assoc] at hone

end Valid

/-- A plaintext between `b - n` and `b` is the one `decrypt` hands out. -/
theorem withBound_emod {b m : Int} (hbound : k.upperBound = some b) (hlow : 0 ≤ b)
    (hhigh : b < k.publicKey.n) (hm : b - k.publicKey.n < m) (hm' : m ≤ b) :
    k.withBound (m % k.publicKey.n) = m := by
  rw [withBound, hbound]
  by_cases hsign : 0 ≤ m
  · rw [Int.emod_eq_of_lt hsign (by omega)]
    exact if_neg (by omega)
  · have hwrap : m % k.publicKey.n = m + k.publicKey.n := by
      rw [← Int.add_emod_right, Int.emod_eq_of_lt (by omega) (by omega)]
    rw [hwrap]
    simp only [gt_iff_lt, show b < m + k.publicKey.n by omega, if_true]
    omega

end KeyPair

/-- **Decryption undoes encryption**, for any integer: all three methods encrypt to one
ciphertext, and both methods decrypt it to the residue of the plaintext or, with an upper
bound that the plaintext respects, to the plaintext. -/
theorem decrypt_encrypt {k : KeyPair} {p q : ℕ} (hk : k.IsPair p q) {draws : List Int} {r : Int}
    (hdraw : PaillierPublicKey.acceptedDraw k.publicKey.n draws = some r)
    (hr : IsCoprime r k.publicKey.n) (m : Int) :
    ∃ c, k.publicKey.encrypt m draws = some (.ok c) ∧
      k.publicKey.encryptUnder m draws = some (.ok c) ∧
      k.publicKey.encryptToCipherText m draws = some (.ok ⟨c, k.publicKey⟩) ∧
      (k.upperBound = none →
        k.decrypt c = .ok (m % k.publicKey.n) ∧
        k.decryptCipherText ⟨c, k.publicKey⟩ = .ok (m % k.publicKey.n)) ∧
      ∀ b, k.upperBound = some b → 0 ≤ b → b < k.publicKey.n →
        b - k.publicKey.n < m → m ≤ b →
        k.decrypt c = .ok m ∧ k.decryptCipherText ⟨c, k.publicKey⟩ = .ok m := by
  obtain ⟨c, hencrypt, hc, hplaintext⟩ := hk.valid.encryptWith hr m
  have hdecrypt := hk.valid.decrypt_eq hc
  rw [hplaintext] at hdecrypt
  refine ⟨c, ?_, ?_, ?_, ?_, ?_⟩
  · rw [PaillierPublicKey.encrypt, hdraw, Option.map_some, hencrypt]
  · rw [PaillierPublicKey.encryptUnder, hdraw, Option.map_some, hencrypt]
  · rw [PaillierPublicKey.encryptToCipherText, PaillierPublicKey.encrypt, hdraw, Option.map_some,
      hencrypt]
    rfl
  · intro hbound
    have hnone : k.withBound (m % k.publicKey.n) = m % k.publicKey.n := by
      rw [KeyPair.withBound, hbound]
    rw [hnone] at hdecrypt
    exact ⟨hdecrypt, hdecrypt⟩
  · intro b hbound hlow hhigh hm hm'
    rw [KeyPair.withBound_emod hbound hlow hhigh hm hm'] at hdecrypt
    exact ⟨hdecrypt, hdecrypt⟩

theorem isPair_reference : KeyPair.reference.IsPair 5 7 where
  prime_left := by decide
  prime_right := by decide
  ne := by decide
  n_eq := by decide
  nSquared_eq := by decide
  lambda_eq := by decide
  generator := by rw [Int.isCoprime_iff_gcd_eq_one]; decide
  denominator := ⟨421, 12, by decide, by decide, by decide, by decide⟩

/-- The key pair of the primes 5 and 7, with an upper bound. -/
def KeyPair.bounded : KeyPair := { KeyPair.reference with upperBound := some 17 }

theorem isPair_bounded : KeyPair.bounded.IsPair 5 7 := by
  obtain ⟨hp, hq, hne, hn, hsq, hlambda, hg, hdenominator⟩ := isPair_reference
  exact ⟨hp, hq, hne, hn, hsq, hlambda, hg, hdenominator⟩

/-- The draw 40 is refused, and -3 comes back. -/
theorem decrypt_encrypt_bounded : ∃ c,
    KeyPair.bounded.publicKey.encrypt (-3) [40, 2] = some (.ok c) ∧
    KeyPair.bounded.decrypt c = .ok (-3) := by
  have hdraw : PaillierPublicKey.acceptedDraw KeyPair.bounded.publicKey.n [40, 2] = some 2 := by
    decide
  obtain ⟨c, hencrypt, -, -, -, hbounded⟩ := decrypt_encrypt isPair_bounded hdraw
    (by rw [Int.isCoprime_iff_gcd_eq_one]; decide) (-3)
  exact ⟨c, hencrypt, (hbounded 17 rfl (by decide) (by decide) (by decide) (by decide)).1⟩

end Evoting

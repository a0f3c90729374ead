/-
What the tests of key generation and encryption let through.

The generator loop keeps the first draw whose `helper` has no factor in common with
`n`, and `encrypt` keeps the first draw below `n`.  Neither loop looks at anything
else: the two primes can be one, a generator can be a multiple of one of them, and
the draw of `encrypt` a multiple of either.  A multiple of both never gets through,
since its power is zero, and `helper` with it.  `establishes_iff` says that these are
the only ways in which a run misses what decryption needs.
-/
import Evoting.Proofs.Decrypt

namespace Evoting

open Residue

namespace KeyPairBuilder

/-- The `helper` of a draw of the generator loop. -/
def helperOf (p q : ℕ) (g : Int) : Int :=
  (g ^ Nat.lcm (p - 1) (q - 1) % ((p * q : Int) * (p * q)) - 1).tdiv (p * q)

/-- The loop's test. -/
def Passes (p q : ℕ) (g : Int) : Prop := Int.gcd (helperOf p q g) (p * q) = 1

instance (p q : ℕ) (g : Int) : Decidable (Passes p q g) := inferInstanceAs (Decidable (_ = _))

section Loop

variable {p q : ℕ} (hp : p.Prime) (hq : q.Prime)
include hp hq

theorem product_pos : (0 : Int) < p * q := by
  exact_mod_cast Nat.mul_pos hp.pos hq.pos

theorem modPow_lambda (g : Int) :
    BigInteger.modPow g (Nat.lcm (p - 1) (q - 1) : ℕ) ((p * q : Int) * (p * q))
      = .ok (g ^ Nat.lcm (p - 1) (q - 1) % ((p * q : Int) * (p * q))) := by
  have hn := product_pos hp hq
  rw [BigInteger.modPow_of_nonneg (Int.mul_pos hn hn) (Int.natCast_nonneg _), Int.toNat_natCast]

/-- **The loop** leaves with the first draw that passes. -/
theorem acceptedGenerator_eq (draws : List Int) :
    acceptedGenerator (Nat.lcm (p - 1) (q - 1) : ℕ) (p * q) ((p * q : Int) * (p * q)) draws
      = .ok ((draws.find? (Passes p q ·)).map fun g => (g, helperOf p q g)) := by
  induction draws with
  | nil => rfl
  | cons g draws ih =>
      have hhelper : calculateL (g ^ Nat.lcm (p - 1) (q - 1) % ((p * q : Int) * (p * q))) (p * q)
          = .ok (helperOf p q g) := BigInteger.divide_of_ne (product_pos hp hq).ne'
      rw [acceptedGenerator, modPow_lambda hp hq, ok_bind, hhelper, ok_bind]
      by_cases hpass : Passes p q g
      · rw [List.find?_cons_of_pos (by simpa using hpass)]
        exact if_pos hpass
      · rw [ih, List.find?_cons_of_neg (by simpa using hpass)]
        exact if_neg hpass

/-- **What `generateKeyPair` returns**: the key of the first draw that passes. -/
theorem generateKeyPair_ok_iff {bits : Int} {upperBound : Option Int} {draws : List Int}
    {k : KeyPair} : generateKeyPair bits upperBound p q draws = .ok (some k) ↔
      ∃ g u, draws.find? (Passes p q ·) = some g ∧
        BigInteger.modInverse (helperOf p q g) (p * q) = .ok u ∧
        k = ⟨⟨(Nat.lcm (p - 1) (q - 1) : ℕ), u⟩, ⟨bits, p * q, (p * q : Int) * (p * q), g⟩,
          upperBound⟩ := by
  simp only [generateKeyPair, lcm_sub_one hp.one_lt hq.one_lt, ok_bind,
    acceptedGenerator_eq hp hq]
  cases hfind : draws.find? (Passes p q ·) with
  | none => simp
  | some g =>
      simp only [Option.map_some, Option.some.injEq, exists_eq_left', bind_eq_ok_iff, pure_eq_ok,
        Except.ok.injEq, exists_and_left]
      constructor
      · rintro ⟨u, hu, rfl⟩
        exact ⟨u, hu, rfl⟩
      · rintro ⟨u, hu, rfl⟩
        exact ⟨u, hu, rfl⟩

/-- A draw that passes gives a key. -/
theorem exists_key (bits : Int) (upperBound : Option Int) {draws : List Int} {g : Int}
    (hfind : draws.find? (Passes p q ·) = some g) : ∃ k,
      generateKeyPair bits upperBound p q draws = .ok (some k) ∧ k.publicKey.g = g ∧
        k.publicKey.n = p * q := by
  have hpass : Passes p q g := by simpa using List.find?_some hfind
  obtain ⟨u, hu, -⟩ := BigInteger.modInverse_of_coprime (product_pos hp hq) hpass
  exact ⟨_, (generateKeyPair_ok_iff hp hq).mpr ⟨g, u, hfind, hu, rfl⟩, rfl, rfl⟩

/-- **The builder's key pairs are key pairs**, whenever its primes differ and its generator has
no factor in common with `n`. -/
theorem generateKeyPair_isPair (hne : p ≠ q) {bits : Int} {upperBound : Option Int}
    {draws : List Int} {k : KeyPair}
    (h : generateKeyPair bits upperBound p q draws = .ok (some k))
    (hg : IsCoprime k.publicKey.g k.publicKey.n) :
    k.IsPair p q ∧ k.upperBound = upperBound := by
  obtain ⟨g, u, hfind, hu, rfl⟩ := (generateKeyPair_ok_iff hp hq).mp h
  have hpass : Passes p q g := by simpa using List.find?_some hfind
  refine ⟨⟨hp, hq, hne, rfl, rfl, lcm_sub_one hp.one_lt hq.one_lt, hg, ?_⟩, rfl⟩
  exact ⟨_, _, modPow_lambda hp hq g, BigInteger.divide_of_ne (product_pos hp hq).ne', hpass,
    BigInteger.modInverse_ok hu⟩

/-- A multiple of both primes does not pass. -/
theorem not_passes_of_dvd (hne : p ≠ q) {g : Int} (hpg : (p : Int) ∣ g) (hqg : (q : Int) ∣ g) :
    ¬Passes p q g := by
  intro hpass
  have hcoprime : IsCoprime (p : Int) q := by
    exact_mod_cast Nat.isCoprime_iff_coprime.mpr ((Nat.coprime_primes hp hq).mpr hne)
  have htwo : 2 ≤ Nat.lcm (p - 1) (q - 1) := by
    have hlarge : 3 ≤ p ∨ 3 ≤ q := by
      have := hp.two_le
      have := hq.two_le
      omega
    have hpos : 0 < Nat.lcm (p - 1) (q - 1) :=
      Nat.lcm_pos (Nat.sub_pos_of_lt hp.one_lt) (Nat.sub_pos_of_lt hq.one_lt)
    rcases hlarge with hlarge | hlarge
    · exact le_trans (by omega) (Nat.le_of_dvd hpos (Nat.dvd_lcm_left _ _))
    · exact le_trans (by omega) (Nat.le_of_dvd hpos (Nat.dvd_lcm_right _ _))
  -- its power is zero modulo the square, and minus one over `n` is cut to zero
  have hsquare : ((p * q : Int) * (p * q)) ∣ g ^ Nat.lcm (p - 1) (q - 1) := by
    rw [← pow_two]
    exact (pow_dvd_pow_of_dvd (hcoprime.mul_dvd hpg hqg) 2).trans (pow_dvd_pow g htwo)
  have hn : (1 : Int) < p * q := by
    exact_mod_cast Nat.one_lt_mul_iff.mpr ⟨hp.pos, hq.pos, Or.inl hp.one_lt⟩
  have hzero : helperOf p q g = 0 := by
    rw [helperOf, Int.emod_eq_zero_of_dvd hsquare, Int.zero_sub, Int.neg_tdiv,
      Int.tdiv_eq_zero_of_lt (by omega) hn, Int.neg_zero]
  rw [Passes, hzero, Int.gcd_zero_left] at hpass
  omega

end Loop

end KeyPairBuilder

open KeyPairBuilder PaillierPublicKey

/-- Two primes and no factor in common. -/
theorem isCoprime_product_iff {p q : ℕ} (hp : p.Prime) (hq : q.Prime) {a : Int} :
    IsCoprime a (p * q : Int) ↔ ¬(p : Int) ∣ a ∧ ¬(q : Int) ∣ a := by
  have hprime : ∀ r : ℕ, r.Prime → (IsCoprime a (r : Int) ↔ ¬(r : Int) ∣ a) := by
    intro r hr
    rw [isCoprime_comm]
    exact (Nat.prime_iff_prime_int.mp hr).coprime_iff_not_dvd
  rw [IsCoprime.mul_right_iff, hprime p hp, hprime q hq]

/-- A run of key generation and of one encryption under the key: if the generator loop leaves
with a key, the primes differ, the generator and its logarithm have no factor in common with
`n`, and neither has the draw that `encrypt` accepts, if it accepts one. -/
def Establishes (bits : Int) (upperBound : Option Int) (p q : ℕ) (draws randoms : List Int) :
    Prop :=
  ∀ k, generateKeyPair bits upperBound p q draws = .ok (some k) →
    p ≠ q ∧ IsCoprime k.publicKey.g k.publicKey.n ∧
    (∃ power helper,
      BigInteger.modPow k.publicKey.g k.privateKey.lambda k.publicKey.nSquared = .ok power ∧
      calculateL power k.publicKey.n = .ok helper ∧ IsCoprime helper k.publicKey.n) ∧
    ∀ r, acceptedDraw k.publicKey.n randoms = some r → IsCoprime r k.publicKey.n

/-- **When a run establishes what decryption needs**: its primes differ, the first draw that
passes the test is not a multiple of exactly one of them, and the first draw below `n` is a
multiple of neither. -/
theorem establishes_iff (bits : Int) (upperBound : Option Int) {p q : ℕ} (hp : p.Prime)
    (hq : q.Prime) (draws randoms : List Int) :
    Establishes bits upperBound p q draws randoms ↔
      ∀ g, draws.find? (Passes p q ·) = some g →
        p ≠ q ∧ ((p : Int) ∣ g ↔ (q : Int) ∣ g) ∧
        ∀ r, randoms.find? (· < (p * q : Int)) = some r → ¬(p : Int) ∣ r ∧ ¬(q : Int) ∣ r := by
  constructor
  · intro h g hfind
    obtain ⟨k, hk, hg, hn⟩ := exists_key hp hq bits upperBound hfind
    obtain ⟨hne, hcoprime, -, hdraw⟩ := h k hk
    rw [hg, hn, isCoprime_product_iff hp hq] at hcoprime
    refine ⟨hne, by tauto, fun r hr => ?_⟩
    rw [hn] at hdraw
    exact (isCoprime_product_iff hp hq).mp (hdraw r hr)
  · intro h k hk
    obtain ⟨g, u, hfind, -, rfl⟩ := (generateKeyPair_ok_iff hp hq).mp hk
    obtain ⟨hne, hboth, hdraw⟩ := h g hfind
    have hpass : Passes p q g := by simpa using List.find?_some hfind
    refine ⟨hne, ?_, ⟨_, _, modPow_lambda hp hq g, BigInteger.divide_of_ne (product_pos hp hq).ne',
      Int.isCoprime_iff_gcd_eq_one.mpr hpass⟩, fun r hr => ?_⟩
    · have hnot : ¬(p : Int) ∣ g := fun hdvd =>
        not_passes_of_dvd hp hq hne hdvd (hboth.mp hdvd) hpass
      exact (isCoprime_product_iff hp hq).mpr ⟨hnot, fun hdvd => hnot (hboth.mpr hdvd)⟩
    · exact (isCoprime_product_iff hp hq).mpr (hdraw r hr)

/-- What the builder and `encrypt` can draw for a size: primes of half the bits, and numbers of
that many bits. -/
structure Drawn (bits p q : ℕ) (draws randoms : List Int) : Prop where
  even : Even bits
  size : 6 ≤ bits
  prime_left : p.Prime
  prime_right : q.Prime
  left : 2 ^ (bits / 2 - 1) ≤ p ∧ p < 2 ^ (bits / 2)
  right : 2 ^ (bits / 2 - 1) ≤ q ∧ q < 2 ^ (bits / 2)
  below : ∀ a ∈ draws ++ randoms, 0 ≤ a ∧ a < 2 ^ bits

/-- Three runs that are let through: one prime twice, the multiple 5 of the prime 5 as a
generator, and the draw 0. -/
theorem not_establishes :
    (Drawn 6 5 5 [3] [1] ∧ ¬Establishes 6 none 5 5 [3] [1]) ∧
    (Drawn 6 5 7 [5] [1] ∧ ¬Establishes 6 none 5 7 [5] [1]) ∧
    (Drawn 6 5 7 [36] [0] ∧ ¬Establishes 6 none 5 7 [36] [0]) := by
  have h5 : Nat.Prime 5 := by decide
  have h7 : Nat.Prime 7 := by decide
  have hsame : [3].find? (Passes 5 5 ·) = some 3 := by decide
  have hmultiple : [5].find? (Passes 5 7 ·) = some 5 := by decide
  have hgood : [36].find? (Passes 5 7 ·) = some 36 := by decide
  refine ⟨⟨⟨by decide, by decide, h5, h5, by decide, by decide, by decide⟩, fun h => ?_⟩,
    ⟨⟨by decide, by decide, h5, h7, by decide, by decide, by decide⟩, fun h => ?_⟩,
    ⟨⟨by decide, by decide, h5, h7, by decide, by decide, by decide⟩, fun h => ?_⟩⟩
  · obtain ⟨k, hk, -, -⟩ := exists_key h5 h5 6 none hsame
    exact (h k hk).1 rfl
  · obtain ⟨k, hk, hg, hn⟩ := exists_key h5 h7 6 none hmultiple
    have hcoprime := (h k hk).2.1
    rw [hg, hn, Int.isCoprime_iff_gcd_eq_one] at hcoprime
    exact absurd hcoprime (by decide)
  · obtain ⟨k, hk, -, hn⟩ := exists_key h5 h7 6 none hgood
    have hcoprime := (h k hk).2.2.2 0 (by rw [hn]; decide)
    rw [hn, Int.isCoprime_iff_gcd_eq_one] at hcoprime
    exact absurd hcoprime (by decide)

/-- A run on the primes 5 and 7 that establishes all. -/
theorem establishes_reference : Establishes 6 none 5 7 [0, 36] [40, 2] := by
  refine (establishes_iff 6 none (by decide) (by decide) [0, 36] [40, 2]).mpr fun g hg => ?_
  have hfind : [0, 36].find? (Passes 5 7 ·) = some 36 := by decide
  obtain rfl : 36 = g := Option.some.inj (hfind.symm.trans hg)
  refine ⟨by decide, by decide, fun r hr => ?_⟩
  obtain rfl : 2 = r := Option.some.inj hr
  decide

end Evoting

/-
Logarithms of residues modulo the square of a number.

If `c ^ k` is one modulo `n`, it is `1 + n * t` modulo `n * n` for a `t` that is
unique modulo `n`.  `log n k c` is that `t`: it turns products into sums modulo
`n`, so a cryptosystem that decrypts by it is additively homomorphic.  The last
section is about a product `n` of two primes: which `c` have a logarithm there,
and that the residues of logarithm zero are the `n`-th powers.
-/
import Mathlib.Data.Int.ModEq
import Mathlib.FieldTheory.Finite.Basic
import Mathlib.NumberTheory.Basic
import Mathlib.NumberTheory.LucasPrimality
import Mathlib.RingTheory.Coprime.Lemmas

namespace Evoting.Residue

variable {n : ℤ} {k : ℕ} {c d t : ℤ}

/-- The logarithm of `c`: what `c ^ k` is above one, in units of `n`. -/
def log (n : ℤ) (k : ℕ) (c : ℤ) : ℤ := (c ^ k % (n * n) - 1) / n

theorem log_exact (hc : c ^ k ≡ 1 [ZMOD n]) : n * log n k c = c ^ k % (n * n) - 1 := by
  refine Int.mul_ediv_cancel' ?_
  have hred : c ^ k % (n * n) ≡ 1 [ZMOD n] :=
    ((Int.mod_modEq _ _).of_dvd (Dvd.intro n rfl)).trans hc
  exact hred.symm.dvd

/-- **What the logarithm is of.** -/
theorem log_spec (hc : c ^ k ≡ 1 [ZMOD n]) : c ^ k ≡ 1 + n * log n k c [ZMOD n * n] := by
  rw [log_exact hc]
  have : (1 : ℤ) + (c ^ k % (n * n) - 1) = c ^ k % (n * n) := by ring
  rw [this]
  exact (Int.mod_modEq _ _).symm

/-- It is the only one. -/
theorem log_unique (hn : n ≠ 0) (h : c ^ k ≡ 1 + n * t [ZMOD n * n]) : log n k c ≡ t [ZMOD n] := by
  have hc : c ^ k ≡ 1 [ZMOD n] :=
    (h.of_dvd (Dvd.intro n rfl)).trans (by simp)
  refine Int.ModEq.mul_left_cancel' hn ?_
  exact ((log_spec hc).symm.trans h).add_left_cancel' 1

theorem log_congr (h : c ≡ d [ZMOD n * n]) : log n k c = log n k d := by
  rw [log, log, (h.pow k).eq]

theorem log_one (hn : n ≠ 0) : log n k 1 ≡ 0 [ZMOD n] :=
  log_unique hn (by simp)

/-- **The logarithm of a product is the sum of the logarithms.** -/
theorem log_mul (hn : n ≠ 0) (hc : c ^ k ≡ 1 [ZMOD n]) (hd : d ^ k ≡ 1 [ZMOD n]) :
    log n k (c * d) ≡ log n k c + log n k d [ZMOD n] := by
  refine log_unique hn ?_
  rw [mul_pow]
  refine ((log_spec hc).mul (log_spec hd)).trans ?_
  rw [Int.modEq_iff_dvd]
  exact ⟨-(log n k c * log n k d), by ring⟩

theorem pow_mul_modEq_one (hc : c ^ k ≡ 1 [ZMOD n]) (hd : d ^ k ≡ 1 [ZMOD n]) :
    (c * d) ^ k ≡ 1 [ZMOD n] := by
  rw [mul_pow]
  simpa using hc.mul hd

theorem pow_pow_modEq_one (hc : c ^ k ≡ 1 [ZMOD n]) (e : ℕ) : (c ^ e) ^ k ≡ 1 [ZMOD n] := by
  rw [← pow_mul, mul_comm, pow_mul]
  simpa using hc.pow e

theorem log_pow (hn : n ≠ 0) (hc : c ^ k ≡ 1 [ZMOD n]) (e : ℕ) :
    log n k (c ^ e) ≡ e * log n k c [ZMOD n] := by
  induction e with
  | zero => simpa using log_one hn
  | succ e ih =>
      rw [pow_succ]
      refine (log_mul hn (pow_pow_modEq_one hc e) hc).trans ?_
      refine (ih.add_right _).trans ?_
      rw [Nat.cast_succ, add_mul, one_mul]

/-- **The logarithm of a product of a list.** -/
theorem log_prod (hn : n ≠ 0) {cs : List ℤ} (hcs : ∀ c ∈ cs, c ^ k ≡ 1 [ZMOD n]) :
    cs.prod ^ k ≡ 1 [ZMOD n] ∧ log n k cs.prod ≡ (cs.map (log n k)).sum [ZMOD n] := by
  induction cs with
  | nil => exact ⟨by simp, by simpa using log_one hn⟩
  | cons c cs ih =>
      obtain ⟨hprod, hlog⟩ := ih fun d hd => hcs d (by simp [hd])
      have hc := hcs c (by simp)
      rw [List.prod_cons, List.map_cons, List.sum_cons]
      exact ⟨pow_mul_modEq_one hc hprod, (log_mul hn hc hprod).trans (hlog.add_left _)⟩

/-- **The logarithm of an inverse.** -/
theorem log_inverse (hn : n ≠ 0) (hc : c ^ k ≡ 1 [ZMOD n]) (hcd : c * d ≡ 1 [ZMOD n * n]) :
    log n k d ≡ -log n k c [ZMOD n] := by
  have hd : d ^ k ≡ 1 [ZMOD n] := by
    have hpow := (hcd.of_dvd (Dvd.intro n rfl)).pow k
    rw [mul_pow, one_pow] at hpow
    simpa using (hc.mul_right (d ^ k)).symm.trans hpow
  have hsum := (log_mul hn hc hd).symm.trans ((log_congr hcd).symm ▸ log_one hn)
  simpa using hsum.add_left (-log n k c)

theorem log_modEq_zero_iff (hn : n ≠ 0) (hc : c ^ k ≡ 1 [ZMOD n]) :
    log n k c ≡ 0 [ZMOD n] ↔ c ^ k ≡ 1 [ZMOD n * n] := by
  constructor
  · intro h
    refine (log_spec hc).trans ?_
    simpa using (h.mul_left' (c := n)).add_left 1
  · intro h
    exact log_unique hn (by simpa using h)

/-! ### Powers -/

/-- Exponents that undo each other, up to multiples of `k`. -/
theorem exists_mul_eq_add_mul {n k : ℕ} (hn : 0 < n) (hk : 0 < k) (h : Nat.Coprime n k) :
    ∃ b t : ℕ, b * n = 1 + t * k := by
  by_cases h1 : k = 1
  · exact ⟨1, n - 1, by subst h1; omega⟩
  · obtain ⟨b, -, hb⟩ := Nat.exists_mul_mod_eq_one_of_coprime h (by omega)
    refine ⟨b, n * b / k, ?_⟩
    have := Nat.div_add_mod (n * b) k
    rw [hb] at this
    rw [mul_comm b n, mul_comm (n * b / k) k]
    omega

/-- A residue of exponent `k` is an `n`-th power when `n` and `k` have no common factor. -/
theorem exists_pow_of_pow_modEq_one {n k : ℕ} {m : ℤ} (hn : 0 < n) (hk : 0 < k)
    (hcop : Nat.Coprime n k) (hc : c ^ k ≡ 1 [ZMOD m]) : ∃ b : ℕ, (c ^ b) ^ n ≡ c [ZMOD m] := by
  obtain ⟨b, t, hbt⟩ := exists_mul_eq_add_mul hn hk hcop
  refine ⟨b, ?_⟩
  rw [← pow_mul, hbt, pow_add, pow_one, mul_comm t k, pow_mul]
  simpa using (hc.pow t).mul_left c

/-! ### Computing powers -/

/-- `b ^ e % m` by squaring; the fuel bounds the binary digits of `e`. -/
def powMod (m : ℕ) : ℕ → ℕ → ℕ → ℕ
  | 0, _, _ => 1 % m
  | fuel + 1, b, e =>
      if e % 2 = 1 then b * powMod m fuel (b * b % m) (e / 2) % m
      else powMod m fuel (b * b % m) (e / 2)

theorem powMod_eq (m : ℕ) : ∀ {fuel b e : ℕ}, e < 2 ^ fuel → powMod m fuel b e = b ^ e % m := by
  intro fuel
  induction fuel with
  | zero =>
      intro b e he
      obtain rfl : e = 0 := by simpa using he
      rfl
  | succ fuel ih =>
      intro b e he
      have hhalf : powMod m fuel (b * b % m) (e / 2) = (b * b) ^ (e / 2) % m := by
        rw [ih (by rw [pow_succ] at he; omega), ← Nat.pow_mod]
      have hpow : (b * b) ^ (e / 2) = b ^ (2 * (e / 2)) := by rw [← pow_two, pow_mul]
      rw [powMod, hhalf]
      split
      · rename_i hodd
        rw [Nat.mul_mod_mod, hpow, ← pow_succ']
        congr 2
        omega
      · rename_i heven
        rw [hpow]
        congr 2
        omega

/-- A logarithm as a computation. -/
theorem log_eq_powMod {n c k fuel : ℕ} (hk : k < 2 ^ fuel) :
    log n k c = ((powMod (n * n) fuel c k : ℤ) - 1) / n := by
  rw [log, powMod_eq _ hk]
  push_cast
  rfl

/-- Lucas's criterion, with the powers computed, for a number two above whose predecessor has
the prime factors 2 and 3 only. -/
theorem prime_of_two_three {p i j : ℕ} (fuel b : ℕ) (hp : p = 2 ^ i * 3 ^ j + 1)
    (hfuel : p < 2 ^ fuel) (hone : powMod p fuel b (p - 1) = 1)
    (htwo : powMod p fuel b ((p - 1) / 2) ≠ 1) (hthree : powMod p fuel b ((p - 1) / 3) ≠ 1) :
    p.Prime := by
  have hcast : ∀ e : ℕ, e ≤ p → ((b : ZMod p) ^ e = 1 ↔ powMod p fuel b e = 1 % p) := by
    intro e he
    rw [powMod_eq p (he.trans_lt hfuel)]
    have hnat : ((b ^ e : ℕ) : ZMod p) = ((1 : ℕ) : ZMod p) ↔ b ^ e % p = 1 % p :=
      ZMod.natCast_eq_natCast_iff' ..
    simpa using hnat
  have hp1 : 1 % p = 1 := by
    have hpos : 0 < 2 ^ i * 3 ^ j := by positivity
    exact Nat.mod_eq_of_lt (by omega)
  refine lucas_primality p b ((hcast _ (Nat.sub_le _ _)).mpr (by rw [hone, hp1])) ?_
  intro r hr hdvd
  have hcases : r = 2 ∨ r = 3 := by
    rw [hp, Nat.add_sub_cancel] at hdvd
    rcases (Nat.Prime.dvd_mul hr).mp hdvd with h | h
    · exact Or.inl ((Nat.prime_dvd_prime_iff_eq hr Nat.prime_two).mp (hr.dvd_of_dvd_pow h))
    · exact Or.inr ((Nat.prime_dvd_prime_iff_eq hr Nat.prime_three).mp (hr.dvd_of_dvd_pow h))
  rcases hcases with rfl | rfl
  · exact fun h => htwo (by rw [(hcast _ (by omega)).mp h, hp1])
  · exact fun h => hthree (by rw [(hcast _ (by omega)).mp h, hp1])

/-! ### Products of two primes -/

section Primes

variable {p q : ℕ}

/-- Below a multiple of `p - 1` and `q - 1` every unit has exponent one. -/
theorem pow_modEq_one_of_primes (hp : p.Prime) (hq : q.Prime) (hne : p ≠ q) (hpk : p - 1 ∣ k)
    (hqk : q - 1 ∣ k) (hc : IsCoprime c (p * q : ℤ)) : c ^ k ≡ 1 [ZMOD (p * q : ℤ)] := by
  have hcop : (p : ℤ).natAbs.Coprime (q : ℤ).natAbs := by
    simpa using (Nat.coprime_primes hp hq).mpr hne
  have hone : ∀ r : ℕ, r.Prime → r - 1 ∣ k → IsCoprime c r → c ^ k ≡ 1 [ZMOD r] := by
    rintro r hr ⟨j, rfl⟩ hcr
    rw [pow_mul]
    simpa using (Int.ModEq.pow_card_sub_one_eq_one hr hcr).pow j
  exact (Int.modEq_and_modEq_iff_modEq_mul hcop).mp
    ⟨hone p hp hpk hc.of_mul_right_left, hone q hq hqk hc.of_mul_right_right⟩

/-- A prime factor of `n` in the exponent divides every logarithm. -/
theorem dvd_log_of_dvd (hp : p.Prime) (hq : q.Prime) (hne : p ≠ q) (hpk : p - 1 ∣ k)
    (hqk : q - 1 ∣ k) (hk : p ∣ k) (hc : IsCoprime c (p * q : ℤ)) :
    (p : ℤ) ∣ log (p * q) k c := by
  -- by Fermat the power is one already modulo the square of the prime
  have hsquare : c ^ k ≡ 1 [ZMOD (p : ℤ) * p] := by
    obtain ⟨j, rfl⟩ : (p - 1) * p ∣ k := by
      refine Nat.Coprime.mul_dvd_of_dvd_of_dvd ?_ hpk hk
      exact (Nat.coprime_self_sub_left hp.one_le).mpr (Nat.coprime_one_left p)
    have hfermat := Int.ModEq.pow_card_sub_one_eq_one hp hc.of_mul_right_left
    have hlift := dvd_sub_pow_of_dvd_sub (Int.ModEq.dvd hfermat.symm) 1
    rw [one_pow, pow_one, ← pow_mul, show ((p : ℤ) ^ (1 + 1)) = p * p by ring] at hlift
    rw [pow_mul]
    simpa using (Int.modEq_iff_dvd.mpr hlift).symm.pow j
  have hspec := log_spec (pow_modEq_one_of_primes hp hq hne hpk hqk hc)
  have hsq : (p : ℤ) * p ∣ p * (q * log (p * q) k c) := by
    have hred := (hspec.of_dvd (m := (p : ℤ) * p) ⟨q * q, by ring⟩).symm.trans hsquare
    have := hred.symm.dvd
    rwa [add_sub_cancel_left, mul_assoc] at this
  have hp0 : (p : ℤ) ≠ 0 := by exact_mod_cast hp.ne_zero
  have hcop : IsCoprime (p : ℤ) q := by
    exact_mod_cast Nat.isCoprime_iff_coprime.mpr ((Nat.coprime_primes hp hq).mpr hne)
  exact hcop.dvd_of_dvd_mul_left (Int.dvd_of_mul_dvd_mul_left hp0 hsq)

/-- **If some logarithm is invertible, the exponent has no factor in common with `n`.** -/
theorem coprime_of_log_invertible (hp : p.Prime) (hq : q.Prime) (hne : p ≠ q) (hpk : p - 1 ∣ k)
    (hqk : q - 1 ∣ k) (hc : IsCoprime c (p * q : ℤ))
    (hlog : IsCoprime (log (p * q) k c) (p * q : ℤ)) : Nat.Coprime (p * q) k := by
  have hnot : ∀ r : ℕ, r.Prime → (r : ℤ) ∣ (p * q : ℤ) → ¬(r : ℤ) ∣ log (p * q) k c := by
    intro r hr hrn hrlog
    have hunit := hlog.isUnit_of_dvd' hrlog hrn
    exact hr.one_lt.ne' (by simpa using Int.isUnit_iff_natAbs_eq.mp hunit)
  refine Nat.Coprime.mul_left ?_ ?_
  · refine (Nat.Prime.coprime_iff_not_dvd hp).mpr fun hk => ?_
    exact hnot p hp (Dvd.intro _ rfl) (dvd_log_of_dvd hp hq hne hpk hqk hk hc)
  · refine (Nat.Prime.coprime_iff_not_dvd hq).mpr fun hk => ?_
    refine hnot q hq (Dvd.intro_left _ rfl) ?_
    rw [mul_comm (p : ℤ)] at hc ⊢
    exact dvd_log_of_dvd hq hp hne.symm hqk hpk hk hc

/-- **The residues of logarithm zero are the `n`-th powers.** -/
theorem log_modEq_zero_iff_exists_pow (hp : p.Prime) (hq : q.Prime) (hne : p ≠ q)
    (hpk : p - 1 ∣ k) (hqk : q - 1 ∣ k) (hcop : Nat.Coprime (p * q) k)
    (hc : IsCoprime c (p * q : ℤ)) : log (p * q) k c ≡ 0 [ZMOD (p * q : ℤ)] ↔
      ∃ r : ℤ, IsCoprime r (p * q : ℤ) ∧ c ≡ r ^ (p * q) [ZMOD (p * q : ℤ) * (p * q)] := by
  have hn : 0 < p * q := Nat.mul_pos hp.pos hq.pos
  have hn0 : (p * q : ℤ) ≠ 0 := by exact_mod_cast hn.ne'
  rw [log_modEq_zero_iff hn0 (pow_modEq_one_of_primes hp hq hne hpk hqk hc)]
  constructor
  · intro h
    have hk : 0 < k := by
      rcases Nat.eq_zero_or_pos k with rfl | hk
      · simp only [Nat.coprime_zero_right] at hcop
        exact absurd (Nat.eq_one_of_mul_eq_one_right hcop) hp.ne_one
      · exact hk
    obtain ⟨b, hb⟩ := exists_pow_of_pow_modEq_one hn hk hcop h
    exact ⟨c ^ b, hc.pow_left, hb.symm⟩
  · rintro ⟨r, hr, hcr⟩
    have hone := pow_modEq_one_of_primes hp hq hne hpk hqk hr
    refine (log_modEq_zero_iff hn0 (pow_modEq_one_of_primes hp hq hne hpk hqk hc)).mp ?_
    rw [log_congr hcr]
    refine (log_pow hn0 hone (p * q)).trans ?_
    rw [Int.modEq_zero_iff_dvd]
    exact Dvd.intro _ (by push_cast; rfl)

/-- **Two residues have the same logarithm exactly when an `n`-th power is between them.** -/
theorem log_modEq_iff_exists_pow (hp : p.Prime) (hq : q.Prime) (hne : p ≠ q) (hpk : p - 1 ∣ k)
    (hqk : q - 1 ∣ k) (hcop : Nat.Coprime (p * q) k) (hc : IsCoprime c (p * q : ℤ))
    (hd : IsCoprime d (p * q : ℤ)) :
    log (p * q) k c ≡ log (p * q) k d [ZMOD (p * q : ℤ)] ↔
      ∃ r : ℤ, IsCoprime r (p * q : ℤ) ∧ c ≡ d * r ^ (p * q) [ZMOD (p * q : ℤ) * (p * q)] := by
  have hn0 : (p * q : ℤ) ≠ 0 := by
    exact_mod_cast (Nat.mul_pos hp.pos hq.pos).ne'
  have hone : ∀ {a : ℤ}, IsCoprime a (p * q : ℤ) → a ^ k ≡ 1 [ZMOD (p * q : ℤ)] :=
    fun ha => pow_modEq_one_of_primes hp hq hne hpk hqk ha
  constructor
  · intro h
    -- an inverse of `d` brings the two residues to one of logarithm zero
    obtain ⟨e, f, hef⟩ := hd.mul_right hd
    have hinv : e * d ≡ 1 [ZMOD (p * q : ℤ) * (p * q)] := by
      rw [Int.modEq_iff_dvd]
      exact ⟨f, by linear_combination hef.symm⟩
    have he : IsCoprime e (p * q : ℤ) := ⟨d, f * (p * q), by linear_combination hef⟩
    have hzero : log (p * q) k (c * e) ≡ 0 [ZMOD (p * q : ℤ)] := by
      refine (log_mul hn0 (hone hc) (hone he)).trans ((h.add_right _).trans ?_)
      refine (log_mul hn0 (hone hd) (hone he)).symm.trans ?_
      rw [mul_comm d e, log_congr hinv]
      exact log_one hn0
    obtain ⟨r, hr, hcr⟩ := (log_modEq_zero_iff_exists_pow hp hq hne hpk hqk hcop
      (hc.mul_left he)).mp hzero
    refine ⟨r, hr, ?_⟩
    calc c = c * 1 := (mul_one c).symm
      _ ≡ c * (e * d) [ZMOD (p * q : ℤ) * (p * q)] := hinv.symm.mul_left c
      _ = d * (c * e) := by ring
      _ ≡ d * r ^ (p * q) [ZMOD (p * q : ℤ) * (p * q)] := hcr.mul_left d
  · rintro ⟨r, hr, hcr⟩
    rw [log_congr hcr]
    refine (log_mul hn0 (hone hd) (pow_pow_modEq_one (hone hr) _)).trans ?_
    have hzero : log (p * q) k (r ^ (p * q)) ≡ 0 [ZMOD (p * q : ℤ)] :=
      (log_modEq_zero_iff_exists_pow hp hq hne hpk hqk hcop hr.pow_left).mpr ⟨r, hr, rfl⟩
    simpa using hzero.add_left (log (p * q) k d)

end Primes

end Evoting.Residue

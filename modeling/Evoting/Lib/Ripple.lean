/-
Adding two numbers digit by digit.

Digits stand with the least significant first, as in `Nat.ofDigits`.  `add` passes a
carry along two lists of one length and leaves the digits of the sum and the last
carry; `ofDigits_add` is its meaning, and `add_carry_eq_zero_iff` says when nothing
is left over.
-/
import Mathlib.Data.Nat.Digits.Defs

namespace Evoting.Ripple

variable {b : ℕ}

/-- The digits of the sum and the carry out of the last place. -/
def add (b carry : ℕ) : List ℕ → List ℕ → List ℕ × ℕ
  | d :: ds, e :: es =>
      let sum := carry + d + e
      let (out, last) := add b (sum / b) ds es
      (sum % b :: out, last)
  | _, _ => ([], carry)

@[simp] theorem add_nil (carry : ℕ) (es : List ℕ) : add b carry [] es = ([], carry) := by
  simp [add]

@[simp] theorem add_cons (carry d e : ℕ) (ds es : List ℕ) :
    add b carry (d :: ds) (e :: es)
      = ((carry + d + e) % b :: (add b ((carry + d + e) / b) ds es).1,
          (add b ((carry + d + e) / b) ds es).2) := rfl

theorem length_add {ds es : List ℕ} (carry : ℕ) (hlen : ds.length = es.length) :
    (add b carry ds es).1.length = ds.length := by
  induction ds generalizing es carry with
  | nil => simp
  | cons d ds ih =>
      cases es with
      | nil => simp at hlen
      | cons e es => simp [ih _ (by simpa using hlen)]

theorem add_lt_base (hb : 0 < b) (carry : ℕ) (ds es : List ℕ) :
    ∀ d ∈ (add b carry ds es).1, d < b := by
  induction ds generalizing es carry with
  | nil => simp
  | cons d ds ih =>
      cases es with
      | nil => simp [add]
      | cons e es =>
          intro a ha
          rcases List.mem_cons.mp ha with rfl | ha
          · exact Nat.mod_lt _ hb
          · exact ih _ _ a ha

/-- **The digits and the last carry are the sum.** -/
theorem ofDigits_add {ds es : List ℕ} (carry : ℕ) (hlen : ds.length = es.length) :
    Nat.ofDigits b (add b carry ds es).1 + b ^ ds.length * (add b carry ds es).2
      = carry + Nat.ofDigits b ds + Nat.ofDigits b es := by
  induction ds generalizing es carry with
  | nil =>
      obtain rfl := List.length_eq_zero_iff.mp hlen.symm
      simp
  | cons d ds ih =>
      cases es with
      | nil => simp at hlen
      | cons e es =>
          have hrest := ih ((carry + d + e) / b) (Nat.succ_injective hlen)
          have hdigit := Nat.mod_add_div (carry + d + e) b
          simp only [add_cons, Nat.ofDigits_cons, List.length_cons, pow_succ']
          calc (carry + d + e) % b + b * Nat.ofDigits b (add b ((carry + d + e) / b) ds es).1
                + b * b ^ ds.length * (add b ((carry + d + e) / b) ds es).2
              = (carry + d + e) % b + b * (Nat.ofDigits b (add b ((carry + d + e) / b) ds es).1
                + b ^ ds.length * (add b ((carry + d + e) / b) ds es).2) := by ring
            _ = (carry + d + e) % b + b * ((carry + d + e) / b + Nat.ofDigits b ds
                + Nat.ofDigits b es) := by rw [hrest]
            _ = (carry + d + e) % b + b * ((carry + d + e) / b)
                + b * Nat.ofDigits b ds + b * Nat.ofDigits b es := by ring
            _ = carry + (d + b * Nat.ofDigits b ds) + (e + b * Nat.ofDigits b es) := by
                rw [hdigit]; ring

/-- Nothing is left over when the sum has no more digits than its summands. -/
theorem add_carry_eq_zero_iff (hb : 1 < b) {ds es : List ℕ} (carry : ℕ)
    (hlen : ds.length = es.length) :
    (add b carry ds es).2 = 0
      ↔ carry + Nat.ofDigits b ds + Nat.ofDigits b es < b ^ ds.length := by
  have hsum := ofDigits_add (b := b) carry hlen
  have hdigits := Nat.ofDigits_lt_base_pow_length hb
    (add_lt_base (by omega) carry ds es)
  rw [length_add carry hlen] at hdigits
  rw [← hsum]
  constructor
  · intro hzero
    rw [hzero]
    simpa using hdigits
  · intro hlt
    by_contra hne
    have hle : b ^ ds.length ≤ b ^ ds.length * (add b carry ds es).2 :=
      Nat.le_mul_of_pos_right _ (Nat.pos_of_ne_zero hne)
    omega

/-- The carry stays a carry: digits below the base pass on at most one. -/
theorem carry_le_one {carry d e : ℕ} (hcarry : carry ≤ 1) (hd : d < b) (he : e < b) :
    (carry + d + e) / b ≤ 1 := by
  have hlt : (carry + d + e) / b < 2 :=
    Nat.div_lt_of_lt_mul (by omega)
  omega

end Evoting.Ripple

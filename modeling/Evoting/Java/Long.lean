/-
`java.lang.Long`, as far as `IntegerKeyHandler` uses it.

Values are integers; sums and differences are taken back into 64 bits.  `decode`
reads a sign, a radix and digits.  `Character.digit` knows the digits of many
scripts, so it is a parameter, fixed on the ASCII digits.  A number that was
written in decimal is read back (`decode_toText`).
-/
import Evoting.Java.Basic
import Evoting.Lib.Decimal
import Mathlib.Algebra.Group.Int.Defs

namespace Evoting

/-- `Character.digit`: the value of a character as a digit, before it is compared with a radix. -/
structure CharacterDigits where
  digit : Char → Option Nat
  digit_ascii : ∀ c : Char, c.isDigit = true → digit c = some (c.toNat - '0'.toNat)

/-- ASCII digits and letters. -/
def CharacterDigits.ascii : CharacterDigits where
  digit c :=
    if c.isDigit then some (c.toNat - '0'.toNat)
    else if c.isLower then some (c.toNat - 'a'.toNat + 10)
    else if c.isUpper then some (c.toNat - 'A'.toNat + 10)
    else none
  digit_ascii _ h := if_pos h

namespace Long

/-- The values of 64 bits. -/
def InRange (v : Int) : Prop := -2 ^ 63 ≤ v ∧ v < 2 ^ 63

instance (v : Int) : Decidable (InRange v) := inferInstanceAs (Decidable (_ ∧ _))

/-- `a + b`. -/
def add (a b : Int) : Int := (a + b).bmod (2 ^ 64)

/-- `a - b`. -/
def sub (a b : Int) : Int := (a - b).bmod (2 ^ 64)

/-- `Long.toString`. -/
abbrev toText (v : Int) : JString := Decimal.render v

/-! ### Reading -/

/-- The sign a text starts with, and the rest. -/
def signOf : JString → Int × JString
  | '-' :: rest => (-1, rest)
  | '+' :: rest => (1, rest)
  | s => (1, s)

/-- The radix a text without sign starts with, and the digits. -/
def radixOf : JString → Nat × JString
  | '0' :: 'x' :: rest => (16, rest)
  | '0' :: 'X' :: rest => (16, rest)
  | '#' :: rest => (16, rest)
  | '0' :: c :: rest => (8, c :: rest)
  | s => (10, s)

variable (digits : CharacterDigits)

/-- One more digit. -/
def addDigit (radix v : Nat) (c : Char) : Option Nat :=
  match digits.digit c with
  | some d => if d < radix then some (radix * v + d) else none
  | none => none

/-- The value of a non-empty run of digits. -/
def parseDigits (radix : Nat) (s : JString) : Option Nat :=
  if s = [] then none else s.foldlM (addDigit digits radix) 0

/-- `Long.decode`. -/
def decode (s : JString) : Except Throwable Int :=
  let (sign, rest) := signOf s
  let (radix, rest) := radixOf rest
  match parseDigits digits radix rest with
  | none => .error .numberFormat
  | some m => if InRange (sign * m) then .ok (sign * m) else .error .numberFormat

/-- A decimal text starts with '0' only if that is all, so it does not look like an octal one. -/
theorem toDigits_eq_zero_or (m : Nat) :
    Nat.toDigits 10 m = ['0'] ∨
      ∃ c rest, Nat.toDigits 10 m = c :: rest ∧ c.isDigit = true ∧ c ≠ '0' := by
  induction m using Nat.strong_induction_on with
  | _ m ih =>
      by_cases hm : m < 10
      · rw [Nat.toDigits_of_lt_base hm]
        by_cases hzero : m = 0
        · exact Or.inl (by rw [hzero]; rfl)
        · refine Or.inr ⟨_, _, rfl, ?_⟩
          have hdigits : ∀ d < 10, d ≠ 0 →
              (Nat.digitChar d).isDigit = true ∧ Nat.digitChar d ≠ '0' := by
            decide
          exact hdigits m hm hzero
      · rw [Nat.toDigits_of_base_le (by decide) (by omega)]
        rcases ih (m / 10) (by omega) with hzero | ⟨c, rest, hdigits, hc⟩
        · have hvalue : m / 10 = 0 := by
            rw [← Nat.ofDigitChars_ten_toDigits (n := m / 10), hzero]
            rfl
          omega
        · exact Or.inr ⟨c, _, by rw [hdigits]; rfl, hc⟩

theorem signOf_of_digit {c : Char} (hc : c.isDigit = true) (rest : JString) :
    signOf (c :: rest) = (1, c :: rest) := by
  unfold signOf
  split
  · rename_i heq
    rw [(List.cons.inj heq).1] at hc
    exact absurd hc (by decide)
  · rename_i heq
    rw [(List.cons.inj heq).1] at hc
    exact absurd hc (by decide)
  · rfl

theorem radixOf_of_digit {c : Char} (hc : c.isDigit = true) (hzero : c ≠ '0') (rest : JString) :
    radixOf (c :: rest) = (10, c :: rest) := by
  unfold radixOf
  split
  · rename_i heq
    exact absurd (List.cons.inj heq).1 hzero
  · rename_i heq
    exact absurd (List.cons.inj heq).1 hzero
  · rename_i heq
    rw [(List.cons.inj heq).1] at hc
    exact absurd hc (by decide)
  · rename_i heq
    exact absurd (List.cons.inj heq).1 hzero
  · rfl

theorem foldlM_addDigit {s : JString} (hs : ∀ c ∈ s, c.isDigit = true) :
    ∀ v : Nat, s.foldlM (addDigit digits 10) v = some (Nat.ofDigitChars 10 s v) := by
  induction s with
  | nil => intro v; rfl
  | cons c s ih =>
      intro v
      have hc := hs c (by simp)
      have hlt : c.toNat - '0'.toNat < 10 := by
        have hbounds := hc
        simp only [Char.isDigit, Bool.and_eq_true, decide_eq_true_eq] at hbounds
        have hle : c.val.toNat ≤ 57 := hbounds.2
        show c.val.toNat - 48 < 10
        omega
      have hstep : addDigit digits 10 v c = some (10 * v + (c.toNat - '0'.toNat)) := by
        simp only [addDigit, digits.digit_ascii c hc, if_pos hlt]
      rw [List.foldlM_cons, hstep, Nat.ofDigitChars_cons]
      exact ih (fun d hd => hs d (by simp [hd])) _

theorem parseDigits_toDigits (m : Nat) :
    parseDigits digits 10 (Nat.toDigits 10 m) = some m := by
  have hall : ∀ c ∈ Nat.toDigits 10 m, c.isDigit = true := fun c hc =>
    Nat.isDigit_of_mem_toDigits (by decide) (by decide) hc
  rw [parseDigits, if_neg Nat.toDigits_ne_nil, foldlM_addDigit digits hall,
    Nat.ofDigitChars_ten_toDigits]

theorem signOf_toDigits (m : Nat) : signOf (Nat.toDigits 10 m) = (1, Nat.toDigits 10 m) := by
  rcases toDigits_eq_zero_or m with hzero | ⟨c, rest, hdigits, hc, -⟩
  · rw [hzero]
    rfl
  · rw [hdigits, signOf_of_digit hc]

theorem radixOf_toDigits (m : Nat) : radixOf (Nat.toDigits 10 m) = (10, Nat.toDigits 10 m) := by
  rcases toDigits_eq_zero_or m with hzero | ⟨c, rest, hdigits, hc, hne⟩
  · rw [hzero]
    rfl
  · rw [hdigits, radixOf_of_digit hc hne]

/-- **What is written in decimal is read back.** -/
theorem decode_toText {v : Int} (hv : InRange v) : decode digits (toText v) = .ok v := by
  cases v with
  | ofNat m =>
      show decode digits (Nat.toDigits 10 m) = _
      simp only [decode, signOf_toDigits, radixOf_toDigits, parseDigits_toDigits]
      rw [Int.one_mul]
      exact if_pos hv
  | negSucc m =>
      show decode digits ('-' :: Nat.toDigits 10 (m + 1)) = _
      have hneg : -1 * ((m + 1 : Nat) : Int) = Int.negSucc m := by omega
      simp only [decode, signOf, radixOf_toDigits, parseDigits_toDigits]
      rw [hneg, if_pos hv]

end Long

end Evoting

/-
Decimal rendering of integers.

`render` writes an integer as an optional minus sign and its digits, `parse`
reads an optionally signed non-empty run of digits.  `parse_render` is the round
trip; `isDecimal_of_mem_render` is what a text made of such numbers can contain,
which a reader that cuts at separators relies on.
-/
import Mathlib.Data.Int.Basic

namespace Evoting.Decimal

/-- The decimal text of an integer. -/
def render : Int → List Char
  | .ofNat m => Nat.toDigits 10 m
  | .negSucc m => '-' :: Nat.toDigits 10 (m + 1)

/-- The value of a non-empty run of digits. -/
def parseDigits (ds : List Char) : Option Int :=
  if ds ≠ [] ∧ ds.all Char.isDigit = true then some (Nat.ofDigitChars 10 ds 0 : Int) else none

/-- The value of an optionally signed run of digits. -/
def parse : List Char → Option Int
  | '-' :: ds => (parseDigits ds).map fun v => -v
  | '+' :: ds => parseDigits ds
  | ds => parseDigits ds

theorem parseDigits_toDigits (m : Nat) : parseDigits (Nat.toDigits 10 m) = some (m : Int) := by
  have hall : (Nat.toDigits 10 m).all Char.isDigit = true :=
    List.all_eq_true.mpr fun c hc => Nat.isDigit_of_mem_toDigits (by decide) (by decide) hc
  rw [parseDigits, if_pos ⟨Nat.toDigits_ne_nil, hall⟩, Nat.ofDigitChars_ten_toDigits]

/-- A run of digits carries no sign. -/
theorem parse_of_digits {ds : List Char} (h : ∀ c ∈ ds, c.isDigit = true) :
    parse ds = parseDigits ds := by
  match ds with
  | [] => rfl
  | c :: rest =>
      have hc := h c (by simp)
      unfold parse
      split
      · rename_i heq
        rw [List.cons.injEq] at heq
        rw [heq.1] at hc
        exact absurd hc (by decide)
      · rename_i heq
        rw [List.cons.injEq] at heq
        rw [heq.1] at hc
        exact absurd hc (by decide)
      · rfl

/-- **Parsing a rendered integer returns it.** -/
theorem parse_render (i : Int) : parse (render i) = some i := by
  cases i with
  | ofNat m =>
      show parse (Nat.toDigits 10 m) = _
      rw [parse_of_digits fun c hc => Nat.isDigit_of_mem_toDigits (by decide) (by decide) hc,
        parseDigits_toDigits]
      rfl
  | negSucc m =>
      show (parseDigits (Nat.toDigits 10 (m + 1))).map _ = _
      rw [parseDigits_toDigits]
      rfl

/-- A character of a rendered integer. -/
def IsDecimal (c : Char) : Prop := c.isDigit = true ∨ c = '-'

theorem isDecimal_of_mem_render {i : Int} {c : Char} (hc : c ∈ render i) : IsDecimal c := by
  cases i with
  | ofNat m => exact Or.inl (Nat.isDigit_of_mem_toDigits (by decide) (by decide) hc)
  | negSucc m =>
      rcases List.mem_cons.mp hc with rfl | hc'
      · exact Or.inr rfl
      · exact Or.inl (Nat.isDigit_of_mem_toDigits (by decide) (by decide) hc')

theorem not_mem_render {i : Int} {c : Char} (hc : ¬IsDecimal c) : c ∉ render i :=
  fun hmem => hc (isDecimal_of_mem_render hmem)

theorem render_ne_nil (i : Int) : render i ≠ [] := by
  cases i with
  | ofNat m => exact Nat.toDigits_ne_nil
  | negSucc m => exact List.cons_ne_nil _ _

end Evoting.Decimal

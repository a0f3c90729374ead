/-
Base64 over bytes.

The encoder writes groups of four digits and pads the last one with `=`.  The
decoder is the lenient basic one: it takes padded or unpadded endings, ignores
left-over bits of the last digit, and refuses everything outside the alphabet.
`decode_encode` is the round trip, and `isText_of_decode` says that a text the
decoder takes consists of digits and padding only, which is what lets Base64
text stand as a field of a separated record.
-/
import Mathlib.Tactic.IntervalCases

namespace Evoting.Base64

/-- The digit for a six-bit value. -/
def digit (v : Nat) : Char :=
  if v < 26 then Char.ofNat (65 + v)
  else if v < 52 then Char.ofNat (97 + (v - 26))
  else if v < 62 then Char.ofNat (48 + (v - 52))
  else if v = 62 then '+' else '/'

/-- The six-bit value of a digit, if the character is one. -/
def value (c : Char) : Option Nat :=
  if 'A' ≤ c ∧ c ≤ 'Z' then some (c.toNat - 65)
  else if 'a' ≤ c ∧ c ≤ 'z' then some (c.toNat - 97 + 26)
  else if '0' ≤ c ∧ c ≤ '9' then some (c.toNat - 48 + 52)
  else if c = '+' then some 62
  else if c = '/' then some 63
  else none

/-- One byte from the first two digits of a group. -/
def byte₁ (a b : Nat) : UInt8 := UInt8.ofNat (a * 4 + b / 16)

/-- One byte from the second and third digit of a group. -/
def byte₂ (b c : Nat) : UInt8 := UInt8.ofNat (b % 16 * 16 + c / 4)

/-- One byte from the last two digits of a group. -/
def byte₃ (c d : Nat) : UInt8 := UInt8.ofNat (c % 4 * 64 + d)

def encode : List UInt8 → List Char
  | [] => []
  | [x] => [digit (x.toNat / 4), digit (x.toNat % 4 * 16), '=', '=']
  | [x, y] =>
      [digit (x.toNat / 4), digit (x.toNat % 4 * 16 + y.toNat / 16),
        digit (y.toNat % 16 * 4), '=']
  | x :: y :: z :: rest =>
      digit (x.toNat / 4) :: digit (x.toNat % 4 * 16 + y.toNat / 16) ::
        digit (y.toNat % 16 * 4 + z.toNat / 64) :: digit (z.toNat % 64) :: encode rest

/-- The bytes of a group of two digits. -/
def pair (a b : Char) : Option (List UInt8) := do
  let a ← value a
  let b ← value b
  return [byte₁ a b]

/-- The bytes of a group of three digits. -/
def triple (a b c : Char) : Option (List UInt8) := do
  let a ← value a
  let b ← value b
  let c ← value c
  return [byte₁ a b, byte₂ b c]

/-- The bytes of a full group. -/
def quad (a b c d : Char) : Option (List UInt8) := do
  let a ← value a
  let b ← value b
  let c ← value c
  let d ← value d
  return [byte₁ a b, byte₂ b c, byte₃ c d]

/-- The bytes a text stands for, or nothing when it is not Base64. -/
def decode : List Char → Option (List UInt8)
  | [] => some []
  | [_] => none
  | [a, b] => pair a b
  | [a, b, c] => triple a b c
  | a :: b :: c :: d :: rest =>
      if d = '=' then
        if rest ≠ [] then none else if c = '=' then pair a b else triple a b c
      else do
        let bytes ← quad a b c d
        let more ← decode rest
        return bytes ++ more

/-! ### The alphabet -/

theorem value_digit {v : Nat} (h : v < 64) : value (digit v) = some v := by
  interval_cases v <;> decide

theorem digit_ne_pad {v : Nat} (h : v < 64) : digit v ≠ '=' := by
  interval_cases v <;> decide

/-- A character of a Base64 text. -/
def IsText (c : Char) : Prop := (value c).isSome = true ∨ c = '='

theorem not_isText_comma : ¬IsText ',' := by unfold IsText; decide

theorem not_isText_bar : ¬IsText '|' := by unfold IsText; decide

theorem not_isText_semicolon : ¬IsText ';' := by unfold IsText; decide

/-! ### Decoding what was encoded -/

theorem pair_digits {x : Nat} (hx : x < 256) :
    pair (digit (x / 4)) (digit (x % 4 * 16)) = some [UInt8.ofNat x] := by
  simp only [pair, value_digit (show x / 4 < 64 by omega),
    value_digit (show x % 4 * 16 < 64 by omega), Option.bind_eq_bind, Option.bind_some,
    Option.pure_def, byte₁]
  rw [show x / 4 * 4 + x % 4 * 16 / 16 = x by omega]

theorem triple_digits {x y : Nat} (hx : x < 256) (hy : y < 256) :
    triple (digit (x / 4)) (digit (x % 4 * 16 + y / 16)) (digit (y % 16 * 4))
      = some [UInt8.ofNat x, UInt8.ofNat y] := by
  simp only [triple, value_digit (show x / 4 < 64 by omega),
    value_digit (show x % 4 * 16 + y / 16 < 64 by omega),
    value_digit (show y % 16 * 4 < 64 by omega), Option.bind_eq_bind, Option.bind_some,
    Option.pure_def, byte₁, byte₂]
  rw [show x / 4 * 4 + (x % 4 * 16 + y / 16) / 16 = x by omega,
    show (x % 4 * 16 + y / 16) % 16 * 16 + y % 16 * 4 / 4 = y by omega]

theorem quad_digits {x y z : Nat} (hx : x < 256) (hy : y < 256) (hz : z < 256) :
    quad (digit (x / 4)) (digit (x % 4 * 16 + y / 16)) (digit (y % 16 * 4 + z / 64))
      (digit (z % 64)) = some [UInt8.ofNat x, UInt8.ofNat y, UInt8.ofNat z] := by
  simp only [quad, value_digit (show x / 4 < 64 by omega),
    value_digit (show x % 4 * 16 + y / 16 < 64 by omega),
    value_digit (show y % 16 * 4 + z / 64 < 64 by omega),
    value_digit (show z % 64 < 64 by omega), Option.bind_eq_bind, Option.bind_some,
    Option.pure_def, byte₁, byte₂, byte₃]
  rw [show x / 4 * 4 + (x % 4 * 16 + y / 16) / 16 = x by omega,
    show (x % 4 * 16 + y / 16) % 16 * 16 + (y % 16 * 4 + z / 64) / 4 = y by omega,
    show (y % 16 * 4 + z / 64) % 4 * 64 + z % 64 = z by omega]

/-- **Decoding an encoding returns the bytes.** -/
theorem decode_encode (bs : List UInt8) : decode (encode bs) = some bs := by
  induction bs using encode.induct with
  | case1 => rfl
  | case2 x =>
      simp [encode, decode, pair_digits x.toNat_lt]
  | case3 x y =>
      have hc : digit (y.toNat % 16 * 4) ≠ '=' := digit_ne_pad (by omega)
      simp [encode, decode, hc, triple_digits x.toNat_lt y.toNat_lt]
  | case4 x y z rest ih =>
      have hd : digit (z.toNat % 64) ≠ '=' := digit_ne_pad (by omega)
      simp [encode, decode, hd, quad_digits x.toNat_lt y.toNat_lt z.toNat_lt, ih]

/-! ### What the decoder takes -/

theorem pair_text {a b : Char} {bs : List UInt8} (h : pair a b = some bs) :
    IsText a ∧ IsText b := by
  simp only [pair, Option.bind_eq_bind, Option.bind_eq_some_iff] at h
  obtain ⟨va, ha, vb, hb, -⟩ := h
  exact ⟨Or.inl (by simp [ha]), Or.inl (by simp [hb])⟩

theorem triple_text {a b c : Char} {bs : List UInt8} (h : triple a b c = some bs) :
    IsText a ∧ IsText b ∧ IsText c := by
  simp only [triple, Option.bind_eq_bind, Option.bind_eq_some_iff] at h
  obtain ⟨va, ha, vb, hb, vc, hc, -⟩ := h
  exact ⟨Or.inl (by simp [ha]), Or.inl (by simp [hb]), Or.inl (by simp [hc])⟩

theorem quad_text {a b c d : Char} {bs : List UInt8} (h : quad a b c d = some bs) :
    IsText a ∧ IsText b ∧ IsText c ∧ IsText d := by
  simp only [quad, Option.bind_eq_bind, Option.bind_eq_some_iff] at h
  obtain ⟨va, ha, vb, hb, vc, hc, vd, hd, -⟩ := h
  exact ⟨Or.inl (by simp [ha]), Or.inl (by simp [hb]), Or.inl (by simp [hc]),
    Or.inl (by simp [hd])⟩

theorem isText_equals : IsText '=' := Or.inr rfl

/-- **A text the decoder takes is made of digits and padding.** -/
theorem isText_of_decode {s : List Char} :
    ∀ {bs : List UInt8}, decode s = some bs → ∀ x ∈ s, IsText x := by
  induction s using decode.induct with
  | case1 => intro bs _ x hx; simp at hx
  | case2 a => intro bs h; simp [decode] at h
  | case3 a b =>
      intro bs h
      obtain ⟨ha, hb⟩ := pair_text h
      simp [ha, hb]
  | case4 a b c =>
      intro bs h
      obtain ⟨ha, hb, hc⟩ := triple_text h
      simp [ha, hb, hc]
  | case5 a b c rest hrest => intro bs h; simp [decode, hrest] at h
  | case6 a b rest hrest =>
      intro bs h
      have hnil : rest = [] := by simpa using hrest
      subst hnil
      obtain ⟨ha, hb⟩ := pair_text (by simpa [decode] using h)
      simp [ha, hb, isText_equals]
  | case7 a b c rest hrest hc =>
      intro bs h
      have hnil : rest = [] := by simpa using hrest
      subst hnil
      obtain ⟨ha, hb, hc⟩ := triple_text (by simpa [decode, hc] using h)
      simp [ha, hb, hc, isText_equals]
  | case8 a b c d rest hd ih =>
      intro bs h
      rw [decode, if_neg hd] at h
      simp only [Option.bind_eq_bind, Option.bind_eq_some_iff] at h
      obtain ⟨group, hquad, more, hmore, -⟩ := h
      obtain ⟨ha, hb, hc, hd'⟩ := quad_text hquad
      simpa [ha, hb, hc, hd'] using ih hmore

/-- A text the decoder takes does not contain a character that is neither a digit
nor padding. -/
theorem not_mem_of_decode {s : List Char} {bs : List UInt8} (h : decode s = some bs)
    {c : Char} (hc : ¬IsText c) : c ∉ s :=
  fun hmem => hc (isText_of_decode h c hmem)

theorem decode_nil : decode [] = some [] := rfl

/-- Only the empty byte string is written as the empty text. -/
theorem encode_eq_nil {bs : List UInt8} : encode bs = [] ↔ bs = [] := by
  constructor
  · intro h
    have := decode_encode bs
    rw [h, decode_nil, Option.some.injEq] at this
    exact this.symm
  · rintro rfl
    rfl

example : encode [77, 97, 110, 77] = "TWFuTQ==".toList := by decide

end Evoting.Base64

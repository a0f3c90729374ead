/-
What the Java classes of this repository take from their platform.

Strings are lists of characters: every string here comes out of a UTF-8 decoder
or is built from such strings, so it has no lone surrogates, and the operations
used (splitting at an ASCII separator, prefix tests, concatenation) do not see
the difference between characters and UTF-16 units.  Where a length is compared
with a bound it does matter, and `utf16Length` counts the units.  Exceptions are values of
`Throwable`; a method that may throw returns an `Except`.

`Utf8` stands for the two protobuf conversions between byte strings and strings,
which are not part of this repository; its fields are the two facts about them
that the handler and its clients rely on.
-/
import Evoting.Lib.Fields
import Mathlib.Algebra.GroupWithZero.Nat
import Mathlib.Data.List.Basic

namespace Evoting

/-- `java.lang.String`. -/
abbrev JString := List Char

/-- Texts are looked up in lists through this instance, in every module. -/
instance : LawfulBEq JString := inferInstance

/-- `byte[]` and protobuf's `ByteString`, by bit pattern. -/
abbrev ByteString := List UInt8

/-- What the modelled methods can throw. -/
inductive Throwable where
  /-- `sawtooth.sdk.processor.exceptions.InvalidTransactionException` -/
  | invalidTransaction (message : String)
  /-- `sawtooth.sdk.processor.exceptions.InternalError` -/
  | internalError (message : String)
  | illegalArgument
  /-- `NumberFormatException`, the one kind of `IllegalArgumentException` the handler catches. -/
  | numberFormat
  | io
  | classNotFound
  | classCast
  | nullPointer
  | indexOutOfBounds
  | arithmetic
  | noSuchElement
  deriving DecidableEq, Repr

namespace Throwable

/-- The two exceptions `TransactionProcessor.process` turns into a response. -/
def isReported : Throwable → Bool
  | invalidTransaction _ => true
  | internalError _ => true
  | _ => false

end Throwable

/-! ### Computations that may throw -/

section Bind

variable {ε α β : Type} {x : Except ε α} {f : α → Except ε β}

@[simp] theorem ok_bind (a : α) (f : α → Except ε β) : (Except.ok a >>= f) = f a := rfl

@[simp] theorem error_bind (e : ε) (f : α → Except ε β) :
    ((Except.error e : Except ε α) >>= f) = .error e := rfl

@[simp] theorem pure_eq_ok (a : α) : (pure a : Except ε α) = .ok a := rfl

@[simp] theorem throw_eq_error (e : ε) : (throw e : Except ε α) = .error e := rfl

/-- A `mapM` whose calls all return is a `map`. -/
theorem mapM_eq_ok {l : List α} {g : α → β} (h : ∀ a ∈ l, f a = .ok (g a)) :
    l.mapM f = .ok (l.map g) := by
  induction l with
  | nil => rfl
  | cons a l ih =>
      rw [List.mapM_cons, h a (by simp), ih fun a ha => h a (by simp [ha])]
      rfl

/-- An `anyM` whose calls all return is an `any`. -/
theorem anyM_eq_ok {l : List α} {p : α → Except ε Bool} {q : α → Bool}
    (h : ∀ a ∈ l, p a = .ok (q a)) : l.anyM p = .ok (l.any q) := by
  induction l with
  | nil => rfl
  | cons a l ih =>
      rw [List.anyM, h a (by simp), ok_bind, List.any_cons]
      cases q a with
      | true => rfl
      | false => exact ih fun a ha => h a (by simp [ha])

theorem bind_eq_ok_iff {b : β} : (x >>= f) = .ok b ↔ ∃ a, x = .ok a ∧ f a = .ok b := by
  cases x <;> simp

/-- A loop whose passes all return is a `foldl`. -/
theorem foldlM_eq_ok {γ : Type} {l : List α} {f : γ → α → Except ε γ} {g : γ → α → γ} (init : γ)
    (h : ∀ a ∈ l, ∀ acc, f acc a = .ok (g acc a)) : l.foldlM f init = .ok (l.foldl g init) := by
  induction l generalizing init with
  | nil => rfl
  | cons a l ih =>
      rw [List.foldlM_cons, h a (by simp), ok_bind, ih _ fun a ha => h a (by simp [ha])]
      rfl

/-- Loops that differ in what they throw. -/
theorem foldlM_mapError {ε' γ : Type} {l : List α} {f : γ → α → Except ε γ}
    {g : γ → α → Except ε' γ} {e : ε' → ε} (init : γ)
    (h : ∀ a ∈ l, ∀ acc, f acc a = (g acc a).mapError e) :
    l.foldlM f init = (l.foldlM g init).mapError e := by
  induction l generalizing init with
  | nil => rfl
  | cons a l ih =>
      rw [List.foldlM_cons, List.foldlM_cons, h a (by simp)]
      cases g init a with
      | error thrown => rfl
      | ok acc => exact ih acc fun a ha => h a (by simp [ha])

/-- Two nested loops are one. -/
theorem foldlM_flatMap {γ : Type} (l : List α) (f : α → List β) (g : γ → β → Except ε γ)
    (init : γ) : (l.flatMap f).foldlM g init = l.foldlM (fun acc a => (f a).foldlM g acc) init := by
  induction l generalizing init with
  | nil => rfl
  | cons a l ih =>
      rw [List.flatMap_cons, List.foldlM_append, List.foldlM_cons]
      simp only [ih]

end Bind

/-! ### Lists and strings -/

/-- `String.length`: a character beyond the first 65536 takes two units. -/
def utf16Length (s : JString) : Nat := (s.map fun c => if c.toNat < 65536 then 1 else 2).sum

theorem length_le_utf16Length (s : JString) : s.length ≤ utf16Length s := by
  induction s with
  | nil => simp [utf16Length]
  | cons c s ih =>
      simp only [utf16Length, List.map_cons, List.sum_cons, List.length_cons] at ih ⊢
      split <;> omega

/-- `ArrayList.set`: only an index that exists can be written. -/
def arrayListSet {α : Type} (l : List α) (i : Nat) (x : α) : Except Throwable (List α) :=
  if i < l.length then .ok (l.set i x) else .error .indexOutOfBounds

/-- `String.substring(begin, end)`. -/
def substring (s : JString) (begin finish : Nat) : Except Throwable JString :=
  if begin ≤ finish ∧ finish ≤ s.length then .ok ((s.take finish).drop begin)
  else .error .indexOutOfBounds

/-- `String.split` at one separator character. -/
abbrev splitString (sep : Char) (s : JString) : List JString := Fields.split sep s

/-- `StringUtils.join`. -/
abbrev joinStrings (sep : Char) (l : List JString) : JString := Fields.join sep l

/-- `s.regionMatches(0, prefix, 0, prefix.length())`. -/
def regionMatches (s start : JString) : Bool := start.isPrefixOf s

@[simp] theorem regionMatches_iff {s start : JString} :
    regionMatches s start = true ↔ start <+: s := by
  rw [regionMatches, List.isPrefixOf_iff_prefix]

/-! ### UTF-8 -/

/-- protobuf's `ByteString.toStringUtf8` and `ByteString.copyFromUtf8`. -/
structure Utf8 where
  toStringUtf8 : ByteString → JString
  copyFromUtf8 : JString → ByteString
  /-- A string is written and read back unchanged. -/
  toStringUtf8_copyFromUtf8 : ∀ s, toStringUtf8 (copyFromUtf8 s) = s
  /-- An ASCII character is one byte, its code. -/
  copyFromUtf8_ascii : ∀ s : JString, (∀ c ∈ s, c.toNat < 128) →
    copyFromUtf8 s = s.map fun c => UInt8.ofNat c.toNat

namespace Utf8

attribute [simp] toStringUtf8_copyFromUtf8

@[simp] theorem copyFromUtf8_nil (utf8 : Utf8) : utf8.copyFromUtf8 [] = [] :=
  utf8.copyFromUtf8_ascii [] (by simp)

@[simp] theorem toStringUtf8_nil (utf8 : Utf8) : utf8.toStringUtf8 [] = [] := by
  have h := utf8.toStringUtf8_copyFromUtf8 []
  rwa [utf8.copyFromUtf8_nil] at h

theorem copyFromUtf8_injective (utf8 : Utf8) : Function.Injective utf8.copyFromUtf8 :=
  Function.LeftInverse.injective utf8.toStringUtf8_copyFromUtf8

/-- The conversions of the standard: well-formed bytes are decoded, and malformed
ones, which a client can send but the handler never writes, read as one
replacement character. -/
def standard : Utf8 where
  toStringUtf8 bs :=
    match ByteArray.utf8Decode? ⟨bs.toArray⟩ with
    | some cs => cs.toList
    | none => [Char.ofNat 0xFFFD]
  copyFromUtf8 s := (String.ofList s).toByteArray.data.toList
  toStringUtf8_copyFromUtf8 s := by
    have h : ByteArray.utf8Decode? ⟨(String.ofList s).toByteArray.data.toList.toArray⟩
        = some s.toArray := by
      show ByteArray.utf8Decode? (String.ofList s).toByteArray = _
      rw [String.toByteArray_ofList, List.utf8Decode?_utf8Encode]
    rw [h]
  copyFromUtf8_ascii s h := by
    rw [String.toByteArray_ofList, List.utf8Encode]
    have hbytes : (s.flatMap String.utf8EncodeChar).toByteArray.data.toList
        = s.flatMap String.utf8EncodeChar := by simp
    rw [hbytes]
    clear hbytes
    induction s with
    | nil => rfl
    | cons c s ih =>
        have hc : c.val.toNat ≤ 0x7f := Nat.le_of_lt_succ (h c (by simp))
        rw [List.flatMap_cons, List.map_cons, ih fun d hd => h d (by simp [hd]),
          String.utf8EncodeChar, if_pos hc]
        rfl

end Utf8

end Evoting

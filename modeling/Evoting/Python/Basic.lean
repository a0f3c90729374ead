/-
What the Python programs of this repository take from their language.

Strings are lists of characters, which Python orders by code point as the order of
lists does.  Exceptions are values of `PyException`; a function that may raise
returns an `Except`.  `PyUtf8` is `bytes.decode()` and `str.encode()`; its two laws
are all that the readers and the writers of state rely on.
-/
import Evoting.Java.Basic
import Mathlib.Data.Char
import Mathlib.Data.List.Lex
import Mathlib.Logic.Function.Basic

namespace Evoting

/-- `str`. -/
abbrev PyString := List Char

/-- `bytes`. -/
abbrev PyBytes := List UInt8

/-- What the modelled functions can raise. -/
inductive PyException where
  /-- `sawtooth_sdk.processor.exceptions.InvalidTransaction` -/
  | invalidTransaction (message : String)
  /-- `sawtooth_sdk.processor.exceptions.InternalError` -/
  | internalError (message : String)
  | keyError
  | indexError
  | valueError
  | attributeError
  | assertionError
  /-- A local variable is read that no branch has assigned. -/
  | unboundLocalError
  deriving DecidableEq, Repr

/-- UTF-8; `decode` is nothing where it raises a `UnicodeDecodeError`. -/
structure PyUtf8 where
  encode : PyString → PyBytes
  decode : PyBytes → Option PyString
  decode_encode : ∀ s, decode (encode s) = some s
  encode_nil : encode [] = []

namespace PyUtf8

attribute [simp] decode_encode

theorem encode_injective (utf8 : PyUtf8) : Function.Injective utf8.encode := by
  intro s t h
  have hdecode := congrArg utf8.decode h
  simpa using hdecode

theorem encode_ne_nil (utf8 : PyUtf8) {s : PyString} (h : s ≠ []) : utf8.encode s ≠ [] := by
  rw [← utf8.encode_nil]
  exact fun heq => h (utf8.encode_injective heq)

/-- The codec of the standard. -/
def standard : PyUtf8 where
  encode s := (String.ofList s).toByteArray.data.toList
  decode bytes := (ByteArray.utf8Decode? ⟨bytes.toArray⟩).map Array.toList
  decode_encode s := by
    have h : ByteArray.utf8Decode? ⟨(String.ofList s).toByteArray.data.toList.toArray⟩
        = some s.toArray := by
      show ByteArray.utf8Decode? (String.ofList s).toByteArray = _
      rw [String.toByteArray_ofList, List.utf8Decode?_utf8Encode]
    rw [h]
    rfl
  encode_nil := rfl

end PyUtf8

/-! ### Strings -/

/-- `s.split(sep)`, at one character. -/
abbrev pySplit (sep : Char) (s : PyString) : List PyString := s.splitOn sep

/-- `sep.join(l)`. -/
abbrev pyJoin (sep : Char) (l : List PyString) : PyString := Fields.join sep l

/-- `sorted(l)`. -/
def pySorted (l : List PyString) : List PyString := l.mergeSort fun a b => decide (a ≤ b)

theorem pySorted_perm (l : List PyString) : (pySorted l).Perm l := List.mergeSort_perm l _

theorem pySorted_pairwise (l : List PyString) : (pySorted l).Pairwise (· ≤ ·) := by
  have h : (pySorted l).Pairwise fun a b => decide (a ≤ b) :=
    List.pairwise_mergeSort
      (fun a b c hab hbc => by simpa using le_trans (by simpa using hab) (by simpa using hbc))
      (fun a b => by simpa using le_total a b) l
  simpa using h

/-- **Sorting forgets the order.** -/
theorem pySorted_congr {l l' : List PyString} (h : l.Perm l') : pySorted l = pySorted l' := by
  refine List.Perm.eq_of_pairwise (fun a b _ _ hab hba => le_antisymm hab hba)
    (pySorted_pairwise l) (pySorted_pairwise l') ?_
  exact (pySorted_perm l).trans (h.trans (pySorted_perm l').symm)

/-- Sorting by a text. -/
theorem exists_pySorted_map {α : Type} (f : α → PyString) (l : List α) :
    ∃ l' : List α, l'.Perm l ∧ pySorted (l.map f) = l'.map f := by
  refine ⟨l.mergeSort fun a b => decide (f a ≤ f b), List.mergeSort_perm l _, ?_⟩
  have hmap : ∀ a ∈ l, ∀ b ∈ l, decide (f a ≤ f b) = decide (f a ≤ f b) := fun _ _ _ _ => rfl
  exact (List.map_mergeSort (s := fun a b => decide (a ≤ b)) hmap).symm

/-! ### Validator state -/

/-- What the validator holds at each address, as `sawtooth_sdk.processor.context.Context`
reaches it. -/
structure PyContext where
  data : PyString → Option PyBytes

namespace PyContext

/-- Nothing is stored. -/
def empty : PyContext := ⟨fun _ => none⟩

/-- `get_state`: the entries that have data. -/
def getState (context : PyContext) (addresses : List PyString) : List (PyString × PyBytes) :=
  (addresses.map fun address => (address, (context.data address).getD [])).filter
    fun entry => entry.2.length ≠ 0

/-- `set_state`, when the validator honours it. -/
def setState (context : PyContext) (entries : List (PyString × PyBytes)) :
    List PyString × PyContext :=
  (entries.map Prod.fst, entries.foldl
    (fun context entry => ⟨Function.update context.data entry.1 (some entry.2)⟩) context)

/-- `delete_state`, when the validator honours it: the addresses that held something. -/
def deleteState (context : PyContext) (addresses : List PyString) : List PyString × PyContext :=
  (addresses.filter fun address => (context.data address).isSome, addresses.foldl
    (fun context address => ⟨Function.update context.data address none⟩) context)

end PyContext

end Evoting

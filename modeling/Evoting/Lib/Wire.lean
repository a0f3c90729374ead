/-
The wire format of protocol buffers.

A message is a list of fields, and a field is a number with a varint or with bytes
behind their length; values of a fixed width and groups are not read.  A message that
is written is read back (`readMessage_writeMessage`).  What a field of a message is
comes from the values of its number: all of them when it is repeated, and else the
last.  A value that is the default of its type is not written.
-/
import Mathlib.Data.List.Basic

namespace Evoting.Wire

/-! ### Varints -/

/-- A number in groups of seven bits, the lowest first; all but the last have 128 added. -/
def writeGroups : Nat → Nat → List UInt8
  | 0, n => [UInt8.ofNat n]
  | fuel + 1, n =>
      if n < 128 then [UInt8.ofNat n]
      else UInt8.ofNat (n % 128 + 128) :: writeGroups fuel (n / 128)

/-- There are fewer groups than the number counts. -/
def writeVarint (n : Nat) : List UInt8 := writeGroups n n

def readVarint : List UInt8 → Option (Nat × List UInt8)
  | [] => none
  | b :: rest =>
      if b.toNat < 128 then some (b.toNat, rest)
      else (readVarint rest).map fun (n, rest) => (b.toNat - 128 + 128 * n, rest)

theorem toNat_ofNat_of_lt {n : Nat} (h : n < 256) : (UInt8.ofNat n).toNat = n := by
  rw [UInt8.toNat_ofNat']
  exact Nat.mod_eq_of_lt h

theorem readVarint_writeGroups (fuel : Nat) : ∀ {n : Nat}, n ≤ fuel → ∀ rest,
    readVarint (writeGroups fuel n ++ rest) = some (n, rest) := by
  induction fuel with
  | zero =>
      intro n hn rest
      obtain rfl := Nat.le_zero.mp hn
      rfl
  | succ fuel ih =>
      intro n hn rest
      unfold writeGroups
      by_cases hlast : n < 128
      · have hbyte := toNat_ofNat_of_lt (by omega : n < 256)
        rw [if_pos hlast, List.singleton_append, readVarint, hbyte, if_pos hlast]
      · have hbyte := toNat_ofNat_of_lt (by omega : n % 128 + 128 < 256)
        rw [if_neg hlast, List.cons_append, readVarint, hbyte, if_neg (by omega),
          ih (by omega : n / 128 ≤ fuel)]
        have hgroups : n % 128 + 128 - 128 + 128 * (n / 128) = n := by omega
        show some (_, rest) = _
        rw [hgroups]

theorem readVarint_writeVarint (n : Nat) (rest : List UInt8) :
    readVarint (writeVarint n ++ rest) = some (n, rest) :=
  readVarint_writeGroups n (Nat.le_refl n) rest

theorem writeVarint_ne_nil (n : Nat) : writeVarint n ≠ [] := by
  intro hnil
  have hread := readVarint_writeVarint n []
  rw [hnil] at hread
  exact absurd hread (by simp [readVarint])

/-! ### Fields -/

inductive Value where
  | varint (n : Nat)
  | bytes (bytes : List UInt8)
  deriving DecidableEq

structure Field where
  number : Nat
  value : Value
  deriving DecidableEq

/-- A tag is the number and, in its low three bits, the kind of the value. -/
def writeField : Field → List UInt8
  | ⟨number, .varint n⟩ => writeVarint (8 * number) ++ writeVarint n
  | ⟨number, .bytes bytes⟩ =>
      writeVarint (8 * number + 2) ++ (writeVarint bytes.length ++ bytes)

def readField (bytes : List UInt8) : Option (Field × List UInt8) := do
  let (tag, bytes) ← readVarint bytes
  let (n, rest) ← readVarint bytes
  if tag % 8 = 0 then some (⟨tag / 8, .varint n⟩, rest)
  else if tag % 8 = 2 ∧ n ≤ rest.length then some (⟨tag / 8, .bytes (rest.take n)⟩, rest.drop n)
  else none

theorem readField_writeField (field : Field) (rest : List UInt8) :
    readField (writeField field ++ rest) = some (field, rest) := by
  obtain ⟨number, n | bytes⟩ := field
  · have hkind : 8 * number % 8 = 0 := by omega
    have hnumber : 8 * number / 8 = number := by omega
    simp only [readField, writeField, List.append_assoc, readVarint_writeVarint,
      Option.bind_eq_bind, Option.bind_some, hkind, hnumber, if_true]
  · have hkind : (8 * number + 2) % 8 = 2 := by omega
    have hnumber : (8 * number + 2) / 8 = number := by omega
    have henough : bytes.length ≤ (bytes ++ rest).length := by
      rw [List.length_append]
      omega
    simp only [readField, writeField, List.append_assoc, readVarint_writeVarint,
      Option.bind_eq_bind, Option.bind_some, hkind, hnumber, henough, and_self, if_true,
      List.take_left, List.drop_left]
    rfl

theorem writeField_ne_nil (field : Field) : writeField field ≠ [] := by
  obtain ⟨number, n | bytes⟩ := field
  · exact List.append_ne_nil_of_left_ne_nil (writeVarint_ne_nil _) _
  · exact List.append_ne_nil_of_left_ne_nil (writeVarint_ne_nil _) _

/-! ### Messages -/

def writeMessage (fields : List Field) : List UInt8 := fields.flatMap writeField

def readFields : Nat → List UInt8 → Option (List Field)
  | _, [] => some []
  | 0, _ :: _ => none
  | fuel + 1, b :: bytes => do
      let (field, rest) ← readField (b :: bytes)
      let fields ← readFields fuel rest
      return field :: fields

/-- A field takes a byte at least. -/
def readMessage (bytes : List UInt8) : Option (List Field) := readFields bytes.length bytes

theorem length_le_writeMessage (fields : List Field) :
    fields.length ≤ (writeMessage fields).length := by
  induction fields with
  | nil => exact Nat.le_refl 0
  | cons field fields ih =>
      have hpos := List.length_pos_of_ne_nil (writeField_ne_nil field)
      rw [writeMessage, List.flatMap_cons, List.length_append, ← writeMessage, List.length_cons]
      omega

theorem readFields_writeMessage (fields : List Field) : ∀ {fuel : Nat}, fields.length ≤ fuel →
    readFields fuel (writeMessage fields) = some fields := by
  induction fields with
  | nil => intro fuel _; exact readFields.eq_1 fuel
  | cons field fields ih =>
      intro fuel hfuel
      obtain ⟨fuel, rfl⟩ := Nat.exists_eq_succ_of_ne_zero (Nat.ne_of_gt (Nat.zero_lt_of_lt hfuel))
      have hread := readField_writeField field (writeMessage fields)
      have hmessage :
          writeMessage (field :: fields) = writeField field ++ writeMessage fields := rfl
      rw [hmessage]
      cases hbytes : writeField field ++ writeMessage fields with
      | nil => exact absurd (List.append_eq_nil_iff.mp hbytes).1 (writeField_ne_nil field)
      | cons b bytes =>
          rw [hbytes] at hread
          rw [readFields, hread]
          simp only [Option.bind_eq_bind, Option.bind_some, ih (Nat.le_of_succ_le_succ hfuel)]
          rfl

/-- **A message is read back.** -/
@[simp] theorem readMessage_writeMessage (fields : List Field) :
    readMessage (writeMessage fields) = some fields :=
  readFields_writeMessage fields (length_le_writeMessage fields)

/-- A parser of a message that is written goes on with its fields. -/
theorem readMessage_writeMessage_bind {β : Type} (fields : List Field)
    (f : List Field → Option β) : (readMessage (writeMessage fields) >>= f) = f fields := by
  rw [readMessage_writeMessage, Option.bind_eq_bind, Option.bind_some]

/-! ### The values of a number -/

/-- The bytes of a field, when it has the number. -/
def Field.bytesAt (number : Nat) : Field → Option (List UInt8)
  | ⟨other, .bytes bytes⟩ => if other = number then some bytes else none
  | ⟨_, .varint _⟩ => none

/-- The varint of a field, when it has the number. -/
def Field.varintAt (number : Nat) : Field → Option Nat
  | ⟨other, .varint n⟩ => if other = number then some n else none
  | ⟨_, .bytes _⟩ => none

def bytesOf (number : Nat) (fields : List Field) : List (List UInt8) :=
  fields.filterMap (Field.bytesAt number)

def varintsOf (number : Nat) (fields : List Field) : List Nat :=
  fields.filterMap (Field.varintAt number)

/-- The bytes of a field that is not repeated. -/
def lastBytes (number : Nat) (fields : List Field) : List UInt8 :=
  (bytesOf number fields).getLastD []

/-- The varint of a field that is not repeated. -/
def lastVarint (number : Nat) (fields : List Field) : Nat := (varintsOf number fields).getLastD 0

/-- A field of bytes, which is not written when there are none. -/
def bytesField (number : Nat) (bytes : List UInt8) : List Field :=
  if bytes = [] then [] else [⟨number, .bytes bytes⟩]

/-- A field that is zero is not written. -/
def varintField (number n : Nat) : List Field := if n = 0 then [] else [⟨number, .varint n⟩]

/-- A repeated field of bytes. -/
def repeatedField (number : Nat) (l : List (List UInt8)) : List Field :=
  l.map fun bytes => ⟨number, .bytes bytes⟩

section Values

variable {number other n : Nat} {bytes : List UInt8} {l : List (List UInt8)}

@[simp] theorem bytesOf_append (fields fields' : List Field) :
    bytesOf number (fields ++ fields') = bytesOf number fields ++ bytesOf number fields' :=
  List.filterMap_append

@[simp] theorem varintsOf_append (fields fields' : List Field) :
    varintsOf number (fields ++ fields') = varintsOf number fields ++ varintsOf number fields' :=
  List.filterMap_append

@[simp] theorem bytesOf_varintField : bytesOf number (varintField other n) = [] := by
  unfold varintField
  split
  · rfl
  · rfl

@[simp] theorem varintsOf_bytesField : varintsOf number (bytesField other bytes) = [] := by
  unfold bytesField
  split
  · rfl
  · rfl

@[simp] theorem varintsOf_repeatedField : varintsOf number (repeatedField other l) = [] := by
  rw [varintsOf, repeatedField, List.filterMap_map, List.filterMap_eq_nil_iff]
  intro _ _
  rfl

@[simp] theorem bytesOf_bytesField_of_ne (h : other ≠ number) :
    bytesOf number (bytesField other bytes) = [] := by
  unfold bytesField
  split
  · rfl
  · simp [bytesOf, Field.bytesAt, h]

@[simp] theorem bytesOf_repeatedField_of_ne (h : other ≠ number) :
    bytesOf number (repeatedField other l) = [] := by
  rw [bytesOf, repeatedField, List.filterMap_map, List.filterMap_eq_nil_iff]
  intro _ _
  exact if_neg h

/-- Bytes that are not written are the default. -/
theorem bytesOf_bytesField : bytesOf number (bytesField number bytes) =
    if bytes = [] then [] else [bytes] := by
  unfold bytesField
  split
  · rfl
  · simp [bytesOf, Field.bytesAt]

theorem lastBytes_eq {fields : List Field}
    (h : bytesOf number fields = bytesOf number (bytesField number bytes)) :
    lastBytes number fields = bytes := by
  rw [lastBytes, h, bytesOf_bytesField]
  split
  · rename_i hnil
    exact hnil.symm
  · rfl

theorem lastVarint_eq {fields : List Field}
    (h : varintsOf number fields = varintsOf number (varintField number n)) :
    lastVarint number fields = n := by
  rw [lastVarint, h]
  unfold varintField
  split
  · rename_i hzero
    exact hzero.symm
  · simp [varintsOf, Field.varintAt]

@[simp] theorem bytesOf_repeatedField : bytesOf number (repeatedField number l) = l := by
  rw [bytesOf, repeatedField, List.filterMap_map]
  have hall : Field.bytesAt number ∘ (fun bytes => ⟨number, .bytes bytes⟩) = some := by
    funext bytes
    exact if_pos rfl
  rw [hall, List.filterMap_some]

end Values

/-- Messages that are each read back are read back together. -/
theorem mapM_map_eq_some {α β : Type} {write : α → β} {read : β → Option α}
    (h : ∀ a, read (write a) = some a) (l : List α) : (l.map write).mapM read = some l := by
  induction l with
  | nil => rfl
  | cons a l ih => simp [h, ih]

end Evoting.Wire

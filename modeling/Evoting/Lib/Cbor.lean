/-
Integers, texts and maps in CBOR.

A data item starts with a head: its major type in three bits, and a number in the
other five or in the one, two, four or eight bytes that follow.  Integers are a
head, texts are the number of their UTF-8 bytes and the bytes, maps are the number
of their entries and the entries.  Other items, and items of indefinite length, are
not read.  `readMap_writeMap` is the round trip, whatever follows.
-/
import Mathlib.Algebra.Group.Int.Defs
import Mathlib.Algebra.Group.Nat.Defs
import Mathlib.Data.List.Basic

namespace Evoting.Cbor

/-! ### Numbers of a fixed width -/

/-- The last bytes of a number, the most significant first. -/
def bigEndian : Nat → Nat → List UInt8
  | 0, _ => []
  | width + 1, n => UInt8.ofNat (n / 256 ^ width) :: bigEndian width n

/-- The number that bytes stand for. -/
def ofBigEndian (bytes : List UInt8) : Nat := bytes.foldl (fun v b => 256 * v + b.toNat) 0

@[simp] theorem length_bigEndian (width n : Nat) : (bigEndian width n).length = width := by
  induction width with
  | zero => rfl
  | succ width ih => rw [bigEndian, List.length_cons, ih]

theorem foldl_bigEndian (width n : Nat) : ∀ v : Nat,
    (bigEndian width n).foldl (fun v b => 256 * v + b.toNat) v
      = 256 ^ width * v + n % 256 ^ width := by
  induction width with
  | zero => intro v; simp [bigEndian, Nat.mod_one]
  | succ width ih =>
      intro v
      have hbyte : (UInt8.ofNat (n / 256 ^ width)).toNat = n / 256 ^ width % 256 := by simp
      rw [bigEndian, List.foldl_cons, ih, hbyte, Nat.mod_pow_succ, Nat.pow_succ, Nat.mul_add]
      rw [Nat.mul_assoc]
      omega

theorem ofBigEndian_bigEndian {width n : Nat} (h : n < 256 ^ width) :
    ofBigEndian (bigEndian width n) = n := by
  rw [ofBigEndian, foldl_bigEndian, Nat.mul_zero, Nat.zero_add, Nat.mod_eq_of_lt h]

/-! ### Heads -/

/-- The low five bits of the head of a number. -/
def info (n : Nat) : Nat :=
  if n < 24 then n else if n < 256 then 24 else if n < 65536 then 25
  else if n < 2 ^ 32 then 26 else 27

/-- How many bytes follow a head. -/
def width (info : Nat) : Nat := if info < 24 then 0 else 2 ^ (info - 24)

def writeHead (major n : Nat) : List UInt8 :=
  UInt8.ofNat (32 * major + info n) :: bigEndian (width (info n)) n

def readHead : List UInt8 → Option ((Nat × Nat) × List UInt8)
  | [] => none
  | b :: rest =>
      let info := b.toNat % 32
      if 28 ≤ info ∨ rest.length < width info then none
      else
        let n := if info < 24 then info else ofBigEndian (rest.take (width info))
        some ((b.toNat / 32, n), rest.drop (width info))

theorem info_lt (n : Nat) : info n < 28 := by
  unfold info
  split_ifs <;> omega

theorem info_of_lt {n : Nat} (h : n < 24) : info n = n := if_pos h

theorem lt_pow_width_info {n : Nat} (h : n < 2 ^ 64) (hn : ¬n < 24) : n < 256 ^ width (info n) := by
  unfold info
  rw [if_neg hn]
  split_ifs with h₁ h₂ h₃
  · exact h₁
  · exact h₂
  · exact h₃
  · exact h

theorem le_info {n : Nat} (hn : ¬n < 24) : ¬info n < 24 := by
  unfold info
  rw [if_neg hn]
  split_ifs <;> omega

/-- **A head is read back.** -/
theorem readHead_writeHead {major n : Nat} (hmajor : major < 8) (hn : n < 2 ^ 64)
    (rest : List UInt8) : readHead (writeHead major n ++ rest) = some ((major, n), rest) := by
  have hinfo := info_lt n
  have hbyte : (UInt8.ofNat (32 * major + info n)).toNat = 32 * major + info n := by
    rw [UInt8.toNat_ofNat']
    exact Nat.mod_eq_of_lt (by omega)
  have hlow : (32 * major + info n) % 32 = info n := by omega
  have hhigh : (32 * major + info n) / 32 = major := by omega
  have hlength : (bigEndian (width (info n)) n).length = width (info n) := length_bigEndian _ n
  have henough : ¬(28 ≤ info n ∨
      (bigEndian (width (info n)) n ++ rest).length < width (info n)) := by
    rw [List.length_append, hlength]
    omega
  have hvalue : (if info n < 24 then info n else ofBigEndian
      ((bigEndian (width (info n)) n ++ rest).take (width (info n)))) = n := by
    by_cases hsmall : n < 24
    · rw [info_of_lt hsmall, if_pos hsmall]
    · rw [if_neg (le_info hsmall), List.take_left' hlength,
        ofBigEndian_bigEndian (lt_pow_width_info hn hsmall)]
  have hdrop : (bigEndian (width (info n)) n ++ rest).drop (width (info n)) = rest :=
    List.drop_left' hlength
  simp only [writeHead, List.cons_append, readHead, hbyte, hlow, hhigh, if_neg henough, hvalue,
    hdrop]

/-! ### Integers and texts -/

inductive Scalar where
  | integer (v : Int)
  | text (s : List Char)
  deriving DecidableEq, Repr

/-- The UTF-8 bytes of a text. -/
def textBytes (s : List Char) : List UInt8 := s.flatMap String.utf8EncodeChar

def ofTextBytes (bytes : List UInt8) : Option (List Char) :=
  (ByteArray.utf8Decode? ⟨bytes.toArray⟩).map Array.toList

theorem ofTextBytes_textBytes (s : List Char) : ofTextBytes (textBytes s) = some s := by
  have hdecode : ByteArray.utf8Decode? ⟨(textBytes s).toArray⟩ = some s.toArray := by
    have hbytes : (⟨(textBytes s).toArray⟩ : ByteArray) = s.utf8Encode := by
      rw [List.utf8Encode, textBytes]
      exact ByteArray.ext (by simp)
    rw [hbytes, List.utf8Decode?_utf8Encode]
  rw [ofTextBytes, hdecode]
  rfl

theorem length_textBytes_le (s : List Char) : (textBytes s).length ≤ 4 * s.length := by
  induction s with
  | nil => simp [textBytes]
  | cons c s ih =>
      have hc : (String.utf8EncodeChar c).length ≤ 4 := by
        rw [String.length_utf8EncodeChar]
        exact c.utf8Size_le_four
      rw [textBytes, List.flatMap_cons, List.length_append, List.length_cons]
      rw [textBytes] at ih
      omega

namespace Scalar

/-- What the numbers of a head can hold. -/
def Fits : Scalar → Prop
  | integer v => -2 ^ 64 ≤ v ∧ v < 2 ^ 64
  | text s => (textBytes s).length < 2 ^ 64

def write : Scalar → List UInt8
  | integer (.ofNat n) => writeHead 0 n
  | integer (.negSucc n) => writeHead 1 n
  | text s => writeHead 3 (textBytes s).length ++ textBytes s

def read (bytes : List UInt8) : Option (Scalar × List UInt8) :=
  match readHead bytes with
  | some ((0, n), rest) => some (integer (.ofNat n), rest)
  | some ((1, n), rest) => some (integer (.negSucc n), rest)
  | some ((3, n), rest) =>
      if rest.length < n then none
      else (ofTextBytes (rest.take n)).map fun s => (text s, rest.drop n)
  | _ => none

theorem read_write {x : Scalar} (hx : x.Fits) (rest : List UInt8) :
    read (x.write ++ rest) = some (x, rest) := by
  cases x with
  | integer v =>
      cases v with
      | ofNat n =>
          have hn : n < 2 ^ 64 := Int.ofNat_lt.mp hx.2
          rw [read, write, readHead_writeHead (by decide) hn]
          rfl
      | negSucc n =>
          have hn : n < 2 ^ 64 := by
            have hle := hx.1
            omega
          rw [read, write, readHead_writeHead (by decide) hn]
          rfl
  | text s =>
      have hlength : ¬(textBytes s ++ rest).length < (textBytes s).length := by
        rw [List.length_append]
        omega
      rw [read, write, List.append_assoc, readHead_writeHead (by decide) hx]
      show (if _ then _ else _) = _
      rw [if_neg hlength, List.take_left, List.drop_left, ofTextBytes_textBytes]
      rfl

end Scalar

/-! ### Maps -/

def writeEntry (e : Scalar × Scalar) : List UInt8 := e.1.write ++ e.2.write

def writeMap (entries : List (Scalar × Scalar)) : List UInt8 :=
  writeHead 5 entries.length ++ entries.flatMap writeEntry

/-- The next `count` entries. -/
def readEntries : Nat → List UInt8 → Option (List (Scalar × Scalar) × List UInt8)
  | 0, bytes => some ([], bytes)
  | count + 1, bytes => do
      let (key, bytes) ← Scalar.read bytes
      let (value, bytes) ← Scalar.read bytes
      let (entries, bytes) ← readEntries count bytes
      return ((key, value) :: entries, bytes)

def readMap (bytes : List UInt8) : Option (List (Scalar × Scalar) × List UInt8) :=
  match readHead bytes with
  | some ((5, count), rest) => readEntries count rest
  | _ => none

theorem readEntries_flatMap {entries : List (Scalar × Scalar)}
    (h : ∀ e ∈ entries, e.1.Fits ∧ e.2.Fits) (rest : List UInt8) :
    readEntries entries.length (entries.flatMap writeEntry ++ rest) = some (entries, rest) := by
  induction entries with
  | nil => rfl
  | cons e entries ih =>
      obtain ⟨hkey, hvalue⟩ := h e (by simp)
      have hrest := ih fun d hd => h d (by simp [hd])
      rw [List.flatMap_cons, List.length_cons, readEntries, writeEntry, List.append_assoc,
        List.append_assoc, Scalar.read_write hkey]
      simp only [Option.bind_eq_bind, Option.bind_some, Scalar.read_write hvalue, hrest]
      rfl

/-- **A map is read back.** -/
theorem readMap_writeMap {entries : List (Scalar × Scalar)} (hcount : entries.length < 2 ^ 64)
    (h : ∀ e ∈ entries, e.1.Fits ∧ e.2.Fits) (rest : List UInt8) :
    readMap (writeMap entries ++ rest) = some (entries, rest) := by
  rw [readMap, writeMap, List.append_assoc, readHead_writeHead (by decide) hcount]
  exact readEntries_flatMap h rest

end Evoting.Cbor

/-
`java.math.BigInteger`, as far as the Paillier classes use it.

Values are integers.  The operations that divide refuse a modulus that is not
positive with an `ArithmeticException`, `divide` truncates towards zero, and a
negative exponent goes through the modular inverse.  Each operation comes with
the one equation its callers use, under the condition on which it does not throw.
-/
import Evoting.Java.Basic
import Evoting.Lib.Decimal
import Mathlib.Data.Int.GCD
import Mathlib.Data.Int.ModEq

namespace Evoting.BigInteger

def mod (a m : Int) : Except Throwable Int :=
  if m ≤ 0 then .error .arithmetic else .ok (a % m)

def divide (a b : Int) : Except Throwable Int :=
  if b = 0 then .error .arithmetic else .ok (a.tdiv b)

def modInverse (a m : Int) : Except Throwable Int :=
  if m ≤ 0 then .error .arithmetic
  else if Int.gcd a m ≠ 1 then .error .arithmetic
  else .ok (Int.gcdA a m % m)

def modPow (base exponent m : Int) : Except Throwable Int :=
  if m ≤ 0 then .error .arithmetic
  else if 0 ≤ exponent then .ok (base ^ exponent.toNat % m)
  else modInverse (base ^ (-exponent).toNat % m) m

/-- `BigInteger.toString`. -/
abbrev toText (a : Int) : JString := Decimal.render a

/-- `new BigInteger(String)`, for texts whose digits are ASCII. -/
def ofText (s : JString) : Except Throwable Int :=
  match Decimal.parse s with
  | some a => .ok a
  | none => .error .numberFormat

/-- `new BigInteger(1, bytes)`: the bytes as one number. -/
def unsignedValue (bytes : ByteString) : Nat :=
  bytes.foldl (fun v b => 256 * v + b.toNat) 0

/-- `new BigInteger(bytes)`: two's complement, the first byte with the sign. -/
def ofBytes (bytes : ByteString) : Except Throwable Int :=
  match bytes with
  | [] => .error .numberFormat
  | first :: _ =>
      if 128 ≤ first.toNat then .ok ((unsignedValue bytes : Int) - 256 ^ bytes.length)
      else .ok (unsignedValue bytes)

@[simp] theorem ofText_toText (a : Int) : ofText (toText a) = .ok a := by
  simp [ofText, toText, Decimal.parse_render]

theorem mod_of_pos {a m : Int} (h : 0 < m) : mod a m = .ok (a % m) := by
  rw [mod, if_neg (by omega)]

theorem divide_of_ne {a b : Int} (h : b ≠ 0) : divide a b = .ok (a.tdiv b) := by
  rw [divide, if_neg h]

theorem modPow_of_nonneg {b e m : Int} (hm : 0 < m) (he : 0 ≤ e) :
    modPow b e m = .ok (b ^ e.toNat % m) := by
  rw [modPow, if_neg (by omega), if_pos he]

theorem modInverse_ok {a m v : Int} (h : modInverse a m = .ok v) : a * v ≡ 1 [ZMOD m] := by
  unfold modInverse at h
  split at h
  · simp at h
  · split at h
    · simp at h
    · rename_i hgcd
      have hbezout := Int.gcd_eq_gcd_ab a m
      rw [not_not.mp hgcd] at hbezout
      rw [← Except.ok.inj h]
      refine ((Int.mod_modEq _ _).mul_left a).trans ?_
      rw [Int.modEq_iff_dvd]
      exact ⟨Int.gcdB a m, by rw [Nat.cast_one] at hbezout; omega⟩

/-- What has no factor in common with the modulus has an inverse. -/
theorem modInverse_of_coprime {a m : Int} (hm : 0 < m) (h : Int.gcd a m = 1) :
    ∃ v, modInverse a m = .ok v ∧ a * v ≡ 1 [ZMOD m] := by
  have hok : modInverse a m = .ok (Int.gcdA a m % m) := by
    rw [modInverse, if_neg (by omega), if_neg (by simpa using h)]
  exact ⟨_, hok, modInverse_ok hok⟩

theorem modPow_of_neg {b e m : Int} (hm : 0 < m) (he : e < 0) :
    modPow b e m = modInverse (b ^ (-e).toNat % m) m := by
  rw [modPow, if_neg (by omega), if_neg (by omega)]

end Evoting.BigInteger

/-
Keys and ballots in files: `toFile` and `fromFile`.

A file is the text printed to it.  The three `toFile` delete the file, create it, and
print one text; the two for keys print `toString`, and the two `fromFile` cut it at
every ';' again.  `PaillierRingParameters.toFile` writes the ballot to an object
stream and then prints the *array* of its bytes, which prints the array's type and
identity hash code; `fromFile` reads an object stream from the file.  A ballot has no
field that is not static, so all that a stream holds of it is its class.
-/
import Evoting.Java.Scanner
import Evoting.Model.Ring

namespace Evoting

/-! ### `Integer` -/

namespace Integer

/-- The values of 32 bits. -/
def InRange (v : Int) : Prop := -2147483648 ≤ v ∧ v < 2147483648

instance (v : Int) : Decidable (InRange v) := inferInstanceAs (Decidable (_ ∧ _))

/-- `Integer.parseInt`, for texts whose digits are ASCII. -/
def parseInt (s : JString) : Except Throwable Int :=
  match Decimal.parse s with
  | some v => if InRange v then .ok v else .error .numberFormat
  | none => .error .numberFormat

theorem parseInt_toText {v : Int} (h : InRange v) : parseInt (BigInteger.toText v) = .ok v := by
  simp [parseInt, BigInteger.toText, Decimal.parse_render, h]

end Integer

/-! ### Files -/

/-- The text of the file of each name, when it exists. -/
abbrev Files := JString → Option JString

namespace Files

variable (files : Files) (name : JString)

/-- `f.exists()`. -/
def isThere : Bool := (files name).isSome

/-- `f.delete()`. -/
def delete : Files := Function.update files name none

/-- `f.createNewFile()`, which leaves a file that exists as it is. -/
def createNewFile : Files :=
  if files.isThere name then files else Function.update files name (some [])

/-- `new PrintWriter(f)` and `new FileOutputStream(f)` empty the file. -/
def openForWriting : Files := Function.update files name (some [])

/-- `pw.print(text)`. -/
def print (text : JString) : Files :=
  Function.update files name ((files name).map (· ++ text))

/-- How every `toFile` begins. -/
def recreate : Files :=
  (if files.isThere name then files.delete name else files).createNewFile name

/-- A text printed to a new file. -/
def write (text : JString) : Files := ((files.recreate name).openForWriting name).print name text

/-- How every `fromFile` begins; a `FileNotFoundException` is an `IOException`. -/
def read : Except Throwable JString :=
  match files name with
  | some text => .ok text
  | none => .error .io

end Files

/-! ### Keys -/

/-- `PaillierPublicKey.toFile`. -/
def PaillierPublicKey.toFile (publicKey : PaillierPublicKey) (name : JString) (files : Files) :
    Files := files.write name publicKey.toText

/-- `PaillierPublicKey.fromFile`. -/
def PaillierPublicKey.fromFile (name : JString) (files : Files) :
    Except Throwable PaillierPublicKey := do
  let s ← files.read name
  let (token, s) ← Scanner.next ';' s
  let bits ← Integer.parseInt token
  let (token, s) ← Scanner.next ';' s
  let n ← BigInteger.ofText token
  let (token, s) ← Scanner.next ';' s
  let nSquared ← BigInteger.ofText token
  let (token, _) ← Scanner.next ';' s
  let g ← BigInteger.ofText token
  return ⟨bits, n, nSquared, g⟩

namespace PaillierPrivateKey

/-- `PaillierPrivateKey.toString`. -/
def toText (sk : PaillierPrivateKey) : JString :=
  BigInteger.toText sk.lambda ++ ";".toList ++ BigInteger.toText sk.preCalculatedDenominator

/-- `PaillierPrivateKey.toFile`. -/
def toFile (privateKey : PaillierPrivateKey) (name : JString) (files : Files) : Files :=
  files.write name privateKey.toText

/-- `PaillierPrivateKey.fromFile`. -/
def fromFile (name : JString) (files : Files) : Except Throwable PaillierPrivateKey := do
  let s ← files.read name
  let (token, s) ← Scanner.next ';' s
  let lambda ← BigInteger.ofText token
  let (token, _) ← Scanner.next ';' s
  let pre ← BigInteger.ofText token
  return ⟨lambda, pre⟩

end PaillierPrivateKey

/-! ### Ballots -/

namespace PaillierRingParameters

/-- The class, which is all a stream holds of a ballot. -/
def className : JString := "election_basic.Paillier.PaillierRingParameters".toList

/-- `String.valueOf` of a `byte[]` with an identity hash code. -/
def arrayText (identityHashCode : Nat) : JString :=
  ['[', 'B', '@'] ++ Nat.toDigits 16 identityHashCode

variable (streams : ObjectStreams) (utf8 : Utf8)

/-- `toFile`: the bytes written to the object stream are not printed, their array is. -/
def toFile (identityHashCode : Nat) (name : JString) (files : Files) :
    Except Throwable Unit × Files :=
  match streams.writeObject (.other className) with
  | .error .notSerializableException => (.error .io, files.recreate name)
  | .ok _ => (.ok (), files.write name (arrayText identityHashCode))

/-- `fromFile`; the cast lets null pass, which is `none`. -/
def fromFile (name : JString) (files : Files) : Except Throwable (Option Unit) := do
  let text ← files.read name
  match streams.readObject (utf8.copyFromUtf8 text) with
  | .error e => .error e.thrown
  | .ok .null => .ok none
  | .ok (.other readName) => if readName = className then .ok (some ()) else .error .classCast
  | .ok _ => .error .classCast

end PaillierRingParameters

end Evoting

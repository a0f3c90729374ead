/-
Votes as byte arrays, how two arrays are added, and how the experiments turn a vote
into a ballot message.

`convertVoteToByteArray`, `toOneDimensionalArray` and `addVoteArray` are static methods
of `Election`; `encodeVote` is what `createVotes.main` makes of a vote string with the
constants of `ExperimentConstants` before it signs the number.  A byte is its bit
pattern; the comparisons of `hex2int` come out the same on signed bytes, since a
negative byte is below every digit.  `generatingPubKey` first spells a vote out in blocks
of characters, one for every candidate.
-/
import Evoting.Model.Election

namespace Evoting

namespace Election

/-- `hex2int`. -/
def hex2int (ch : UInt8) : Int :=
  if 48 ≤ ch ∧ ch ≤ 57 then ch.toNat - 48
  else if 65 ≤ ch ∧ ch ≤ 70 then ch.toNat - 65 + 10
  else if 97 ≤ ch ∧ ch ≤ 102 then ch.toNat - 97 + 10
  else -1

/-- `(byte) HEX_ARRAY[0]`, the digit '0'. -/
def HEX_ARRAY_0 : UInt8 := 48

/-- `(byte) HEX_ARRAY[1]`, the digit '1'. -/
def HEX_ARRAY_1 : UInt8 := 49

/-- The UTF-16 units of a character, which is what `charAt` counts. -/
def utf16Units (c : Char) : List Nat :=
  if c.toNat < 0x10000 then [c.toNat]
  else [0xD800 + (c.toNat - 0x10000) / 0x400, 0xDC00 + (c.toNat - 0x10000) % 0x400]

/-- `vote.charAt(i)`, cast to a byte. -/
def byteAt (vote : JString) (i : Nat) : Except Throwable UInt8 :=
  match (vote.flatMap utf16Units)[i]? with
  | some unit => .ok (UInt8.ofNat unit)
  | none => .error .indexOutOfBounds

/-- One race of `convertVoteToByteArray`: zeros, and a one in the last digit of the
candidate at an index. -/
def raceArray (NUM_CANDIDATES NUM_BYTES : Nat) (index : Int) :
    Except Throwable (List (List UInt8)) :=
  let zeros := List.replicate NUM_BYTES HEX_ARRAY_0
  if 0 ≤ index ∧ index < NUM_CANDIDATES ∧ 0 < NUM_BYTES then
    .ok ((List.replicate NUM_CANDIDATES zeros).set index.toNat
      (zeros.set (NUM_BYTES - 1) HEX_ARRAY_1))
  else .error .indexOutOfBounds

/-- `convertVoteToByteArray`. -/
def convertVoteToByteArray (vote : JString) (NUM_RACES NUM_CANDIDATES NUM_BYTES : Nat) :
    Except Throwable (List (List (List UInt8))) :=
  (List.range NUM_RACES).mapM fun i => do
    let ch ← byteAt vote i
    raceArray NUM_CANDIDATES NUM_BYTES (hex2int ch - 1)

/-- `vote[i][j][k]`. -/
def elementAt (vote : List (List (List UInt8))) (i j k : Nat) : Except Throwable UInt8 :=
  match vote[i]?.bind fun race => race[j]?.bind fun candidate => candidate[k]? with
  | some b => .ok b
  | none => .error .indexOutOfBounds

/-- The three loops of `toOneDimensionalArray`, in order. -/
def indices (races candidates bytes : Nat) : List (Nat × Nat × Nat) :=
  (List.range races).flatMap fun i =>
    (List.range candidates).flatMap fun j => (List.range bytes).map fun k => (i, j, k)

/-- `toOneDimensionalArray`; the target index is `i + j + k`. -/
def toOneDimensionalArray (vote : List (List (List UInt8))) : Except Throwable (List UInt8) :=
  match vote with
  | (candidate :: candidates) :: races =>
      let R := races.length + 1
      let C := candidates.length + 1
      let B := candidate.length
      (indices R C B).foldlM
        (fun retval (i, j, k) => do
          let b ← elementAt vote i j k
          arrayListSet retval (i + j + k) b)
        (List.replicate (R * C * B) 0)
  | _ => .error .indexOutOfBounds

/-- The loop `while (total >= 16)`: what is left of the total, and how often it was passed. -/
def carryLoop (total : Int) (counter : Nat) : Int × Nat :=
  if 16 ≤ total then carryLoop (total - 16) (counter + 1) else (total, counter)
termination_by total.toNat
decreasing_by omega

/-- `(byte) int2hex(ch)`. -/
def int2hex (ch : Int) : Except Throwable UInt8 :=
  if 0 ≤ ch then
    match "0123456789abcdef".toList[ch.toNat]? with
    | some digit => .ok (UInt8.ofNat digit.toNat)
    | none => .error .indexOutOfBounds
  else .error .indexOutOfBounds

/-- `totalVote[i][k][j - 1] += counter`. -/
def addCarry (totalVote : List UInt8) (j counter : Nat) : Except Throwable (List UInt8) :=
  match j with
  | 0 => .error .indexOutOfBounds
  | j + 1 => .ok (totalVote.modify j (· + UInt8.ofNat counter))

/-- One pass of the loop over `j`, on the digits of one candidate.  The sum of three digits
is a byte. -/
def addDigit (digit1 digit2 : Nat → Except Throwable UInt8) (totalVote : List UInt8) (j : Nat) :
    Except Throwable (List UInt8) := do
  let digit ← elementAt [[totalVote]] 0 0 j
  let a ← digit1 j
  let b ← digit2 j
  let (total, counter) := carryLoop (hex2int digit + hex2int a + hex2int b) 0
  let sumDigit ← int2hex total
  let totalVote := totalVote.set j sumDigit
  if counter ≠ 0 then addCarry totalVote j counter else return totalVote

/-- `totalVote[i][k]`: zeros first, and then the digits from the last to the first. -/
def addCandidate (digit1 digit2 : Nat → Except Throwable UInt8) (NUM_BYTES : Nat) :
    Except Throwable (List UInt8) :=
  (List.range NUM_BYTES).reverse.foldlM (addDigit digit1 digit2)
    (List.replicate NUM_BYTES HEX_ARRAY_0)

/-- `addVoteArray`; the shape is that of the first array. -/
def addVoteArray (vote1 vote2 : List (List (List UInt8))) :
    Except Throwable (List (List (List UInt8))) :=
  match vote1 with
  | (candidate :: candidates) :: races =>
      (List.range (races.length + 1)).mapM fun i =>
        (List.range (candidates.length + 1)).mapM fun k =>
          addCandidate (elementAt vote1 i k) (elementAt vote2 i k) candidate.length
  | _ => .error .indexOutOfBounds

end Election

namespace ExperimentConstants

def NUM_RACES : Nat := 1

/-- `NUM_CANDIDATES[0]` -/
def NUM_CANDIDATES_0 : Nat := 20

def NUM_BYTES : Nat := 7

end ExperimentConstants

open ExperimentConstants in
/-- The message `createVotes.main` signs for a vote string. -/
def encodeVote (vote : JString) : Except Throwable Int := do
  let array ← Election.convertVoteToByteArray vote NUM_RACES NUM_CANDIDATES_0 NUM_BYTES
  let message ← Election.toOneDimensionalArray array
  BigInteger.ofBytes message

namespace generatingPubKey

/-- `convertVoterToMessage`: for each character a block for every candidate's index, and an
index is compared with the character itself. -/
def convertVoterToMessage (voter : JString) : JString :=
  (voter.flatMap Election.utf16Units).flatMap fun ch =>
    (List.range ExperimentConstants.NUM_CANDIDATES_0).flatMap fun j =>
      if j = ch then ['0', '0', '0', '0', '0', '0', '1'] else ['0', '0', '0', '0', '0', '0', '0']

end generatingPubKey

end Evoting

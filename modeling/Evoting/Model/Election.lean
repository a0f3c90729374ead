/-
`Election`: the database file of ballots, and its tally.

`tallyVotes` reads the number in front of the first `;` of every line and
multiplies; whatever it throws is caught, and it then returns null.
-/
import Evoting.Java.Scanner
import Evoting.Model.Ring

namespace Evoting.Election

variable (providers : Providers)

/-- `PaillierRingParameters.DELIMITER`. -/
def DELIMITER : Char := ';'

/-- The constructor with a key pair. -/
def new (k : KeyPair) (w : World) : World := { w with electionKeyPair := some k }

/-- `createDatabaseFile`. -/
def createDatabaseFile (w : World) : World := { w with database := some [] }

/-- The constructor without arguments, for the key pair its builder has generated. -/
def newGenerated (keyPair : KeyPair) (w : World) : World :=
  createDatabaseFile { w with electionKeyPair := some keyPair }

/-- `homomorphicAdd`. -/
def homomorphicAdd (w : World) (first second : Int) : Except Throwable Int := do
  let keyPair ← deref w.electionKeyPair
  BigInteger.mod (first * second) keyPair.publicKey.nSquared

/-- `revealResult`. -/
def revealResult (w : World) (encrypted : Int) : Except Throwable Int := do
  let keyPair ← deref w.electionKeyPair
  keyPair.decrypt encrypted

/-- `revealResult(PaillierCipherText)`. -/
def revealCipherText (w : World) (encrypted : PaillierCipherText) : Except Throwable Int := do
  let keyPair ← deref w.electionKeyPair
  keyPair.decryptCipherText encrypted

/-- The body of the loop of `tallyVotes`: the new total, and what is left of the file. -/
def tallyStep (w : World) (total : Int) (s : JString) : Except Throwable (Int × JString) := do
  let (token, afterToken) ← Scanner.next DELIMITER s
  let vote ← BigInteger.ofText token
  let total ← homomorphicAdd w total vote
  let (_, afterLine) ← Scanner.nextLine afterToken
  return (total, afterLine)

theorem tallyStep_length {w : World} {total total' : Int} {s rest : JString}
    (h : tallyStep w total s = .ok (total', rest)) : rest.length < s.length := by
  obtain ⟨⟨token, afterToken⟩, hnext, h⟩ := bind_eq_ok_iff.mp h
  obtain ⟨vote, -, h⟩ := bind_eq_ok_iff.mp h
  obtain ⟨sum, -, h⟩ := bind_eq_ok_iff.mp h
  obtain ⟨⟨line, afterLine⟩, hline, h⟩ := bind_eq_ok_iff.mp h
  simp only [pure_eq_ok, Except.ok.injEq, Prod.mk.injEq] at h
  rw [← h.2]
  exact (Scanner.nextLine_length hline).trans_le (Scanner.next_length hnext)

/-- The loop `while (s.hasNextLine())`, on what is left of the file. -/
def tallyLoop (w : World) (total : Int) (s : JString) : Except Throwable Int :=
  if Scanner.hasNextLine s = false then .ok total
  else
    match _h : tallyStep w total s with
    | .error e => .error e
    | .ok (total, rest) => tallyLoop w total rest
termination_by s.length
decreasing_by exact tallyStep_length _h

/-- What `tallyVotes` reads of a file. -/
def tallyFile (w : World) (text : JString) : Except Throwable Int := do
  let (token, afterToken) ← Scanner.next DELIMITER text
  let total ← BigInteger.ofText token
  let (_, afterLine) ← Scanner.nextLine afterToken
  tallyLoop w total afterLine

/-- `tallyVotes`; null when it has caught an exception. -/
def tallyVotes (w : World) : Option Int :=
  match w.database with
  | none => none
  | some text => (tallyFile w text).toOption

/-- `addVoteToDatabase`. -/
def addVoteToDatabase (w : World) : Bool × World :=
  if PaillierRingParameters.verifyRingSignature providers w = false then (false, w)
  else
    let w := if w.database = none then createDatabaseFile w else w
    match PaillierRingParameters.toText w with
    | .error _ => (false, w)
    | .ok line =>
        (true, { w with database := w.database.map fun text => text ++ line ++ ['\n'] })

end Evoting.Election

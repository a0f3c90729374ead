/-
Ballots with ring signatures: `PaillierRing` and `PaillierRingParameters`.

Every field of these classes is static but the size and the seed of a ring, so
they live in one `World`, together with the key lists (which are `ArrayList`
objects that rings and ballots share, and that `sign` appends to) and the file of
`Election`.  A static field that no constructor has set yet is `none`.

`Providers` are the two services of the Java platform that are used: SHA-1, and
the integers a seeded SHA1PRNG yields.  The numbers `rand(1024)` returns are an
argument of `sign`.
-/
import Mathlib.Data.Int.Bitwise
import Mathlib.Logic.Function.Basic
import Evoting.Model.Streams

namespace Evoting

/-- SHA-1 and SHA1PRNG. -/
structure Providers where
  /-- The digest of a text, as `PaillierRing.sha1` reads it: a number. -/
  sha1 : JString → Nat
  /-- The integer the `i`-th call of `nextInt` returns under a seed. -/
  nextInt : JString → Nat → Int

/-- A reference to an `ArrayList<PaillierPublicKey>`. -/
abbrev ListRef := Nat

/-- The static fields of the three classes, the key lists and the database file. -/
structure World where
  /-- `Election.keyPair` -/
  electionKeyPair : Option KeyPair
  /-- `PaillierRing.keyPair` -/
  ringKeyPair : Option KeyPair
  /-- `PaillierRing.publicKeys` -/
  ringPublicKeys : Option ListRef
  message : Option Int
  publicKeys : Option ListRef
  v : Option Int
  x : Option (List Int)
  random_seed : Option Int
  lists : ListRef → List PaillierPublicKey
  /-- The file `./blockchain.txt`, when it exists. -/
  database : Option JString

namespace World

/-- No class has been used, and there is no file. -/
def initial (lists : ListRef → List PaillierPublicKey) : World :=
  ⟨none, none, none, none, none, none, none, none, lists, none⟩

/-- `publicKeys.add(key)`. -/
def addKey (w : World) (ref : ListRef) (key : PaillierPublicKey) : World :=
  { w with lists := Function.update w.lists ref (w.lists ref ++ [key]) }

end World

/-- The fields a `PaillierRing` object has of its own. -/
structure PaillierRing where
  SIZE : Int
  SEED : Int
  deriving DecidableEq, Repr

namespace PaillierRing

variable (providers : Providers)

/-- The constructor. -/
def new (keyPair : KeyPair) (publicKeys : ListRef) (size seed : Int) (w : World) :
    Except Throwable PaillierRing × World :=
  if ((w.lists publicKeys).length : Int) ≠ size - 1 then (.error .illegalArgument, w)
  else (.ok ⟨size, seed⟩, { w with ringKeyPair := some keyPair, ringPublicKeys := some publicKeys })

/-- `y.add(x.get(i).multiply(BigInteger.valueOf(rnd.nextInt())))`, for every index, with the
generator seeded by the text of a number. -/
def multiplied (seed : Int) (x : List Int) : List Int :=
  x.mapIdx fun i a => a * providers.nextInt (BigInteger.toText seed) i

/-- The loop of `solveRingEquation`, from its first value of `v`. -/
def ringLoop : List PaillierPublicKey → List Int → Int → Except Throwable Int
  | _, [], v => .ok v
  | [], _ :: _, _ => .error .indexOutOfBounds
  | key :: keys, y :: ys, v => do
      let power ← BigInteger.modPow y key.g key.n
      ringLoop keys ys (providers.sha1 (BigInteger.toText (Int.xor v power)))

/-- `solveRingEquation`, with the keys of a list. -/
def solveWith (keys : List PaillierPublicKey) (y : List Int) (u : Int) : Except Throwable Int :=
  ringLoop providers keys y (providers.sha1 (BigInteger.toText u))

/-- `solveRingEquation`: the keys are those of the static field. -/
def solveRingEquation (w : World) (y : List Int) (u : Int) : Except Throwable Int :=
  match w.ringPublicKeys with
  | some ref => solveWith providers (w.lists ref) y u
  | none => if y = [] then .ok (providers.sha1 (BigInteger.toText u)) else .error .nullPointer

end PaillierRing

namespace PaillierRingParameters

variable (providers : Providers)

/-- The constructor. -/
def new (message : Int) (pk : ListRef) (v : Int) (x : List Int) (random : Int) (w : World) :
    World :=
  { w with message := some message, publicKeys := some pk, v := some v, x := some x,
           random_seed := some random }

/-- `verifyRingSignature`; whatever it throws is caught. -/
def verifyRingSignature (w : World) : Bool :=
  match w.random_seed, w.x, w.message, w.v with
  | some random_seed, some x, some message, some v =>
      let y := PaillierRing.multiplied providers random_seed x
      match PaillierRing.solveRingEquation providers w y
          (providers.sha1 (BigInteger.toText message)) with
      | .ok solution => solution = v
      | .error _ => false
  | _, _, _, _ => false

/-- `getMessage`. -/
def getMessage (w : World) : Option Int := w.message

/-- `ArrayList.toString`. -/
def listText (items : List JString) : JString :=
  "[".toList ++ (", ".toList).intercalate items ++ "]".toList

/-- What `toString` makes of the fields of a ballot. -/
def ballotText (message : Int) (keys : List PaillierPublicKey) (v : Int) (x : List Int)
    (random_seed : Int) : JString :=
  BigInteger.toText message ++ ";".toList
    ++ (keys.flatMap fun key =>
        "[".toList ++ BigInteger.toText key.n ++ ", ".toList ++ BigInteger.toText key.g
          ++ "],".toList)
    ++ listText (keys.map PaillierPublicKey.toText) ++ ";".toList
    ++ BigInteger.toText v ++ ";".toList
    ++ listText (x.map BigInteger.toText) ++ ";".toList
    ++ BigInteger.toText random_seed

/-- `toString`.  Once there is a ballot, all its fields are set. -/
def toText (w : World) : Except Throwable JString :=
  match w.message, w.publicKeys, w.v, w.x, w.random_seed with
  | some message, some publicKeys, some v, some x, some random_seed =>
      .ok (ballotText message (w.lists publicKeys) v x random_seed)
  | _, _, _, _, _ => .error .nullPointer

end PaillierRingParameters

namespace PaillierRing

variable (providers : Providers)

/-- `sign`, with the numbers `rand(1024)` returns.  The key of the ring's key pair is added
to the list before anything can throw. -/
def sign (ring : PaillierRing) (rand : Nat → Int) (u : Int) (w : World) :
    Except Throwable Unit × World :=
  match w.ringPublicKeys, w.ringKeyPair with
  | some publicKeys, some keyPair =>
      let w := w.addKey publicKeys keyPair.publicKey
      let x := keyPair.privateKey.lambda :: (List.range (ring.SIZE - 1).toNat).map rand
      let y := multiplied providers ring.SEED x
      match solveRingEquation providers w y (providers.sha1 (BigInteger.toText u)) with
      | .error e => (.error e, w)
      | .ok v => (.ok (), PaillierRingParameters.new u publicKeys v x ring.SEED w)
  | _, _ => (.error .nullPointer, w)

end PaillierRing

end Evoting

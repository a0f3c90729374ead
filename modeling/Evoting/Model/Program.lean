/-
Programs that construct and use any number of elections, rings and ballots.

The static fields of the three classes are the one `World` of all objects.  Beside
it a `Program` keeps a table for each class with what each object was constructed
with; an object is a place in its table.  The tables are not part of the Java state
but for the `SIZE` and the `SEED` of a ring: they are there to compare answers with.
-/
import Evoting.Model.Election

namespace Evoting

/-- What a ballot was constructed with, and the keys its list held then. -/
structure BallotArguments where
  message : Int
  publicKeys : ListRef
  keys : List PaillierPublicKey
  v : Int
  x : List Int
  random_seed : Int
  deriving DecidableEq

/-- What a ring was constructed with, and the keys its list held then. -/
structure RingArguments where
  keyPair : KeyPair
  publicKeys : ListRef
  keys : List PaillierPublicKey
  size : Int
  seed : Int
  deriving DecidableEq

/-- The ballot whose arguments are in the static fields. -/
def World.ballot (w : World) : Option BallotArguments := do
  let message ← w.message
  let publicKeys ← w.publicKeys
  let v ← w.v
  let x ← w.x
  let random_seed ← w.random_seed
  return ⟨message, publicKeys, w.lists publicKeys, v, x, random_seed⟩

/-- The static fields, and the objects constructed so far. -/
structure Program where
  world : World
  elections : List KeyPair
  rings : List RingArguments
  ballots : List BallotArguments

/-- A constructor or a method, with its object and its arguments. -/
inductive Call where
  | newElection (k : KeyPair)
  | newGeneratedElection (keyPair : KeyPair)
  | newRing (keyPair : KeyPair) (publicKeys : ListRef) (size seed : Int)
  | newBallot (message : Int) (pk : ListRef) (v : Int) (x : List Int) (random : Int)
  /-- `publicKeys.add(key)`, by the program. -/
  | addKey (publicKeys : ListRef) (key : PaillierPublicKey)
  | getMessage (ballot : Nat)
  | toText (ballot : Nat)
  | verifyRingSignature (ballot : Nat)
  | sign (ring : Nat) (rand : Nat → Int) (u : Int)
  | homomorphicAdd (election : Nat) (first second : Int)
  | revealResult (election : Nat) (encrypted : Int)
  | createDatabaseFile
  | tallyVotes
  | addVoteToDatabase

/-- What a call returns; of `sign` also the key pair and the keys it signs with. -/
inductive Answer where
  | done
  | constructed (result : Except Throwable Unit)
  | message (message : Option Int)
  | text (text : Except Throwable JString)
  | verified (accepted : Bool)
  | signed (uses : Option (KeyPair × List PaillierPublicKey))
      (result : Except Throwable (Option Int × Option (List Int)))
  | number (result : Except Throwable Int)
  | tallied (total : Option Int)
  | added (accepted : Bool)
  /-- The call is on no object. -/
  | absent
  deriving DecidableEq

/-- The key pair of `sign`, and the keys it takes from the list it has added to: one for
each of the `SIZE` values. -/
def PaillierRing.signUses (ring : PaillierRing) (w : World) :
    Option (KeyPair × List PaillierPublicKey) := do
  let keyPair ← w.ringKeyPair
  let publicKeys ← w.ringPublicKeys
  return (keyPair, (w.lists publicKeys ++ [keyPair.publicKey]).take ring.SIZE.toNat)

namespace Program

/-- No object has been constructed. -/
def initial (lists : ListRef → List PaillierPublicKey) : Program :=
  ⟨World.initial lists, [], [], []⟩

/-- After a constructor of a ballot; one that has thrown has constructed nothing. -/
def withBallot (s : Program) (result : Except Throwable Unit) (w : World) : Program :=
  match result with
  | .error _ => { s with world := w }
  | .ok _ => { s with world := w, ballots := s.ballots ++ w.ballot.toList }

/-- After a constructor of a ring. -/
def withRing (s : Program) (ring : RingArguments) (result : Except Throwable PaillierRing)
    (w : World) : Program :=
  match result with
  | .error _ => { s with world := w }
  | .ok _ => { s with world := w, rings := s.rings ++ [ring] }

/-- After a constructor of an election. -/
def withElection (s : Program) (k : KeyPair) (w : World) : Program :=
  { s with world := w, elections := s.elections ++ [k] }

end Program

/-- The answer of a call on an object, if there is one. -/
def answerOn {α : Type} (object : Option α) (answer : Answer) : Answer :=
  if object.isSome then answer else .absent

/-- **One call.** -/
def step (providers : Providers) (s : Program) : Call → Answer × Program
  | .newElection k => (.constructed (.ok ()), s.withElection k (Election.new k s.world))
  | .newGeneratedElection keyPair =>
      (.constructed (.ok ()), s.withElection keyPair (Election.newGenerated keyPair s.world))
  | .newRing keyPair publicKeys size seed =>
      let (result, w) := PaillierRing.new keyPair publicKeys size seed s.world
      (.constructed (result.map fun _ => ()),
        s.withRing ⟨keyPair, publicKeys, s.world.lists publicKeys, size, seed⟩ result w)
  | .newBallot message pk v x random =>
      (.constructed (.ok ()),
        s.withBallot (.ok ()) (PaillierRingParameters.new message pk v x random s.world))
  | .addKey publicKeys key => (.done, { s with world := s.world.addKey publicKeys key })
  | .getMessage b =>
      (answerOn s.ballots[b]? (.message (PaillierRingParameters.getMessage s.world)), s)
  | .toText b => (answerOn s.ballots[b]? (.text (PaillierRingParameters.toText s.world)), s)
  | .verifyRingSignature b =>
      (answerOn s.ballots[b]?
        (.verified (PaillierRingParameters.verifyRingSignature providers s.world)), s)
  | .sign r rand u =>
      match s.rings[r]? with
      | none => (.absent, s)
      | some arguments =>
          let ring : PaillierRing := ⟨arguments.size, arguments.seed⟩
          let (result, w) := ring.sign providers rand u s.world
          (.signed (ring.signUses s.world) (result.map fun _ => (w.v, w.x)), s.withBallot result w)
  | .homomorphicAdd e first second =>
      (answerOn s.elections[e]? (.number (Election.homomorphicAdd s.world first second)), s)
  | .revealResult e encrypted =>
      (answerOn s.elections[e]? (.number (Election.revealResult s.world encrypted)), s)
  | .createDatabaseFile => (.done, { s with world := Election.createDatabaseFile s.world })
  | .tallyVotes => (.tallied (Election.tallyVotes s.world), s)
  | .addVoteToDatabase =>
      let (accepted, w) := Election.addVoteToDatabase providers s.world
      (.added accepted, { s with world := w })

end Evoting

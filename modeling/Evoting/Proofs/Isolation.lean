/-
Whose data a ballot, a ring or an election answers with.

The fields of the three classes are static, so an object answers with what the
object constructed last was constructed with (`Coherent`, an invariant of every
program).  `Undisturbed` says when that is the same data as its own;
`undisturbed_answers` is that in a program all of whose calls are undisturbed every
answer is the object's own, `ownAnswer`.
-/
import Evoting.Lib.Machine
import Evoting.Model.Program
import Evoting.Model.Reference

namespace Evoting

open Machine

/-! ### What an object should answer -/

section Own

variable (providers : Providers)

/-- `verifyRingSignature`, from the arguments of the ballot. -/
def BallotArguments.verifies (b : BallotArguments) : Bool :=
  match PaillierRing.solveWith providers b.keys
      (PaillierRing.multiplied providers b.random_seed b.x)
      (providers.sha1 (BigInteger.toText b.message)) with
  | .ok solution => solution = b.v
  | .error _ => false

namespace RingArguments

/-- The members of the ring: the keys it was given, and its own. -/
def members (r : RingArguments) : List PaillierPublicKey := r.keys ++ [r.keyPair.publicKey]

/-- `sign`, from the arguments of the ring. -/
def signs (r : RingArguments) (rand : Nat → Int) (u : Int) : Answer :=
  let x := r.keyPair.privateKey.lambda :: (List.range (r.size - 1).toNat).map rand
  let solution := PaillierRing.solveWith providers r.members
    (PaillierRing.multiplied providers r.seed x) (providers.sha1 (BigInteger.toText u))
  .signed (some (r.keyPair, r.members)) (solution.map fun v => (some v, some x))

end RingArguments

/-- **What a call has to answer**, from the arguments of its object's constructor and of
the call.  Nothing is said about calls that are on no object. -/
def ownAnswer (s : Program) : Call → Option Answer
  | .getMessage b => s.ballots[b]?.map fun own => .message (some own.message)
  | .toText b => s.ballots[b]?.map fun own => .text (.ok
      (PaillierRingParameters.ballotText own.message own.keys own.v own.x own.random_seed))
  | .verifyRingSignature b => s.ballots[b]?.map fun own => .verified (own.verifies providers)
  | .sign r rand u => s.rings[r]?.map fun own => own.signs providers rand u
  | .homomorphicAdd e first second => s.elections[e]?.map fun own =>
      .number (BigInteger.mod (first * second) own.publicKey.nSquared)
  | .revealResult e encrypted => s.elections[e]?.map fun own => .number (own.decrypt encrypted)
  | _ => none

/-- A call is answered with its object's own answer. -/
def AnswersOwn (s : Program) (call : Call) : Prop :=
  ∀ own, ownAnswer providers s call = some own → (step providers s call).1 = own

instance (s : Program) (call : Call) : Decidable (AnswersOwn providers s call) :=
  match h : ownAnswer providers s call with
  | none => isTrue (by simp [AnswersOwn, h])
  | some own => decidable_of_iff ((step providers s call).1 = own) (by simp [AnswersOwn, h])

end Own

/-! ### When nothing is in the way -/

/-- **What a call reads is its object's own.**  What it reads is what the last object of a
class was constructed with, and the list of that object as it is now. -/
def Undisturbed (s : Program) : Call → Prop
  | .getMessage b => s.ballots.getLast?.map (·.message) = s.ballots[b]?.map (·.message)
  | .toText b =>
      (s.ballots.getLast?.map fun last =>
          (last.message, s.world.lists last.publicKeys, last.v, last.x, last.random_seed))
        = s.ballots[b]?.map fun own => (own.message, own.keys, own.v, own.x, own.random_seed)
  | .verifyRingSignature b =>
      (s.ballots.getLast?.map fun last => (last.message, last.v, last.x, last.random_seed))
          = (s.ballots[b]?.map fun own => (own.message, own.v, own.x, own.random_seed)) ∧
        ∀ own ∈ s.ballots[b]?, (s.rings.getLast?.map fun last =>
            (s.world.lists last.publicKeys).take own.x.length)
          = some (own.keys.take own.x.length)
  | .sign r _ _ => ∀ own ∈ s.rings[r]?, (s.rings.getLast?.map fun last => (last.keyPair,
        (s.world.lists last.publicKeys ++ [last.keyPair.publicKey]).take own.size.toNat))
      = some (own.keyPair, own.members)
  | .homomorphicAdd e _ _ => s.elections.getLast?.map (·.publicKey.nSquared)
      = s.elections[e]?.map (·.publicKey.nSquared)
  | .revealResult e _ => s.elections.getLast? = s.elections[e]?
  | _ => True

instance (s : Program) : ∀ call, Decidable (Undisturbed s call)
  | .getMessage _ => inferInstanceAs (Decidable (_ = _))
  | .toText _ => inferInstanceAs (Decidable (_ = _))
  | .verifyRingSignature _ => inferInstanceAs (Decidable (_ ∧ _))
  | .sign _ _ _ => inferInstanceAs (Decidable (∀ own ∈ _, _ = _))
  | .homomorphicAdd _ _ _ => inferInstanceAs (Decidable (_ = _))
  | .revealResult _ _ => inferInstanceAs (Decidable (_ = _))
  | .newElection _ | .newGeneratedElection _ | .newRing _ _ _ _ | .newBallot _ _ _ _ _
  | .addKey _ _ | .createDatabaseFile | .tallyVotes | .addVoteToDatabase =>
      inferInstanceAs (Decidable True)

/-! ### The static fields are those of the last objects -/

/-- The static fields alone, without the lists and the file. -/
def World.statics (w : World) : World := { w with lists := fun _ => [], database := none }

/-- The arguments of the last object of each class. -/
def Program.lastArguments (s : Program) : World where
  electionKeyPair := s.elections.getLast?
  ringKeyPair := s.rings.getLast?.map (·.keyPair)
  ringPublicKeys := s.rings.getLast?.map (·.publicKeys)
  message := s.ballots.getLast?.map (·.message)
  publicKeys := s.ballots.getLast?.map (·.publicKeys)
  v := s.ballots.getLast?.map (·.v)
  x := s.ballots.getLast?.map (·.x)
  random_seed := s.ballots.getLast?.map (·.random_seed)
  lists := fun _ => []
  database := none

/-- The static fields hold what the last object of each class was constructed with. -/
def Coherent (s : Program) : Prop := s.world.statics = s.lastArguments

theorem coherent_initial (lists : ListRef → List PaillierPublicKey) :
    Coherent (Program.initial lists) := rfl

namespace Coherent

variable {s : Program} (h : Coherent s)
include h

theorem election : s.world.electionKeyPair = s.elections.getLast? :=
  congrArg World.electionKeyPair (id h : _ = _)

theorem ringKeyPair : s.world.ringKeyPair = s.rings.getLast?.map (·.keyPair) :=
  congrArg World.ringKeyPair (id h : _ = _)

theorem ringPublicKeys : s.world.ringPublicKeys = s.rings.getLast?.map (·.publicKeys) :=
  congrArg World.ringPublicKeys (id h : _ = _)

theorem message : s.world.message = s.ballots.getLast?.map (·.message) :=
  congrArg World.message (id h : _ = _)

theorem publicKeys : s.world.publicKeys = s.ballots.getLast?.map (·.publicKeys) :=
  congrArg World.publicKeys (id h : _ = _)

theorem v : s.world.v = s.ballots.getLast?.map (·.v) :=
  congrArg World.v (id h : _ = _)

theorem x : s.world.x = s.ballots.getLast?.map (·.x) :=
  congrArg World.x (id h : _ = _)

theorem random_seed : s.world.random_seed = s.ballots.getLast?.map (·.random_seed) :=
  congrArg World.random_seed (id h : _ = _)

end Coherent

/-- Calls that leave the static fields alone. -/
theorem Coherent.frame {s : Program} (h : Coherent s) {w : World}
    (hw : w.statics = s.world.statics) : Coherent { s with world := w } :=
  hw.trans h

theorem Coherent.withElection {s : Program} (h : Coherent s) {k : KeyPair} {w : World}
    (hw : w.statics = { s.world.statics with electionKeyPair := some k }) :
    Coherent (s.withElection k w) := by
  rw [Coherent] at h
  simp [Coherent, Program.withElection, hw, h, Program.lastArguments]

theorem Coherent.withRing {s : Program} (h : Coherent s) {ring : RingArguments}
    {result : Except Throwable PaillierRing} {w : World}
    (herror : ∀ e, result = .error e → w.statics = s.world.statics)
    (hok : ∀ r, result = .ok r → w.statics = { s.world.statics with
      ringKeyPair := some ring.keyPair, ringPublicKeys := some ring.publicKeys }) :
    Coherent (s.withRing ring result w) := by
  cases result with
  | error e => exact h.frame (herror e rfl)
  | ok r =>
      rw [Coherent] at h
      simp [Coherent, Program.withRing, hok r rfl, h, Program.lastArguments]

theorem Coherent.withBallot {s : Program} (h : Coherent s) {result : Except Throwable Unit}
    {w : World} (herror : ∀ e, result = .error e → w.statics = s.world.statics)
    (hok : result = .ok () → ∃ b, w.ballot = some b ∧ w.statics = { s.world.statics with
      message := some b.message, publicKeys := some b.publicKeys, v := some b.v,
      x := some b.x, random_seed := some b.random_seed }) :
    Coherent (s.withBallot result w) := by
  cases result with
  | error e => exact h.frame (herror e rfl)
  | ok r =>
      obtain ⟨b, hb, hw⟩ := hok rfl
      rw [Coherent] at h
      simp [Coherent, Program.withBallot, hw, hb, h, Program.lastArguments]

section Step

variable {providers : Providers}

/-- `sign` sets the fields of a ballot, or none. -/
theorem sign_statics (ring : PaillierRing) (rand : Nat → Int) (u : Int) (w : World) :
    (∀ e, (ring.sign providers rand u w).1 = .error e →
        (ring.sign providers rand u w).2.statics = w.statics) ∧
      ((ring.sign providers rand u w).1 = .ok () →
        ∃ b, (ring.sign providers rand u w).2.ballot = some b ∧
          (ring.sign providers rand u w).2.statics = { w.statics with
            message := some b.message, publicKeys := some b.publicKeys, v := some b.v,
            x := some b.x, random_seed := some b.random_seed }) := by
  unfold PaillierRing.sign
  split
  · dsimp only
    split
    · exact ⟨fun _ _ => rfl, by simp⟩
    · exact ⟨by simp, fun _ => ⟨_, rfl, rfl⟩⟩
  · exact ⟨fun _ _ => rfl, by simp⟩

theorem addVoteToDatabase_statics (w : World) :
    (Election.addVoteToDatabase providers w).2.statics = w.statics := by
  unfold Election.addVoteToDatabase
  split
  · rfl
  · dsimp only
    split <;> split <;> rfl

/-- **Every call keeps the static fields those of the last objects.** -/
theorem coherent_step {s : Program} (h : Coherent s) (call : Call) :
    Coherent (step providers s call).2 := by
  cases call with
  | newElection k => exact h.withElection rfl
  | newGeneratedElection keyPair => exact h.withElection rfl
  | newRing keyPair publicKeys size seed =>
      simp only [step, PaillierRing.new]
      split
      · exact h.withRing (fun _ _ => rfl) (by simp)
      · exact h.withRing (by simp) (fun _ _ => rfl)
  | newBallot message pk v x random => exact h.withBallot (by simp) fun _ => ⟨_, rfl, rfl⟩
  | addKey publicKeys key => exact h.frame rfl
  | sign r rand u =>
      simp only [step]
      split
      · exact h
      · obtain ⟨herror, hok⟩ := sign_statics _ rand u s.world
        exact h.withBallot herror hok
  | createDatabaseFile => exact h.frame rfl
  | addVoteToDatabase => exact h.frame (addVoteToDatabase_statics s.world)
  | getMessage b => exact h
  | toText b => exact h
  | verifyRingSignature b => exact h
  | homomorphicAdd e first second => exact h
  | revealResult e encrypted => exact h
  | tallyVotes => exact h

/-! ### Undisturbed calls -/

/-- The ring equation has one key for each value. -/
theorem ringLoop_take (keys : List PaillierPublicKey) (y : List Int) (v : Int) :
    PaillierRing.ringLoop providers keys y v
      = PaillierRing.ringLoop providers (keys.take y.length) y v := by
  induction y generalizing keys v with
  | nil => simp [PaillierRing.ringLoop]
  | cons y ys ih =>
      cases keys with
      | nil => rfl
      | cons key keys =>
          rw [List.length_cons, List.take_succ_cons, PaillierRing.ringLoop, PaillierRing.ringLoop]
          cases BigInteger.modPow y key.g key.n with
          | error e => rfl
          | ok power => exact ih keys _

/-- Only those keys matter. -/
theorem solveWith_congr {keys keys' : List PaillierPublicKey} {y : List Int} {u : Int}
    (h : keys.take y.length = keys'.take y.length) :
    PaillierRing.solveWith providers keys y u = PaillierRing.solveWith providers keys' y u := by
  rw [PaillierRing.solveWith, PaillierRing.solveWith, ringLoop_take keys, h, ← ringLoop_take]

@[simp] theorem length_multiplied (seed : Int) (x : List Int) :
    (PaillierRing.multiplied providers seed x).length = x.length := by
  simp [PaillierRing.multiplied]

/-- A ballot that verifies with the data of its own verifies as its own. -/
theorem verifyRingSignature_own {w : World} {b : BallotArguments} {ref : ListRef}
    (hmessage : w.message = some b.message) (hv : w.v = some b.v) (hx : w.x = some b.x)
    (hseed : w.random_seed = some b.random_seed) (href : w.ringPublicKeys = some ref)
    (hkeys : (w.lists ref).take b.x.length = b.keys.take b.x.length) :
    PaillierRingParameters.verifyRingSignature providers w = b.verifies providers := by
  have hsolve : PaillierRing.solveRingEquation providers w
      (PaillierRing.multiplied providers b.random_seed b.x)
      (providers.sha1 (BigInteger.toText b.message))
      = PaillierRing.solveWith providers b.keys
        (PaillierRing.multiplied providers b.random_seed b.x)
        (providers.sha1 (BigInteger.toText b.message)) := by
    rw [PaillierRing.solveRingEquation, href]
    exact solveWith_congr (by simpa using hkeys)
  rw [PaillierRingParameters.verifyRingSignature, hmessage, hv, hx, hseed, BallotArguments.verifies]
  exact congrArg (fun result : Except Throwable Int =>
    match result with
    | .ok solution => decide (solution = b.v)
    | .error _ => false) hsolve

/-- `sign` with a ring's own key pair and members signs as that ring. -/
theorem sign_own {w : World} {r : RingArguments} {ref : ListRef} {rand : Nat → Int} {u : Int}
    (hkeyPair : w.ringKeyPair = some r.keyPair) (href : w.ringPublicKeys = some ref)
    (hmembers : (w.lists ref ++ [r.keyPair.publicKey]).take r.size.toNat = r.members) :
    Answer.signed (PaillierRing.signUses ⟨r.size, r.seed⟩ w)
        (((⟨r.size, r.seed⟩ : PaillierRing).sign providers rand u w).1.map fun _ =>
          (((⟨r.size, r.seed⟩ : PaillierRing).sign providers rand u w).2.v,
            ((⟨r.size, r.seed⟩ : PaillierRing).sign providers rand u w).2.x))
      = r.signs providers rand u := by
  have huses : PaillierRing.signUses ⟨r.size, r.seed⟩ w = some (r.keyPair, r.members) := by
    simp [PaillierRing.signUses, hkeyPair, href, hmembers]
  -- there is one value for each member
  have hlength : (r.size - 1).toNat + 1 = r.size.toNat := by
    have hpos := congrArg List.length hmembers
    simp only [RingArguments.members, List.length_take, List.length_append,
      List.length_singleton] at hpos
    omega
  have hsolve : ∀ y : List Int, y.length = r.size.toNat → PaillierRing.solveRingEquation providers
      (w.addKey ref r.keyPair.publicKey) y (providers.sha1 (BigInteger.toText u))
      = PaillierRing.solveWith providers r.members y (providers.sha1 (BigInteger.toText u)) := by
    intro y hy
    simp only [PaillierRing.solveRingEquation, World.addKey, href, Function.update_self]
    refine solveWith_congr ?_
    rw [hy, hmembers, ← hmembers, List.take_take, Nat.min_self]
  have hvalues : (PaillierRing.multiplied providers r.seed (r.keyPair.privateKey.lambda
      :: (List.range (r.size - 1).toNat).map rand)).length = r.size.toNat := by
    rw [length_multiplied, List.length_cons, List.length_map, List.length_range, hlength]
  rw [huses, RingArguments.signs, PaillierRing.sign, hkeyPair, href]
  simp only [hsolve _ hvalues]
  cases PaillierRing.solveWith providers r.members (PaillierRing.multiplied providers r.seed
    (r.keyPair.privateKey.lambda :: (List.range (r.size - 1).toNat).map rand))
    (providers.sha1 (BigInteger.toText u)) <;> rfl

/-- **An undisturbed call is answered with its object's own answer.** -/
theorem answersOwn_of_undisturbed {s : Program} {call : Call} (h : Coherent s)
    (hu : Undisturbed s call) : AnswersOwn providers s call := by
  intro own hown
  cases call with
  | getMessage b =>
      obtain ⟨o, ho, rfl⟩ := Option.map_eq_some_iff.mp hown
      have hmessage : s.world.message = some o.message :=
        h.message.trans (hu.trans (by rw [ho]; rfl))
      simp [step, answerOn, ho, PaillierRingParameters.getMessage, hmessage]
  | toText b =>
      obtain ⟨o, ho, rfl⟩ := Option.map_eq_some_iff.mp hown
      simp only [Undisturbed, ho, Option.map_some, Option.map_eq_some_iff, Prod.mk.injEq] at hu
      obtain ⟨last, hlast, hmessage, hkeys, hv, hx, hseed⟩ := hu
      simp [step, answerOn, ho, PaillierRingParameters.toText, h.message, h.publicKeys, h.v, h.x,
        h.random_seed, hlast, hmessage, hkeys, hv, hx, hseed]
  | verifyRingSignature b =>
      obtain ⟨o, ho, rfl⟩ := Option.map_eq_some_iff.mp hown
      obtain ⟨hfields, hring⟩ := hu
      simp only [ho, Option.map_some, Option.map_eq_some_iff, Prod.mk.injEq] at hfields
      obtain ⟨last, hlast, hmessage, hv, hx, hseed⟩ := hfields
      obtain ⟨ring, hringLast, hkeys⟩ := Option.map_eq_some_iff.mp (hring o ho)
      have hverify : PaillierRingParameters.verifyRingSignature providers s.world
          = o.verifies providers :=
        verifyRingSignature_own (by simp [h.message, hlast, hmessage]) (by simp [h.v, hlast, hv])
          (by simp [h.x, hlast, hx]) (by simp [h.random_seed, hlast, hseed])
          (by simp [h.ringPublicKeys, hringLast]) hkeys
      simp [step, answerOn, ho, hverify]
  | sign r rand u =>
      obtain ⟨o, ho, rfl⟩ := Option.map_eq_some_iff.mp hown
      obtain ⟨last, hlast, hsame⟩ := Option.map_eq_some_iff.mp (hu o ho)
      obtain ⟨hkeyPair, hmembers⟩ := Prod.mk.inj hsame
      simp only [step, ho]
      exact sign_own (by simp [h.ringKeyPair, hlast, hkeyPair])
        (by simp [h.ringPublicKeys, hlast]) (hkeyPair ▸ hmembers)
  | homomorphicAdd e first second =>
      obtain ⟨o, ho, rfl⟩ := Option.map_eq_some_iff.mp hown
      simp only [Undisturbed, ho, Option.map_some, Option.map_eq_some_iff] at hu
      obtain ⟨last, hlast, hsquared⟩ := hu
      simp [step, answerOn, ho, Election.homomorphicAdd, h.election, hlast, deref, hsquared]
  | revealResult e encrypted =>
      obtain ⟨o, ho, rfl⟩ := Option.map_eq_some_iff.mp hown
      have hlast : s.elections.getLast? = some o := hu.trans ho
      simp [step, answerOn, ho, Election.revealResult, h.election, hlast, deref]
  | newElection | newGeneratedElection | newRing | newBallot | addKey | createDatabaseFile
  | tallyVotes | addVoteToDatabase => simp [ownAnswer] at hown

/-- Of the message of a ballot the condition is exact. -/
theorem getMessage_answersOwn_iff {s : Program} {b : Nat} {own : BallotArguments}
    (h : Coherent s) (hb : s.ballots[b]? = some own) :
    AnswersOwn providers s (.getMessage b) ↔ Undisturbed s (.getMessage b) := by
  refine ⟨fun hanswer => ?_, answersOwn_of_undisturbed h⟩
  have hsame := hanswer (.message (some own.message)) (by simp [ownAnswer, hb])
  simp only [step, answerOn, hb, Option.isSome_some, if_true, Answer.message.injEq,
    PaillierRingParameters.getMessage, h.message] at hsame
  rw [Undisturbed, hsame, hb, Option.map_some]

/-- So is it of the key pair and the ring of `sign`. -/
theorem sign_answersOwn_iff {s : Program} {r : Nat} {rand : Nat → Int} {u : Int}
    (h : Coherent s) :
    AnswersOwn providers s (.sign r rand u) ↔ Undisturbed s (.sign r rand u) := by
  refine ⟨fun hanswer own hown => ?_, answersOwn_of_undisturbed h⟩
  rw [Option.mem_def] at hown
  have hsame := hanswer (own.signs providers rand u) (by simp [ownAnswer, hown])
  simp only [step, hown, RingArguments.signs, Answer.signed.injEq] at hsame
  rw [← hsame.1, PaillierRing.signUses, h.ringKeyPair, h.ringPublicKeys]
  cases s.rings.getLast? <;> rfl

variable (lists : ListRef → List PaillierPublicKey)

/-- **Programs that keep to the last objects.**  If every call of a program is undisturbed,
every object answers with its own data. -/
theorem undisturbed_answers {calls : List Call}
    (h : AllSteps (step providers) Undisturbed (Program.initial lists) calls) :
    AllSteps (step providers) (AnswersOwn providers) (Program.initial lists) calls :=
  AllSteps.mono (step providers) (fun _ call hs => coherent_step hs call)
    (fun _ _ hs hu => answersOwn_of_undisturbed hs hu) calls _ (coherent_initial lists) h

end Step

/-! ### One object, and two -/

/-- A ring that signs twice, and every method of the last ballot and of the one election. -/
def undisturbedCalls : List Call :=
  [ .newElection .reference, .newRing .reference 0 1 7, .sign 0 (fun _ => 0) 2,
    .getMessage 0, .toText 0, .verifyRingSignature 0, .addVoteToDatabase,
    .sign 0 (fun _ => 0) 3, .getMessage 1, .toText 1, .verifyRingSignature 1,
    .homomorphicAdd 0 2 700, .revealResult 0 36 ]

theorem undisturbed_answers_reference :
    AllSteps (step .reference) (AnswersOwn .reference) (Program.initial fun _ => [])
      undisturbedCalls :=
  undisturbed_answers (fun _ => []) (by decide +kernel)

/-- The key pair of the primes 11 and 13. -/
def KeyPair.second : KeyPair := ⟨⟨60, 31⟩, ⟨8, 143, 20449, 144⟩, none⟩

/-- The second object of a class takes the place of the first: two ballots, two rings and
two elections. -/
theorem second_object_disturbs :
    ¬AllSteps (step .reference) (AnswersOwn .reference) (Program.initial fun _ => [])
      [.newBallot 2 0 5 [12] 7, .newBallot 3 0 5 [12] 7, .getMessage 0] ∧
    ¬AllSteps (step .reference) (AnswersOwn .reference) (Program.initial fun _ => [])
      [.newRing .reference 0 1 7, .newRing .second 1 1 7, .sign 0 (fun _ => 0) 2] ∧
    ¬AllSteps (step .reference) (AnswersOwn .reference) (Program.initial fun _ => [])
      [.newElection .reference, .newElection .second, .homomorphicAdd 0 2 700] := by
  decide +kernel

end Evoting

/-
What a ring signature says about its signer.

`Ballot` is a ballot as it is published.  `sign_published_iff` says which ballots
`sign` makes: the key list is the others' keys with the signer's own key after them,
the first `x` is the signer's `lambda`, and `v` is recomputed from public data.
Everything else here follows from that equation: which ballots that verify have been
signed, and that a ballot is never one of two members with different keys.
-/
import Evoting.Lib.HashChain
import Evoting.Proofs.Isolation
import Mathlib.Data.List.Nodup

namespace Evoting

open PaillierRing

/-- The data of a ballot. -/
structure Ballot where
  message : Int
  keys : List PaillierPublicKey
  v : Int
  x : List Int
  random_seed : Int
  deriving DecidableEq, Repr

/-- The ballot of the static fields, with the keys its list holds now. -/
def World.published (w : World) : Option Ballot :=
  w.ballot.map fun b => ⟨b.message, b.keys, b.v, b.x, b.random_seed⟩

variable (providers : Providers)

/-- The equation between the numbers, the keys and the `v` of a ballot. -/
def Ballot.Solves (ballot : Ballot) : Prop :=
  solveWith providers ballot.keys (multiplied providers ballot.random_seed ballot.x)
    (providers.sha1 (BigInteger.toText ballot.message)) = .ok ballot.v

/-- **What `sign` makes.** -/
theorem sign_published_iff {ring : PaillierRing} {rand : Nat → Int} {u : Int} {w : World}
    {keyPair : KeyPair} {ref : ListRef} (hkeyPair : w.ringKeyPair = some keyPair)
    (href : w.ringPublicKeys = some ref) {ballot : Ballot} :
    (∃ w', ring.sign providers rand u w = (.ok (), w') ∧ w'.published = some ballot) ↔
      ballot.message = u ∧ ballot.random_seed = ring.SEED ∧
      ballot.keys = w.lists ref ++ [keyPair.publicKey] ∧
      ballot.x = keyPair.privateKey.lambda :: (List.range (ring.SIZE - 1).toNat).map rand ∧
      ballot.Solves providers := by
  obtain ⟨message, keys, v, x, random_seed⟩ := ballot
  simp only [sign, hkeyPair, href, solveRingEquation, World.addKey, Function.update_self,
    Ballot.Solves]
  constructor
  · rintro ⟨w', hsign, hpublished⟩
    split at hsign
    · simp at hsign
    · rename_i solution hsolve
      obtain rfl := (Prod.mk.inj hsign).2
      simp only [World.published, World.ballot, PaillierRingParameters.new, Function.update_self,
        Option.bind_eq_bind, Option.bind_some, Option.pure_def, Option.map_some, Option.some.injEq,
        Ballot.mk.injEq] at hpublished
      obtain ⟨rfl, rfl, rfl, rfl, rfl⟩ := hpublished
      exact ⟨rfl, rfl, rfl, rfl, hsolve⟩
  · rintro ⟨rfl, rfl, rfl, rfl, hsolve⟩
    rw [hsolve]
    exact ⟨_, rfl, by simp [World.published, World.ballot, PaillierRingParameters.new]⟩

/-! ### Ballots that verify -/

/-- Some ring object makes the ballot with a key pair, from numbers that `rand` can return
(`draws`).  The static fields are those of any moment: the list may have been signed with
before, and another ring may have been constructed since. -/
def SignedBy (draws : Int → Prop) (keyPair : KeyPair) (ballot : Ballot) : Prop :=
  ∃ (ring : PaillierRing) (rand : Nat → Int) (ref : ListRef) (w : World),
    (∀ i < (ring.SIZE - 1).toNat, draws (rand i)) ∧
    w.ringKeyPair = some keyPair ∧ w.ringPublicKeys = some ref ∧
    ∃ w', ring.sign providers rand ballot.message w = (.ok (), w') ∧ w'.published = some ballot

theorem signedBy_iff {draws : Int → Prop} {keyPair : KeyPair} {ballot : Ballot} :
    SignedBy providers draws keyPair ballot ↔
      ballot.keys.getLast? = some keyPair.publicKey ∧
      (∃ drawn, ballot.x = keyPair.privateKey.lambda :: drawn ∧ ∀ a ∈ drawn, draws a) ∧
      ballot.Solves providers := by
  constructor
  · rintro ⟨ring, rand, ref, w, hrand, hkeyPair, href, hsigned⟩
    obtain ⟨-, -, hkeys, hx, hsolves⟩ := (sign_published_iff providers hkeyPair href).mp hsigned
    refine ⟨by simp [hkeys], ⟨_, hx, ?_⟩, hsolves⟩
    intro a ha
    obtain ⟨i, hi, rfl⟩ := List.mem_map.mp ha
    exact hrand i (List.mem_range.mp hi)
  · rintro ⟨hlast, ⟨drawn, hx, hdrawn⟩, hsolves⟩
    obtain ⟨others, hkeys⟩ := List.getLast?_eq_some_iff.mp hlast
    have hrand : ∀ i < drawn.length, draws (drawn.getD i 0) := by
      intro i hi
      rw [List.getD_eq_getElem _ _ hi]
      exact hdrawn _ (List.getElem_mem hi)
    have hvalues : drawn = (List.range drawn.length).map fun i => drawn.getD i 0 := by
      refine List.ext_getElem (by simp) fun i hi _ => ?_
      rw [List.getElem_map, List.getElem_range, List.getD_eq_getElem _ _ hi]
    refine ⟨⟨drawn.length + 1, ballot.random_seed⟩, fun i => drawn.getD i 0, 0,
      { World.initial fun _ => others with ringKeyPair := some keyPair, ringPublicKeys := some 0 },
      by simpa using hrand, rfl, rfl, (sign_published_iff providers rfl rfl).mpr
        ⟨rfl, rfl, hkeys, ?_, hsolves⟩⟩
    rw [hx]
    simpa using hvalues

/-- Over the list of the ring, verifying recomputes `v`. -/
theorem verifyRingSignature_iff {w : World} {ballot : Ballot} (hballot : w.published = some ballot)
    (hkeys : w.ringPublicKeys = w.publicKeys) :
    PaillierRingParameters.verifyRingSignature providers w = true ↔ ballot.Solves providers := by
  obtain ⟨own, hown, rfl⟩ := Option.map_eq_some_iff.mp hballot
  simp only [World.ballot, Option.bind_eq_bind, Option.bind_eq_some_iff, Option.pure_def,
    Option.some.injEq] at hown
  obtain ⟨message, hmessage, ref, href, v, hv, x, hx, random_seed, hseed, rfl⟩ := hown
  rw [verifyRingSignature_own (b := ⟨message, ref, w.lists ref, v, x, random_seed⟩) hmessage hv hx
    hseed (hkeys.trans href) rfl, BallotArguments.verifies, Ballot.Solves]
  split
  · rename_i solution hsolution
    rw [hsolution, decide_eq_true_iff, Except.ok.injEq]
  · rename_i e herror
    simp [herror]

/-- **Which ballots that verify have been signed.**  A ballot that verifies is one that a key
pair of its list makes if and only if the last key of the list belongs to a pair whose
`lambda` is the first `x`, the other `x` can be drawn, and `v` also fits the ballot's own
list (which it does when that list is the ring's). -/
theorem verified_signedBy_iff (genuine : KeyPair → Prop) (draws : Int → Prop) {w : World}
    {ballot : Ballot} (hballot : w.published = some ballot)
    (hverify : PaillierRingParameters.verifyRingSignature providers w = true) :
    (∃ keyPair, genuine keyPair ∧ keyPair.publicKey ∈ ballot.keys ∧
        SignedBy providers draws keyPair ballot) ↔
      (∃ keyPair, genuine keyPair ∧ ballot.keys.getLast? = some keyPair.publicKey ∧
        ∃ drawn, ballot.x = keyPair.privateKey.lambda :: drawn ∧ ∀ a ∈ drawn, draws a) ∧
      (w.ringPublicKeys = w.publicKeys ∨ ballot.Solves providers) := by
  constructor
  · rintro ⟨keyPair, hgenuine, -, hsigned⟩
    obtain ⟨hlast, hx, hsolves⟩ := (signedBy_iff providers).mp hsigned
    exact ⟨⟨keyPair, hgenuine, hlast, hx⟩, Or.inr hsolves⟩
  · rintro ⟨⟨keyPair, hgenuine, hlast, hx⟩, hfits⟩
    have hsolves : ballot.Solves providers :=
      hfits.elim (fun hkeys => (verifyRingSignature_iff providers hballot hkeys).mp hverify) id
    exact ⟨keyPair, hgenuine, List.mem_of_getLast? hlast,
      (signedBy_iff providers).mpr ⟨hlast, hx, hsolves⟩⟩

/-- A ballot constructed over the list of a ring. -/
def Ballot.inRing (ballot : Ballot) (keyPair : KeyPair) : World :=
  { World.initial fun _ => ballot.keys with
    ringKeyPair := some keyPair, ringPublicKeys := some 0, publicKeys := some 0,
    message := some ballot.message, v := some ballot.v, x := some ballot.x,
    random_seed := some ballot.random_seed }

/-- A ballot without any number.  Its `v` is the digest of the digest of its message, which
anybody can compute. -/
def forgedBallot : Ballot where
  message := 2
  keys := [KeyPair.reference.publicKey]
  v := 415205077253547720026971303218870229693588141826
  x := []
  random_seed := 7

theorem forgedBallot_verifies : PaillierRingParameters.verifyRingSignature .reference
    (forgedBallot.inRing .reference) = true := by
  decide +kernel

/-- The forged ballot verifies, and no key pair at all makes it. -/
theorem forgedBallot_not_signed :
    ¬∀ (w : World) (ballot : Ballot), w.published = some ballot →
      PaillierRingParameters.verifyRingSignature .reference w = true →
      ∃ keyPair, keyPair.publicKey ∈ ballot.keys ∧
        SignedBy .reference (fun _ => True) keyPair ballot := by
  intro h
  obtain ⟨keyPair, -, hsigned⟩ := h _ forgedBallot rfl forgedBallot_verifies
  obtain ⟨-, ⟨drawn, hx, -⟩, -⟩ := (signedBy_iff _).mp hsigned
  exact List.cons_ne_nil _ _ hx.symm

theorem forgedBallot_signedBy_iff :
    (∃ keyPair, keyPair = KeyPair.reference ∧ keyPair.publicKey ∈ forgedBallot.keys ∧
        SignedBy .reference (0 ≤ ·) keyPair forgedBallot) ↔
      (∃ keyPair, keyPair = KeyPair.reference ∧
        forgedBallot.keys.getLast? = some keyPair.publicKey ∧
        ∃ drawn, forgedBallot.x = keyPair.privateKey.lambda :: drawn ∧ ∀ a ∈ drawn, 0 ≤ a) ∧
      ((forgedBallot.inRing .reference).ringPublicKeys
          = (forgedBallot.inRing .reference).publicKeys ∨
        forgedBallot.Solves .reference) :=
  verified_signedBy_iff .reference (· = KeyPair.reference) (0 ≤ ·) rfl forgedBallot_verifies

/-! ### Two members -/

/-- A ballot `signer` can make in a ring: the keys of the others in some order, a ring
constructed for them, and any numbers from `rand`. -/
def CanSign (members : List KeyPair) (signer : KeyPair) (u seed : Int) (ballot : Ballot) : Prop :=
  ∃ (ref : ListRef) (w w₁ : World) (ring : PaillierRing) (rand : Nat → Int),
    (w.lists ref).Perm ((members.erase signer).map (·.publicKey)) ∧
    PaillierRing.new signer ref members.length seed w = (.ok ring, w₁) ∧
    ∃ w₂, ring.sign providers rand u w₁ = (.ok (), w₂) ∧ w₂.published = some ballot

/-- **A ballot names its signer twice**: by the last key, and by the first number. -/
theorem canSign_reveals {members : List KeyPair} {signer : KeyPair} {u seed : Int}
    {ballot : Ballot} (h : CanSign providers members signer u seed ballot) :
    ballot.keys.getLast? = some signer.publicKey ∧
      ballot.x.head? = some signer.privateKey.lambda := by
  obtain ⟨ref, w, w₁, ring, rand, -, hnew, hsigned⟩ := h
  unfold PaillierRing.new at hnew
  split at hnew
  · simp at hnew
  · obtain rfl := (Prod.mk.inj hnew).2
    obtain ⟨-, -, hkeys, hx, -⟩ := (sign_published_iff providers rfl rfl).mp hsigned
    exact ⟨by simp [hkeys], by simp [hx]⟩

/-- `PaillierRing.sha1`. -/
def digest (text : JString) : Int := providers.sha1 text

/-- What the loop writes and hashes, key by key. -/
def ringSteps (keys : List PaillierPublicKey) (y : List Int) : List (Int → JString) :=
  List.zipWith (fun key a v => BigInteger.toText (Int.xor v (a ^ key.g.toNat % key.n))) keys y

/-- **The loop of `solveRingEquation` is a hash chain**, with positive moduli and exponents that
are not negative. -/
theorem ringLoop_eq {keys : List PaillierPublicKey}
    (hkeys : ∀ key ∈ keys, 0 < key.n ∧ 0 ≤ key.g) {y : List Int} (hlen : y.length ≤ keys.length)
    (v : Int) : ringLoop providers keys y v
      = .ok (HashChain.run (digest providers) (ringSteps keys y) v) := by
  induction y generalizing keys v with
  | nil => simp [ringLoop, ringSteps, HashChain.run]
  | cons y ys ih =>
      cases keys with
      | nil => simp at hlen
      | cons key keys =>
          obtain ⟨hn, hg⟩ := hkeys key (by simp)
          rw [ringLoop, BigInteger.modPow_of_nonneg hn hg, ok_bind,
            ih (fun k hk => hkeys k (by simp [hk])) (by simpa using hlen)]
          rfl

/-- With positive moduli and exponents that are not negative the loop does not throw. -/
theorem ringLoop_ok {keys : List PaillierPublicKey}
    (hkeys : ∀ key ∈ keys, 0 < key.n ∧ 0 ≤ key.g) {y : List Int} (hlen : y.length ≤ keys.length)
    (v : Int) : ∃ solution, ringLoop providers keys y v = .ok solution :=
  ⟨_, ringLoop_eq providers hkeys hlen v⟩

/-- A member with usable keys around it always makes a ballot. -/
theorem exists_canSign {members : List KeyPair}
    (hkeys : ∀ member ∈ members, 0 < member.publicKey.n ∧ 0 ≤ member.publicKey.g)
    {signer : KeyPair} (hmem : signer ∈ members) (u seed : Int) :
    ∃ ballot, CanSign providers members signer u seed ballot := by
  have hlen : ((members.erase signer).map (·.publicKey)).length + 1 = members.length := by
    rw [List.length_map, List.length_erase_of_mem hmem]
    exact Nat.sub_add_cancel (List.length_pos_of_mem hmem)
  have hall : ∀ key ∈ (members.erase signer).map (·.publicKey) ++ [signer.publicKey],
      0 < key.n ∧ 0 ≤ key.g := by
    intro key hkey
    rcases List.mem_append.mp hkey with hother | hown
    · obtain ⟨member, hmember, rfl⟩ := List.mem_map.mp hother
      exact hkeys member (List.mem_of_mem_erase hmember)
    · rw [List.mem_singleton.mp hown]
      exact hkeys signer hmem
  let x := signer.privateKey.lambda :: (List.range (members.length - 1)).map fun _ => (0 : Int)
  have hx : x.length = members.length := by
    rw [List.length_cons, List.length_map, List.length_range]
    omega
  obtain ⟨v, hv⟩ := ringLoop_ok providers hall (y := multiplied providers seed x)
    (by rw [length_multiplied, hx, List.length_append, List.length_singleton, hlen])
    (providers.sha1 (BigInteger.toText (providers.sha1 (BigInteger.toText u))))
  let w := World.initial fun _ => (members.erase signer).map (·.publicKey)
  refine ⟨⟨u, _, v, x, seed⟩, 0, w, { w with ringKeyPair := some signer, ringPublicKeys := some 0 },
    ⟨members.length, seed⟩, fun _ => 0, List.Perm.refl _, ?_,
    (sign_published_iff providers rfl rfl).mpr ⟨rfl, rfl, rfl, ?_, hv⟩⟩
  · unfold PaillierRing.new
    rw [if_neg]
    simp only [w, World.initial, ne_eq, not_not]
    omega
  · rw [show ((members.length : Int) - 1).toNat = members.length - 1 by omega]

/-- **No ballot is anybody else's.** -/
theorem ballot_of_one_member {members : List KeyPair}
    (hdistinct : (members.map (·.publicKey)).Nodup)
    (hkeys : ∀ member ∈ members, 0 < member.publicKey.n ∧ 0 ≤ member.publicKey.g)
    {a b : KeyPair} (ha : a ∈ members) (hb : b ∈ members) (hne : a ≠ b) (u seed : Int) :
    (∃ ballot, CanSign providers members a u seed ballot) ∧
      ∀ ballot, CanSign providers members a u seed ballot →
        ¬CanSign providers members b u seed ballot := by
  refine ⟨exists_canSign providers hkeys ha u seed, fun ballot hballot hother => hne ?_⟩
  have hsame : a.publicKey = b.publicKey := Option.some.inj
    ((canSign_reveals providers hballot).1.symm.trans (canSign_reveals providers hother).1)
  exact List.inj_on_of_nodup_map hdistinct ha hb hsame

/-- The rings of two members with the keys of the primes 5 and 7, and 11 and 13. -/
def ringOfTwo : List KeyPair := [.reference, .second]

theorem ringOfTwo_usable :
    ∀ member ∈ ringOfTwo, 0 < member.publicKey.n ∧ 0 ≤ member.publicKey.g := by
  decide

/-- In the ring of two the first member makes a ballot that the second cannot make. -/
theorem ringOfTwo_unambiguous :
    ¬∀ members : List KeyPair, 2 ≤ members.length → (members.map (·.publicKey)).Nodup →
      ∀ u seed : Int, ∀ a ∈ members, ∀ b ∈ members, ∀ ballot,
        CanSign .reference members a u seed ballot →
          CanSign .reference members b u seed ballot := by
  intro h
  obtain ⟨ballot, hballot⟩ := exists_canSign .reference ringOfTwo_usable
    (show KeyPair.reference ∈ ringOfTwo by decide) 2 7
  have hother := h ringOfTwo (by decide) (by decide) 2 7 _ (by decide) .second (by decide) _ hballot
  have hsame := (canSign_reveals _ hballot).2.symm.trans (canSign_reveals _ hother).2
  exact absurd hsame (by decide)

theorem ballot_of_one_member_ringOfTwo :
    (∃ ballot, CanSign .reference ringOfTwo .reference 2 7 ballot) ∧
      ∀ ballot, CanSign .reference ringOfTwo .reference 2 7 ballot →
        ¬CanSign .reference ringOfTwo .second 2 7 ballot :=
  ballot_of_one_member .reference (by decide) ringOfTwo_usable (by decide) (by decide) (by decide)
    2 7

end Evoting

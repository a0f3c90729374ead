/-
A ring signature verifies, and for no other message.

However often a ring signs, its list begins with the other keys and one copy of its
own, and no more of it is read (`RingState`); so verification computes what `sign`
computed.  Both compute a hash chain from the message: where no two of the texts that
are hashed collide, its last value `v` determines the message.
-/
import Evoting.Proofs.Signature

namespace Evoting

open PaillierRing HashChain

variable (providers : Providers)

/-- Calls of `sign` on one ring, each with what `rand` returns and the message. -/
def signAll (ring : PaillierRing) (calls : List ((Nat → Int) × Int)) (w : World) : World :=
  calls.foldl (fun w call => (ring.sign providers call.1 call.2 w).2) w

/-- The steps from a message to `v`. -/
def messageSteps (members : List PaillierPublicKey) (y : List Int) : List (Int → JString) :=
  BigInteger.toText :: BigInteger.toText :: ringSteps members y

/-- The texts that are hashed to sign or to verify a message with the numbers `x`. -/
def hashedTexts (members : List PaillierPublicKey) (seed : Int) (x : List Int) (u : Int) :
    List JString :=
  texts (digest providers) (messageSteps members (multiplied providers seed x)) u

/-- The numbers `x` of a signature. -/
def numbersOf (keyPair : KeyPair) (size : Int) (rand : Nat → Int) : List Int :=
  keyPair.privateKey.lambda :: (List.range (size - 1).toNat).map rand

/-! ### What is written is read back -/

theorem toText_injective : Function.Injective BigInteger.toText := by
  intro a b h
  exact Option.some.inj ((Decimal.parse_render a).symm.trans
    ((congrArg Decimal.parse h).trans (Decimal.parse_render b)))

theorem xor_left_injective (a : Int) : Function.Injective fun v => Int.xor v a := by
  have hcancel : ∀ v, Int.xor (Int.xor v a) a = v := by
    intro v
    cases v <;> cases a <;> simp [Int.xor]
  intro v v' h
  rw [← hcancel v, ← hcancel v']
  exact congrArg (fun z => Int.xor z a) h

theorem messageSteps_injective (members : List PaillierPublicKey) (y : List Int) :
    ∀ text ∈ messageSteps members y, Function.Injective text := by
  have hring : ∀ text ∈ ringSteps members y, Function.Injective text := by
    intro text htext
    obtain ⟨i, hi, rfl⟩ := List.getElem_of_mem htext
    simp only [ringSteps, List.getElem_zipWith]
    exact toText_injective.comp (xor_left_injective _)
  exact List.forall_mem_cons.mpr ⟨toText_injective,
    List.forall_mem_cons.mpr ⟨toText_injective, hring⟩⟩

/-! ### A ring that has signed -/

/-- The static fields while one ring, for these other keys, has been signed with `j` times. -/
structure RingState (ring : PaillierRing) (keyPair : KeyPair) (others : List PaillierPublicKey)
    (j : Nat) (w : World) : Prop where
  keyPair_eq : w.ringKeyPair = some keyPair
  size_eq : ring.SIZE = others.length + 1
  keys_eq : ∃ ref, w.ringPublicKeys = some ref ∧
    w.lists ref = others ++ List.replicate j keyPair.publicKey

section State

variable {ring : PaillierRing} {keyPair : KeyPair} {others : List PaillierPublicKey} {j : Nat}
  {w : World}

theorem ringState_new {ref : ListRef} {size seed : Int} {w₁ : World}
    (h : PaillierRing.new keyPair ref size seed w = (.ok ring, w₁)) :
    ring = ⟨size, seed⟩ ∧ RingState ring keyPair (w.lists ref) 0 w₁ := by
  unfold PaillierRing.new at h
  split at h
  · simp at h
  · rename_i hsize
    simp only [Prod.mk.injEq, Except.ok.injEq] at h
    obtain ⟨rfl, rfl⟩ := h
    rw [not_not] at hsize
    exact ⟨rfl, rfl, by simp only; omega, ref, rfl, by simp⟩

/-- Signing begins with one more copy of the ring's own key. -/
theorem RingState.addKey (h : RingState ring keyPair others j w) {ref : ListRef}
    (href : w.ringPublicKeys = some ref) :
    RingState ring keyPair others (j + 1) (w.addKey ref keyPair.publicKey) := by
  obtain ⟨hkeyPair, hsize, ref', href', hkeys⟩ := h
  obtain rfl : ref = ref' := Option.some.inj (href.symm.trans href')
  refine ⟨hkeyPair, hsize, ref, href, ?_⟩
  rw [World.addKey, List.replicate_succ', ← List.append_assoc, ← hkeys]
  exact Function.update_self ..

/-- The parameters live in other static fields. -/
theorem RingState.parameters (h : RingState ring keyPair others j w) (u : Int) (keys : ListRef)
    (v : Int) (x : List Int) (random : Int) :
    RingState ring keyPair others j (PaillierRingParameters.new u keys v x random w) :=
  ⟨h.keyPair_eq, h.size_eq, h.keys_eq⟩

/-- **Signing adds one key to the list**, and changes nothing else of a ring. -/
theorem RingState.sign (h : RingState ring keyPair others j w) (rand : Nat → Int) (u : Int) :
    RingState ring keyPair others (j + 1) (ring.sign providers rand u w).2 := by
  obtain ⟨ref, href, -⟩ := h.keys_eq
  unfold PaillierRing.sign
  simp only [h.keyPair_eq, href]
  split
  · exact h.addKey href
  · exact (h.addKey href).parameters ..

theorem RingState.signAll (h : RingState ring keyPair others j w)
    (calls : List ((Nat → Int) × Int)) :
    RingState ring keyPair others (j + calls.length) (signAll providers ring calls w) := by
  induction calls generalizing j w with
  | nil => exact h
  | cons call calls ih =>
      have hstep := ih (h.sign providers call.1 call.2)
      rwa [Nat.add_assoc, Nat.add_comm 1] at hstep

/-- **The ring equation of a ring that has signed** is solved over its members, whatever else
is on the list. -/
theorem RingState.solve (h : RingState ring keyPair others (j + 1) w)
    (hkeys : ∀ key ∈ others ++ [keyPair.publicKey], 0 < key.n ∧ 0 ≤ key.g) {y : List Int}
    (hlen : y.length = others.length + 1) (u : Int) :
    solveRingEquation providers w y (providers.sha1 (BigInteger.toText u))
      = .ok (run (digest providers) (messageSteps (others ++ [keyPair.publicKey]) y) u) := by
  obtain ⟨ref, href, hlist⟩ := h.keys_eq
  have htake : (w.lists ref).take y.length = (others ++ [keyPair.publicKey]).take y.length := by
    rw [hlist, hlen, List.replicate_succ, ← List.singleton_append, ← List.append_assoc]
    exact (List.take_append_of_le_length (by simp)).trans rfl
  rw [solveRingEquation, href]
  show solveWith providers (w.lists ref) y _ = _
  rw [solveWith_congr htake, solveWith, ringLoop_eq providers hkeys (by simp [hlen])]
  rfl

/-- **What `sign` makes of a message** is the last value of its chain. -/
theorem RingState.sign_eq (h : RingState ring keyPair others j w)
    (hkeys : ∀ key ∈ others ++ [keyPair.publicKey], 0 < key.n ∧ 0 ≤ key.g) (rand : Nat → Int)
    (u : Int) : ∃ ref, ring.sign providers rand u w = (.ok (), PaillierRingParameters.new u ref
      (run (digest providers) (messageSteps (others ++ [keyPair.publicKey])
        (multiplied providers ring.SEED (numbersOf keyPair ring.SIZE rand))) u)
      (numbersOf keyPair ring.SIZE rand) ring.SEED (w.addKey ref keyPair.publicKey)) := by
  obtain ⟨ref, href, -⟩ := h.keys_eq
  have hlen : (multiplied providers ring.SEED (numbersOf keyPair ring.SIZE rand)).length
      = others.length + 1 := by
    rw [length_multiplied, numbersOf, List.length_cons, List.length_map, List.length_range,
      h.size_eq]
    omega
  have hsolve := (h.addKey href).solve providers hkeys hlen u
  refine ⟨ref, ?_⟩
  simp only [PaillierRing.sign, h.keyPair_eq, href]
  rw [numbersOf] at hsolve
  rw [hsolve]
  rfl

/-- **Verifying compares** the last value of the chain with `v`. -/
theorem RingState.verify_iff (h : RingState ring keyPair others (j + 1) w)
    (hkeys : ∀ key ∈ others ++ [keyPair.publicKey], 0 < key.n ∧ 0 ≤ key.g) {x : List Int}
    (hlen : x.length = others.length + 1) (u : Int) (keys : ListRef) (v random : Int) :
    PaillierRingParameters.verifyRingSignature providers
        (PaillierRingParameters.new u keys v x random w) = true ↔
      run (digest providers) (messageSteps (others ++ [keyPair.publicKey])
        (multiplied providers random x)) u = v := by
  have hsolve := (h.parameters u keys v x random).solve providers hkeys
    (y := multiplied providers random x) (by rw [length_multiplied, hlen]) u
  unfold PaillierRingParameters.verifyRingSignature
  simp only [PaillierRingParameters.new] at hsolve ⊢
  rw [hsolve]
  exact decide_eq_true_iff

end State

/-! ### Binding -/

/-- **The parameters of a signature verify with its message and with no other.**  The ring may
have signed before, and sign again before they are verified. -/
theorem sign_binds_message {keyPair : KeyPair} {ref : ListRef} {size seed : Int} {w₀ w₁ : World}
    {ring : PaillierRing} (hnew : PaillierRing.new keyPair ref size seed w₀ = (.ok ring, w₁))
    (hkeys : ∀ key ∈ w₀.lists ref ++ [keyPair.publicKey], 0 < key.n ∧ 0 ≤ key.g)
    (before after : List ((Nat → Int) × Int)) (rand : Nat → Int) (u u' : Int)
    (hfree : NoCollision (digest providers)
      (hashedTexts providers (w₀.lists ref ++ [keyPair.publicKey]) seed
          (numbersOf keyPair size rand) u
        ++ hashedTexts providers (w₀.lists ref ++ [keyPair.publicKey]) seed
          (numbersOf keyPair size rand) u')) :
    ∃ (w : World) (keys : ListRef) (v : Int) (x : List Int) (random : Int),
      ring.sign providers rand u (signAll providers ring before w₁) = (.ok (), w) ∧
      w.message = some u ∧ w.publicKeys = some keys ∧ w.v = some v ∧ w.x = some x ∧
      w.random_seed = some random ∧
      (PaillierRingParameters.verifyRingSignature providers (PaillierRingParameters.new u' keys v x
        random (signAll providers ring after w)) = true ↔ u' = u) := by
  obtain ⟨rfl, hstate⟩ := ringState_new hnew
  have hbefore := hstate.signAll providers before
  obtain ⟨keys, hsign⟩ := hbefore.sign_eq providers hkeys rand u
  refine ⟨_, keys, _, _, _, hsign, rfl, rfl, rfl, rfl, rfl, ?_⟩
  have hafter := (hbefore.sign providers rand u).signAll providers after
  rw [hsign, Nat.add_right_comm] at hafter
  have hlen : (numbersOf keyPair size rand).length = (w₀.lists ref).length + 1 := by
    have hsize := hstate.size_eq
    simp only at hsize
    rw [numbersOf, List.length_cons, List.length_map, List.length_range, hsize]
    omega
  rw [hafter.verify_iff providers hkeys hlen]
  refine (run_eq_iff (messageSteps_injective _ _) ?_)
  refine hfree.mono fun s hs => ?_
  rw [List.mem_append] at hs ⊢
  exact hs.symm

/-- A ring of two, constructed with seed 7: a member with the primes 11 and 13, and the signer. -/
def ringOfSecond : World :=
  (PaillierRing.new KeyPair.reference 0 2 7
    (World.initial fun _ => [KeyPair.second.publicKey])).2

/-- The texts hashed for the messages 2 and 3 do not collide. -/
theorem noCollision_reference : NoCollision (digest .reference)
    (hashedTexts .reference [KeyPair.second.publicKey, KeyPair.reference.publicKey] 7
        (numbersOf KeyPair.reference 2 fun _ => 5) 2
      ++ hashedTexts .reference [KeyPair.second.publicKey, KeyPair.reference.publicKey] 7
        (numbersOf KeyPair.reference 2 fun _ => 5) 3) := by
  unfold NoCollision
  decide +kernel

/-- The signature of 2, between two of 3, does not verify with 3. -/
theorem sign_binds_message_reference : ∃ (w : World) (keys : ListRef) (v : Int) (x : List Int)
    (random : Int),
    (⟨2, 7⟩ : PaillierRing).sign .reference (fun _ => 5) 2
      (signAll .reference ⟨2, 7⟩ [(fun _ => 5, 3)] ringOfSecond) = (.ok (), w) ∧
    w.v = some v ∧ w.x = some x ∧
    PaillierRingParameters.verifyRingSignature .reference (PaillierRingParameters.new 3 keys v x
      random (signAll .reference ⟨2, 7⟩ [(fun _ => 5, 3)] w)) = false := by
  have hnew : PaillierRing.new KeyPair.reference 0 2 7
      (World.initial fun _ => [KeyPair.second.publicKey]) = (.ok ⟨2, 7⟩, ringOfSecond) := rfl
  have hkeys : ∀ key ∈ [KeyPair.second.publicKey] ++ [KeyPair.reference.publicKey],
      0 < key.n ∧ 0 ≤ key.g := by decide
  obtain ⟨w, keys, v, x, random, hsign, -, -, hv, hx, -, hiff⟩ :=
    sign_binds_message .reference hnew hkeys
      [(fun _ => 5, 3)] [(fun _ => 5, 3)] (fun _ => 5) 2 3 noCollision_reference
  refine ⟨w, keys, v, x, random, hsign, hv, hx, ?_⟩
  rw [← Bool.not_eq_true, hiff]
  decide

end Evoting

/-
What a vote becomes: `convertVoteToByteArray`, `toOneDimensionalArray` and the number.

The loops of `toOneDimensionalArray` write position `i + j + k`, so of a race every
candidate but the last keeps its first digit alone (`toOneDimensionalArray_race`).  A
vote marks a candidate in the last digit, and no hex digit names the last of the 20
candidates of the experiments: every vote there becomes `voteEncoding`
(`encodeVote_ok_iff`).
-/
import Evoting.Model.Votes

namespace Evoting

open Election

/-! ### One race, flattened -/

/-- What is left of the candidates of a race. -/
def overwritten : List (List UInt8) → List UInt8
  | [] => []
  | [candidate] => candidate
  | candidate :: candidates => candidate.take 1 ++ overwritten candidates

/-- Writing one candidate over as many bytes. -/
theorem foldlM_candidate (candidate : List UInt8) :
    ∀ (pre old post : List UInt8) (element : Nat → Except Throwable UInt8),
      old.length = candidate.length →
      (∀ k (hk : k < candidate.length), element k = .ok candidate[k]) →
      (List.range candidate.length).foldlM
          (fun retval k => do let b ← element k; arrayListSet retval (pre.length + k) b)
          (pre ++ old ++ post) = .ok (pre ++ candidate ++ post) := by
  induction candidate with
  | nil =>
      intro pre old post element hold _
      obtain rfl := List.length_eq_zero_iff.mp hold
      rfl
  | cons b candidate ih =>
      intro pre old post element hold helement
      obtain ⟨o, old, rfl⟩ := List.exists_cons_of_length_pos (by rw [hold]; simp)
      have hwrite : arrayListSet (pre ++ o :: old ++ post) (pre.length + 0) b
          = .ok (pre ++ [b] ++ old ++ post) := by
        simp [arrayListSet]
      rw [List.length_cons, List.range_succ_eq_map, List.foldlM_cons, helement 0 (by simp), ok_bind]
      simp only [List.getElem_cons_zero]
      rw [hwrite, ok_bind, List.foldlM_map]
      have hrest := ih (pre ++ [b]) old post (fun k => element (k + 1)) (by simpa using hold)
        (fun k hk => helement (k + 1) (by simpa using hk))
      rw [show pre ++ [b] ++ candidate ++ post = pre ++ b :: candidate ++ post by simp] at hrest
      rw [← hrest]
      congr 1
      funext retval k
      rw [List.length_append, List.length_singleton, Nat.succ_eq_add_one]
      congr 1
      funext byte
      congr 1
      omega

/-- Writing the candidates of a race, each one place further. -/
theorem foldlM_candidates {B : Nat} (hB : 0 < B) (candidates : List (List UInt8)) :
    ∀ (pre old post : List UInt8) (element : Nat → Nat → Except Throwable UInt8),
      old.length = B → candidates.length ≤ post.length + 1 → candidates ≠ [] →
      (∀ j (hj : j < candidates.length), candidates[j].length = B ∧
        ∀ k (hk : k < candidates[j].length), element j k = .ok candidates[j][k]) →
      (List.range candidates.length).foldlM
          (fun retval j => (List.range B).foldlM
            (fun retval k => do
              let b ← element j k
              arrayListSet retval (pre.length + j + k) b) retval)
          (pre ++ old ++ post)
        = .ok (pre ++ overwritten candidates ++ post.drop (candidates.length - 1)) := by
  induction candidates with
  | nil => intro _ _ _ _ _ _ hne; exact absurd rfl hne
  | cons candidate candidates ih =>
      intro pre old post element hold hpost _ helement
      obtain ⟨hlength, hrow⟩ := helement 0 (by simp)
      have hfirst := foldlM_candidate candidate pre old post (element 0)
        (hold.trans hlength.symm) hrow
      rw [List.getElem_cons_zero] at hlength
      rw [hlength] at hfirst
      rw [List.length_cons, List.range_succ_eq_map, List.foldlM_cons, Nat.add_zero, hfirst, ok_bind,
        List.foldlM_map]
      cases candidates with
      | nil => simp [overwritten]
      | cons next candidates =>
          obtain ⟨head, tail, rfl⟩ := List.exists_cons_of_length_pos (hlength ▸ hB)
          obtain ⟨free, post, rfl⟩ := List.exists_cons_of_length_pos
            (l := post) (by simp at hpost; omega)
          have hrest := ih (pre ++ [head]) (tail ++ [free]) post (fun j k => element (j + 1) k)
            (by simpa using hlength) (by simpa using hpost) (by simp)
            (fun j hj => helement (j + 1) (by simpa using hj))
          have hinit : pre ++ [head] ++ (tail ++ [free]) ++ post
              = pre ++ head :: tail ++ free :: post := by simp
          have hresult : pre ++ [head] ++ overwritten (next :: candidates)
              ++ post.drop ((next :: candidates).length - 1)
              = pre ++ overwritten ((head :: tail) :: next :: candidates)
                ++ (free :: post).drop ((next :: candidates).length + 1 - 1) := by
            simp [overwritten]
          rw [hinit, hresult] at hrest
          rw [← hrest]
          refine congrArg (fun f => List.foldlM f _ _) ?_
          funext retval j
          simp only [List.length_append, List.length_singleton, Nat.succ_eq_add_one,
            Nat.add_assoc, Nat.add_comm 1]

/-- **Flattening one race**: the first digit of each candidate but the last, the last
candidate, and bytes that are never written. -/
theorem toOneDimensionalArray_race {B : Nat} (hB : 0 < B) {race : List (List UInt8)}
    (hne : race ≠ []) (hrace : ∀ candidate ∈ race, candidate.length = B) :
    toOneDimensionalArray [race] = .ok (overwritten race
      ++ (List.replicate (race.length * B - B) 0).drop (race.length - 1)) := by
  obtain ⟨candidate, candidates, rfl⟩ := List.exists_cons_of_ne_nil hne
  have hfirst := hrace candidate (by simp)
  have hpos : candidates.length ≤ candidates.length * B := Nat.le_mul_of_pos_right _ hB
  have hrows := foldlM_candidates hB (candidate :: candidates) [] (List.replicate B 0)
    (List.replicate ((candidate :: candidates).length * B - B) 0)
    (fun j k => elementAt [candidate :: candidates] 0 j k) (by simp)
    (by simp [Nat.add_mul]; omega) (by simp) (by
      intro j hj
      refine ⟨hrace _ (List.getElem_mem hj), fun k hk => ?_⟩
      simp [elementAt, List.getElem?_eq_getElem hj, List.getElem?_eq_getElem hk])
  have hsplit : List.replicate B (0 : UInt8)
      ++ List.replicate ((candidate :: candidates).length * B - B) 0
      = List.replicate (1 * (candidates.length + 1) * B) 0 := by
    rw [← List.replicate_add, List.length_cons, Nat.one_mul, Nat.add_mul, Nat.one_mul,
      Nat.add_sub_cancel, Nat.add_comm]
  rw [List.nil_append, List.nil_append, hsplit] at hrows
  rw [← hrows]
  simp only [toOneDimensionalArray, indices, List.length_nil, Nat.zero_add, List.range_one,
    List.flatMap_singleton, foldlM_flatMap, List.foldlM_map, hfirst, List.length_cons]

/-! ### One vote, flattened -/

/-- Candidates that start with the digit '0' leave that digit, all but the last. -/
theorem overwritten_concat {last : List UInt8} (candidates : List (List UInt8))
    (h : ∀ candidate ∈ candidates, candidate.take 1 = [HEX_ARRAY_0]) :
    overwritten (candidates ++ [last]) = List.replicate candidates.length HEX_ARRAY_0 ++ last := by
  induction candidates with
  | nil => rfl
  | cons candidate candidates ih =>
      obtain ⟨next, rest, hnext⟩ := List.exists_cons_of_ne_nil
        (List.append_ne_nil_of_right_ne_nil candidates (List.cons_ne_nil last []))
      have htail := ih fun c hc => h c (by simp [hc])
      rw [List.cons_append, hnext]
      show candidate.take 1 ++ overwritten (next :: rest) = _
      rw [← hnext, htail, h candidate (by simp)]
      rfl

/-- **No trace of a vote is left** in a race of two digits or more, unless the vote is for
the last candidate. -/
theorem flatten_raceArray {C B index : Nat} (hB : 1 < B) (hindex : index < C)
    {race : List (List UInt8)} (h : raceArray (C + 1) B index = .ok race) :
    toOneDimensionalArray [race] = .ok (List.replicate (C + B) HEX_ARRAY_0
      ++ List.replicate ((C + 1) * B - B - C) 0) := by
  rw [raceArray, if_pos ⟨by omega, by omega, by omega⟩, Int.toNat_natCast] at h
  obtain rfl := Except.ok.inj h
  have hzeros : (List.replicate B HEX_ARRAY_0).take 1 = [HEX_ARRAY_0] := by
    rw [List.take_replicate, Nat.min_eq_left hB.le, List.replicate_one]
  have hmarked : ((List.replicate B HEX_ARRAY_0).set (B - 1) HEX_ARRAY_1).take 1
      = [HEX_ARRAY_0] := by
    rw [List.take_set_of_le (by omega), hzeros]
  -- the last candidate is not the one with the mark
  rw [List.replicate_succ', List.set_append_left _ _ (by simpa using hindex)]
  have hmem : ∀ candidate ∈ (List.replicate C (List.replicate B HEX_ARRAY_0)).set index
      ((List.replicate B HEX_ARRAY_0).set (B - 1) HEX_ARRAY_1),
      candidate.length = B ∧ candidate.take 1 = [HEX_ARRAY_0] := by
    intro candidate hcandidate
    rcases List.mem_or_eq_of_mem_set hcandidate with hunmarked | rfl
    · rw [List.eq_of_mem_replicate hunmarked]
      exact ⟨List.length_replicate, hzeros⟩
    · exact ⟨by simp, hmarked⟩
  have hlength : ∀ candidate ∈ (List.replicate C (List.replicate B HEX_ARRAY_0)).set index
      ((List.replicate B HEX_ARRAY_0).set (B - 1) HEX_ARRAY_1) ++ [List.replicate B HEX_ARRAY_0],
      candidate.length = B := by
    intro candidate hcandidate
    rcases List.mem_append.mp hcandidate with hc | hc
    · exact (hmem candidate hc).1
    · rw [List.mem_singleton.mp hc, List.length_replicate]
  rw [toOneDimensionalArray_race (by omega) (by simp) hlength,
    overwritten_concat _ fun candidate hc => (hmem candidate hc).2]
  simp only [List.length_append, List.length_set, List.length_replicate, List.length_singleton,
    List.drop_replicate, List.replicate_append_replicate, Nat.add_sub_cancel]

/-! ### The encoding of a vote -/

open ExperimentConstants in
/-- The digits of a vote name candidates of the races. -/
def NamesCandidates (vote : JString) : Prop :=
  ∀ i < NUM_RACES, ∃ ch, byteAt vote i = .ok ch ∧ 1 ≤ hex2int ch ∧ hex2int ch ≤ NUM_CANDIDATES_0

/-- The message every vote becomes: 26 digits '0' and 114 bytes that are never written. -/
@[irreducible] def voteMessage : ByteString := List.replicate 26 HEX_ARRAY_0 ++ List.replicate 114 0

/-- The digits of `voteMessage`, as a number. -/
@[irreducible] def voteDigits : Nat := BigInteger.unsignedValue (List.replicate 26 HEX_ARRAY_0)

/-- The number every vote becomes. -/
@[irreducible] def voteEncoding : Nat := voteDigits * 256 ^ 114

theorem hex2int_le (ch : UInt8) : hex2int ch ≤ 15 := by
  unfold hex2int
  simp only [UInt8.le_iff_toNat_le]
  split
  · simp at *; omega
  · split
    · simp at *; omega
    · split
      · simp at *; omega
      · omega

theorem ofBytes_voteMessage : BigInteger.ofBytes voteMessage = .ok (voteEncoding : Int) := by
  decide +kernel

theorem namesCandidates_iff {vote : JString} :
    NamesCandidates vote ↔ ∃ ch, byteAt vote 0 = .ok ch ∧ 1 ≤ hex2int ch := by
  constructor
  · intro h
    obtain ⟨ch, hch, hpos, -⟩ := h 0 (by decide)
    exact ⟨ch, hch, hpos⟩
  · rintro ⟨ch, hch, hpos⟩ i hi
    obtain rfl : i = 0 := Nat.lt_one_iff.mp hi
    have hle := hex2int_le ch
    exact ⟨ch, hch, hpos, hle.trans (by decide)⟩

/-- The one race of a vote. -/
theorem encodeVote_eq (vote : JString) : encodeVote vote = (do
    let ch ← byteAt vote 0
    let race ← raceArray 20 7 (hex2int ch - 1)
    let message ← toOneDimensionalArray [race]
    BigInteger.ofBytes message) := by
  simp only [encodeVote, convertVoteToByteArray, ExperimentConstants.NUM_RACES,
    ExperimentConstants.NUM_CANDIDATES_0, ExperimentConstants.NUM_BYTES, List.range_one,
    List.mapM_cons, List.mapM_nil, pure_eq_ok, ok_bind]
  cases byteAt vote 0 with
  | error e => rfl
  | ok ch => cases hrace : raceArray 20 7 (hex2int ch - 1) <;> simp [hrace]

/-- **Every vote is encoded as the same number.** -/
theorem encodeVote_ok_iff {vote : JString} {e : Int} :
    encodeVote vote = .ok e ↔ NamesCandidates vote ∧ e = voteEncoding := by
  rw [namesCandidates_iff, encodeVote_eq]
  cases byteAt vote 0 with
  | error e => simp only [error_bind, reduceCtorEq, false_and, exists_false]
  | ok ch =>
      have hle := hex2int_le ch
      by_cases hpos : 1 ≤ hex2int ch
      · have hindex : hex2int ch - 1 = ((hex2int ch - 1).toNat : Int) := by omega
        have hrace : ∃ race, raceArray 20 7 (hex2int ch - 1) = .ok race := by
          rw [raceArray, if_pos (by omega)]
          exact ⟨_, rfl⟩
        obtain ⟨race, hrace⟩ := hrace
        have hmessage : toOneDimensionalArray [race] = .ok voteMessage := by
          rw [hindex] at hrace
          rw [flatten_raceArray (by decide) (by omega) hrace, voteMessage]
        simp only [ok_bind, hrace, hmessage, ofBytes_voteMessage, Except.ok.injEq, exists_eq_left',
          hpos, true_and]
        exact eq_comm
      · have hrace : raceArray 20 7 (hex2int ch - 1) = .error .indexOutOfBounds := by
          rw [raceArray, if_neg (by omega)]
        simp only [ok_bind, hrace, error_bind, reduceCtorEq, Except.ok.injEq, exists_eq_left', hpos,
          false_and]

/-- A list of votes is encoded when every vote names candidates. -/
theorem mapM_encodeVote {votes : List JString} (h : ∀ vote ∈ votes, NamesCandidates vote) :
    votes.mapM encodeVote = .ok (List.replicate votes.length (voteEncoding : Int)) := by
  induction votes with
  | nil => rfl
  | cons vote votes ih =>
      have hvote := encodeVote_ok_iff.mpr ⟨h vote (by simp), rfl⟩
      rw [List.mapM_cons, hvote, ih fun v hv => h v (by simp [hv])]
      rfl

/-! ### The blocks of `generatingPubKey` -/

section Blocks

open generatingPubKey ExperimentConstants

/-- The block of a message for a character and a candidate. -/
def voterBlock (message : JString) (i j : Nat) : JString :=
  (message.drop ((i * NUM_CANDIDATES_0 + j) * 7)).take 7

/-- For each character of a string a group of blocks, with one of them marked; different
characters mark different blocks. -/
structure EncodesChoices (voter : JString) : Prop where
  length : (convertVoterToMessage voter).length = voter.length * (NUM_CANDIDATES_0 * 7)
  marks : ∀ i < voter.length, ∃ marked < NUM_CANDIDATES_0, ∀ j < NUM_CANDIDATES_0,
    voterBlock (convertVoterToMessage voter) i j
      = if j = marked then "0000001".toList else "0000000".toList
  apart : ∀ (i i' : Nat) (c c' : Char), voter[i]? = some c → voter[i']? = some c' → c ≠ c' →
    ∀ j < NUM_CANDIDATES_0, voterBlock (convertVoterToMessage voter) i j = "0000001".toList →
      voterBlock (convertVoterToMessage voter) i' j ≠ "0000001".toList

/-- No other string of as many digits has the message of this one. -/
def ToldApart (voter : JString) : Prop :=
  ∀ voter' : JString, voter'.length = voter.length → (∀ c ∈ voter', c.isDigit) →
    convertVoterToMessage voter' = convertVoterToMessage voter → voter' = voter

/-- **No digit marks a block**: a digit's code is beyond the last candidate. -/
theorem convertVoterToMessage_digits {voter : JString} (h : ∀ c ∈ voter, c.isDigit) :
    convertVoterToMessage voter
      = List.replicate (voter.length * (NUM_CANDIDATES_0 * 7)) '0' := by
  induction voter with
  | nil => rfl
  | cons c voter ih =>
      have hrest := ih fun d hd => h d (by simp [hd])
      have hcode : 48 ≤ c.toNat ∧ c.toNat ≤ 57 := by
        have hc := h c (by simp)
        simp only [Char.isDigit, Bool.and_eq_true, decide_eq_true_eq, ge_iff_le,
          UInt32.le_iff_toNat_le] at hc
        exact hc
      have hunits : utf16Units c = [c.toNat] := by rw [utf16Units, if_pos (by omega)]
      have hgroup : ((List.range NUM_CANDIDATES_0).flatMap fun j =>
          if j = c.toNat then ['0', '0', '0', '0', '0', '0', '1']
          else ['0', '0', '0', '0', '0', '0', '0'])
          = List.replicate (NUM_CANDIDATES_0 * 7) '0' := by
        have hblock : ∀ j ∈ List.range NUM_CANDIDATES_0,
            (if j = c.toNat then ['0', '0', '0', '0', '0', '0', '1']
              else ['0', '0', '0', '0', '0', '0', '0']) = List.replicate 7 '0' := by
          intro j hj
          have hj := List.mem_range.mp hj
          rw [NUM_CANDIDATES_0] at hj
          rw [if_neg (by omega)]
          rfl
        rw [List.flatMap_congr hblock]
        rfl
      rw [convertVoterToMessage] at hrest
      rw [convertVoterToMessage, List.flatMap_cons, hunits, List.singleton_append,
        List.flatMap_cons, hgroup, hrest, List.replicate_append_replicate, List.length_cons,
        Nat.add_mul, Nat.one_mul, Nat.add_comm]

/-- **Digits encode no choice.**  Of the strings of digits the empty one alone has a marked
block for every character, and it alone is told apart from the others of its length. -/
theorem convertVoterToMessage_encodes_iff {voter : JString} (h : ∀ c ∈ voter, c.isDigit) :
    (EncodesChoices voter ↔ voter = []) ∧ (ToldApart voter ↔ voter = []) := by
  have hmessage := convertVoterToMessage_digits h
  refine ⟨⟨fun hencodes => ?_, ?_⟩, ⟨fun hapart => ?_, ?_⟩⟩
  · by_contra hne
    obtain ⟨marked, hmarked, hblocks⟩ := hencodes.marks 0 (List.length_pos_iff.mpr hne)
    have hblock := hblocks marked hmarked
    rw [if_pos (Eq.refl marked), hmessage, voterBlock, List.drop_replicate,
      List.take_replicate] at hblock
    have hone : '1' ∈ "0000001".toList := by decide
    rw [← hblock] at hone
    exact absurd (List.eq_of_mem_replicate hone) (by decide)
  · rintro rfl
    refine ⟨rfl, fun i hi => ?_, fun i i' c c' hc => ?_⟩
    · exact absurd hi (Nat.not_lt_zero i)
    · rw [List.getElem?_nil] at hc
      exact absurd hc (by simp)
  · -- the string of as many zeros, and the one of as many ones
    have hsame : ∀ d : Char, d.isDigit → List.replicate voter.length d = voter := by
      intro d hd
      have hdigits : ∀ c ∈ List.replicate voter.length d, c.isDigit := fun c hc =>
        List.eq_of_mem_replicate hc ▸ hd
      refine hapart _ List.length_replicate hdigits ?_
      rw [convertVoterToMessage_digits hdigits, hmessage, List.length_replicate]
    have hzero := hsame '0' (by decide)
    have hone := hsame '1' (by decide)
    by_contra hne
    obtain ⟨c, rest, rfl⟩ := List.exists_cons_of_ne_nil hne
    rw [List.length_cons, List.replicate_succ, List.cons.injEq] at hzero hone
    exact absurd (hzero.1.trans hone.1.symm) (by decide)
  · rintro rfl voter' hlength _ _
    exact List.length_eq_zero_iff.mp hlength

/-- The votes "1" and "2". -/
theorem convertVoterToMessage_encodes_one :
    (EncodesChoices ['1'] ↔ ['1'] = []) ∧ (ToldApart ['1'] ↔ ['1'] = []) :=
  convertVoterToMessage_encodes_iff (by simp)

/-- They have one message, and the block of the first candidate is not marked in it, nor is
any other. -/
theorem convertVoterToMessage_one_two :
    convertVoterToMessage ['1'] = convertVoterToMessage ['2'] ∧
      (∀ j < NUM_CANDIDATES_0, voterBlock (convertVoterToMessage ['1']) 0 j
        = "0000000".toList) ∧ ¬EncodesChoices ['1'] ∧ ¬ToldApart ['1'] := by
  have hblocks : ∀ j < NUM_CANDIDATES_0, voterBlock (convertVoterToMessage ['1']) 0 j
      = "0000000".toList := by decide +kernel
  refine ⟨by decide +kernel, hblocks, fun hencodes => ?_, fun hapart => ?_⟩
  · obtain ⟨marked, hmarked, hmarks⟩ := hencodes.marks 0 (by decide)
    have hblock := hmarks marked hmarked
    rw [if_pos (Eq.refl marked), hblocks marked hmarked] at hblock
    exact absurd hblock (by decide)
  · exact absurd (hapart ['2'] rfl (by simp) (by decide +kernel)) (by decide)

end Blocks

end Evoting

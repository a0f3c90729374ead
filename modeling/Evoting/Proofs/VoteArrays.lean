/-
Adding vote arrays counts votes.

The loop of `addVoteArray` over the digits of one candidate is the adder of
`Lib.Ripple`: what is still to be added at its place `j` is a carry of at most one,
stored as the digit '0' or '1' in front of the digits already there (`pending`).  So
two arrays add up entry by entry as long as the sums fit (`Counts.addVoteArray`), and
the array of a vote counts that one vote.
-/
import Evoting.Lib.Ripple
import Evoting.Proofs.Votes
import Mathlib.Data.List.Forall2

namespace Evoting

open Election

/-! ### Hex digits -/

/-- The character `int2hex` gives, as a byte. -/
def hexChar (d : Nat) : UInt8 := if d < 10 then UInt8.ofNat (48 + d) else UInt8.ofNat (87 + d)

theorem int2hex_of_lt {d : Nat} (h : d < 16) : int2hex d = .ok (hexChar d) := by
  interval_cases d <;> rfl

theorem hex2int_hexChar {d : Nat} (h : d < 16) : hex2int (hexChar d) = d := by
  interval_cases d <;> rfl

/-- The value of a digit. -/
def digitValue (ch : UInt8) : Nat := (hex2int ch).toNat

/-- Bytes that are hex digits, of either case. -/
def AreHex (digits : List UInt8) : Prop := ∀ ch ∈ digits, 0 ≤ hex2int ch

/-- The number some digits stand for in base 16. -/
def hexValue (digits : List UInt8) : Nat := Nat.ofDigits 16 (digits.reverse.map digitValue)

theorem digitValue_lt (ch : UInt8) : digitValue ch < 16 := by
  have := hex2int_le ch
  unfold digitValue
  omega

theorem hex2int_eq {ch : UInt8} (h : 0 ≤ hex2int ch) : hex2int ch = digitValue ch := by
  unfold digitValue
  omega

theorem digitValue_hexChar {d : Nat} (h : d < 16) : digitValue (hexChar d) = d := by
  rw [digitValue, hex2int_hexChar h, Int.toNat_natCast]

/-- The carry loop passes at most once. -/
theorem carryLoop_eq {n : Nat} (h : n < 32) : carryLoop n 0 = (((n % 16 : Nat) : Int), n / 16) := by
  rw [carryLoop]
  split
  · rename_i hge
    rw [carryLoop, if_neg (by omega)]
    simp only [Prod.mk.injEq]
    omega
  · simp only [Prod.mk.injEq]
    omega

/-! ### One candidate -/

/-- The digits of a candidate before the passes over its first `m` places. -/
def pending (m carry : Nat) (out : List UInt8) : List UInt8 :=
  match m with
  | 0 => out
  | m + 1 => List.replicate m HEX_ARRAY_0 ++ hexChar carry :: out

theorem elementAt_pending (m carry : Nat) (out : List UInt8) :
    elementAt [[pending (m + 1) carry out]] 0 0 m = .ok (hexChar carry) := by
  simp [elementAt, pending]

theorem set_pending (m carry digit : Nat) (out : List UInt8) :
    (pending (m + 1) carry out).set m (hexChar digit)
      = List.replicate m HEX_ARRAY_0 ++ hexChar digit :: out := by
  rw [pending, List.set_append_right _ _ (by simp), List.length_replicate, Nat.sub_self,
    List.set_cons_zero]

/-- A carry of one makes the '0' in front a '1'. -/
theorem addCarry_pending {m carry : Nat} (hcarry : carry ≤ 1) (out : List UInt8) :
    addCarry (List.replicate (m + 1) HEX_ARRAY_0 ++ out) (m + 1) carry
      = .ok (pending (m + 1) carry out) := by
  have hfirst : HEX_ARRAY_0 + UInt8.ofNat carry = hexChar carry := by
    interval_cases carry <;> rfl
  rw [addCarry, pending, List.replicate_succ', List.append_assoc, List.singleton_append,
    List.modify_eq_take_cons_drop (by simp)]
  simp [hfirst, List.drop_append]

/-- **One pass.**  The sum's digit takes its place, and the carry the place before. -/
theorem addDigit_pending {m carry a b : Nat} {digit1 digit2 : Nat → Except Throwable UInt8}
    {ch1 ch2 : UInt8} (out : List UInt8) (hcarry : carry ≤ 1)
    (h1 : digit1 m = .ok ch1) (h2 : digit2 m = .ok ch2)
    (ha : hex2int ch1 = a) (hb : hex2int ch2 = b) :
    addDigit digit1 digit2 (pending (m + 1) carry out) m
      = if m = 0 ∧ (carry + a + b) / 16 ≠ 0 then .error .indexOutOfBounds
        else .ok (pending m ((carry + a + b) / 16) (hexChar ((carry + a + b) % 16) :: out)) := by
  have hle1 := hex2int_le ch1
  have hle2 := hex2int_le ch2
  have hsum : hex2int (hexChar carry) + hex2int ch1 + hex2int ch2
      = ((carry + a + b : Nat) : Int) := by
    rw [hex2int_hexChar (by omega), ha, hb]
    omega
  have hdigit := Nat.mod_lt (carry + a + b) (by decide : 0 < 16)
  have hcounter : (carry + a + b) / 16 ≤ 1 := Ripple.carry_le_one hcarry (by omega) (by omega)
  simp only [addDigit, elementAt_pending, ok_bind, h1, h2, hsum, int2hex_of_lt hdigit,
    carryLoop_eq (show carry + a + b < 32 by omega), set_pending]
  by_cases hzero : (carry + a + b) / 16 = 0
  · rw [hzero, if_neg (by simp), if_neg (by simp)]
    cases m with
    | zero => rfl
    | succ m =>
        rw [List.replicate_succ', List.append_assoc]
        rfl
  · rw [if_pos hzero]
    cases m with
    | zero => rw [if_pos ⟨rfl, hzero⟩]; rfl
    | succ m => rw [if_neg (by simp), addCarry_pending hcounter]

/-- **The loop is the adder.**  Digits are listed from the last to the first here; there is
a place for the carry unless the loop is done. -/
theorem foldlM_addDigit {digit1 digit2 : Nat → Except Throwable UInt8} :
    ∀ (rev1 rev2 : List UInt8) (carry : Nat) (out : List UInt8), rev1.length = rev2.length →
      AreHex rev1 → AreHex rev2 →
      (∀ j (hj : j < rev1.reverse.length), digit1 j = .ok rev1.reverse[j]) →
      (∀ j (hj : j < rev2.reverse.length), digit2 j = .ok rev2.reverse[j]) →
      carry ≤ 1 → (carry = 0 ∨ rev1 ≠ []) →
      (List.range rev1.length).reverse.foldlM (addDigit digit1 digit2)
          (pending rev1.length carry out)
        = let (sum, last) := Ripple.add 16 carry (rev1.map digitValue) (rev2.map digitValue)
          if last = 0 then .ok ((sum.map hexChar).reverse ++ out)
          else .error .indexOutOfBounds := by
  intro rev1
  induction rev1 with
  | nil =>
      intro rev2 carry out hlen _ _ _ _ _ hplace
      obtain rfl := List.length_eq_zero_iff.mp hlen.symm
      obtain rfl := hplace.resolve_right (fun h => h rfl)
      rfl
  | cons ch1 rev1 ih =>
      intro rev2 carry out hlen hhex1 hhex2 h1 h2 hcarry _
      obtain ⟨ch2, rev2, rfl⟩ := List.exists_cons_of_length_pos (by rw [← hlen]; simp)
      have hlen' : rev1.length = rev2.length := by simpa using hlen
      have hlast1 : digit1 rev1.length = .ok ch1 := by simpa using h1 rev1.length (by simp)
      have hlast2 : digit2 rev1.length = .ok ch2 := by
        simpa [hlen'] using h2 rev2.length (by simp)
      have hpass := addDigit_pending out hcarry hlast1 hlast2 (hex2int_eq (hhex1 ch1 (by simp)))
        (hex2int_eq (hhex2 ch2 (by simp)))
      have hcounter := Ripple.carry_le_one hcarry (digitValue_lt ch1) (digitValue_lt ch2)
      rw [List.length_cons, List.range_succ, List.reverse_append, List.reverse_singleton,
        List.singleton_append, List.foldlM_cons, hpass, List.map_cons, List.map_cons,
        Ripple.add_cons]
      by_cases hover : rev1.length = 0 ∧ (carry + digitValue ch1 + digitValue ch2) / 16 ≠ 0
      · obtain rfl := List.length_eq_zero_iff.mp hover.1
        rw [if_pos hover]
        simp [hover.2]
      · rw [if_neg hover, ok_bind, ih rev2 _ _ hlen' (fun c hc => hhex1 c (by simp [hc]))
          (fun c hc => hhex2 c (by simp [hc])) ?_ ?_ hcounter ?_]
        · simp
        · intro j hj
          rw [h1 j (by simp at hj ⊢; omega)]
          simp [List.getElem_append_left hj]
        · intro j hj
          rw [h2 j (by simp at hj ⊢; omega)]
          simp [List.getElem_append_left hj]
        · by_cases hzero : (carry + digitValue ch1 + digitValue ch2) / 16 = 0
          · exact Or.inl hzero
          · exact Or.inr fun hnil => hover ⟨by simp [hnil], hzero⟩

theorem pending_zeros (m : Nat) : pending m 0 [] = List.replicate m HEX_ARRAY_0 := by
  cases m with
  | zero => rfl
  | succ m => rw [List.replicate_succ']; rfl

section Candidate

variable {digits1 digits2 : List UInt8} {digit1 digit2 : Nat → Except Throwable UInt8}

/-- The digits of the sum, by `Lib.Ripple`, and what is carried out of the first. -/
def sumDigits (digits1 digits2 : List UInt8) : List UInt8 × Nat :=
  let (sum, last) := Ripple.add 16 0 (digits1.reverse.map digitValue)
    (digits2.reverse.map digitValue)
  ((sum.map hexChar).reverse, last)

/-- **What `addCandidate` returns.** -/
theorem addCandidate_eq (hlen : digits1.length = digits2.length) (hhex1 : AreHex digits1)
    (hhex2 : AreHex digits2) (h1 : ∀ j (hj : j < digits1.length), digit1 j = .ok digits1[j])
    (h2 : ∀ j (hj : j < digits2.length), digit2 j = .ok digits2[j]) :
    addCandidate digit1 digit2 digits1.length =
      if hexValue digits1 + hexValue digits2 < 16 ^ digits1.length then
        .ok (sumDigits digits1 digits2).1
      else .error .indexOutOfBounds := by
  have hvalues :
      (digits1.reverse.map digitValue).length = (digits2.reverse.map digitValue).length := by
    simpa using hlen
  have hlast := Ripple.add_carry_eq_zero_iff (b := 16) (by decide) 0 hvalues
  have hloop := foldlM_addDigit digits1.reverse digits2.reverse 0 [] (by simpa using hlen)
    (fun c hc => hhex1 c (List.mem_reverse.mp hc)) (fun c hc => hhex2 c (List.mem_reverse.mp hc))
    (by simpa using h1) (by simpa using h2) (Nat.zero_le 1) (Or.inl rfl)
  simp only [List.length_reverse, List.length_map, Nat.zero_add, pending_zeros,
    List.append_nil] at hlast hloop
  rw [addCandidate, hloop]
  by_cases hfits : hexValue digits1 + hexValue digits2 < 16 ^ digits1.length
  · rw [if_pos hfits, if_pos (hlast.mpr hfits)]
    rfl
  · rw [if_neg hfits, if_neg (fun hzero => hfits (hlast.mp hzero))]

theorem length_sumDigits (hlen : digits1.length = digits2.length) :
    (sumDigits digits1 digits2).1.length = digits1.length := by
  have hvalues :
      (digits1.reverse.map digitValue).length = (digits2.reverse.map digitValue).length := by
    simpa using hlen
  simpa [sumDigits] using Ripple.length_add (b := 16) 0 hvalues

/-- The digits of the sum come from `int2hex`. -/
theorem mem_sumDigits {ch : UInt8} (hch : ch ∈ (sumDigits digits1 digits2).1) :
    ∃ d < 16, ch = hexChar d := by
  obtain ⟨d, hd, rfl⟩ := List.mem_map.mp (List.mem_reverse.mp hch)
  exact ⟨d, Ripple.add_lt_base (by decide) _ _ _ d hd, rfl⟩

theorem hexValue_sumDigits (hlen : digits1.length = digits2.length)
    (hfits : hexValue digits1 + hexValue digits2 < 16 ^ digits1.length) :
    hexValue (sumDigits digits1 digits2).1 = hexValue digits1 + hexValue digits2 := by
  have hvalues :
      (digits1.reverse.map digitValue).length = (digits2.reverse.map digitValue).length := by
    simpa using hlen
  have hlast : (Ripple.add 16 0 (digits1.reverse.map digitValue)
      (digits2.reverse.map digitValue)).2 = 0 := by
    rw [Ripple.add_carry_eq_zero_iff (by decide) 0 hvalues, Nat.zero_add]
    simpa [hexValue] using hfits
  have hsum := Ripple.ofDigits_add (b := 16) 0 hvalues
  have hbase := Ripple.add_lt_base (b := 16) (by decide) 0 (digits1.reverse.map digitValue)
    (digits2.reverse.map digitValue)
  rw [hlast, Nat.mul_zero, Nat.add_zero, Nat.zero_add] at hsum
  unfold sumDigits
  generalize Ripple.add 16 0 (digits1.reverse.map digitValue) (digits2.reverse.map digitValue)
    = result at *
  have hdigits : (result.1.map hexChar).map digitValue = result.1 := by
    rw [List.map_map]
    exact (List.map_congr_left fun d hd => digitValue_hexChar (hbase d hd)).trans (List.map_id _)
  rw [hexValue, List.reverse_reverse, hdigits, hsum, hexValue, hexValue]

end Candidate

/-! ### Arrays that count -/

/-- What a `mapM` yields, element by element. -/
theorem mapM_ok {α β : Type} {f : α → Except Throwable β} {P : α → β → Prop} {l : List α}
    (h : ∀ a ∈ l, ∃ b, f a = .ok b ∧ P a b) : ∃ bs, l.mapM f = .ok bs ∧ List.Forall₂ P l bs := by
  induction l with
  | nil => exact ⟨[], rfl, List.Forall₂.nil⟩
  | cons a l ih =>
      obtain ⟨b, hb, hP⟩ := h a (by simp)
      obtain ⟨bs, hbs, hall⟩ := ih fun a ha => h a (by simp [ha])
      exact ⟨b :: bs, by rw [List.mapM_cons, hb, hbs]; rfl, List.Forall₂.cons hP hall⟩

/-- A `mapM` over the numbers below `n`. -/
theorem mapM_range_ok {β : Type} {f : Nat → Except Throwable β} {P : Nat → β → Prop} {n : Nat}
    (h : ∀ i < n, ∃ b, f i = .ok b ∧ P i b) :
    ∃ bs, (List.range n).mapM f = .ok bs ∧ bs.length = n ∧
      ∀ i < n, ∃ b, bs[i]? = some b ∧ P i b := by
  obtain ⟨bs, hbs, hall⟩ := mapM_ok (l := List.range n) fun i hi => h i (List.mem_range.mp hi)
  have hlen : bs.length = n := by rw [← hall.length_eq, List.length_range]
  refine ⟨bs, hbs, hlen, fun i hi => ⟨bs[i], List.getElem?_eq_getElem _, ?_⟩⟩
  have hP := hall.get (i := i) (by simpa using hi) (by omega)
  simpa only [List.get_eq_getElem, List.getElem_range] using hP

/-- The digits of one candidate. -/
def candidateAt (array : List (List (List UInt8))) (i k : Nat) : Option (List UInt8) :=
  array[i]?.bind fun race => race[k]?

/-- Digits of a candidate that stand for a number. -/
def HasValue (B value : Nat) (digits : List UInt8) : Prop :=
  digits.length = B ∧ AreHex digits ∧ hexValue digits = value

/-- An array of `R` races of `C` candidates of `B` hex digits, with the number `f i k` at
race `i` and candidate `k`. -/
structure Counts (R C B : Nat) (f : Nat → Nat → Nat) (array : List (List (List UInt8))) :
    Prop where
  races : array.length = R
  candidates : ∀ race ∈ array, race.length = C
  digits : ∀ i < R, ∀ k < C, ∃ digits, candidateAt array i k = some digits ∧
    HasValue B (f i k) digits

theorem elementAt_of_candidateAt {array : List (List (List UInt8))} {i k : Nat}
    {digits : List UInt8} (h : candidateAt array i k = some digits) (j : Nat)
    (hj : j < digits.length) : elementAt array i k j = .ok digits[j] := by
  obtain ⟨race, hrace, hdigits⟩ := Option.bind_eq_some_iff.mp h
  simp [elementAt, hrace, hdigits, hj]

/-- What the loops over races and candidates yield, candidate by candidate. -/
theorem mapM_races_ok {R C : Nat} {P : Nat → Nat → List UInt8 → Prop}
    {entry : Nat → Except Throwable (List (List UInt8))}
    (h : ∀ i < R, ∃ race, entry i = .ok race ∧ race.length = C ∧
      ∀ k < C, ∃ digits, race[k]? = some digits ∧ P i k digits) :
    ∃ array, (List.range R).mapM entry = .ok array ∧ array.length = R ∧
      (∀ race ∈ array, race.length = C) ∧
      ∀ i < R, ∀ k < C, ∃ digits, candidateAt array i k = some digits ∧ P i k digits := by
  obtain ⟨array, harray, hlen, hraces⟩ := mapM_range_ok h
  refine ⟨array, harray, hlen, ?_, ?_⟩
  · intro race hrace
    obtain ⟨i, hi, rfl⟩ := List.getElem_of_mem hrace
    obtain ⟨race', hrace', hC, -⟩ := hraces i (by omega)
    rw [List.getElem?_eq_getElem hi, Option.some.injEq] at hrace'
    rw [hrace', hC]
  · intro i hi k hk
    obtain ⟨race, hrace, -, hcandidates⟩ := hraces i hi
    obtain ⟨digits, hdigits, hvalue⟩ := hcandidates k hk
    exact ⟨digits, by rw [candidateAt, hrace, Option.bind_some, hdigits], hvalue⟩

/-- A loop over races that yields the right digits everywhere counts. -/
theorem counts_of_races {R C B : Nat} {f : Nat → Nat → Nat}
    {entry : Nat → Except Throwable (List (List UInt8))}
    (h : ∀ i < R, ∃ race, entry i = .ok race ∧ race.length = C ∧
      ∀ k < C, ∃ digits, race[k]? = some digits ∧ HasValue B (f i k) digits) :
    ∃ array, (List.range R).mapM entry = .ok array ∧ Counts R C B f array := by
  obtain ⟨array, harray, hraces, hcandidates, hdigits⟩ := mapM_races_ok h
  exact ⟨array, harray, hraces, hcandidates, hdigits⟩

section Sum

variable {R C B : Nat} {f g : Nat → Nat → Nat} {vote1 vote2 : List (List (List UInt8))}

/-- The loops of `addVoteArray` run over the shape of the first array. -/
theorem Counts.addVoteArray_eq (hR : 0 < R) (hC : 0 < C) (h1 : Counts R C B f vote1)
    (vote2 : List (List (List UInt8))) :
    Election.addVoteArray vote1 vote2 = (List.range R).mapM fun i => (List.range C).mapM fun k =>
      addCandidate (elementAt vote1 i k) (elementAt vote2 i k) B := by
  obtain ⟨race, races, rfl⟩ := List.exists_cons_of_length_pos (h1.races ▸ hR)
  obtain ⟨candidate, candidates, rfl⟩ :=
    List.exists_cons_of_length_pos (h1.candidates race (by simp) ▸ hC)
  have hraces : races.length + 1 = R := h1.races
  have hcandidates : candidates.length + 1 = C := h1.candidates (candidate :: candidates) (by simp)
  have hB : candidate.length = B := by
    obtain ⟨digits, hdigits, hlen, -⟩ := h1.digits 0 hR 0 hC
    rw [← hlen, ← Option.some.inj hdigits]
  rw [Election.addVoteArray, hraces, hcandidates, hB]

/-- **One entry of the sum**: its digits come from `int2hex` and stand for the sum of the two
entries, which are added unless that takes more than `B` digits. -/
theorem Counts.addCandidate_eq (h1 : Counts R C B f vote1) (h2 : Counts R C B g vote2) {i k : Nat}
    (hi : i < R) (hk : k < C) : ∃ sum : List UInt8, sum.length = B ∧
      (∀ ch ∈ sum, ∃ d < 16, ch = hexChar d) ∧
      (f i k + g i k < 16 ^ B → hexValue sum = f i k + g i k) ∧
      addCandidate (elementAt vote1 i k) (elementAt vote2 i k) B =
        if f i k + g i k < 16 ^ B then .ok sum else .error .indexOutOfBounds := by
  obtain ⟨digits1, hat1, rfl, hhex1, hvalue1⟩ := h1.digits i hi k hk
  obtain ⟨digits2, hat2, hlen2, hhex2, hvalue2⟩ := h2.digits i hi k hk
  rw [← hvalue1, ← hvalue2]
  exact ⟨(sumDigits digits1 digits2).1, length_sumDigits hlen2.symm, fun ch => mem_sumDigits,
    hexValue_sumDigits hlen2.symm, Evoting.addCandidate_eq hlen2.symm hhex1 hhex2
      (elementAt_of_candidateAt hat1) (elementAt_of_candidateAt hat2)⟩

theorem areHex_of_hexChar {digits : List UInt8} (h : ∀ ch ∈ digits, ∃ d < 16, ch = hexChar d) :
    AreHex digits := by
  intro ch hch
  obtain ⟨d, hd, rfl⟩ := h ch hch
  rw [hex2int_hexChar hd]
  exact Int.natCast_nonneg d

/-- **Arrays add up entry by entry**, as long as the sums have no more than `B` digits. -/
theorem Counts.addVoteArray (hR : 0 < R) (hC : 0 < C) (h1 : Counts R C B f vote1)
    (h2 : Counts R C B g vote2) (hfits : ∀ i < R, ∀ k < C, f i k + g i k < 16 ^ B) :
    ∃ total, Election.addVoteArray vote1 vote2 = .ok total ∧
      Counts R C B (fun i k => f i k + g i k) total := by
  rw [h1.addVoteArray_eq hR hC]
  refine counts_of_races fun i hi => mapM_range_ok fun k hk => ?_
  obtain ⟨sum, hlen, hdigits, hvalue, hsum⟩ := h1.addCandidate_eq h2 hi hk
  rw [if_pos (hfits i hi k hk)] at hsum
  exact ⟨sum, hsum, hlen, areHex_of_hexChar hdigits, hvalue (hfits i hi k hk)⟩

end Sum

/-- **The left fold of `addVoteArray`** over arrays; it starts from the first. -/
def addVoteArrays : List (List (List (List UInt8))) → Except Throwable (List (List (List UInt8)))
  | [] => .error .noSuchElement
  | first :: rest => rest.foldlM Election.addVoteArray first

/-- A fold of arrays counts what its arrays count together. -/
theorem counts_foldlM {α : Type} {R C B : Nat} (hR : 0 < R) (hC : 0 < C) {f : α → Nat → Nat → Nat}
    {items : List α} {arrays : List (List (List (List UInt8)))}
    (harrays : List.Forall₂ (fun a array => Counts R C B (f a) array) items arrays) :
    ∀ {g : Nat → Nat → Nat} {first : List (List (List UInt8))}, Counts R C B g first →
      (∀ i < R, ∀ k < C, g i k + (items.map fun a => f a i k).sum < 16 ^ B) →
      ∃ total, arrays.foldlM Election.addVoteArray first = .ok total ∧
        Counts R C B (fun i k => g i k + (items.map fun a => f a i k).sum) total := by
  induction harrays with
  | nil => intro g first hfirst _; exact ⟨first, rfl, by simpa using hfirst⟩
  | cons harray _ ih =>
      intro g first hfirst hfits
      simp only [List.map_cons, List.sum_cons, ← Nat.add_assoc] at hfits ⊢
      obtain ⟨next, hnext, hcounts⟩ := hfirst.addVoteArray hR hC harray
        fun i hi k hk => Nat.lt_of_le_of_lt (Nat.le_add_right _ _) (hfits i hi k hk)
      rw [List.foldlM_cons, hnext, ok_bind]
      exact ih hcounts hfits

/-! ### The array of a vote -/

/-- The value of a hex digit character. -/
def hexDigitOf (c : Char) : Option Nat :=
  if '0' ≤ c ∧ c ≤ '9' then some (c.toNat - '0'.toNat)
  else if 'A' ≤ c ∧ c ≤ 'F' then some (c.toNat - 'A'.toNat + 10)
  else if 'a' ≤ c ∧ c ≤ 'f' then some (c.toNat - 'a'.toNat + 10)
  else none

/-- The digit of a vote for a race. -/
def digitAt (vote : JString) (i : Nat) : Option Nat := vote[i]?.bind hexDigitOf

/-- The first `R` characters are hex digits between 1 and `C`. -/
def IsVoteString (R C : Nat) (vote : JString) : Prop :=
  ∀ i < R, ∃ d, digitAt vote i = some d ∧ 1 ≤ d ∧ d ≤ C

theorem hexDigitOf_eq_some {c : Char} {d : Nat} (h : hexDigitOf c = some d) :
    c.toNat < 128 ∧ hex2int (UInt8.ofNat c.toNat) = d := by
  simp only [hexDigitOf, Char.le_def, UInt32.le_iff_toNat_le] at h
  change (if 48 ≤ c.toNat ∧ c.toNat ≤ 57 then some (c.toNat - 48)
    else if 65 ≤ c.toNat ∧ c.toNat ≤ 70 then some (c.toNat - 65 + 10)
    else if 97 ≤ c.toNat ∧ c.toNat ≤ 102 then some (c.toNat - 97 + 10) else none) = some d at h
  generalize c.toNat = n at h ⊢
  split at h
  · rename_i hn
    obtain rfl := Option.some.inj h
    obtain ⟨hlow, hhigh⟩ := hn
    interval_cases n <;> decide
  · split at h
    · rename_i hn
      obtain rfl := Option.some.inj h
      obtain ⟨hlow, hhigh⟩ := hn
      interval_cases n <;> decide
    · split at h
      · rename_i hn
        obtain rfl := Option.some.inj h
        obtain ⟨hlow, hhigh⟩ := hn
        interval_cases n <;> decide
      · simp at h

/-- Before the first character outside the basic plane, `charAt` counts characters. -/
theorem flatMap_utf16Units_getElem? {vote : JString} {i : Nat} {c : Char}
    (hc : vote[i]? = some c) (h : ∀ j ≤ i, ∀ d ∈ vote[j]?, d.toNat < 128) :
    (vote.flatMap utf16Units)[i]? = some c.toNat := by
  induction vote generalizing i with
  | nil => simp at hc
  | cons first vote ih =>
      have hunits : utf16Units first = [first.toNat] := by
        have hfirst := h 0 (Nat.zero_le i) first rfl
        rw [utf16Units, if_pos (by omega)]
      rw [List.flatMap_cons, hunits]
      cases i with
      | zero =>
          obtain rfl := Option.some.inj hc
          rfl
      | succ i => exact ih hc fun j hj => h (j + 1) (Nat.succ_le_succ hj)

/-- The byte `convertVoteToByteArray` reads is the vote's digit. -/
theorem byteAt_of_digits {vote : JString} {i : Nat} (h : ∀ j ≤ i, ∃ d, digitAt vote j = some d) :
    ∃ ch, byteAt vote i = .ok ch ∧ ∀ d ∈ digitAt vote i, hex2int ch = d := by
  have hplane : ∀ j ≤ i, ∀ c ∈ vote[j]?, c.toNat < 128 := by
    intro j hj c hc
    obtain ⟨d, hd⟩ := h j hj
    rw [digitAt, hc, Option.bind_some] at hd
    exact (hexDigitOf_eq_some hd).1
  obtain ⟨d, hd⟩ := h i (Nat.le_refl i)
  obtain ⟨c, hc, hdigit⟩ := Option.bind_eq_some_iff.mp hd
  refine ⟨UInt8.ofNat c.toNat, ?_, ?_⟩
  · rw [byteAt, flatMap_utf16Units_getElem? hc hplane]
  · intro d' hd'
    obtain rfl := Option.some.inj (hd.symm.trans hd')
    exact (hexDigitOf_eq_some hdigit).2

/-- How often a vote names candidate `k` in race `i`: once, or not at all. -/
def names (vote : JString) (i k : Nat) : Nat := if digitAt vote i = some (k + 1) then 1 else 0

theorem hasValue_zeros (B : Nat) : HasValue B 0 (List.replicate B HEX_ARRAY_0) := by
  refine ⟨List.length_replicate, ?_, ?_⟩
  · intro ch hch
    rw [List.eq_of_mem_replicate hch]
    decide
  · rw [hexValue, List.reverse_replicate, List.map_replicate]
    exact Nat.ofDigits_replicate_zero

/-- The last of at least one zero, replaced by a one. -/
theorem hasValue_one {B : Nat} (hB : 0 < B) :
    HasValue B 1 ((List.replicate B HEX_ARRAY_0).set (B - 1) HEX_ARRAY_1) := by
  obtain ⟨B, rfl⟩ := Nat.exists_eq_succ_of_ne_zero hB.ne'
  have hset : (List.replicate (B + 1) HEX_ARRAY_0).set B HEX_ARRAY_1
      = List.replicate B HEX_ARRAY_0 ++ [HEX_ARRAY_1] := by
    rw [List.replicate_succ', List.set_append_right _ _ (by simp)]
    simp
  obtain ⟨-, hhex, hzero⟩ := hasValue_zeros B
  rw [Nat.succ_eq_add_one, Nat.add_sub_cancel, hset]
  refine ⟨by simp, ?_, ?_⟩
  · intro ch hch
    rcases List.mem_append.mp hch with hch | hch
    · exact hhex ch hch
    · rw [List.mem_singleton.mp hch]
      decide
  · rw [hexValue] at hzero
    rw [hexValue, List.reverse_append, List.reverse_singleton, List.singleton_append, List.map_cons,
      Nat.ofDigits_cons, hzero]
    rfl

/-- **The array of a vote counts that vote.** -/
theorem counts_convertVoteToByteArray {R C B : Nat} (hB : 0 < B) {vote : JString}
    (hvote : IsVoteString R C vote) : ∃ array, convertVoteToByteArray vote R C B = .ok array ∧
      Counts R C B (names vote) array := by
  refine counts_of_races fun i hi => ?_
  obtain ⟨d, hd, hpos, hle⟩ := hvote i hi
  obtain ⟨ch, hch, hvalue⟩ := byteAt_of_digits fun j hj =>
    (hvote j (Nat.lt_of_le_of_lt hj hi)).imp fun d hd => hd.1
  have hindex : hex2int ch - 1 = ((d - 1 : Nat) : Int) := by
    rw [hvalue d hd]
    omega
  refine ⟨_, by rw [hch, ok_bind, hindex, raceArray, if_pos ⟨by omega, by omega, hB⟩,
    Int.toNat_natCast], by simp, fun k hk => ?_⟩
  by_cases hk' : d = k + 1
  · rw [names, if_pos (by rw [hd, hk']), List.getElem?_set, if_pos (by omega),
      if_pos (by simp; omega)]
    exact ⟨_, rfl, hasValue_one hB⟩
  · rw [names, if_neg (by rw [hd, Option.some.injEq]; exact hk'), List.getElem?_set,
      if_neg (by omega), List.getElem?_replicate, if_pos hk]
    exact ⟨_, rfl, hasValue_zeros B⟩

/-- Adding up what each vote names is counting. -/
theorem sum_names (votes : List JString) (i k : Nat) : (votes.map fun vote => names vote i k).sum
    = votes.countP fun vote => digitAt vote i = some (k + 1) := by
  induction votes with
  | nil => rfl
  | cons vote votes ih =>
      rw [List.map_cons, List.sum_cons, ih, List.countP_cons, names, Nat.add_comm]
      simp only [decide_eq_true_eq]

/-- **The fold counts the votes.** -/
theorem addVoteArrays_counts {R C B : Nat} (hR : 1 ≤ R) (hC : 1 ≤ C) (hB : 1 ≤ B)
    {votes : List JString} (hne : votes ≠ []) (hfew : votes.length < 16 ^ B)
    (hvotes : ∀ vote ∈ votes, IsVoteString R C vote) :
    ∃ arrays total, (votes.mapM fun vote => convertVoteToByteArray vote R C B) = .ok arrays ∧
      addVoteArrays arrays = .ok total ∧
      ∀ i < R, ∀ k < C, ∃ digits, candidateAt total i k = some digits ∧ digits.length = B ∧
        AreHex digits ∧
        hexValue digits = votes.countP fun vote => digitAt vote i = some (k + 1) := by
  obtain ⟨arrays, harrays, hall⟩ :=
    mapM_ok fun vote hvote => counts_convertVoteToByteArray hB (hvotes vote hvote)
  cases hall with
  | nil => exact absurd rfl hne
  | @cons vote first votes arrays hfirst hrest =>
      have hsum : ∀ i k, names vote i k + (votes.map fun vote => names vote i k).sum
          = (vote :: votes).countP fun vote => digitAt vote i = some (k + 1) := by
        intro i k
        rw [← sum_names, List.map_cons, List.sum_cons]
      obtain ⟨total, htotal, hcounts⟩ := counts_foldlM hR hC hrest hfirst fun i _ k _ => by
        rw [hsum]
        exact Nat.lt_of_le_of_lt List.countP_le_length hfew
      refine ⟨_, total, harrays, htotal, fun i hi k hk => ?_⟩
      obtain ⟨digits, hdigits, hlen, hhex, hvalue⟩ := hcounts.digits i hi k hk
      exact ⟨digits, hdigits, hlen, hhex, hvalue.trans (hsum i k)⟩

/-- Three votes in two races of three candidates, with two digits for each. -/
theorem addVoteArrays_counts_three_votes :
    ∃ arrays total, (["13".toList, "23".toList, "11".toList].mapM fun vote =>
        convertVoteToByteArray vote 2 3 2) = .ok arrays ∧ addVoteArrays arrays = .ok total ∧
      ∀ i < 2, ∀ k < 3, ∃ digits, candidateAt total i k = some digits ∧ digits.length = 2 ∧
        AreHex digits ∧ hexValue digits
          = ["13".toList, "23".toList, "11".toList].countP
              fun vote => digitAt vote i = some (k + 1) :=
  addVoteArrays_counts (by decide) (by decide) (by decide) (by decide) (by decide) (by
    intro vote hvote i hi
    simp only [List.mem_cons, List.not_mem_nil, or_false] at hvote
    rcases hvote with rfl | rfl | rfl <;> interval_cases i <;> exact ⟨_, rfl, by decide⟩)

end Evoting

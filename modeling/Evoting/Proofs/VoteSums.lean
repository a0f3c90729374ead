/-
The sum of two vote arrays, and where it ends.

`Proofs.VoteArrays` reads the digits of an entry through `hex2int`.  Here an array is
one of hex digit characters of either case, and its entries are base-16 numerals.  The
sum of two arrays is written in lower case, entry by entry; the loop throws as soon as
one sum needs a digit more than there are.
-/
import Evoting.Proofs.VoteArrays

namespace Evoting

open Election

/-! ### Characters and numerals -/

/-- '0' to '9', 'A' to 'F' or 'a' to 'f'. -/
def IsHexDigit (ch : UInt8) : Prop :=
  (48 ≤ ch ∧ ch ≤ 57) ∨ (65 ≤ ch ∧ ch ≤ 70) ∨ (97 ≤ ch ∧ ch ≤ 102)

/-- '0' to '9' or 'a' to 'f'. -/
def IsLowerHexDigit (ch : UInt8) : Prop := (48 ≤ ch ∧ ch ≤ 57) ∨ (97 ≤ ch ∧ ch ≤ 102)

instance (ch : UInt8) : Decidable (IsHexDigit ch) := inferInstanceAs (Decidable (_ ∨ _))

instance (ch : UInt8) : Decidable (IsLowerHexDigit ch) := inferInstanceAs (Decidable (_ ∨ _))

/-- What a hex digit character stands for. -/
def hexDigitValue (ch : UInt8) : Nat :=
  if ch ≤ 57 then ch.toNat - 48 else if ch ≤ 70 then ch.toNat - 55 else ch.toNat - 87

/-- The number digits stand for in base 16, the most significant digit first. -/
def base16 (digits : List UInt8) : Nat := digits.foldl (fun v ch => 16 * v + hexDigitValue ch) 0

theorem hex2int_of_isHexDigit {ch : UInt8} (h : IsHexDigit ch) :
    hex2int ch = hexDigitValue ch := by
  simp only [IsHexDigit, UInt8.le_iff_toNat_le, UInt8.reduceToNat] at h
  simp only [hex2int, hexDigitValue, UInt8.le_iff_toNat_le, UInt8.reduceToNat]
  rcases h with h | h | h
  · rw [if_pos h, if_pos h.2]
    omega
  · rw [if_neg (by omega), if_pos h, if_neg (by omega), if_pos h.2]
    omega
  · rw [if_neg (by omega), if_neg (by omega), if_pos h, if_neg (by omega), if_neg (by omega)]
    omega

theorem hexValue_eq_base16 {digits : List UInt8} (h : ∀ ch ∈ digits, IsHexDigit ch) :
    hexValue digits = base16 digits := by
  induction digits using List.reverseRecOn with
  | nil => rfl
  | append_singleton digits ch ih =>
      have hlast : digitValue ch = hexDigitValue ch := by
        rw [digitValue, hex2int_of_isHexDigit (h ch (by simp)), Int.toNat_natCast]
      have hrest := ih fun c hc => h c (by simp [hc])
      simp only [hexValue, base16] at hrest ⊢
      rw [List.reverse_append, List.reverse_singleton, List.singleton_append, List.map_cons,
        Nat.ofDigits_cons, hrest, hlast, List.foldl_append, List.foldl_cons, List.foldl_nil,
        Nat.add_comm]

theorem isLowerHexDigit_hexChar {d : Nat} (h : d < 16) : IsLowerHexDigit (hexChar d) := by
  interval_cases d <;> decide

theorem IsLowerHexDigit.isHexDigit {ch : UInt8} (h : IsLowerHexDigit ch) : IsHexDigit ch :=
  h.imp_right Or.inr

/-! ### Arrays of digits -/

/-- An array of `R` races of `C` candidates of `B` digits. -/
structure IsDigitArray (R C B : Nat) (IsDigit : UInt8 → Prop)
    (array : List (List (List UInt8))) : Prop where
  races : array.length = R
  candidates : ∀ race ∈ array, race.length = C
  digits : ∀ race ∈ array, ∀ digits ∈ race, digits.length = B ∧ ∀ ch ∈ digits, IsDigit ch

/-- The number at race `i` and candidate `k`. -/
def valueAt (array : List (List (List UInt8))) (i k : Nat) : Nat :=
  base16 ((candidateAt array i k).getD [])

/-- An array of hex digits counts what its entries stand for. -/
theorem IsDigitArray.counts {R C B : Nat} {array : List (List (List UInt8))}
    (h : IsDigitArray R C B IsHexDigit array) : Counts R C B (valueAt array) array where
  races := h.races
  candidates := h.candidates
  digits i hi k hk := by
    have hi' : i < array.length := by rwa [h.races]
    have hk' : k < array[i].length := by rwa [h.candidates _ (List.getElem_mem hi')]
    have hat : candidateAt array i k = some array[i][k] := by simp [candidateAt, hi', hk']
    obtain ⟨hlen, hhex⟩ := h.digits _ (List.getElem_mem hi') _ (List.getElem_mem hk')
    refine ⟨_, hat, hlen, fun ch hch => ?_, ?_⟩
    · rw [hex2int_of_isHexDigit (hhex ch hch)]
      exact Int.natCast_nonneg _
    · rw [hexValue_eq_base16 hhex, valueAt, hat, Option.getD_some]

/-- Every candidate of an array is at its place. -/
theorem exists_candidateAt {array : List (List (List UInt8))} {race : List (List UInt8)}
    {digits : List UInt8} (hrace : race ∈ array) (hdigits : digits ∈ race) :
    ∃ i < array.length, ∃ k < race.length, candidateAt array i k = some digits := by
  obtain ⟨i, hi, rfl⟩ := List.getElem_of_mem hrace
  obtain ⟨k, hk, rfl⟩ := List.getElem_of_mem hdigits
  exact ⟨i, hi, k, hk, by simp [candidateAt, hi, hk]⟩

/-! ### The sum -/

/-- A `mapM` whose calls return or all throw the same throws it, if one does. -/
theorem mapM_eq_error {α β : Type} {f : α → Except Throwable β} {e : Throwable} {l : List α}
    (h : ∀ a ∈ l, (∃ b, f a = .ok b) ∨ f a = .error e) (herror : ∃ a ∈ l, f a = .error e) :
    l.mapM f = .error e := by
  induction l with
  | nil => simp at herror
  | cons a l ih =>
      rw [List.mapM_cons]
      rcases h a (by simp) with ⟨b, hb⟩ | ha
      · have hrest : ∃ a' ∈ l, f a' = .error e := by
          obtain ⟨a', hmem, ha'⟩ := herror
          rcases List.mem_cons.mp hmem with rfl | hmem
          · rw [hb] at ha'
            simp at ha'
          · exact ⟨a', hmem, ha'⟩
        rw [hb, ok_bind, ih (fun a' ha' => h a' (by simp [ha'])) hrest, error_bind]
      · rw [ha, error_bind]

/-- Otherwise it returns. -/
theorem mapM_ok_or_error {α β : Type} {f : α → Except Throwable β} {e : Throwable} {l : List α}
    (h : ∀ a ∈ l, (∃ b, f a = .ok b) ∨ f a = .error e) :
    (∃ bs, l.mapM f = .ok bs) ∨ l.mapM f = .error e := by
  by_cases herror : ∃ a ∈ l, f a = .error e
  · exact Or.inr (mapM_eq_error h herror)
  · left
    push Not at herror
    induction l with
    | nil => exact ⟨[], rfl⟩
    | cons a l ih =>
        obtain ⟨b, hb⟩ := (h a (by simp)).resolve_right (herror a (by simp))
        obtain ⟨bs, hbs⟩ := ih (fun a' ha' => h a' (by simp [ha'])) fun a' ha' =>
          herror a' (by simp [ha'])
        exact ⟨b :: bs, by rw [List.mapM_cons, hb, ok_bind, hbs, ok_bind, pure_eq_ok]⟩

section Sum

variable {R C B : Nat} {vote1 vote2 : List (List (List UInt8))}

/-- **Where the sums fit**, the array is that of the sums, in lower case. -/
theorem addVoteArray_fits (hR : 1 ≤ R) (hC : 1 ≤ C) (h1 : IsDigitArray R C B IsHexDigit vote1)
    (h2 : IsDigitArray R C B IsHexDigit vote2)
    (hfits : ∀ i < R, ∀ k < C, valueAt vote1 i k + valueAt vote2 i k < 16 ^ B) :
    ∃ total, addVoteArray vote1 vote2 = .ok total ∧ IsDigitArray R C B IsLowerHexDigit total ∧
      ∀ i < R, ∀ k < C, valueAt total i k = valueAt vote1 i k + valueAt vote2 i k := by
  rw [h1.counts.addVoteArray_eq hR hC]
  obtain ⟨total, htotal, hraces, hcandidates, hentries⟩ := mapM_races_ok
    (P := fun i k digits => digits.length = B ∧ (∀ ch ∈ digits, IsLowerHexDigit ch) ∧
      base16 digits = valueAt vote1 i k + valueAt vote2 i k)
      fun i hi => mapM_range_ok fun k hk => by
        obtain ⟨sum, hlen, hdigits, hvalue, hsum⟩ := h1.counts.addCandidate_eq h2.counts hi hk
        have hlower : ∀ ch ∈ sum, IsLowerHexDigit ch := by
          intro ch hch
          obtain ⟨d, hd, rfl⟩ := hdigits ch hch
          exact isLowerHexDigit_hexChar hd
        rw [if_pos (hfits i hi k hk)] at hsum
        rw [← hvalue (hfits i hi k hk),
          hexValue_eq_base16 fun ch hch => (hlower ch hch).isHexDigit]
        exact ⟨sum, hsum, hlen, hlower, rfl⟩
  refine ⟨total, htotal, ⟨hraces, hcandidates, ?_⟩, ?_⟩
  · intro race hrace digits hdigits
    obtain ⟨i, hi, k, hk, hat⟩ := exists_candidateAt hrace hdigits
    obtain ⟨digits', hat', hlen, hlower, -⟩ :=
      hentries i (hraces ▸ hi) k (hcandidates race hrace ▸ hk)
    rw [hat, Option.some.injEq] at hat'
    exact hat' ▸ ⟨hlen, hlower⟩
  · intro i hi k hk
    obtain ⟨digits, hat, -, -, hvalue⟩ := hentries i hi k hk
    rw [valueAt, hat, Option.getD_some, hvalue]

/-- **Where one sum does not fit**, there is no array. -/
theorem addVoteArray_overflows (hR : 1 ≤ R) (hC : 1 ≤ C)
    (h1 : IsDigitArray R C B IsHexDigit vote1) (h2 : IsDigitArray R C B IsHexDigit vote2)
    (hover : ∃ i < R, ∃ k < C, 16 ^ B ≤ valueAt vote1 i k + valueAt vote2 i k) :
    addVoteArray vote1 vote2 = .error .indexOutOfBounds := by
  rw [h1.counts.addVoteArray_eq hR hC]
  have hentry : ∀ i < R, ∀ k < C,
      (∃ sum, addCandidate (elementAt vote1 i k) (elementAt vote2 i k) B = .ok sum) ∨
        addCandidate (elementAt vote1 i k) (elementAt vote2 i k) B = .error .indexOutOfBounds := by
    intro i hi k hk
    obtain ⟨sum, -, -, -, hsum⟩ := h1.counts.addCandidate_eq h2.counts hi hk
    by_cases hfits : valueAt vote1 i k + valueAt vote2 i k < 16 ^ B
    · exact Or.inl ⟨sum, by rw [hsum, if_pos hfits]⟩
    · exact Or.inr (by rw [hsum, if_neg hfits])
  -- a race returns or throws as its candidates do
  have hrace : ∀ i < R, (∃ race, ((List.range C).mapM fun k =>
      addCandidate (elementAt vote1 i k) (elementAt vote2 i k) B) = .ok race) ∨
        ((List.range C).mapM fun k => addCandidate (elementAt vote1 i k) (elementAt vote2 i k) B)
          = .error .indexOutOfBounds := fun i hi =>
    mapM_ok_or_error fun k hk => hentry i hi k (List.mem_range.mp hk)
  obtain ⟨i, hi, k, hk, hle⟩ := hover
  refine mapM_eq_error (fun i' hi' => hrace i' (List.mem_range.mp hi'))
    ⟨i, List.mem_range.mpr hi, mapM_eq_error
      (fun k' hk' => hentry i hi k' (List.mem_range.mp hk')) ⟨k, List.mem_range.mpr hk, ?_⟩⟩
  obtain ⟨sum, -, -, -, hsum⟩ := h1.counts.addCandidate_eq h2.counts hi hk
  rw [hsum, if_neg (by omega)]

/-- **`addVoteArray` adds, or throws.** -/
theorem addVoteArray_adds (hR : 1 ≤ R) (hC : 1 ≤ C) (h1 : IsDigitArray R C B IsHexDigit vote1)
    (h2 : IsDigitArray R C B IsHexDigit vote2) :
    ((∀ i < R, ∀ k < C, valueAt vote1 i k + valueAt vote2 i k < 16 ^ B) →
      ∃ total, addVoteArray vote1 vote2 = .ok total ∧ IsDigitArray R C B IsLowerHexDigit total ∧
        ∀ i < R, ∀ k < C, valueAt total i k = valueAt vote1 i k + valueAt vote2 i k) ∧
    ((∃ i < R, ∃ k < C, 16 ^ B ≤ valueAt vote1 i k + valueAt vote2 i k) →
      addVoteArray vote1 vote2 = .error .indexOutOfBounds) :=
  ⟨addVoteArray_fits hR hC h1 h2, addVoteArray_overflows hR hC h1 h2⟩

end Sum

/-- One race of two candidates. -/
def twoCandidates (first second : List UInt8) : List (List (List UInt8)) := [[first, second]]

theorem isDigitArray_twoCandidates {B : Nat} {first second : List UInt8} (h1 : first.length = B)
    (h2 : second.length = B) (hhex1 : ∀ ch ∈ first, IsHexDigit ch)
    (hhex2 : ∀ ch ∈ second, IsHexDigit ch) :
    IsDigitArray 1 2 B IsHexDigit (twoCandidates first second) := by
  refine ⟨rfl, by simp [twoCandidates], ?_⟩
  simp only [twoCandidates, List.mem_cons, forall_eq_or_imp, List.not_mem_nil, false_implies,
    implies_true, and_true]
  exact ⟨⟨h1, hhex1⟩, ⟨h2, hhex2⟩⟩

/-- 9F and 11 are B0; 01 and fE fit, 02 and fE do not. -/
theorem addVoteArray_adds_twoCandidates :
    (∃ total,
      addVoteArray (twoCandidates [57, 70] [48, 49]) (twoCandidates [49, 49] [102, 69])
        = .ok total ∧
      IsDigitArray 1 2 2 IsLowerHexDigit total ∧ ∀ i < 1, ∀ k < 2, valueAt total i k
        = valueAt (twoCandidates [57, 70] [48, 49]) i k
          + valueAt (twoCandidates [49, 49] [102, 69]) i k) ∧
    addVoteArray (twoCandidates [57, 70] [48, 50]) (twoCandidates [49, 49] [102, 69])
      = .error .indexOutOfBounds := by
  have h9F : ∀ ch ∈ [57, 70], IsHexDigit ch := by simp [IsHexDigit]
  have h01 : ∀ ch ∈ [48, 49], IsHexDigit ch := by simp [IsHexDigit]
  have h02 : ∀ ch ∈ [48, 50], IsHexDigit ch := by simp [IsHexDigit]
  have h11 : ∀ ch ∈ [49, 49], IsHexDigit ch := by simp [IsHexDigit]
  have hfE : ∀ ch ∈ [102, 69], IsHexDigit ch := by simp [IsHexDigit]
  have hfits : IsDigitArray 1 2 2 IsHexDigit (twoCandidates [57, 70] [48, 49]) :=
    isDigitArray_twoCandidates rfl rfl h9F h01
  have hover : IsDigitArray 1 2 2 IsHexDigit (twoCandidates [57, 70] [48, 50]) :=
    isDigitArray_twoCandidates rfl rfl h9F h02
  have hother : IsDigitArray 1 2 2 IsHexDigit (twoCandidates [49, 49] [102, 69]) :=
    isDigitArray_twoCandidates rfl rfl h11 hfE
  exact ⟨(addVoteArray_adds (Nat.le_refl 1) (Nat.le_succ 1) hfits hother).1 (by decide),
    (addVoteArray_adds (Nat.le_refl 1) (Nat.le_succ 1) hover hother).2 (by decide)⟩

end Evoting

/-
Chains of blocks, listed from the head downwards.

The numbers of a linked chain go down by one, so a chain is cut at a height into the
blocks from there on (`above`) and the blocks below it (`below`), and has one block at
each height between two of its blocks.  Reading a chain down to a height leaves what
is below; one block more is the next of these (`below_succ`).
-/
import Evoting.Model.Compare
import Mathlib.Data.List.Chain

namespace Evoting

/-- A block is followed by its previous block. -/
def Follows (b p : SimpleBlock) : Prop := b.num = p.num + 1 ∧ b.previous = p.ident

instance (b p : SimpleBlock) : Decidable (Follows b p) := inferInstanceAs (Decidable (_ ∧ _))

/-- Each block of a list is followed by its previous block. -/
def Linked (chain : List SimpleBlock) : Prop := chain.IsChain Follows

instance (chain : List SimpleBlock) : Decidable (Linked chain) :=
  inferInstanceAs (Decidable (chain.IsChain Follows))

namespace Linked

variable {chain : List SimpleBlock} {b c : SimpleBlock} {h : Int}

/-- Numbers go down. -/
theorem pairwise (hchain : Linked chain) : chain.Pairwise fun b p => p.num < b.num := by
  have htrans : Trans (fun b p : SimpleBlock => p.num < b.num)
      (fun b p : SimpleBlock => p.num < b.num) (fun b p : SimpleBlock => p.num < b.num) :=
    ⟨fun hab hbc => Int.lt_trans hbc hab⟩
  refine List.isChain_iff_pairwise.mp (List.IsChain.imp (fun b p hbp => ?_) hchain)
  have hnum := hbp.1
  omega

/-- A chain is cut at one of its blocks. -/
theorem split (hchain : Linked chain) (hb : b ∈ chain) :
    ∃ newer older, chain = newer ++ b :: older ∧ (∀ x ∈ newer, b.num < x.num) ∧
      ∀ x ∈ older, x.num < b.num := by
  obtain ⟨newer, older, rfl⟩ := List.append_of_mem hb
  have hpairs := hchain.pairwise
  rw [List.pairwise_append, List.pairwise_cons] at hpairs
  exact ⟨newer, older, rfl, fun x hx => hpairs.2.2 x hx b (by simp), hpairs.2.1.1⟩

/-- A number is that of one block. -/
theorem eq_of_num_eq (hchain : Linked chain) (hb : b ∈ chain) (hc : c ∈ chain)
    (hnum : b.num = c.num) : b = c := by
  obtain ⟨newer, older, rfl, hnewer, holder⟩ := hchain.split hb
  rcases List.mem_append.mp hc with hc | hc
  · have hlt := hnewer c hc
    omega
  · rcases List.mem_cons.mp hc with rfl | hc
    · rfl
    · have hlt := holder c hc
      omega

/-- Where there is a block below, there is the previous block. -/
theorem exists_previous (hchain : Linked chain) (hb : b ∈ chain) (hc : c ∈ chain)
    (hlt : c.num < b.num) : ∃ p ∈ chain, Follows b p := by
  obtain ⟨newer, older, rfl, hnewer, -⟩ := hchain.split hb
  cases older with
  | nil =>
      rcases List.mem_append.mp hc with hc | hc
      · have hgt := hnewer c hc
        omega
      · rw [List.mem_singleton.mp hc] at hlt
        omega
  | cons p older =>
      have hfollows := (List.isChain_split.mp hchain).2
      rw [List.isChain_cons_cons] at hfollows
      exact ⟨p, by simp, hfollows.1⟩

/-- **Every height between two blocks is that of a block.** -/
theorem exists_num (hchain : Linked chain) (hc : c ∈ chain) (hch : c.num ≤ h) :
    ∀ {b : SimpleBlock}, b ∈ chain → h ≤ b.num → ∃ x ∈ chain, x.num = h := by
  -- Downwards from `b`, whose number is some steps above the height.
  have hdown : ∀ (n : Nat) {b : SimpleBlock}, b ∈ chain → b.num = h + n →
      ∃ x ∈ chain, x.num = h := by
    intro n
    induction n with
    | zero => intro b hb hnum; exact ⟨b, hb, by omega⟩
    | succ n ih =>
        intro b hb hnum
        obtain ⟨p, hp, hfollows, -⟩ := hchain.exists_previous hb hc (by omega)
        exact ih hp (by omega)
  intro b hb hle
  exact hdown (b.num - h).toNat hb (by omega)

end Linked

/-! ### Cutting at a height -/

/-- The blocks from a height on. -/
def above (h : Int) (chain : List SimpleBlock) : List SimpleBlock := chain.filter fun b => h ≤ b.num

/-- The blocks below a height. -/
def below (h : Int) (chain : List SimpleBlock) : List SimpleBlock := chain.filter fun b => b.num < h

/-- The block at a height, where there is one. -/
def blockAt (h : Int) (chain : List SimpleBlock) : SimpleBlock :=
  (chain.find? fun b => b.num = h).getD ⟨0, [], []⟩

/-- A chain has a block at a height. -/
def Reaches (h : Int) (chain : List SimpleBlock) : Prop := ∃ b ∈ chain, b.num = h

instance (h : Int) (chain : List SimpleBlock) : Decidable (Reaches h chain) :=
  inferInstanceAs (Decidable (∃ b ∈ chain, b.num = h))

section Cut

variable {chain : List SimpleBlock} {h : Int}

theorem blockAt_spec (hreaches : Reaches h chain) :
    blockAt h chain ∈ chain ∧ (blockAt h chain).num = h := by
  obtain ⟨b, hb, hnum⟩ := hreaches
  cases hfind : chain.find? fun b => b.num = h with
  | none =>
      have hne := List.find?_eq_none.mp hfind b hb
      simp [hnum] at hne
  | some found =>
      rw [blockAt, hfind]
      exact ⟨List.mem_of_find?_eq_some hfind, by simpa using List.find?_some hfind⟩

/-- The block at the height of a block is that block. -/
theorem blockAt_eq (hchain : Linked chain) {b : SimpleBlock} (hb : b ∈ chain) (hnum : b.num = h) :
    blockAt h chain = b := by
  obtain ⟨hmem, hblockNum⟩ := blockAt_spec ⟨b, hb, hnum⟩
  exact hchain.eq_of_num_eq hmem hb (hblockNum.trans hnum.symm)

/-- A list that is cut at a height. -/
theorem cut_append {newer older : List SimpleBlock} (hnewer : ∀ x ∈ newer, h ≤ x.num)
    (holder : ∀ x ∈ older, x.num < h) :
    above h (newer ++ older) = newer ∧ below h (newer ++ older) = older := by
  constructor
  · rw [above, List.filter_append, List.filter_eq_self.mpr fun x hx => by simpa using hnewer x hx,
      List.filter_eq_nil_iff.mpr fun x hx => by simpa using holder x hx, List.append_nil]
  · rw [below, List.filter_append,
      List.filter_eq_nil_iff.mpr fun x hx => by simpa using hnewer x hx,
      List.filter_eq_self.mpr fun x hx => by simpa using holder x hx, List.nil_append]

/-- **A chain around a height.** -/
theorem Linked.cut (hchain : Linked chain) (hreaches : Reaches h chain) :
    chain = above (h + 1) chain ++ blockAt h chain :: below h chain ∧
      below (h + 1) chain = blockAt h chain :: below h chain ∧
      above h chain = above (h + 1) chain ++ [blockAt h chain] := by
  obtain ⟨hmem, hnum⟩ := blockAt_spec hreaches
  generalize blockAt h chain = b at hmem hnum ⊢
  obtain ⟨newer, older, rfl, hnewer, holder⟩ := hchain.split hmem
  obtain ⟨habove, hbelow⟩ : above h ((newer ++ [b]) ++ older) = newer ++ [b] ∧
      below h ((newer ++ [b]) ++ older) = older := by
    refine cut_append (fun x hx => ?_) fun x hx => hnum ▸ holder x hx
    rcases List.mem_append.mp hx with hx | hx
    · have hlt := hnewer x hx
      omega
    · rw [List.mem_singleton.mp hx]
      omega
  obtain ⟨haboveSucc, hbelowSucc⟩ : above (h + 1) (newer ++ b :: older) = newer ∧
      below (h + 1) (newer ++ b :: older) = b :: older := by
    refine cut_append (fun x hx => ?_) fun x hx => ?_
    · have hlt := hnewer x hx
      omega
    · rcases List.mem_cons.mp hx with rfl | hx
      · omega
      · have hlt := holder x hx
        omega
  rw [List.append_assoc, List.singleton_append] at habove hbelow
  rw [habove, hbelow, haboveSucc, hbelowSucc]
  exact ⟨rfl, rfl, rfl⟩

theorem Linked.below_succ (hchain : Linked chain) (hreaches : Reaches h chain) :
    below (h + 1) chain = blockAt h chain :: below h chain := (hchain.cut hreaches).2.1

theorem Linked.above_eq (hchain : Linked chain) (hreaches : Reaches h chain) :
    above h chain = above (h + 1) chain ++ [blockAt h chain] := (hchain.cut hreaches).2.2

end Cut

/-! ### Where a chain ends -/

section Ends

variable {chain : List SimpleBlock} {h t t' : Int}

/-- A chain that has not a block at a height ends above it. -/
theorem Linked.lt_of_not_reaches (hchain : Linked chain) (hh : Reaches h chain) (hle : t ≤ h)
    (hnot : ¬Reaches t chain) : ∀ b ∈ chain, t < b.num := by
  intro b hb
  by_contra hlt
  obtain ⟨top, htop, hnum⟩ := hh
  exact hnot (hchain.exists_num hb (by omega) htop (by omega))

/-- A chain has a block at every height between two of its blocks. -/
theorem Linked.reaches_mono (hchain : Linked chain) (hh : Reaches h chain) (ht : Reaches t chain)
    (hle : t ≤ t') (hle' : t' ≤ h) : Reaches t' chain := by
  obtain ⟨top, htop, hnum⟩ := hh
  obtain ⟨b, hb, hnum'⟩ := ht
  exact hchain.exists_num hb (by omega) htop (by omega)

theorem below_eq_nil (hlt : ∀ b ∈ chain, t < b.num) :
    below (t + 1) chain = [] ∧ below t chain = [] := by
  constructor
  · refine List.filter_eq_nil_iff.mpr fun b hb => ?_
    have hb' := hlt b hb
    simp only [decide_eq_true_eq]
    omega
  · refine List.filter_eq_nil_iff.mpr fun b hb => ?_
    have hb' := hlt b hb
    simp only [decide_eq_true_eq]
    omega

theorem above_of_not_reaches (hnot : ¬Reaches t chain) : above t chain = above (t + 1) chain := by
  refine List.filter_congr fun b hb => ?_
  have hne : b.num ≠ t := fun hnum => hnot ⟨b, hb, hnum⟩
  rw [decide_eq_decide]
  omega

end Ends

end Evoting

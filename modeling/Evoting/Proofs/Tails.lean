/-
The lists of blocks that `get_tails` returns.

`walkBack` stops at a block with the lowest number among the heads, or it reaches the
end of the chain above it and says so (`walkBack_ended_iff`).  In both cases its tail is
what the chain had down to there.  A chain that ends is reported, but the second loop
of `get_tails` breaks with the tail still in the dictionary; so the lists all start
with one number just when no chain ends above it (`tailsTo_iff`).
-/
import Evoting.Proofs.Compare

namespace Evoting

/-- Each block is numbered one above the next. -/
def Descends (chain : List SimpleBlock) : Prop := chain.IsChain fun b p => b.num = p.num + 1

instance (chain : List SimpleBlock) : Decidable (Descends chain) :=
  inferInstanceAs (Decidable (chain.IsChain _))

section

variable {Peer : Type} [DecidableEq Peer]

/-- The lowest number of a first block. -/
def IsLowestHead (chains : Dict Peer (List SimpleBlock)) (m : Int) : Prop :=
  (∃ peer b rest, chains.get? peer = some (b :: rest) ∧ b.num = m) ∧
    ∀ peer b rest, chains.get? peer = some (b :: rest) → m ≤ b.num

/-- **What `get_tails` is to return**: for every chain with a block of the number `m`, its blocks
from there up to its head, and the others as errors. -/
structure TailsRight (chains : Dict Peer (List SimpleBlock)) (m : Int) (t : Tails Peer) :
    Prop where
  start : ∀ peer tail, t.tails.get? peer = some tail → tail.oldest.num = m
  /-- From the head downwards, the list is the beginning of the chain. -/
  run : ∀ peer tail, t.tails.get? peer = some tail →
    ∃ chain, chains.get? peer = some chain ∧ tail.blocks.reverse <+: chain
  total : ∀ peer chain, chains.get? peer = some chain → peer ∉ t.badChains →
    ∃ tail, t.tails.get? peer = some tail
  bad_nodup : t.badChains.Nodup
  /-- The errors are the chains that are empty or end above the number. -/
  bad : ∀ peer, peer ∈ t.badChains ↔
    ∃ chain, chains.get? peer = some chain ∧ ∀ b ∈ chain, m < b.num
  bad_listless : ∀ peer ∈ t.badChains, t.tails.get? peer = none

/-- `get_tails` returns, and returns that, for the lowest number of a head. -/
def TailsTo (chains : Dict Peer (List SimpleBlock)) : Prop :=
  ∃ m t, IsLowestHead chains m ∧ getTails chains = .ok t ∧ TailsRight chains m t

/-- Every chain with a block has one with the lowest number of a head. -/
def ReachLowest (chains : Dict Peer (List SimpleBlock)) : Prop :=
  ∀ m, IsLowestHead chains m → ∀ peer chain, chains.get? peer = some chain → chain ≠ [] →
    Reaches m chain

/-! ### One chain -/

/-- What has been walked and what is left are together the chain. -/
theorem walkBack_split (minBlockNum : Int) (tail : Tail) (rest : List SimpleBlock) :
    (walkBack minBlockNum tail rest).1.blocks.reverse ++ (walkBack minBlockNum tail rest).2.1
      = tail.blocks.reverse ++ rest := by
  induction rest generalizing tail with
  | nil => rfl
  | cons block rest ih =>
      rw [walkBack]
      by_cases hnum : tail.numOfOldest > minBlockNum
      · rw [if_pos hnum, ih]
        simp [Tail.blocks]
      · rw [if_neg hnum]

/-- **Where walking back ends.**  From a block that is not below the number, it stops at that
number, unless the chain ends above it. -/
theorem walkBack_ended_iff {m : Int} (rest : List SimpleBlock) : ∀ {tail : Tail},
    m ≤ tail.oldest.num → Descends (tail.oldest :: rest) →
      ((walkBack m tail rest).2.2 = true ↔ ∀ b ∈ tail.oldest :: rest, m < b.num) ∧
      ((walkBack m tail rest).2.2 = false → (walkBack m tail rest).1.oldest.num = m) := by
  induction rest with
  | nil =>
      intro tail hle _
      have hiff : (walkBack m tail []).2.2 = true ↔ m < tail.oldest.num := decide_eq_true_iff
      refine ⟨by simpa using hiff, fun hgoes => ?_⟩
      have hnot : ¬m < tail.oldest.num := fun hlt => by simp [hiff.mpr hlt] at hgoes
      show tail.oldest.num = m
      omega
  | cons block rest ih =>
      intro tail hle hdescends
      obtain ⟨hnum, hrest⟩ := List.isChain_cons_cons.mp hdescends
      rw [walkBack]
      by_cases hgt : tail.numOfOldest > m
      · have hgt' : m < tail.oldest.num := hgt
        have hblock : m ≤ (⟨block, tail.blocks⟩ : Tail).oldest.num := by
          show m ≤ block.num
          omega
        obtain ⟨hended, hstopped⟩ := ih hblock hrest
        rw [if_pos hgt]
        refine ⟨hended.trans ?_, hstopped⟩
        simp [hgt']
      · have hle' : ¬m < tail.oldest.num := hgt
        rw [if_neg hgt]
        refine ⟨?_, fun _ => ?_⟩
        · simp [hle']
        · show tail.oldest.num = m
          omega

/-! ### What is returned -/

variable {chains : Dict Peer (List SimpleBlock)} {m : Int} {t : Tails Peer}

theorem mem_oldestNums {x : Int} : x ∈ oldestNums (chains.mapValues firstBlock) ↔
    ∃ peer b rest, chains.get? peer = some (b :: rest) ∧ b.num = x := by
  rw [mem_oldestNums_iff]
  constructor
  · rintro ⟨_, hchain, b, rest, rfl, hnum⟩
    obtain ⟨e, he, heq⟩ := List.mem_map.mp hchain
    exact ⟨e.1, b, rest, Dict.get?_eq_some_iff.mpr (heq ▸ he), hnum⟩
  · rintro ⟨peer, b, rest, hget, hnum⟩
    exact ⟨_, mem_values (Dict.get?_eq_some_iff.mp hget), b, rest, rfl, hnum⟩

theorem isLowestHead_iff :
    IsLowestHead chains m ↔ (oldestNums (chains.mapValues firstBlock)).min? = some m := by
  rw [List.min?_eq_some_iff, mem_oldestNums, IsLowestHead]
  refine and_congr_right fun _ => ?_
  constructor
  · intro hleast x hx
    obtain ⟨peer, b, rest, hget, rfl⟩ := mem_oldestNums.mp hx
    exact hleast peer b rest hget
  · intro hleast peer b rest hget
    exact hleast b.num (mem_oldestNums.mpr ⟨peer, b, rest, hget, rfl⟩)

/-- Where some chain has a block there is a lowest head. -/
theorem exists_isLowestHead (hsome : ∃ peer b rest, chains.get? peer = some (b :: rest)) :
    ∃ m, IsLowestHead chains m := by
  obtain ⟨peer, b, rest, hget⟩ := hsome
  have hmem := mem_oldestNums.mpr ⟨peer, b, rest, hget, rfl⟩
  cases hmin : (oldestNums (chains.mapValues firstBlock)).min? with
  | none =>
      rw [List.min?_eq_none_iff.mp hmin] at hmem
      exact absurd hmem List.not_mem_nil
  | some m => exact ⟨m, isLowestHead_iff.mpr hmin⟩

/-- The tails, chain by chain. -/
theorem getTails_get? (hm : IsLowestHead chains m) (ht : getTails chains = .ok t) (peer : Peer) :
    t.tails.get? peer = (chains.get? peer).bind fun chain =>
      (firstBlock chain).1.map fun tail => (walkBack m tail (firstBlock chain).2).1 := by
  unfold getTails at ht
  simp only [isLowestHead_iff.mp hm, Except.ok.injEq] at ht
  rw [← ht]
  simp only [Dict.get?_mapValues, Dict.get?_filterMapValues]
  cases hget : chains.get? peer with
  | none => rfl
  | some chain => cases chain <;> rfl

/-- The errors, chain by chain. -/
theorem getTails_bad (hm : IsLowestHead chains m) (ht : getTails chains = .ok t) :
    t.badChains.Nodup ∧ ∀ peer, peer ∈ t.badChains ↔ ∃ chain, chains.get? peer = some chain ∧
      ∀ tail ∈ (firstBlock chain).1, (walkBack m tail (firstBlock chain).2).2.2 = true := by
  unfold getTails at ht
  simp only [isLowestHead_iff.mp hm, Except.ok.injEq] at ht
  rw [← ht]
  simp only
  constructor
  · refine List.Nodup.append (Dict.nodup_keys_filter _ _) (Dict.nodup_keys_filter _ _) ?_
    -- a chain that has not started is not walked back
    intro peer hstopped hended
    obtain ⟨e, he, hnone⟩ := Dict.mem_keys_filter.mp hstopped
    obtain ⟨w, hw, -⟩ := Dict.mem_keys_filter.mp hended
    rw [decide_eq_true_eq] at hnone
    rw [Dict.get?_filterMapValues, he, Option.bind_some, hnone] at hw
    exact absurd hw (by simp)
  · intro peer
    rw [List.mem_append, Dict.mem_keys_filter, Dict.mem_keys_filter]
    simp only [Dict.get?_mapValues, Dict.get?_filterMapValues]
    cases hget : chains.get? peer with
    | none => simp
    | some chain => cases chain <;> simp [firstBlock]

/-- **The lists of one chain.**  A chain without a block is an error; the tail of another is the
beginning of the chain, and starts at the number unless the chain ends above it, which is an
error. -/
theorem getTails_chain (hm : IsLowestHead chains m) (ht : getTails chains = .ok t) {peer : Peer}
    {b : SimpleBlock} {rest : List SimpleBlock} (hget : chains.get? peer = some (b :: rest))
    (hdescends : Descends (b :: rest)) :
    ∃ tail, t.tails.get? peer = some tail ∧ tail.blocks.reverse <+: b :: rest ∧
      (peer ∈ t.badChains ↔ ∀ x ∈ b :: rest, m < x.num) ∧
      (peer ∉ t.badChains → tail.oldest.num = m) := by
  have hle : m ≤ (⟨b, []⟩ : Tail).oldest.num := hm.2 _ _ _ hget
  obtain ⟨hended, hstopped⟩ := walkBack_ended_iff rest hle hdescends
  have hbad : peer ∈ t.badChains ↔ (walkBack m ⟨b, []⟩ rest).2.2 = true := by
    rw [(getTails_bad hm ht).2]
    simp [hget, firstBlock]
  refine ⟨(walkBack m ⟨b, []⟩ rest).1, ?_, ⟨_, walkBack_split m ⟨b, []⟩ rest⟩, hbad.trans hended,
    fun hgood => hstopped ?_⟩
  · rw [getTails_get? hm ht, hget]
    rfl
  · rw [hbad, Bool.not_eq_true] at hgood
    exact hgood

/-- The errors of `get_tails` are the right ones, whether or not they have lists. -/
theorem getTails_bad_iff (hm : IsLowestHead chains m) (ht : getTails chains = .ok t)
    (hdescends : ∀ peer chain, chains.get? peer = some chain → Descends chain) (peer : Peer) :
    peer ∈ t.badChains ↔ ∃ chain, chains.get? peer = some chain ∧ ∀ b ∈ chain, m < b.num := by
  cases hget : chains.get? peer with
  | none => simp [(getTails_bad hm ht).2, hget]
  | some chain =>
      cases chain with
      | nil => simp [(getTails_bad hm ht).2, hget, firstBlock]
      | cons b rest =>
          obtain ⟨tail, -, -, hbad, -⟩ := getTails_chain hm ht hget (hdescends _ _ hget)
          simpa using hbad

/-- A chain that goes down from a head has the number, or ends above it. -/
theorem reaches_or_above {chain : List SimpleBlock} (hdescends : Descends chain)
    (hhead : ∀ b ∈ chain.head?, m ≤ b.num) : Reaches m chain ∨ ∀ b ∈ chain, m < b.num := by
  induction chain with
  | nil => exact .inr (by simp)
  | cons b chain ih =>
      have hle : m ≤ b.num := hhead b rfl
      by_cases hnum : b.num = m
      · exact .inl ⟨b, by simp, hnum⟩
      have hnext : ∀ x ∈ chain.head?, m ≤ x.num := by
        intro x hx
        obtain ⟨rest, rfl⟩ := List.head?_eq_some_iff.mp hx
        have hfollows := (List.isChain_cons_cons.mp hdescends).1
        omega
      rcases ih (List.IsChain.tail hdescends) hnext with ⟨x, hx, hxm⟩ | habove
      · exact .inl ⟨x, by simp [hx], hxm⟩
      · refine .inr fun x hx => ?_
        rcases List.mem_cons.mp hx with rfl | hx
        · omega
        · exact habove x hx

/-- With a lowest head, lists are returned. -/
theorem exists_getTails (hm : IsLowestHead chains m) : ∃ t, getTails chains = .ok t := by
  unfold getTails
  simp only [isLowestHead_iff.mp hm]
  exact ⟨_, rfl⟩

/-- Only a chain with a block has a list. -/
theorem getTails_head (hm : IsLowestHead chains m) (ht : getTails chains = .ok t) {peer : Peer}
    {tail : Tail} (htail : t.tails.get? peer = some tail) :
    ∃ b rest, chains.get? peer = some (b :: rest) := by
  have hlookup := getTails_get? hm ht peer
  rw [htail] at hlookup
  cases hget : chains.get? peer with
  | none => simp [hget] at hlookup
  | some chain =>
      cases chain with
      | nil => simp [hget, firstBlock] at hlookup
      | cons b rest => exact ⟨b, rest, rfl⟩

/-- **A chain that has the number** is no error, and its list starts there. -/
theorem getTails_reaches (hm : IsLowestHead chains m) (ht : getTails chains = .ok t) {peer : Peer}
    {b : SimpleBlock} {rest : List SimpleBlock} (hget : chains.get? peer = some (b :: rest))
    (hdescends : Descends (b :: rest)) (hreaches : Reaches m (b :: rest)) :
    ∃ tail, t.tails.get? peer = some tail ∧ tail.blocks.reverse <+: b :: rest ∧
      peer ∉ t.badChains ∧ tail.oldest.num = m := by
  obtain ⟨tail, htail, hrun, hbad, hstart⟩ := getTails_chain hm ht hget hdescends
  have hgood : peer ∉ t.badChains := by
    rw [hbad]
    intro habove
    obtain ⟨x, hx, hxm⟩ := hreaches
    have hlt := habove x hx
    omega
  exact ⟨tail, htail, hrun, hgood, hstart hgood⟩

/-- If the lists are right, no chain ends above the number. -/
theorem TailsTo.reachLowest
    (hdescends : ∀ peer chain, chains.get? peer = some chain → Descends chain)
    (htails : TailsTo chains) : ReachLowest chains := by
  obtain ⟨m, t, hm, ht, hright⟩ := htails
  intro m' hm' peer chain hget hne
  obtain rfl : m = m' :=
    Option.some.inj ((isLowestHead_iff.mp hm).symm.trans (isLowestHead_iff.mp hm'))
  obtain ⟨b, rest, rfl⟩ := List.exists_cons_of_ne_nil hne
  obtain ⟨tail, htail, -, hbad, -⟩ := getTails_chain hm ht hget (hdescends _ _ hget)
  have hhead : ∀ x ∈ (b :: rest).head?, m ≤ x.num := by
    intro x hx
    obtain rfl := Option.some.inj hx
    exact hm.2 _ _ _ hget
  rcases reaches_or_above (hdescends _ _ hget) hhead with hreaches | habove
  · exact hreaches
  · have hnone := hright.bad_listless peer (hbad.mpr habove)
    rw [htail] at hnone
    exact absurd hnone (by simp)

/-- If no chain ends above the number, the lists are right. -/
theorem ReachLowest.tailsRight
    (hdescends : ∀ peer chain, chains.get? peer = some chain → Descends chain)
    (hreach : ReachLowest chains) (hm : IsLowestHead chains m) (ht : getTails chains = .ok t) :
    TailsRight chains m t := by
  have hchain : ∀ peer b rest, chains.get? peer = some (b :: rest) → ∃ tail,
      t.tails.get? peer = some tail ∧ tail.blocks.reverse <+: b :: rest ∧
        peer ∉ t.badChains ∧ tail.oldest.num = m := fun peer b rest hget =>
    getTails_reaches hm ht hget (hdescends _ _ hget) (hreach m hm peer _ hget (by simp))
  have hlist : ∀ peer tail, t.tails.get? peer = some tail → ∃ chain,
      chains.get? peer = some chain ∧ tail.blocks.reverse <+: chain ∧ peer ∉ t.badChains ∧
        tail.oldest.num = m := by
    intro peer tail htail
    obtain ⟨b, rest, hget⟩ := getTails_head hm ht htail
    obtain ⟨tail', htail', hprops⟩ := hchain peer b rest hget
    obtain rfl := Option.some.inj (htail.symm.trans htail')
    exact ⟨_, hget, hprops⟩
  have hbads := getTails_bad_iff hm ht hdescends
  refine ⟨?_, ?_, ?_, (getTails_bad hm ht).1, hbads, ?_⟩
  · intro peer tail htail
    obtain ⟨chain, -, -, -, hstart⟩ := hlist peer tail htail
    exact hstart
  · intro peer tail htail
    obtain ⟨chain, hget, hrun, -⟩ := hlist peer tail htail
    exact ⟨chain, hget, hrun⟩
  · intro peer chain hget hgood
    cases chain with
    | nil => exact absurd ((hbads peer).mpr ⟨_, hget, by simp⟩) hgood
    | cons b rest =>
        obtain ⟨tail, htail, -⟩ := hchain peer b rest hget
        exact ⟨tail, htail⟩
  · intro peer hbad
    cases htail : t.tails.get? peer with
    | none => rfl
    | some tail =>
        obtain ⟨chain, -, -, hgood, -⟩ := hlist peer tail htail
        exact absurd hbad hgood

/-- **When the tails are right.**  The lists that `get_tails` returns for finite chains with
descending numbers all start at the lowest number of a head, and none of them is a reported
chain's, if and only if every chain with a block has one of that number. -/
theorem tailsTo_iff (hsome : ∃ peer b rest, chains.get? peer = some (b :: rest))
    (hdescends : ∀ peer chain, chains.get? peer = some chain → Descends chain) :
    TailsTo chains ↔ ReachLowest chains := by
  constructor
  · exact TailsTo.reachLowest hdescends
  · intro hreach
    obtain ⟨m, hm⟩ := exists_isLowestHead hsome
    obtain ⟨t, ht⟩ := exists_getTails hm
    exact ⟨m, t, hm, ht, hreach.tailsRight hdescends hm ht⟩

/-- Two chains down to block 5 and an empty one. -/
theorem tailsTo_forked : TailsTo (forked.set 2 []) ↔ ReachLowest (forked.set 2 []) :=
  tailsTo_iff ⟨0, _, _, rfl⟩ (by
    intro peer chain hget
    have hmem := mem_values (Dict.get?_eq_some_iff.mp hget)
    have hall : ∀ chain ∈ (forked.set 2 []).values, Descends chain := by decide
    exact hall chain hmem)

/-- Two chains that have a block each, of the numbers 7 and 5. -/
def unequal : Dict Nat (List SimpleBlock) :=
  (Dict.empty.set 0 [⟨7, ['c'], ['b']⟩]).set 1 [⟨5, ['a'], ['0']⟩]

/-- The first is an error, and its list of block 7 is returned with that of block 5. -/
theorem not_tailsTo_unequal :
    ¬∀ chains : Dict Nat (List SimpleBlock),
      (∃ peer b rest, chains.get? peer = some (b :: rest)) →
      (∀ peer chain, chains.get? peer = some chain → Descends chain) → TailsTo chains := by
  intro hall
  have hdescends : ∀ chain ∈ unequal.values, Descends chain := by decide
  obtain ⟨m, t, -, ht, hright⟩ := hall unequal ⟨0, _, _, rfl⟩ fun peer chain hget =>
    hdescends chain (mem_values (Dict.get?_eq_some_iff.mp hget))
  obtain rfl := Except.ok.inj ht
  have hnone := hright.bad_listless 0 (by decide)
  exact absurd hnone (by decide)

end

end Evoting

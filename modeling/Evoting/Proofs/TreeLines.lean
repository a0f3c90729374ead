/-
The lines of a tree that `compare-chains --tree` draws.

A level has a row for each block of one height, with the nodes that have it.  `Draws`
says what the lines of levels are, but for those that only move columns (`Connects`), and
the lemmas below are that a pass of `print_tree` prints such lines.
-/
import Evoting.Model.ComparePrint
import Mathlib.Data.List.Forall2

namespace Evoting

/-! ### What a drawing is -/

/-- A block and the nodes that have it. -/
abbrev Row := SimpleBlock × List Nat

/-- The rows of the next level whose blocks follow on that of a row. -/
def followers (next : List Row) (row : Row) : List Row :=
  next.filter fun r => r.1.previous = row.1.ident

/-- The column of a row below its star: a line where a block follows. -/
def column (next : List Row) (row : Row) : PyString :=
  if followers next row = [] then [' '] else ['|']

/-- The nodes of a row, as text. -/
def nodesText (nodes : List Nat) : PyString :=
  '\x7b' :: ", ".toList.intercalate (nodes.map fun (node : Nat) => intText node) ++ ['\x7d']

/-- The line of a row between the rows of its level: a star in the column of the row, and its
block and its nodes behind the columns. -/
def starLine (next before : List Row) (row : Row) (after : List Row) : PyString :=
  ljust ((before.length + (after.length + 1)) * 2)
      (pyJoin ' ' (before.map (column next) ++ [['*']] ++ after.map fun _ => ['|'])) ++
    "  ".toList ++ row.1.ident.take 8 ++ [' '] ++ nodesText row.2

/-- The lines of the rows of a level, after some of them. -/
def starLines (next : List Row) : List Row → List Row → List PyString
  | _, [] => []
  | before, row :: after =>
      starLine next before row after :: starLines next (before ++ [row]) after

/-- The two lines below a level that lead to the next one, with its number. -/
def numberLines (level next : List Row) (num : Int) : List PyString :=
  [[], intText num].map fun last =>
    ljust (level.length * 2) (pyJoin ' ' (level.map (column next))) ++ [' '] ++ last

/-- What only moves columns. -/
def Moves (line : PyString) : Prop := ∀ c ∈ line, c = '|' ∨ c = '\\' ∨ c = '/' ∨ c = ' '

/-- A row is split where two follow on it. -/
def rowForks (next : List Row) (row : Row) : Bool := decide (1 < (followers next row).length)

/-- A row ends where none follows on it. -/
def rowEnds (next : List Row) (row : Row) : Bool := decide (followers next row = [])

/-- Lines that only move columns: one for each row that is split, and one for each that ends. -/
structure Connects (level next : List Row) (lines : List PyString) : Prop where
  length : lines.length = level.countP (rowForks next) + level.countP (rowEnds next)
  moves : ∀ line ∈ lines, Moves line

/-- **The lines of levels**, the first of which has the number. -/
inductive Draws : Int → List (List Row) → List PyString → Prop where
  | last (num : Int) (level : List Row) : Draws num [level] (starLines [] [] level)
  | level {num : Int} {level next : List Row} {levels : List (List Row)}
      {connectors lines : List PyString} : Connects level next connectors →
      Draws (num + 1) (next :: levels) lines →
      Draws num (level :: next :: levels)
        (starLines next [] level ++ numberLines level next (num + 1) ++ connectors ++ lines)

/-! ### The lines of one pass -/

/-- A clique is printed as a row. -/
def Shows (nodeIdMap : Dict Nat Nat) (clique : Clique) (row : Row) : Prop :=
  clique.1 = row.1.ident ∧ clique.2.mapM (nodeId nodeIdMap) = .ok row.2

section Pass

variable {nodeIdMap : Dict Nat Nat} {cliques : List Clique} {level next : List Row}
  {nextCliques : List PyString}

/-- The keys of the next cliques are the blocks on which some row follows. -/
def KeysOf (nextCliques : List PyString) (level next : List Row) : Prop :=
  ∀ row ∈ level, row.1.ident ∈ nextCliques ↔ followers next row ≠ []

/-- **One clique.** -/
theorem printClique_eq {clique : Clique} {row : Row} (hshows : Shows nodeIdMap clique row)
    (hkey : row.1.ident ∈ nextCliques ↔ followers next row ≠ []) (before after : List Row)
    (lines : List PyString) :
    printClique (before.length + (after.length + 1)) nextCliques nodeIdMap
        (before.map (column next) ++ ['|'] :: after.map (fun _ => ['|']), lines)
        (clique, before.length)
      = .ok ((before ++ [row]).map (column next) ++ after.map (fun _ => ['|']),
          lines ++ [starLine next before row after]) := by
  obtain ⟨hident, hnodes⟩ := hshows
  have htake : (before.map (column next) ++ ['|'] :: after.map fun _ => ['|']).take before.length
      = before.map (column next) := List.take_left' (List.length_map _)
  have hdrop : (before.map (column next) ++ ['|'] :: after.map fun _ => ['|']).drop
      (before.length + 1) = after.map fun _ => ['|'] := by
    rw [List.drop_append, List.drop_eq_nil_of_le (by simp)]
    simp
  have hset : (before.map (column next) ++ ['|'] :: after.map fun _ => ['|']).set before.length
      [' '] = before.map (column next) ++ [' '] :: after.map fun _ => ['|'] := by
    rw [List.set_append_right _ _ (by simp)]
    simp
  unfold printClique formatSiblings
  simp only [hnodes, Except.map, htake, hdrop, hset, hident, starLine, nodesText, List.map_append,
    List.append_assoc, List.map_singleton, column, List.singleton_append]
  by_cases hfollow : followers next row = []
  · simp [hkey, hfollow]
  · simp [hkey, hfollow]

/-- The loop of `print_cliques`, after some of the rows. -/
theorem printCliques_loop (hshows : List.Forall₂ (Shows nodeIdMap) cliques level) :
    KeysOf nextCliques level next → ∀ (before : List Row) (lines : List PyString),
      (cliques.zipIdx before.length).foldlM
          (printClique (before.length + level.length) nextCliques nodeIdMap)
          (before.map (column next) ++ level.map (fun _ => ['|']), lines)
        = .ok ((before ++ level).map (column next), lines ++ starLines next before level) := by
  induction hshows with
  | nil => intro _ before lines; simp [starLines, pure, Except.pure]
  | @cons clique row cliques level hfirst hrest ih =>
      intro hkeys before lines
      have hnext := ih (fun row hrow => hkeys row (by simp [hrow])) (before ++ [row])
        (lines ++ [starLine next before row level])
      rw [List.length_append, List.length_singleton, Nat.add_right_comm, Nat.add_assoc] at hnext
      rw [List.zipIdx_cons, List.foldlM_cons, List.length_cons, List.map_cons,
        printClique_eq hfirst (hkeys row (by simp)), ok_bind, hnext]
      simp [starLines]

/-- **`print_cliques`** prints the lines of the rows. -/
theorem printCliques_eq (hshows : List.Forall₂ (Shows nodeIdMap) cliques level)
    (hkeys : KeysOf nextCliques level next) :
    printCliques cliques nextCliques nodeIdMap = .ok (starLines next [] level) := by
  have hloop := printCliques_loop hshows hkeys [] []
  have hstart : List.replicate cliques.length ['|'] = level.map fun _ => ['|'] := by
    rw [List.map_const', hshows.length_eq]
  simp only [List.map_nil, List.nil_append, List.length_nil, Nat.zero_add] at hloop
  rw [printCliques, hstart, hshows.length_eq, hloop]
  rfl

/-- **`print_block_num_row`**, below a level. -/
theorem printBlockNumRow_eq (hshows : List.Forall₂ (Shows nodeIdMap) cliques level)
    (hkeys : KeysOf nextCliques level next) (hlevel : level ≠ []) (num : Int) :
    printBlockNumRow num cliques nextCliques = numberLines level next num := by
  have hlength := hshows.length_eq
  have hne : level.length ≠ 0 := fun h => hlevel (List.length_eq_zero_iff.mp h)
  have hcolumns : ∀ {cliques : List Clique} {level : List Row},
      List.Forall₂ (Shows nodeIdMap) cliques level → KeysOf nextCliques level next →
      (cliques.map fun clique => if clique.1 ∉ nextCliques then [' '] else ['|'])
        = level.map (column next) := by
    intro cliques level hshows
    induction hshows with
    | nil => intro _; rfl
    | @cons clique row cliques level hfirst hrest ih =>
        intro hkeys
        have hkey := hkeys row (by simp)
        rw [List.map_cons, List.map_cons, ih fun row hrow => hkeys row (by simp [hrow]), hfirst.1,
          column]
        by_cases hfollow : followers next row = [] <;> simp [hkey, hfollow]
  unfold printBlockNumRow
  simp only [hcolumns hshows hkeys, hlength, numberLines, if_neg hne]

theorem printSplit_moves (columnToSplit totalColumns : Nat) :
    Moves (printSplit columnToSplit totalColumns) := by
  intro c hc
  simp only [printSplit, List.mem_append, List.mem_flatten, List.mem_replicate] at hc
  rcases hc with (⟨_, ⟨-, rfl⟩, hc⟩ | hc) | ⟨_, ⟨-, rfl⟩, hc⟩ <;> simp at hc <;> tauto

theorem printFold_moves (columnToFold totalColumns : Nat) (skips : List Nat) :
    Moves (printFold columnToFold totalColumns skips) := by
  intro c hc
  simp only [printFold, List.mem_append, List.mem_flatMap] at hc
  rcases hc with ⟨i, -, hc⟩ | ⟨i, -, hc⟩ <;> split at hc <;> simp at hc <;> tauto

/-- The next cliques are those of the rows that follow. -/
structure Continues (nextCliques : Cliques) (level next : List Row) : Prop where
  keys : KeysOf nextCliques.keys level next
  length : ∀ row ∈ level, ∀ siblings, nextCliques.get? row.1.ident = some siblings →
    siblings.entries.length = (followers next row).length

/-- `print_splits`, after some of the cliques. -/
theorem printSplits_loop {nextCliques : Cliques} (total : Nat)
    (hshows : List.Forall₂ (Shows nodeIdMap) cliques level) :
    Continues nextCliques level next → ∀ (start : Nat) (s : Nat × List PyString),
      ∃ lines, ((cliques.zipIdx start).foldl (printSplitAt total nextCliques) s).2 = s.2 ++ lines ∧
        lines.length = level.countP (rowForks next) ∧ ∀ line ∈ lines, Moves line := by
  induction hshows with
  | nil => intro _ start s; exact ⟨[], by simp⟩
  | @cons clique row cliques level hfirst hrest ih =>
      rintro ⟨hkeys, hlengths⟩ start s
      obtain ⟨lines, hlines, hcount, hmoves⟩ :=
        ih ⟨fun row hrow => hkeys row (by simp [hrow]),
            fun row hrow => hlengths row (by simp [hrow])⟩
          (start + 1) (printSplitAt total nextCliques s (clique, start))
      have hkey := hkeys row (by simp)
      rw [List.zipIdx_cons, List.foldl_cons, hlines, printSplitAt, hfirst.1]
      cases hsiblings : nextCliques.get? row.1.ident with
      | none =>
          have hnone : followers next row = [] := by
            by_contra hne
            exact Dict.get?_eq_none_iff.mp hsiblings (hkey.mpr hne)
          exact ⟨lines, rfl, by rw [hcount]; simp [rowForks, hnone], hmoves⟩
      | some siblings =>
          have hlength := hlengths row (by simp) siblings hsiblings
          by_cases hfork : siblings.entries.length > 1
          · refine ⟨printSplit (start + s.1) (total + s.1) :: lines, by simp [hfork], ?_,
              List.forall_mem_cons.mpr ⟨printSplit_moves _ _, hmoves⟩⟩
            rw [List.length_cons, hcount,
              List.countP_cons_of_pos (by simp [rowForks, ← hlength, hfork])]
          · refine ⟨lines, by simp [hfork], ?_, hmoves⟩
            rw [hcount, List.countP_cons_of_neg (by simp [rowForks, ← hlength]; omega)]

theorem printFoldsFrom_moves (nCliques : Nat) : ∀ (folds : List Nat) (i : Nat),
    (printFoldsFrom nCliques i folds).length = folds.length ∧
      ∀ line ∈ printFoldsFrom nCliques i folds, Moves line := by
  intro folds
  induction folds with
  | nil => intro i; exact ⟨rfl, by simp [printFoldsFrom]⟩
  | cons fold folds ih =>
      intro i
      obtain ⟨hlength, hmoves⟩ := ih (i + 1)
      exact ⟨by rw [printFoldsFrom, List.length_cons, List.length_cons, hlength],
        List.forall_mem_cons.mpr ⟨printFold_moves _ _ _, hmoves⟩⟩

/-- **`print_splits` and `print_folds`** only move columns. -/
theorem printConnectors {nextCliques : Cliques}
    (hshows : List.Forall₂ (Shows nodeIdMap) cliques level)
    (hcontinues : Continues nextCliques level next) :
    Connects level next
      (printSplits cliques nextCliques ++ printFolds cliques nextCliques.keys) := by
  have hended : ∀ {cliques : List Clique} {level : List Row},
      List.Forall₂ (Shows nodeIdMap) cliques level → KeysOf nextCliques.keys level next →
      (cliques.countP fun clique => clique.1 ∉ nextCliques.keys) = level.countP (rowEnds next) := by
    intro cliques level hshows
    induction hshows with
    | nil => intro _; rfl
    | @cons clique row cliques level hfirst hrest ih =>
        intro hkeys
        have hkey := hkeys row (by simp)
        rw [List.countP_cons, List.countP_cons, ih fun row hrow => hkeys row (by simp [hrow]),
          hfirst.1]
        by_cases hfollow : followers next row = [] <;> simp [hkey, hfollow, rowEnds]
  obtain ⟨lines, hlines, hcount, hmoves⟩ :=
    printSplits_loop cliques.length hshows hcontinues 0 (0, [])
  obtain ⟨hlength, hfolds⟩ := printFoldsFrom_moves cliques.length
    (cliques.findIdxs fun clique => clique.1 ∉ nextCliques.keys) 0
  have hsplits : printSplits cliques nextCliques = lines := by
    rw [printSplits, hlines, List.nil_append]
  refine ⟨?_, fun line hline => ?_⟩
  · rw [hsplits, printFolds, List.length_append, hcount, hlength, List.length_findIdxs,
      hended hshows hcontinues.keys]
  · rw [hsplits, List.mem_append] at hline
    exact hline.elim (hmoves line) (hfolds line)

end Pass

end Evoting

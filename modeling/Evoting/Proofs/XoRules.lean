/-
XO is refereed by its rules.

The rules are stated over the moves of a game: a move puts a mark on a free space of
the board, X and O in turn, while neither has a row, a column or a diagonal, and the
first two who move are the players.  A `Table` holds the moves of every game that is
being played.  `gameOf` is the record of a game with these moves; on such a record
"take" does what the rules say (`take_of_canMove`, `take_of_not_canMove`), so that
validator state follows the table through any transactions, and a transaction is
applied when the rules allow it.
-/
import Evoting.Proofs.XoRuns

namespace Evoting.Xo

open Machine XoState

/-! ### The rules -/

/-- A player marks a space. -/
structure Move where
  space : Int
  player : PyString
  deriving DecidableEq, Repr

/-- The mark of the move with a number: X begins. -/
def markAt (n : Nat) : Char := if n % 2 = 0 then 'X' else 'O'

/-- The mark on a space. -/
def markOn (moves : List Move) (space : Int) : Option Char :=
  (moves.findIdx? fun move => move.space = space).map markAt

/-- The space in a row and a column. -/
def spaceAt (row column : Fin 3) : Int := 3 * (row : Nat) + (column : Nat) + 1

/-- A mark has a row, a column or a diagonal. -/
def Line (moves : List Move) (mark : Char) : Prop :=
  (∃ row, ∀ column, markOn moves (spaceAt row column) = some mark) ∨
    (∃ column, ∀ row, markOn moves (spaceAt row column) = some mark) ∨
    (∀ k, markOn moves (spaceAt k k) = some mark) ∨
    ∀ k, markOn moves (spaceAt k k.rev) = some mark

instance (moves : List Move) (mark : Char) : Decidable (Line moves mark) :=
  inferInstanceAs (Decidable (_ ∨ _ ∨ _ ∨ _))

/-- No space is free. -/
def Full (moves : List Move) : Prop := ∀ row column, markOn moves (spaceAt row column) ≠ none

instance (moves : List Move) : Decidable (Full moves) :=
  inferInstanceAs (Decidable (∀ row column, markOn moves (spaceAt row column) ≠ none))

/-- **A move that the rules allow.**  Whoever makes one of the first two moves is a player from
then on. -/
structure CanMove (moves : List Move) (move : Move) : Prop where
  onBoard : 1 ≤ move.space ∧ move.space ≤ 9
  free : markOn moves move.space = none
  turn : ∀ own ∈ moves[moves.length % 2]?, own.player = move.player
  goesOn : ¬Line moves 'X' ∧ ¬Line moves 'O'

theorem canMove_iff {moves : List Move} {move : Move} : CanMove moves move ↔
    (1 ≤ move.space ∧ move.space ≤ 9) ∧ markOn moves move.space = none ∧
      (∀ own ∈ moves[moves.length % 2]?, own.player = move.player) ∧
      ¬Line moves 'X' ∧ ¬Line moves 'O' :=
  ⟨fun h => ⟨h.onBoard, h.free, h.turn, h.goesOn⟩, fun h => ⟨h.1, h.2.1, h.2.2.1, h.2.2.2⟩⟩

instance (moves : List Move) (move : Move) : Decidable (CanMove moves move) :=
  decidable_of_iff _ canMove_iff.symm

/-- The moves of every game that is played. -/
abbrev Table := PyString → Option (List Move)

/-- **What the rules make of a transaction**: whether it is allowed, and the games after it. -/
def referee (utf8 : PyUtf8) (int : PyString → Option Int) (table : Table)
    (transaction : Transaction) : Bool × Table :=
  match XoPayload.fromBytes utf8 int transaction.payload with
  | .error _ => (false, table)
  | .ok payload =>
      match table payload.name with
      | none =>
          if payload.action = "create".toList then
            (true, Function.update table payload.name (some []))
          else (false, table)
      | some moves =>
          let move : Move := ⟨payload.space, transaction.signerPublicKey⟩
          if payload.action = "delete".toList then
            (true, Function.update table payload.name none)
          else if payload.action = "take".toList ∧ CanMove moves move then
            (true, Function.update table payload.name (some (moves ++ [move])))
          else (false, table)

/-! ### The record of a game -/

/-- The board after some moves. -/
def boardOf (moves : List Move) : PyString :=
  (List.range 9).map fun i => (markOn moves (i + 1 : Nat)).getD '-'

/-- The state after some moves. -/
def stateAfter (moves : List Move) : PyString :=
  if Line moves 'X' then P1_WIN
  else if Line moves 'O' then P2_WIN
  else if Full moves then TIE
  else if moves.length % 2 = 0 then P1_NEXT
  else P2_NEXT

/-- Who made a move, if it has been made. -/
def playerAt (moves : List Move) (n : Nat) : PyString := (moves[n]?.map Move.player).getD []

/-- **The record of a game** with some moves. -/
def gameOf (name : PyString) (moves : List Move) : Game :=
  ⟨name, boardOf moves, stateAfter moves, playerAt moves 0, playerAt moves 1⟩

/-- Two have marked a corner and the middle; the next move is the first player's. -/
example : gameOf "g".toList [⟨5, "a".toList⟩, ⟨1, "b".toList⟩]
    = ⟨"g".toList, "O---X----".toList, P1_NEXT, "a".toList, "b".toList⟩ := by decide

/-- A move puts its mark on its space, unless there is one. -/
theorem markOn_concat (moves : List Move) (move : Move) (space : Int) :
    markOn (moves ++ [move]) space
      = (markOn moves space).or
          (if move.space = space then some (markAt moves.length) else none) := by
  unfold markOn
  rw [List.findIdx?_append]
  cases moves.findIdx? fun m => m.space = space with
  | some n => rfl
  | none => by_cases h : move.space = space <;> simp [h]

theorem markOn_mem {moves : List Move} {space : Int} {mark : Char}
    (h : markOn moves space = some mark) : mark = 'X' ∨ mark = 'O' := by
  obtain ⟨n, -, rfl⟩ := Option.map_eq_some_iff.mp h
  unfold markAt
  split
  · exact Or.inl rfl
  · exact Or.inr rfl

theorem getElem?_boardOf (moves : List Move) {i : Nat} (hi : i < 9) :
    (boardOf moves)[i]? = some ((markOn moves (i + 1 : Nat)).getD '-') := by
  rw [boardOf, List.getElem?_map, List.getElem?_range hi]
  rfl

/-- The square of a space. -/
theorem getElem?_boardOf_space (moves : List Move) {space : Int} (h : 1 ≤ space ∧ space ≤ 9) :
    (boardOf moves)[(space - 1).toNat]? = some ((markOn moves space).getD '-') := by
  rw [getElem?_boardOf moves (by omega)]
  congr 3
  omega

theorem isBoard_boardOf (moves : List Move) : IsBoard (boardOf moves) where
  length := by simp [boardOf]
  squares c hc := by
    obtain ⟨i, -, rfl⟩ := List.mem_map.mp hc
    cases hmark : markOn moves (i + 1 : Nat) with
    | none => exact Or.inl rfl
    | some mark => exact Or.inr (markOn_mem hmark)

/-- A move on a free space sets its square. -/
theorem boardOf_concat {moves : List Move} {move : Move}
    (honBoard : 1 ≤ move.space ∧ move.space ≤ 9) (hfree : markOn moves move.space = none) :
    boardOf (moves ++ [move])
      = (boardOf moves).set (move.space - 1).toNat (markAt moves.length) := by
  refine List.ext_getElem? fun i => ?_
  by_cases hi : i < 9
  · rw [getElem?_boardOf _ hi, markOn_concat, List.getElem?_set, getElem?_boardOf _ hi,
      (isBoard_boardOf moves).length]
    by_cases hspace : move.space = (i + 1 : Nat)
    · have hindex : (move.space - 1).toNat = i := by omega
      rw [hspace] at hfree
      rw [if_pos hspace, if_pos hindex, if_pos (hindex ▸ hi), hfree]
      rfl
    · rw [if_neg hspace, if_neg (by omega), Option.or_none]
  · rw [List.getElem?_eq_none (by rw [(isBoard_boardOf _).length]; omega),
      List.getElem?_eq_none (by rw [List.length_set, (isBoard_boardOf _).length]; omega)]

/-- The lines of `_is_win` are the rows, the columns and the diagonals. -/
theorem exists_wins_iff (marked : Int → Prop) :
    (∃ win ∈ wins, marked win.1 ∧ marked win.2.1 ∧ marked win.2.2) ↔
      (∃ row, ∀ column, marked (spaceAt row column)) ∨
        (∃ column, ∀ row, marked (spaceAt row column)) ∨
        (∀ k, marked (spaceAt k k)) ∨ ∀ k, marked (spaceAt k k.rev) := by
  simp [wins, spaceAt, Fin.exists_fin_succ, Fin.forall_fin_succ, or_assoc]

/-- **The lines of the board.** -/
theorem hasLine_boardOf (moves : List Move) {mark : Char} (hmark : mark ≠ '-') :
    HasLine (boardOf moves) mark ↔ Line moves mark := by
  have hsquare : ∀ {space : Int}, 1 ≤ space ∧ space ≤ 9 →
      ((boardOf moves)[(space - 1).toNat]? = some mark ↔ markOn moves space = some mark) := by
    intro space hspace
    rw [getElem?_boardOf_space moves hspace, Option.some.injEq]
    cases markOn moves space with
    | none => simp [Ne.symm hmark]
    | some other => simp
  have hline : ∀ win, win ∈ wins → (LineOf (boardOf moves) mark win ↔
      markOn moves win.1 = some mark ∧ markOn moves win.2.1 = some mark ∧
        markOn moves win.2.2 = some mark) := by
    intro win hwin
    obtain ⟨h₁, h₂, h₃⟩ := wins_range win hwin
    rw [LineOf, hsquare h₁, hsquare h₂, hsquare h₃]
  rw [Line, ← exists_wins_iff fun space => markOn moves space = some mark]
  exact exists_congr fun win => and_congr_right (hline win)

theorem exists_spaceAt {space : Int} (h : 1 ≤ space ∧ space ≤ 9) :
    ∃ row column, spaceAt row column = space := by
  refine ⟨⟨(space - 1).toNat / 3, by omega⟩, ⟨(space - 1).toNat % 3, by omega⟩, ?_⟩
  simp only [spaceAt]
  omega

theorem spaceAt_range (row column : Fin 3) :
    1 ≤ spaceAt row column ∧ spaceAt row column ≤ 9 := by
  simp only [spaceAt]
  omega

theorem full_iff {moves : List Move} :
    Full moves ↔ ∀ space, 1 ≤ space ∧ space ≤ 9 → markOn moves space ≠ none := by
  constructor
  · intro h space hspace
    obtain ⟨row, column, rfl⟩ := exists_spaceAt hspace
    exact h row column
  · exact fun h row column => h _ (spaceAt_range row column)

/-- A board is full when no square of it is free. -/
theorem free_not_mem_boardOf (moves : List Move) : '-' ∉ boardOf moves ↔ Full moves := by
  rw [full_iff, boardOf, List.mem_map, not_exists]
  constructor
  · intro h space hspace hnone
    refine h (space - 1).toNat ⟨List.mem_range.mpr (by omega), ?_⟩
    have hcast : (((space - 1).toNat + 1 : Nat) : Int) = space := by omega
    rw [hcast, hnone]
    rfl
  · rintro h i ⟨hi, hfree⟩
    rw [List.mem_range] at hi
    obtain ⟨mark, hmark⟩ := Option.ne_none_iff_exists'.mp (h (i + 1 : Nat) (by omega))
    rw [hmark] at hfree
    rcases markOn_mem hmark with rfl | rfl <;> exact absurd hfree (by decide)

theorem created_eq (name : PyString) : created name = gameOf name [] := by
  have hboard : boardOf [] = List.replicate 9 '-' := by decide
  have hstate : stateAfter [] = P1_NEXT := by decide
  rw [gameOf, hboard, hstate]
  rfl

/-! ### Taking a space -/

/-- While the game goes on, its state says whose turn it is. -/
theorem stateAfter_goesOn {moves : List Move} (hx : ¬Line moves 'X') (ho : ¬Line moves 'O')
    (hfull : ¬Full moves) :
    stateAfter moves = if moves.length % 2 = 0 then P1_NEXT else P2_NEXT := by
  rw [stateAfter, if_neg hx, if_neg ho, if_neg hfull]

theorem stateAfter_ended {moves : List Move} : stateAfter moves ∈ [P1_WIN, P2_WIN, TIE] ↔
    Line moves 'X' ∨ Line moves 'O' ∨ Full moves := by
  unfold stateAfter
  by_cases hx : Line moves 'X'
  · simp [hx]
  by_cases ho : Line moves 'O'
  · simp [hx, ho]
  by_cases hfull : Full moves
  · simp [hx, ho, hfull]
  · rw [if_neg hx, if_neg ho, if_neg hfull]
    by_cases heven : moves.length % 2 = 0
    · simp only [if_pos heven, hx, ho, hfull, or_false, iff_false]
      decide
    · simp only [if_neg heven, hx, ho, hfull, or_false, iff_false]
      decide

theorem CanMove.not_full {moves : List Move} {move : Move} (h : CanMove moves move) :
    ¬Full moves := fun hfull => full_iff.mp hfull move.space h.onBoard h.free

theorem CanMove.stateAfter {moves : List Move} {move : Move} (h : CanMove moves move) :
    stateAfter moves = if moves.length % 2 = 0 then P1_NEXT else P2_NEXT :=
  stateAfter_goesOn h.goesOn.1 h.goesOn.2 h.not_full

/-- The mark that "take" places is that of the move. -/
theorem CanMove.markOf {moves : List Move} {move : Move} (h : CanMove moves move) :
    markOf (Xo.stateAfter moves) = some (markAt moves.length) := by
  rw [h.stateAfter, markAt]
  by_cases heven : moves.length % 2 = 0
  · rw [if_pos heven, if_pos heven]
    rfl
  · rw [if_neg heven, if_neg heven]
    rfl

/-- A move makes no line of the mark that it does not place. -/
theorem CanMove.line_concat {moves : List Move} {move : Move} (h : CanMove moves move)
    {mark : Char} (hmark : mark = 'X' ∨ mark = 'O') (hother : markAt moves.length ≠ mark) :
    ¬Line (moves ++ [move]) mark := by
  have hne : mark ≠ '-' := by rcases hmark with rfl | rfl <;> decide
  rw [← hasLine_boardOf _ hne, boardOf_concat h.onBoard h.free]
  intro hline
  have hbefore := (hasLine_boardOf moves hne).mp (hline.of_set hother)
  rcases hmark with rfl | rfl
  · exact h.goesOn.1 hbefore
  · exact h.goesOn.2 hbefore

/-- **The state that "take" computes** is the state after the move. -/
theorem CanMove.updateGameState {moves : List Move} {move : Move} (h : CanMove moves move) :
    updateGameState (Xo.stateAfter moves) (boardOf (moves ++ [move]))
      = .ok (Xo.stateAfter (moves ++ [move])) := by
  have hone : ¬(Line (moves ++ [move]) 'X' ∧ Line (moves ++ [move]) 'O') := by
    rintro ⟨hx, ho⟩
    by_cases hmark : markAt moves.length = 'X'
    · exact h.line_concat (Or.inr rfl) (by rw [hmark]; decide) ho
    · exact h.line_concat (Or.inl rfl) hmark hx
  rw [updateGameState_eq (isBoard_boardOf _).length, h.stateAfter, Xo.stateAfter]
  simp only [hasLine_boardOf _ (show 'X' ≠ '-' by decide),
    hasLine_boardOf _ (show 'O' ≠ '-' by decide), free_not_mem_boardOf, if_neg hone,
    List.length_append, List.length_singleton]
  by_cases hx : Line (moves ++ [move]) 'X'
  · rw [if_pos hx, if_pos hx]
  rw [if_neg hx, if_neg hx]
  by_cases ho : Line (moves ++ [move]) 'O'
  · rw [if_pos ho, if_pos ho]
  rw [if_neg ho, if_neg ho]
  by_cases hfull : Full (moves ++ [move])
  · rw [if_pos hfull, if_pos hfull]
  rw [if_neg hfull, if_neg hfull]
  by_cases heven : moves.length % 2 = 0
  · rw [if_pos heven, if_pos rfl, if_neg (by omega)]
  · rw [if_neg heven, if_neg (by decide), if_pos rfl, if_pos (by omega)]

/-- The players of the moves have keys. -/
def Keyed (moves : List Move) : Prop := ∀ move ∈ moves, move.player ≠ []

theorem playerAt_eq_nil {moves : List Move} (hkeyed : Keyed moves) {n : Nat} :
    playerAt moves n = [] ↔ moves.length ≤ n := by
  rw [playerAt, ← List.getElem?_eq_none_iff]
  cases hmove : moves[n]? with
  | none => simp
  | some move => simpa using hkeyed move (List.mem_of_getElem? hmove)

/-- The player of a move that has not been made is whoever makes it. -/
theorem playerAt_concat {moves : List Move} (move : Move) (n : Nat) :
    playerAt (moves ++ [move]) n
      = if moves.length = n then move.player else playerAt moves n := by
  unfold playerAt
  by_cases hn : moves.length = n
  · rw [if_pos hn, ← hn, List.getElem?_concat_length]
    rfl
  · rw [if_neg hn]
    rcases Nat.lt_or_gt_of_ne hn with hlt | hgt
    · rw [List.getElem?_eq_none (by simp; omega), List.getElem?_eq_none (by omega)]
    · rw [List.getElem?_append_left hgt]

/-- **Whose turn it is**, in the words of "take". -/
theorem turn_iff {moves : List Move} (hkeyed : Keyed moves) (hx : ¬Line moves 'X')
    (ho : ¬Line moves 'O') (hfull : ¬Full moves) (name signer : PyString) :
    (((gameOf name moves).player1 ≠ [] ∧ (gameOf name moves).state = P1_NEXT ∧
        (gameOf name moves).player1 ≠ signer) ∨
      ((gameOf name moves).player2 ≠ [] ∧ (gameOf name moves).state = P2_NEXT ∧
        (gameOf name moves).player2 ≠ signer)) ↔
      ¬∀ own ∈ moves[moves.length % 2]?, own.player = signer := by
  have hnext : ∀ n, (playerAt moves n ≠ [] ∧ playerAt moves n ≠ signer) ↔
      ¬∀ own ∈ moves[n]?, own.player = signer := by
    intro n
    rw [ne_eq, playerAt_eq_nil hkeyed, not_le, playerAt]
    cases hmove : moves[n]? with
    | none => simpa using fun hlt => absurd hlt (by simpa using hmove)
    | some own => simpa using fun _ => (List.getElem?_eq_some_iff.mp hmove).1
  simp only [gameOf]
  rw [stateAfter_goesOn hx ho hfull]
  by_cases heven : moves.length % 2 = 0
  · rw [heven, ← hnext 0, if_pos rfl]
    simp [show P1_NEXT ≠ P2_NEXT by decide]
  · have hodd : moves.length % 2 = 1 := by omega
    rw [hodd, ← hnext 1, if_neg (by decide)]
    simp [show P2_NEXT ≠ P1_NEXT by decide]

theorem gameOf_concat {name : PyString} {moves : List Move} {move : Move} (hkeyed : Keyed moves)
    (h : CanMove moves move) : gameOf name (moves ++ [move]) =
      ⟨name, (boardOf moves).set (move.space - 1).toNat (markAt moves.length),
        stateAfter (moves ++ [move]),
        if playerAt moves 0 = [] then move.player else playerAt moves 0,
        if playerAt moves 0 ≠ [] ∧ playerAt moves 1 = [] then move.player
          else playerAt moves 1⟩ := by
  have hfirst : moves.length = 0 ↔ playerAt moves 0 = [] := by
    rw [playerAt_eq_nil hkeyed]
    omega
  have hsecond : moves.length = 1 ↔ playerAt moves 0 ≠ [] ∧ playerAt moves 1 = [] := by
    rw [ne_eq, playerAt_eq_nil hkeyed, playerAt_eq_nil hkeyed]
    omega
  rw [gameOf, playerAt_concat, playerAt_concat, boardOf_concat h.onBoard h.free]
  simp only [hfirst, hsecond]

/-- **A move that the rules allow** is taken. -/
theorem take_of_canMove {name : PyString} {moves : List Move} {move : Move}
    (hkeyed : Keyed moves) (h : CanMove moves move) :
    take (gameOf name moves) move.space move.player = .ok (gameOf name (moves ++ [move])) := by
  have hended : (gameOf name moves).state ∉ [P1_WIN, P2_WIN, TIE] := by
    rintro hmem
    rcases stateAfter_ended.mp hmem with hx | ho | hfull
    · exact h.goesOn.1 hx
    · exact h.goesOn.2 ho
    · exact h.not_full hfull
  have hturn := (turn_iff hkeyed h.goesOn.1 h.goesOn.2 h.not_full name move.player).not.mpr
    (not_not.mpr h.turn)
  have hspace := h.onBoard
  have hsquare : square (gameOf name moves).board (move.space - 1) = .ok '-' :=
    square_eq (by omega) (by rw [gameOf, getElem?_boardOf_space moves h.onBoard, h.free]; rfl)
  have hboard : updateBoard (gameOf name moves).board move.space (gameOf name moves).state
      = .ok (boardOf (moves ++ [move])) := by
    rw [boardOf_concat h.onBoard h.free]
    exact updateBoard_eq hspace.1 h.markOf
  have hstate : updateGameState (gameOf name moves).state (boardOf (moves ++ [move]))
      = .ok (stateAfter (moves ++ [move])) := h.updateGameState
  unfold take
  rw [if_neg hended, if_neg hturn, hsquare, ok_bind, if_neg (by decide), hboard, ok_bind, hstate,
    ok_bind, gameOf_concat hkeyed h, boardOf_concat h.onBoard h.free]
  rfl

/-- **A move that the rules do not allow** is refused. -/
theorem take_of_not_canMove (name : PyString) {moves : List Move} {move : Move}
    (hkeyed : Keyed moves) (hspace : 1 ≤ move.space ∧ move.space < 10)
    (h : ¬CanMove moves move) : ∃ message,
      take (gameOf name moves) move.space move.player = .error (.invalidTransaction message) := by
  unfold take
  by_cases hended : (gameOf name moves).state ∈ [P1_WIN, P2_WIN, TIE]
  · exact ⟨_, if_pos hended⟩
  rw [if_neg hended]
  have hopen := (not_congr stateAfter_ended).mp hended
  rw [not_or, not_or] at hopen
  obtain ⟨hx, ho, hfull⟩ := hopen
  by_cases hturn : ∀ own ∈ moves[moves.length % 2]?, own.player = move.player
  · have htaken : markOn moves move.space ≠ none := fun hfree =>
      h ⟨⟨hspace.1, by omega⟩, hfree, hturn, hx, ho⟩
    obtain ⟨mark, hmark⟩ := Option.ne_none_iff_exists'.mp htaken
    have hsquare : square (gameOf name moves).board (move.space - 1) = .ok mark :=
      square_eq (by omega)
        (by rw [gameOf, getElem?_boardOf_space moves ⟨hspace.1, by omega⟩, hmark]; rfl)
    have hne : mark ≠ '-' := by rcases markOn_mem hmark with rfl | rfl <;> decide
    rw [if_neg ((turn_iff hkeyed hx ho hfull name move.player).not.mpr (not_not.mpr hturn)),
      hsquare, ok_bind]
    exact ⟨_, if_pos hne⟩
  · exact ⟨_, if_pos ((turn_iff hkeyed hx ho hfull name move.player).mpr hturn)⟩

/-! ### Validator state follows the table -/

variable {utf8 : PyUtf8} {makeXoAddress : PyString → PyString}

/-- The moves of a game were made by signers with keys that can be stored. -/
def Signed (moves : List Move) : Prop :=
  ∀ move ∈ moves, move.player ≠ [] ∧ NoSeparator move.player

theorem Signed.keyed {moves : List Move} (h : Signed moves) : Keyed moves :=
  fun move hmove => (h move hmove).1

theorem Signed.concat {moves : List Move} (h : Signed moves) {move : Move}
    (hmove : move.player ≠ [] ∧ NoSeparator move.player) : Signed (moves ++ [move]) := by
  intro m hm
  rcases List.mem_append.mp hm with hm | hm
  · exact h m hm
  · rw [List.mem_singleton.mp hm]
    exact hmove

theorem Signed.playerAt {moves : List Move} (h : Signed moves) (n : Nat) :
    NoSeparator (playerAt moves n) := by
  unfold Xo.playerAt
  cases hmove : moves[n]? with
  | none => exact noSeparator_nil
  | some move => exact (h move (List.mem_of_getElem? hmove)).2

theorem Signed.storable {moves : List Move} (h : Signed moves) (name : PyString) :
    (gameOf name moves).Storable where
  board := by
    have hsquares := (isBoard_boardOf moves).squares
    constructor
    · intro hc
      rcases hsquares _ hc with hc | hc | hc <;> exact absurd hc (by decide)
    · intro hc
      rcases hsquares _ hc with hc | hc | hc <;> exact absurd hc (by decide)
  state := by
    show NoSeparator (stateAfter moves)
    unfold stateAfter
    split_ifs <;> decide
  player1 := h.playerAt 0
  player2 := h.playerAt 1

/-- An `XoState` holds the games of a table. -/
structure Follows (utf8 : PyUtf8) (makeXoAddress : PyString → PyString) (s : XoState)
    (d : Dict PyString Game) (table : Table) : Prop where
  refines : Refines utf8 makeXoAddress s d
  games : ∀ name, d.get? name = (table name).map (gameOf name)
  signed : ∀ name moves, table name = some moves → Signed moves

section Follows

variable {s s' : XoState} {d : Dict PyString Game} {table : Table}

theorem Follows.of_refines (h : Follows utf8 makeXoAddress s d table)
    (hs' : Refines utf8 makeXoAddress s' d) : Follows utf8 makeXoAddress s' d table :=
  ⟨hs', h.games, h.signed⟩

/-- The table after a change to one game. -/
theorem Follows.update (h : Follows utf8 makeXoAddress s d table) {name : PyString}
    {moves : Option (List Move)} {d' : Dict PyString Game}
    (hs' : Refines utf8 makeXoAddress s' d')
    (hd' : ∀ other, d'.get? other
      = if name = other then moves.map (gameOf name) else d.get? other)
    (hmoves : ∀ m ∈ moves, Signed m) :
    Follows utf8 makeXoAddress s' d' (Function.update table name moves) where
  refines := hs'
  games other := by
    rw [hd', Function.update_apply]
    by_cases hother : name = other
    · rw [if_pos hother, if_pos hother.symm, hother]
    · rw [if_neg hother, if_neg (Ne.symm hother), h.games]
  signed other m hm := by
    rw [Function.update_apply] at hm
    by_cases hother : other = name
    · rw [if_pos hother] at hm
      exact hmoves m hm
    · rw [if_neg hother] at hm
      exact h.signed other m hm

/-- The record of a game of the table is set. -/
theorem Follows.setGame (h : Follows utf8 makeXoAddress s d table) {name : PyString}
    (hname : NoSeparator name) {moves : List Move} (hmoves : Signed moves) :
    ∃ s' d', XoState.setGame utf8 makeXoAddress s name (gameOf name moves) = (.ok (), s') ∧
      Follows utf8 makeXoAddress s' d' (Function.update table name (some moves)) := by
  obtain ⟨s', hset, hs'⟩ := setGame_refines h.refines hname (hmoves.storable name)
  exact ⟨s', _, hset, h.update hs' (fun other => by rw [Dict.get?_set]; rfl)
    (by rintro m ⟨⟩; exact hmoves)⟩

end Follows

/-- **One transaction against the rules**: allowed and applied, or neither. -/
structure Refereed (utf8 : PyUtf8) (makeXoAddress : PyString → PyString)
    (outcome : Except PyException Unit × XoState) (verdict : Bool × Table) : Prop where
  agree : outcome.1.isOk = verdict.1
  follows : ∃ d, Follows utf8 makeXoAddress outcome.2 d verdict.2

section Refereed

variable {s : XoState} {d : Dict PyString Game} {table : Table} {name : PyString}

theorem Follows.refused (h : Follows utf8 makeXoAddress s d table) (message : String) :
    Refereed utf8 makeXoAddress (.error (.invalidTransaction message), s) (false, table) :=
  ⟨rfl, d, h⟩

theorem Follows.getGame (h : Follows utf8 makeXoAddress s d table) (name : PyString) :
    ∃ s', XoState.getGame utf8 makeXoAddress s name = (.ok ((table name).map (gameOf name)), s') ∧
      Follows utf8 makeXoAddress s' d table := by
  obtain ⟨s', hget, hs'⟩ := getGame_refines h.refines name
  exact ⟨s', by rw [hget, h.games], h.of_refines hs'⟩

theorem applyDelete_refereed (h : Follows utf8 makeXoAddress s d table) :
    Refereed utf8 makeXoAddress (applyDelete utf8 makeXoAddress s name)
      (match table name with
        | none => (false, table)
        | some _ => (true, Function.update table name none)) := by
  obtain ⟨s₁, hget, h₁⟩ := h.getGame name
  have hgame := h.games name
  unfold applyDelete
  rw [hget]
  cases hmoves : table name with
  | none => exact h₁.refused _
  | some moves =>
      rw [hmoves] at hgame
      obtain ⟨s₂, hdelete, h₂⟩ := deleteGame_refines h₁.refines name
      have hpresent : d.get? name ≠ none := by simp [hgame]
      rw [if_neg hpresent] at hdelete h₂
      dsimp only [Option.map_some]
      rw [hdelete]
      exact ⟨rfl, _, h₁.update h₂ (fun other => by rw [Dict.get?_erase]; rfl) (by simp)⟩

theorem applyCreate_refereed (h : Follows utf8 makeXoAddress s d table)
    (hname : NoSeparator name) :
    Refereed utf8 makeXoAddress (applyCreate utf8 makeXoAddress s name)
      (match table name with
        | none => (true, Function.update table name (some []))
        | some _ => (false, table)) := by
  obtain ⟨s₁, hget, h₁⟩ := h.getGame name
  unfold applyCreate
  rw [hget]
  cases hmoves : table name with
  | some moves => exact h₁.refused _
  | none =>
      have hsigned : Signed [] := by simp [Signed]
      obtain ⟨s₂, d₂, hset, h₂⟩ := h₁.setGame hname hsigned
      dsimp only [Option.map_none]
      rw [created_eq, hset]
      exact ⟨rfl, d₂, h₂⟩

theorem applyTake_refereed (h : Follows utf8 makeXoAddress s d table) (hname : NoSeparator name)
    (move : Move) (hspace : 1 ≤ move.space ∧ move.space < 10)
    (hmove : move.player ≠ [] ∧ NoSeparator move.player) :
    Refereed utf8 makeXoAddress (applyTake utf8 makeXoAddress s name move.space move.player)
      (match table name with
        | none => (false, table)
        | some moves =>
            if CanMove moves move then (true, Function.update table name (some (moves ++ [move])))
            else (false, table)) := by
  obtain ⟨s₁, hget, h₁⟩ := h.getGame name
  unfold applyTake
  rw [hget]
  cases hmoves : table name with
  | none => exact h₁.refused _
  | some moves =>
      have hsigned := h.signed name moves hmoves
      dsimp only [Option.map_some]
      by_cases hcan : CanMove moves move
      · obtain ⟨s₂, d₂, hset, h₂⟩ := h₁.setGame hname (hsigned.concat hmove)
        have hlength : ¬(gameOf name (moves ++ [move])).board.length < 9 := by
          rw [gameOf, (isBoard_boardOf _).length]
          decide
        rw [take_of_canMove hsigned.keyed hcan, if_pos hcan]
        dsimp only
        rw [hset]
        dsimp only
        rw [gameDataToStr, if_neg hlength]
        exact ⟨rfl, d₂, h₂⟩
      · obtain ⟨message, htake⟩ := take_of_not_canMove name hsigned.keyed hspace hcan
        rw [htake, if_neg hcan]
        exact h₁.refused message

end Refereed

/-! ### Runs -/

variable (int : PyString → Option Int)

/-- **One transaction** does what the rules make of it. -/
theorem apply_refereed {context : PyContext} {table : Table}
    (h : ∃ d, Follows utf8 makeXoAddress (XoState.new context) d table)
    {transaction : Transaction} (hsigner : SignerOk transaction) :
    (apply utf8 int makeXoAddress context transaction).1.isOk
        = (referee utf8 int table transaction).1 ∧
      ∃ d, Follows utf8 makeXoAddress
        (XoState.new (apply utf8 int makeXoAddress context transaction).2) d
        (referee utf8 int table transaction).2 := by
  obtain ⟨d, h⟩ := h
  unfold apply referee
  rcases fromBytes_cases utf8 int transaction.payload with
    ⟨message, hpayload⟩ | ⟨payload, hpayload, hchecked⟩
  · rw [hpayload]
    exact ⟨rfl, d, h⟩
  rw [hpayload]
  dsimp only
  have hstep : Refereed utf8 makeXoAddress
      (applyPayload utf8 makeXoAddress (XoState.new context) payload transaction.signerPublicKey)
      (referee utf8 int table transaction) := by
    unfold applyPayload referee
    rw [hpayload]
    dsimp only
    by_cases hdelete : payload.action = "delete".toList
    · have hcreate : payload.action ≠ "create".toList := by rw [hdelete]; decide
      simp only [if_pos hdelete, if_neg hcreate]
      exact applyDelete_refereed h
    by_cases hcreate : payload.action = "create".toList
    · have htake : payload.action ≠ "take".toList := by rw [hcreate]; decide
      simp only [if_neg hdelete, if_pos hcreate, htake, false_and, if_false]
      exact applyCreate_refereed h hchecked.name
    have htake : payload.action = "take".toList := by
      have haction := hchecked.action
      simpa only [List.mem_cons, List.not_mem_nil, hdelete, hcreate, false_or, or_false]
        using haction
    rw [if_neg hdelete, if_neg hcreate, if_pos htake]
    simp only [htake, true_and]
    exact applyTake_refereed h hchecked.name
      ⟨payload.space, transaction.signerPublicKey⟩ (hchecked.space htake) hsigner
  obtain ⟨hagree, d', hd'⟩ := hstep
  unfold referee at hagree hd'
  rw [hpayload] at hagree hd'
  exact ⟨hagree, d', ⟨refines_new hd'.refines, hd'.games, hd'.signed⟩⟩

variable (utf8 makeXoAddress) in
/-- **XO follows its rules.**  Over any transactions from the empty state, by signers with keys that
can be stored, a transaction is applied exactly when the rules allow it, and in the end the game
stored under each name is the record of the moves that the rules allowed. -/
theorem xo_follows_rules {transactions : List Transaction}
    (hsigners : ∀ t ∈ transactions, SignerOk t) :
    (trace (apply utf8 int makeXoAddress) .empty transactions).map (fun e => e.2.isOk)
        = (trace (referee utf8 int) (fun _ => none) transactions).map Prod.snd ∧
      ∀ name, storedGame utf8 makeXoAddress
          (run (apply utf8 int makeXoAddress) .empty transactions) name
        = .ok ((run (referee utf8 int) (fun _ => none) transactions name).map (gameOf name)) := by
  have hstart : ∃ d, Follows utf8 makeXoAddress (XoState.new .empty) d fun _ => none :=
    ⟨Dict.empty, refines_empty, fun _ => rfl, by simp⟩
  obtain ⟨hverdicts, d, hend⟩ := trace_abstraction (apply utf8 int makeXoAddress) Except.isOk id
    (fun context table => ∃ d, Follows utf8 makeXoAddress (XoState.new context) d table) SignerOk
    (fun _ _ _ h hsigner => apply_refereed int h hsigner) transactions .empty (fun _ => none) hstart
    hsigners
  exact ⟨hverdicts, fun name => by rw [storedGame_eq hend.refines, hend.games]⟩

/-- Of two players one tries a square that is taken. -/
theorem xo_follows_rules_twoMarks :
    (trace (apply .standard Decimal.parse id) .empty twoMarks).map (fun e => e.2.isOk)
        = (trace (referee .standard Decimal.parse) (fun _ => none) twoMarks).map Prod.snd ∧
      ∀ name, storedGame .standard id (run (apply .standard Decimal.parse id) .empty twoMarks) name
        = .ok ((run (referee .standard Decimal.parse) (fun _ => none) twoMarks name).map
            (gameOf name)) :=
  xo_follows_rules .standard id Decimal.parse (by decide)

end Evoting.Xo

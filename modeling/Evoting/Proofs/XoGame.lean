/-
The XO games that can be stored.

`GameOk` ties the board of a game to its state and its players.  `take_cases` is the
step: on such a game "take" either is an invalid transaction or leaves such a game,
with every mark and every player kept.  With the dictionary of `Proofs.XoState` this
becomes a statement about any run of transactions from the empty state.
-/
import Evoting.Model.XoHandler
import Evoting.Proofs.XoState

namespace Evoting.Xo

open Machine

/-! ### Boards -/

/-- The three squares of a line have a letter. -/
def LineOf (board : PyString) (letter : Char) (win : Int × Int × Int) : Prop :=
  board[(win.1 - 1).toNat]? = some letter ∧ board[(win.2.1 - 1).toNat]? = some letter ∧
    board[(win.2.2 - 1).toNat]? = some letter

instance (board : PyString) (letter : Char) (win : Int × Int × Int) :
    Decidable (LineOf board letter win) :=
  inferInstanceAs (Decidable (_ ∧ _ ∧ _))

/-- A letter has a line. -/
def HasLine (board : PyString) (letter : Char) : Prop := ∃ win ∈ wins, LineOf board letter win

instance (board : PyString) (letter : Char) : Decidable (HasLine board letter) :=
  List.decidableBEx _ wins

/-- Nine squares, each free or marked. -/
structure IsBoard (board : PyString) : Prop where
  length : board.length = 9
  squares : ∀ c ∈ board, c = '-' ∨ c = 'X' ∨ c = 'O'

theorem square_eq {board : PyString} {index : Int} {c : Char} (hindex : 0 ≤ index)
    (hc : board[index.toNat]? = some c) : square board index = .ok c := by
  simp [square, hindex, hc]

/-- The numbers of a line are those of squares. -/
theorem wins_range : ∀ win ∈ wins, (1 ≤ win.1 ∧ win.1 ≤ 9) ∧ (1 ≤ win.2.1 ∧ win.2.1 ≤ 9) ∧
    1 ≤ win.2.2 ∧ win.2.2 ≤ 9 := by
  decide

theorem exists_square {board : PyString} (hlen : board.length = 9) {k : Int}
    (hk : 1 ≤ k ∧ k ≤ 9) :
    ∃ c, board[(k - 1).toNat]? = some c ∧ square board (k - 1) = .ok c := by
  have hlt : (k - 1).toNat < board.length := by omega
  exact ⟨_, List.getElem?_eq_getElem hlt, square_eq (by omega) (List.getElem?_eq_getElem hlt)⟩

theorem isLine_eq {board : PyString} (hlen : board.length = 9) (letter : Char)
    {win : Int × Int × Int} (hwin : win ∈ wins) :
    isLine board letter win = .ok (decide (LineOf board letter win)) := by
  obtain ⟨h₁, h₂, h₃⟩ := wins_range win hwin
  obtain ⟨c₁, hc₁, hs₁⟩ := exists_square hlen h₁
  obtain ⟨c₂, hc₂, hs₂⟩ := exists_square hlen h₂
  obtain ⟨c₃, hc₃, hs₃⟩ := exists_square hlen h₃
  have hline : LineOf board letter win ↔ c₁ = letter ∧ c₂ = letter ∧ c₃ = letter := by
    rw [LineOf, hc₁, hc₂, hc₃]
    simp
  simp only [isLine, hs₁, hs₂, hs₃, ok_bind, hline]
  by_cases hletter₁ : c₁ = letter
  · by_cases hletter₂ : c₂ = letter
    · simp [hletter₁, hletter₂]
    · simp [hletter₁, hletter₂]
  · simp [hletter₁]

/-- `_is_win` looks for a line. -/
theorem isWin_eq {board : PyString} (hlen : board.length = 9) (letter : Char) :
    isWin board letter = .ok (decide (HasLine board letter)) := by
  rw [isWin, anyM_eq_ok fun win hwin => isLine_eq hlen letter hwin]
  congr 1
  rw [List.any_eq, decide_eq_decide]
  simp only [HasLine, decide_eq_true_eq]

/-- `_update_board` sets one square. -/
theorem updateBoard_eq {board : PyString} {space : Int} {state : PyString} {mark : Char}
    (hspace : 1 ≤ space) (hmark : markOf state = some mark) :
    updateBoard board space state = .ok (board.set (space - 1).toNat mark) := by
  rw [updateBoard, mapM_eq_ok (g := fun current =>
    if (current.2 : Int) ≠ space - 1 then current.1 else mark)]
  · congr 1
    refine List.ext_getElem (by simp) fun i hi _ => ?_
    rw [List.getElem_map, List.getElem_zipIdx, List.getElem_set]
    by_cases hindex : (space - 1).toNat = i
    · rw [if_pos hindex, if_neg (by omega)]
    · rw [if_neg hindex, if_pos (by omega)]
  · intro current _
    by_cases hindex : (current.2 : Int) = space - 1
    · simp [hindex, hmark]
    · simp [hindex]

/-- What `_update_game_state` returns for a game that goes on. -/
theorem updateGameState_eq {board : PyString} (hlen : board.length = 9) (state : PyString) :
    updateGameState state board =
      if HasLine board 'X' ∧ HasLine board 'O' then
        .error (.internalError "Two winners (there can be only one)")
      else if HasLine board 'X' then .ok P1_WIN
      else if HasLine board 'O' then .ok P2_WIN
      else if '-' ∉ board then .ok TIE
      else if state = P1_NEXT then .ok P2_NEXT
      else if state = P2_NEXT then .ok P1_NEXT
      else if state ∈ ["P1-WINS".toList, "P2-WINS".toList, "TIE".toList] then .ok state
      else .error (.internalError ("Unhandled state: " ++ String.ofList state)) := by
  rw [updateGameState, isWin_eq hlen, isWin_eq hlen]
  simp only [ok_bind, pure_eq_ok, decide_eq_true_eq]

/-! ### Counting marks -/

/-- Every square is free or has one of the marks. -/
theorem IsBoard.count_eq {board : PyString} (h : IsBoard board) :
    board.count '-' + board.count 'X' + board.count 'O' = 9 := by
  rw [← h.length]
  have hsquares := h.squares
  clear h
  induction board with
  | nil => rfl
  | cons c board ih =>
      have hrest := ih fun d hd => hsquares d (by simp [hd])
      rcases hsquares c (by simp) with rfl | rfl | rfl <;> simp <;> omega

theorem IsBoard.set {board : PyString} (h : IsBoard board) {i : Nat} {mark : Char}
    (hmark : mark = 'X' ∨ mark = 'O') : IsBoard (board.set i mark) where
  length := by rw [List.length_set, h.length]
  squares c hc := by
    rcases List.mem_or_eq_of_mem_set hc with hold | rfl
    · exact h.squares c hold
    · exact Or.inr hmark

/-- A mark on a free square counts once. -/
theorem count_set {board : PyString} {i : Nat} (hfree : board[i]? = some '-') {mark letter : Char}
    (hletter : letter ≠ '-') :
    (board.set i mark).count letter = board.count letter + if mark = letter then 1 else 0 := by
  obtain ⟨hlt, hget⟩ := List.getElem?_eq_some_iff.mp hfree
  rw [List.count_set hlt, hget]
  simp [Ne.symm hletter]

/-- A mark makes no line of the other letter. -/
theorem HasLine.of_set {board : PyString} {i : Nat} {mark letter : Char} (hne : mark ≠ letter)
    (h : HasLine (board.set i mark) letter) : HasLine board letter := by
  have hsquare : ∀ {k : Nat}, (board.set i mark)[k]? = some letter → board[k]? = some letter := by
    intro k hk
    rw [List.getElem?_set] at hk
    split at hk
    · split at hk
      · exact absurd (Option.some.inj hk) hne
      · simp at hk
    · exact hk
  obtain ⟨win, hwin, h₁, h₂, h₃⟩ := h
  exact ⟨win, hwin, hsquare h₁, hsquare h₂, hsquare h₃⟩

/-! ### Games -/

/-- What the state of a game says about its board. -/
structure StateFits (board state : PyString) : Prop where
  known : state ∈ [P1_NEXT, P2_NEXT, P1_WIN, P2_WIN, TIE]
  even : state = P1_NEXT ∨ state = P2_WIN → board.count 'X' = board.count 'O'
  odd : state = P2_NEXT ∨ state = P1_WIN ∨ state = TIE →
    board.count 'X' = board.count 'O' + 1
  p1Win : state = P1_WIN ↔ HasLine board 'X'
  p2Win : state = P2_WIN ↔ HasLine board 'O'
  tie : state = TIE ↔ '-' ∉ board ∧ ¬HasLine board 'X' ∧ ¬HasLine board 'O'

/-- **What every stored game is.** -/
structure GameOk (game : Game) : Prop where
  board : IsBoard game.board
  state : StateFits game.board game.state
  player1 : game.player1 = [] ↔ game.board.count 'X' + game.board.count 'O' = 0
  player2 : game.player2 = [] ↔ game.board.count 'X' + game.board.count 'O' < 2

section StateFits

variable {board : PyString}

theorem stateFits_p1Next (heven : board.count 'X' = board.count 'O') (hx : ¬HasLine board 'X')
    (ho : ¬HasLine board 'O') (hfree : '-' ∈ board) : StateFits board P1_NEXT :=
  ⟨by decide, fun _ => heven, fun h => absurd h (by decide), iff_of_false (by decide) hx,
    iff_of_false (by decide) ho, iff_of_false (by decide) fun h => h.1 hfree⟩

theorem stateFits_p2Next (hodd : board.count 'X' = board.count 'O' + 1) (hx : ¬HasLine board 'X')
    (ho : ¬HasLine board 'O') (hfree : '-' ∈ board) : StateFits board P2_NEXT :=
  ⟨by decide, fun h => absurd h (by decide), fun _ => hodd, iff_of_false (by decide) hx,
    iff_of_false (by decide) ho, iff_of_false (by decide) fun h => h.1 hfree⟩

theorem stateFits_p1Win (hodd : board.count 'X' = board.count 'O' + 1) (hx : HasLine board 'X')
    (ho : ¬HasLine board 'O') : StateFits board P1_WIN :=
  ⟨by decide, fun h => absurd h (by decide), fun _ => hodd, iff_of_true rfl hx,
    iff_of_false (by decide) ho, iff_of_false (by decide) fun h => h.2.1 hx⟩

theorem stateFits_p2Win (heven : board.count 'X' = board.count 'O') (hx : ¬HasLine board 'X')
    (ho : HasLine board 'O') : StateFits board P2_WIN :=
  ⟨by decide, fun _ => heven, fun h => absurd h (by decide), iff_of_false (by decide) hx,
    iff_of_true rfl ho, iff_of_false (by decide) fun h => h.2.2 ho⟩

theorem stateFits_tie (hodd : board.count 'X' = board.count 'O' + 1) (hx : ¬HasLine board 'X')
    (ho : ¬HasLine board 'O') (hfull : '-' ∉ board) : StateFits board TIE :=
  ⟨by decide, fun h => absurd h (by decide), fun _ => hodd, iff_of_false (by decide) hx,
    iff_of_false (by decide) ho, iff_of_true rfl ⟨hfull, hx, ho⟩⟩

/-- **The first player's turn.** -/
theorem updateGameState_p1 {i : Nat} (hboard : IsBoard board) (hfree : board[i]? = some '-')
    (hfits : StateFits board P1_NEXT) :
    ∃ state, updateGameState P1_NEXT (board.set i 'X') = .ok state ∧
      StateFits (board.set i 'X') state := by
  have hodd : (board.set i 'X').count 'X' = (board.set i 'X').count 'O' + 1 := by
    rw [count_set hfree (by decide), count_set hfree (by decide), hfits.even (Or.inl rfl)]
    rfl
  have ho : ¬HasLine (board.set i 'X') 'O' := fun h =>
    absurd (hfits.p2Win.mpr (h.of_set (by decide))) (by decide)
  rw [updateGameState_eq (hboard.set (Or.inl rfl)).length, if_neg fun h => ho h.2]
  by_cases hx : HasLine (board.set i 'X') 'X'
  · exact ⟨P1_WIN, if_pos hx, stateFits_p1Win hodd hx ho⟩
  rw [if_neg hx, if_neg ho]
  by_cases hfull : '-' ∉ board.set i 'X'
  · exact ⟨TIE, if_pos hfull, stateFits_tie hodd hx ho hfull⟩
  · rw [if_neg hfull, if_pos rfl]
    exact ⟨P2_NEXT, rfl, stateFits_p2Next hodd hx ho (not_not.mp hfull)⟩

/-- **The second player's turn.**  It never fills the board: that takes an odd number of marks. -/
theorem updateGameState_p2 {i : Nat} (hboard : IsBoard board) (hfree : board[i]? = some '-')
    (hfits : StateFits board P2_NEXT) :
    ∃ state, updateGameState P2_NEXT (board.set i 'O') = .ok state ∧
      StateFits (board.set i 'O') state := by
  have heven : (board.set i 'O').count 'X' = (board.set i 'O').count 'O' := by
    rw [count_set hfree (by decide), count_set hfree (by decide), hfits.odd (Or.inl rfl)]
    rfl
  have hx : ¬HasLine (board.set i 'O') 'X' := fun h =>
    absurd (hfits.p1Win.mpr (h.of_set (by decide))) (by decide)
  have hfree' : '-' ∈ board.set i 'O' := by
    by_contra hfull
    have hcount := (hboard.set (i := i) (Or.inr rfl)).count_eq
    rw [List.count_eq_zero.mpr hfull] at hcount
    omega
  rw [updateGameState_eq (hboard.set (Or.inr rfl)).length, if_neg fun h => hx h.1, if_neg hx]
  by_cases ho : HasLine (board.set i 'O') 'O'
  · exact ⟨P2_WIN, if_pos ho, stateFits_p2Win heven hx ho⟩
  · rw [if_neg ho, if_neg (not_not.mpr hfree'), if_neg (by decide), if_pos rfl]
    exact ⟨P1_NEXT, rfl, stateFits_p1Next heven hx ho hfree'⟩

end StateFits

/-! ### Taking a square -/

/-- Marked squares and set players are kept. -/
structure Extends (game game' : Game) : Prop where
  board : ∀ (i : Nat) (c : Char), game.board[i]? = some c → c ≠ '-' → game'.board[i]? = some c
  player1 : game.player1 ≠ [] → game'.player1 = game.player1
  player2 : game.player2 ≠ [] → game'.player2 = game.player2

theorem Extends.refl (game : Game) : Extends game game :=
  ⟨fun _ _ h _ => h, fun _ => rfl, fun _ => rfl⟩

theorem Extends.trans {a b c : Game} (hab : Extends a b) (hbc : Extends b c) : Extends a c where
  board i mark h hmark := hbc.board i mark (hab.board i mark h hmark) hmark
  player1 h := by
    have hb := hab.player1 h
    rw [hbc.player1 (by rwa [hb]), hb]
  player2 h := by
    have hb := hab.player2 h
    rw [hbc.player2 (by rwa [hb]), hb]

/-- A game that goes on waits for one of the players. -/
theorem StateFits.next_of_not_ended {board state : PyString} (h : StateFits board state)
    (hended : state ∉ [P1_WIN, P2_WIN, TIE]) : state = P1_NEXT ∨ state = P2_NEXT := by
  have hknown := h.known
  simp only [List.mem_cons, List.not_mem_nil, or_false, not_or] at hknown hended
  obtain ⟨h₁, h₂, h₃⟩ := hended
  simpa [h₁, h₂, h₃] using hknown

/-- One more mark: the mark is assigned, the state is computed and fits. -/
theorem exists_next_state {board state : PyString} {i : Nat} (hboard : IsBoard board)
    (hfits : StateFits board state) (hnext : state = P1_NEXT ∨ state = P2_NEXT)
    (hfree : board[i]? = some '-') :
    ∃ mark, markOf state = some mark ∧ (mark = 'X' ∨ mark = 'O') ∧
      ∃ state', updateGameState state (board.set i mark) = .ok state' ∧
        StateFits (board.set i mark) state' := by
  rcases hnext with rfl | rfl
  · exact ⟨'X', rfl, Or.inl rfl, updateGameState_p1 hboard hfree hfits⟩
  · exact ⟨'O', rfl, Or.inr rfl, updateGameState_p2 hboard hfree hfits⟩

/-- A mark more on the board. -/
theorem count_marks_set {board : PyString} {i : Nat} (hfree : board[i]? = some '-') {mark : Char}
    (hmark : mark = 'X' ∨ mark = 'O') :
    (board.set i mark).count 'X' + (board.set i mark).count 'O'
      = board.count 'X' + board.count 'O' + 1 := by
  rw [count_set hfree (by decide), count_set hfree (by decide)]
  rcases hmark with rfl | rfl
  · simp
    omega
  · simp
    omega

/-- The game after a mark on a free square. -/
def marked (game : Game) (i : Nat) (mark : Char) (state signer : PyString) : Game :=
  { game with
    board := game.board.set i mark
    state := state
    player1 := if game.player1 = [] then signer else game.player1
    player2 := if game.player1 ≠ [] ∧ game.player2 = [] then signer else game.player2 }

/-- A signer becomes the first player with the first mark, and the second with the second. -/
theorem GameOk.marked {game : Game} (h : GameOk game) {i : Nat} {mark : Char}
    (hfree : game.board[i]? = some '-') (hmark : mark = 'X' ∨ mark = 'O') {state signer : PyString}
    (hsigner : signer ≠ []) (hstate : StateFits (game.board.set i mark) state) :
    GameOk (marked game i mark state signer) where
  board := h.board.set hmark
  state := hstate
  player1 := by
    show (if game.player1 = [] then signer else game.player1) = [] ↔
      (game.board.set i mark).count 'X' + (game.board.set i mark).count 'O' = 0
    rw [count_marks_set hfree hmark]
    by_cases h₁ : game.player1 = []
    · simp [h₁, hsigner]
    · simp [h₁]
  player2 := by
    show (if game.player1 ≠ [] ∧ game.player2 = [] then signer else game.player2) = [] ↔
      (game.board.set i mark).count 'X' + (game.board.set i mark).count 'O' < 2
    have hp₁ := h.player1
    have hp₂ := h.player2
    rw [count_marks_set hfree hmark]
    by_cases h₁ : game.player1 = []
    · rw [if_neg fun hand => hand.1 h₁, hp₂]
      have hzero := hp₁.mp h₁
      omega
    · have hpos : game.board.count 'X' + game.board.count 'O' ≠ 0 := fun hzero => h₁ (hp₁.mpr hzero)
      by_cases h₂ : game.player2 = []
      · rw [if_pos ⟨h₁, h₂⟩]
        exact iff_of_false hsigner (by omega)
      · rw [if_neg fun hand => h₂ hand.2]
        have hmany : ¬game.board.count 'X' + game.board.count 'O' < 2 := fun hfew =>
          h₂ (hp₂.mpr hfew)
        exact iff_of_false h₂ (by omega)

theorem extends_marked {game : Game} {i : Nat} (hfree : game.board[i]? = some '-') (mark : Char)
    (state signer : PyString) : Extends game (marked game i mark state signer) where
  board k c hc hne := by
    have hki : i ≠ k := by
      rintro rfl
      rw [hfree] at hc
      exact hne (Option.some.inj hc).symm
    show (game.board.set i mark)[k]? = some c
    rw [List.getElem?_set_ne hki, hc]
  player1 h := if_neg h
  player2 h := if_neg fun hand => h hand.2

/-- **Taking a square.**  On a game as they are stored, "take" is refused as an invalid transaction
or marks a free square; it never finds two winners, a state it does not know or no mark. -/
theorem take_cases {game : Game} (h : GameOk game) {space : Int} (hspace : 1 ≤ space ∧ space < 10)
    (signer : PyString) :
    (∃ message, take game space signer = .error (.invalidTransaction message)) ∨
      ∃ i mark state, take game space signer = .ok (marked game i mark state signer) ∧
        game.board[i]? = some '-' ∧ (mark = 'X' ∨ mark = 'O') ∧
        StateFits (game.board.set i mark) state := by
  unfold take
  by_cases hended : game.state ∈ [P1_WIN, P2_WIN, TIE]
  · exact Or.inl ⟨_, if_pos hended⟩
  rw [if_neg hended]
  by_cases hturn : (game.player1 ≠ [] ∧ game.state = P1_NEXT ∧ game.player1 ≠ signer) ∨
      (game.player2 ≠ [] ∧ game.state = P2_NEXT ∧ game.player2 ≠ signer)
  · exact Or.inl ⟨_, if_pos hturn⟩
  rw [if_neg hturn]
  obtain ⟨c, hc, hsquare⟩ := exists_square h.board.length (k := space) (by omega)
  rw [hsquare, ok_bind]
  by_cases hfree : c ≠ '-'
  · exact Or.inl ⟨_, if_pos hfree⟩
  rw [if_neg hfree]
  rw [not_not.mp hfree] at hc
  obtain ⟨mark, hmark, hletter, state, hstate, hfits⟩ :=
    exists_next_state h.board h.state (h.state.next_of_not_ended hended) hc
  refine Or.inr ⟨(space - 1).toNat, mark, state, ?_, hc, hletter, hfits⟩
  rw [updateBoard_eq hspace.1 hmark, ok_bind, hstate, ok_bind]
  rfl

/-- The board of a new game. -/
theorem created_board (name : PyString) : (created name).board = List.replicate 9 '-' := rfl

theorem gameOk_created (name : PyString) : GameOk (created name) where
  board := by
    rw [created_board]
    exact ⟨List.length_replicate, fun c hc => Or.inl (List.eq_of_mem_replicate hc)⟩
  state := by
    rw [created_board]
    exact stateFits_p1Next (by decide) (by decide) (by decide) (by decide)
  player1 := by simp [created]
  player2 := by simp [created]

/-- A board and a state can be stored. -/
theorem GameOk.storable {game : Game} (h : GameOk game) (h₁ : NoSeparator game.player1)
    (h₂ : NoSeparator game.player2) : game.Storable where
  board := by
    constructor
    · intro hc
      rcases h.board.squares _ hc with hc | hc | hc <;> exact absurd hc (by decide)
    · intro hc
      rcases h.board.squares _ hc with hc | hc | hc <;> exact absurd hc (by decide)
  state := by
    have hknown : ∀ state ∈ [P1_NEXT, P2_NEXT, P1_WIN, P2_WIN, TIE], NoSeparator state := by decide
    exact hknown _ h.state.known
  player1 := h₁
  player2 := h₂

end Evoting.Xo

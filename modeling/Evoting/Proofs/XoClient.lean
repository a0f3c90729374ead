/-
What the players of XO see.

A command reaches the handler as the request it stands for (`referee_transaction`), so a
run of commands is a run of the rules.  `split_stateOf` is the text of an entry cut into
its records; from it "show" prints the game that the rules have under a name, and
"list" has one line for every game, however the names fall on addresses.
-/
import Evoting.Model.XoClient
import Evoting.Proofs.Schedules
import Evoting.Proofs.XoRules

namespace Evoting.XoClient

open Footprint Machine XoState Xo

variable {utf8 : PyUtf8} {int : PyString → Option Int} {sha512 : PyBytes → PyString}

/-! ### Commands -/

/-- A name that games can have. -/
def NameOk (name : PyString) : Prop := name ≠ [] ∧ NoSeparator name

instance (name : PyString) : Decidable (NameOk name) := inferInstanceAs (Decidable (_ ∧ _))

/-- **What the rules make of a player's command.** -/
def obey (table : Table) (request : PyString × Command) : Bool × Table :=
  match request.2 with
  | .create name _ =>
      if NameOk name ∧ table name = none then (true, Function.update table name (some []))
      else (false, table)
  | .take name space =>
      match table name with
      | none => (false, table)
      | some moves =>
          if NameOk name ∧ CanMove moves ⟨space, request.1⟩ then
            (true, Function.update table name (some (moves ++ [⟨space, request.1⟩])))
          else (false, table)
  | .delete name =>
      if NameOk name ∧ table name ≠ none then (true, Function.update table name none)
      else (false, table)

variable (utf8 int sha512) in
/-- A command in validator state: its transaction is made, and the handler applies it. -/
def submit (context : PyContext) (request : PyString × Command) :
    Except PyException Unit × PyContext :=
  Xo.apply utf8 int (makeXoAddress utf8 sha512) context
    (request.2.transaction utf8 sha512 request.1).forHandler

/-- What a command can be. -/
theorem comma_not_mem_action {action : PyString}
    (haction : action ∈ ["create".toList, "take".toList, "delete".toList]) : ',' ∉ action := by
  have hactions : ∀ action ∈ ["create".toList, "take".toList, "delete".toList], ',' ∉ action := by
    decide
  exact hactions action haction

theorem comma_not_mem_render (z : Int) : ',' ∉ Decimal.render z := by
  refine Decimal.not_mem_render ?_
  rintro (h | h) <;> exact absurd h (by decide)

/-- **The payload of a command is read as its fields**, when games can have the name. -/
theorem fromBytes_of_nameOk {name action space : PyString} (hname : NameOk name)
    (haction : action ∈ ["create".toList, "take".toList, "delete".toList]) (hspace : ',' ∉ space) :
    XoPayload.fromBytes utf8 int (utf8.encode (pyJoin ',' [name, action, space])) =
      if action = "take".toList then
        ((int space).filter fun space => 1 ≤ space ∧ space < 10).elim
          (.error (.invalidTransaction "Space must be an integer from 1 to 9"))
          fun space => .ok ⟨name, action, space⟩
      else .ok ⟨name, action, 0⟩ := by
  obtain ⟨hne, hcomma, hbar⟩ := hname
  have hsplit : pySplit ',' (pyJoin ',' [name, action, space]) = [name, action, space] :=
    Fields.splitOn_join (by simp [hcomma, comma_not_mem_action haction, hspace]) (by simp)
  have hempty : action ≠ [] := by
    rintro rfl
    revert haction
    decide
  unfold XoPayload.fromBytes
  rw [PyUtf8.decode_encode]
  dsimp only
  rw [hsplit]
  dsimp only
  rw [if_neg hne, if_neg hbar, if_neg hempty, if_neg (not_not.mpr haction)]
  by_cases htake : action = "take".toList
  · rw [if_pos htake, if_pos htake]
    cases int space with
    | none => rfl
    | some space =>
        rw [Option.filter_some]
        dsimp only
        by_cases hspace : 1 ≤ space ∧ space < 10
        · rw [if_pos hspace, decide_eq_true hspace]
          rfl
        · rw [if_neg hspace, decide_eq_false hspace]
          rfl
  · rw [if_neg htake, if_neg htake]

variable (utf8 int) in
/-- A payload with a name that games cannot have is refused. -/
theorem fromBytes_of_not_nameOk {name : PyString} (hname : ¬NameOk name) (action space : PyString)
    (haction : action ∈ ["create".toList, "take".toList, "delete".toList]) (hspace : ',' ∉ space) :
    ∃ message, XoPayload.fromBytes utf8 int (utf8.encode (pyJoin ',' [name, action, space]))
      = .error (.invalidTransaction message) := by
  unfold XoPayload.fromBytes
  rw [PyUtf8.decode_encode]
  dsimp only
  by_cases hcomma : ',' ∈ name
  · have hlength : 3 < (pySplit ',' (pyJoin ',' [name, action, space])).length := by
      have hcount := List.count_pos_iff.mpr hcomma
      rw [Fields.length_splitOn, pyJoin, Fields.join_cons_cons, Fields.join_cons_cons,
        Fields.join_singleton]
      simp only [List.count_append, List.count_cons_self]
      omega
    split
    · rename_i heq
      rw [heq] at hlength
      simp at hlength
    · exact ⟨_, rfl⟩
  · have hsplit : pySplit ',' (pyJoin ',' [name, action, space]) = [name, action, space] :=
      Fields.splitOn_join (by simp [hcomma, comma_not_mem_action haction, hspace]) (by simp)
    rw [hsplit]
    dsimp only
    by_cases hnil : name = []
    · exact ⟨_, if_pos hnil⟩
    · have hbar : '|' ∈ name := by
        unfold NameOk NoSeparator at hname
        tauto
      exact ⟨_, by rw [if_neg hnil, if_pos hbar]⟩

section Referee

variable {name : PyString} (table : Table) (player : PyString)

theorem referee_create (dimensions : Int) :
    referee utf8 int table
        ((Command.create name dimensions).transaction utf8 sha512 player).forHandler
      = obey table (player, .create name dimensions) := by
  simp only [Command.transaction, sendXoTxn, Transaction.forHandler, referee, obey]
  by_cases hname : NameOk name
  · rw [fromBytes_of_nameOk hname (by decide) (comma_not_mem_render _), if_neg (by decide)]
    dsimp only
    cases hgame : table name with
    | none => rw [if_pos rfl, if_pos ⟨hname, rfl⟩]
    | some moves =>
        exact ((if_neg (by decide)).trans (if_neg fun h => absurd h.1 (by decide))).trans
          (if_neg (by simp)).symm
  · obtain ⟨message, hrefused⟩ := fromBytes_of_not_nameOk utf8 int hname
      "create".toList (Decimal.render dimensions) (by decide) (comma_not_mem_render dimensions)
    rw [hrefused, if_neg fun h => hname h.1]

theorem referee_take (hint : ∀ z, int (Decimal.render z) = some z) (space : Int) :
    referee utf8 int table ((Command.take name space).transaction utf8 sha512 player).forHandler
      = obey table (player, .take name space) := by
  simp only [Command.transaction, sendXoTxn, Transaction.forHandler, referee, obey]
  by_cases hname : NameOk name
  · rw [fromBytes_of_nameOk hname (by decide) (comma_not_mem_render _), if_pos rfl, hint,
      Option.filter_some]
    by_cases hspace : 1 ≤ space ∧ space < 10
    · rw [decide_eq_true hspace, if_pos rfl, Option.elim_some]
      dsimp only
      cases table name with
      | none => exact if_neg (by decide)
      | some moves =>
          dsimp only
          rw [if_neg (by decide)]
          simp only [hname, true_and]
    · have hcannot : ∀ moves, ¬CanMove moves ⟨space, player⟩ := fun moves h =>
        hspace ⟨h.onBoard.1, Int.lt_add_one_of_le h.onBoard.2⟩
      rw [decide_eq_false hspace, if_neg (by decide), Option.elim_none]
      cases table name with
      | none => rfl
      | some moves => exact (if_neg fun h => hcannot moves h.2).symm
  · obtain ⟨message, hrefused⟩ := fromBytes_of_not_nameOk utf8 int hname
      "take".toList (Decimal.render space) (by decide) (comma_not_mem_render space)
    rw [hrefused]
    cases table name with
    | none => rfl
    | some moves => exact (if_neg fun h => hname h.1).symm

theorem referee_delete :
    referee utf8 int table ((Command.delete name).transaction utf8 sha512 player).forHandler
      = obey table (player, .delete name) := by
  simp only [Command.transaction, sendXoTxn, Transaction.forHandler, referee, obey]
  by_cases hname : NameOk name
  · rw [fromBytes_of_nameOk hname (by decide) (by simp), if_neg (by decide)]
    dsimp only
    cases table name with
    | none =>
        dsimp only
        rw [if_neg (by decide), if_neg fun h => h.2 rfl]
    | some moves =>
        dsimp only
        rw [if_pos rfl, if_pos ⟨hname, by simp⟩]
  · obtain ⟨message, hrefused⟩ := fromBytes_of_not_nameOk utf8 int hname
      "delete".toList [] (by decide) (by simp)
    rw [hrefused, if_neg fun h => hname h.1]

/-- **A command is the request it stands for.** -/
theorem referee_transaction (hint : ∀ z, int (Decimal.render z) = some z)
    (request : PyString × Command) :
    referee utf8 int table (request.2.transaction utf8 sha512 request.1).forHandler
      = obey table request := by
  obtain ⟨player, command⟩ := request
  cases command with
  | create name dimensions => exact referee_create table player dimensions
  | take name space => exact referee_take table player hint space
  | delete name => exact referee_delete table player

end Referee

/-! ### The records of an entry -/

section Records

variable {makeAddress : PyString → PyString} {d : Dict PyString Game}

/-- **The text of an entry**, cut at the bars, is one record for each game of its address. -/
theorem split_stateOf (hd : AreGames d) {address : PyString} {data : PyBytes}
    (hdata : stateOf utf8 makeAddress d address = some data) :
    ∃ text, ∃ records : List (PyString × Game), utf8.decode data = some text ∧
      pySplit '|' text = records.map gameStr ∧
      records.Perm (bucket makeAddress d address).entries := by
  unfold stateOf at hdata
  by_cases hempty : (bucket makeAddress d address).entries = []
  · simp [hempty] at hdata
  rw [if_neg hempty] at hdata
  obtain rfl := Option.some.inj hdata
  obtain ⟨records, hperm, hserialize⟩ := exists_records utf8 (bucket makeAddress d address)
  refine ⟨_, records, by rw [hserialize, PyUtf8.decode_encode], ?_, hperm⟩
  refine Fields.splitOn_join ?_ ?_
  · intro text htext
    obtain ⟨record, hrecord, rfl⟩ := List.mem_map.mp htext
    obtain ⟨-, hplain, hgame⟩ := areGames_bucket makeAddress hd address record.1 record.2
      (Dict.get?_eq_some_iff.mpr (hperm.mem_iff.mp hrecord))
    exact gameStr_bar hplain hgame
  · intro hnil
    rw [List.map_eq_nil_iff] at hnil
    exact hempty (List.nil_perm.mp (hnil ▸ hperm))

/-- What is at an address that has no entry. -/
theorem bucket_of_none {address : PyString} (hnone : stateOf utf8 makeAddress d address = none) :
    (bucket makeAddress d address).entries = [] := by
  by_contra hne
  rw [stateOf, if_neg hne] at hnone
  simp at hnone

/-- The fields of a record. -/
theorem split_gameStr {record : PyString × Game} (hplain : NoSeparator record.1)
    (hgame : record.2.Storable) : pySplit ',' (gameStr record)
      = [record.1, record.2.board, record.2.state, record.2.player1, record.2.player2] :=
  Fields.splitOn_join (by
    simp [hplain.1, hgame.board.1, hgame.state.1, hgame.player1.1, hgame.player2.1]) (by simp)

/-- What "show" keeps of a game. -/
def shownFields (game : Game) : PyString × PyString × PyString × PyString :=
  (game.board, game.state, game.player1, game.player2)

theorem foldlM_readRecord {records : List (PyString × Game)}
    (h : ∀ record ∈ records, NoSeparator record.1 ∧ record.2.Storable) :
    ∀ games, (records.map gameStr).foldlM readRecord games
      = .ok ((records.map fun record => (record.1, shownFields record.2)).foldl
          (fun d e => d.set e.1 e.2) games) := by
  induction records with
  | nil => intro games; rfl
  | cons record records ih =>
      intro games
      obtain ⟨hplain, hgame⟩ := h record (by simp)
      have hread : readRecord games (gameStr record)
          = .ok (games.set record.1 (shownFields record.2)) := by
        rw [readRecord, split_gameStr hplain hgame]
        rfl
      rw [List.map_cons, List.foldlM_cons, hread]
      exact ih (fun r hr => h r (by simp [hr])) _

/-- **Looking a game up** among the records of an entry. -/
theorem lookUp_stateOf (hd : AreGames d) {name : PyString} {data : PyBytes}
    (hdata : stateOf utf8 makeAddress d (makeAddress name) = some data) :
    lookUp utf8 data name = ((d.get? name).map shownFields).elim (.error .keyError) .ok := by
  obtain ⟨text, records, htext, hsplit, hperm⟩ := split_stateOf hd hdata
  have hrecords : ∀ record ∈ records, NoSeparator record.1 ∧ record.2.Storable := by
    intro record hrecord
    obtain ⟨-, hplain, hgame⟩ := areGames_bucket makeAddress hd (makeAddress name) record.1
      record.2 (Dict.get?_eq_some_iff.mpr (hperm.mem_iff.mp hrecord))
    exact ⟨hplain, hgame⟩
  have hkeys : ((records.map fun record => (record.1, shownFields record.2)).map
      Prod.fst).Nodup := by
    rw [List.map_map]
    exact (hperm.map Prod.fst).nodup_iff.mpr (bucket makeAddress d (makeAddress name)).nodup
  have hlookup : ((records.map fun record => (record.1, shownFields record.2)).foldl
      (fun d e => d.set e.1 e.2) Dict.empty).get? name = (d.get? name).map shownFields := by
    ext fields
    have hbucket := get?_bucket makeAddress d (makeAddress name) name
    rw [if_pos rfl] at hbucket
    rw [Dict.get?_foldl_set hkeys, Dict.get?_empty, Option.map_eq_some_iff]
    simp only [List.mem_map, Prod.mk.injEq, reduceCtorEq, and_false, or_false]
    constructor
    · rintro ⟨record, hrecord, rfl, rfl⟩
      exact ⟨record.2, hbucket ▸ Dict.get?_eq_some_iff.mpr (hperm.mem_iff.mp hrecord), rfl⟩
    · rintro ⟨game, hgame, rfl⟩
      exact ⟨(name, game), hperm.mem_iff.mpr (Dict.get?_eq_some_iff.mp (hbucket.trans hgame)),
        rfl, rfl⟩
  unfold lookUp
  rw [htext]
  dsimp only
  rw [hsplit, foldlM_readRecord hrecords]
  dsimp only
  rw [hlookup]
  cases d.get? name <;> rfl

end Records

/-! ### Showing a game -/

/-- The mark on a space, as it is shown. -/
def shownMark (moves : List Move) (row column : Fin 3) : Char :=
  (markOn moves (spaceAt row column)).getD ' '

/-- A row of the board, as it is shown. -/
def shownRow (moves : List Move) (row : Fin 3) : PyString :=
  [' ', shownMark moves row 0, ' ', '|', ' ', shownMark moves row 1, ' ', '|', ' ',
    shownMark moves row 2, ' ']

/-- **The screen of a game.** -/
def screen (name : PyString) (moves : List Move) : List PyString :=
  ["9".toList, "GAME:     : ".toList ++ name, "PLAYER 1  : ".toList ++ (playerAt moves 0).take 6,
    "PLAYER 2  : ".toList ++ (playerAt moves 1).take 6,
    "STATE     : ".toList ++ Xo.stateAfter moves,
    [], shownRow moves 0, "---|---|---".toList, shownRow moves 1, "---|---|---".toList,
    shownRow moves 2, []]

/-- A square of the board, as it is shown. -/
theorem boardAt_shown (moves : List Move) (row column : Fin 3) :
    boardAt ((boardOf moves).map shownSquare) (spaceAt row column - 1)
      = .ok (shownMark moves row column) := by
  have hrange := spaceAt_range row column
  have hsquare : ((boardOf moves).map shownSquare)[(spaceAt row column - 1).toNat]?
      = some (shownMark moves row column) := by
    rw [List.getElem?_map, getElem?_boardOf_space moves hrange, shownMark]
    cases hmark : markOn moves (spaceAt row column) with
    | none => rfl
    | some mark => rcases markOn_mem hmark with rfl | rfl <;> rfl
  have hplace : (0 : Int) ≤ spaceAt row column - 1 := by omega
  unfold boardAt
  dsimp only
  rw [if_pos hplace, if_pos hplace, hsquare]

/-- The squares that a row is printed from. -/
theorem squares_shown (moves : List Move) (row : Fin 3) :
    boardAt ((boardOf moves).map shownSquare) ((0 : Nat) + (row : Nat) * 3)
        = .ok (shownMark moves row 0) ∧
      boardAt ((boardOf moves).map shownSquare) ((1 : Nat) + (row : Nat) * 3)
        = .ok (shownMark moves row 1) ∧
      boardAt ((boardOf moves).map shownSquare) ((3 - 1) + (row : Nat) * 3)
        = .ok (shownMark moves row 2) := by
  have hindex : ∀ column : Fin 3, spaceAt row column - 1 = (column : Nat) + (row : Nat) * 3 := by
    intro column
    simp only [spaceAt]
    omega
  have hsquares := fun column => hindex column ▸ boardAt_shown moves row column
  exact ⟨hsquares 0, hsquares 1, hsquares 2⟩

theorem rowLine_shown (moves : List Move) (row : Fin 3) :
    rowLine ((boardOf moves).map shownSquare) 3 (row : Nat) = .ok (shownRow moves row) := by
  obtain ⟨h₀, h₁, h₂⟩ := squares_shown moves row
  have hrange : List.range ((3 : Int) - 1).toNat = [0, 1] := by decide
  unfold rowLine
  rw [hrange, List.mapM_cons, List.mapM_cons, List.mapM_nil, h₀, h₁, h₂]
  rfl

theorem ruleLine_shown (moves : List Move) (row : Fin 3) :
    ruleLine ((boardOf moves).map shownSquare) 3 (row : Nat) = .ok "---|---|---".toList := by
  obtain ⟨h₀, h₁, h₂⟩ := squares_shown moves row
  have hrange : List.range ((3 : Int) - 1).toNat = [0, 1] := by decide
  unfold ruleLine
  rw [hrange, List.mapM_cons, List.mapM_cons, List.mapM_nil, h₀, h₁, h₂]
  rfl

theorem boardLines_shown (moves : List Move) :
    boardLines ((boardOf moves).map shownSquare) 3 = .ok [shownRow moves 0, "---|---|---".toList,
      shownRow moves 1, "---|---|---".toList, shownRow moves 2] := by
  have hrange : List.range ((3 : Int) - 1).toNat = [0, 1] := by decide
  have hrow₀ := rowLine_shown moves 0
  have hrow₁ := rowLine_shown moves 1
  have hrow₂ := rowLine_shown moves 2
  have hrule₀ := ruleLine_shown moves 0
  have hrule₁ := ruleLine_shown moves 1
  simp only [Fin.val_zero, Fin.val_one, Fin.val_two] at hrow₀ hrow₁ hrow₂ hrule₀ hrule₁
  unfold boardLines
  rw [hrange, List.mapM_cons, List.mapM_cons, List.mapM_nil, hrow₀, hrow₁, hrule₀, hrule₁,
    show (3 : Int) - 1 = (2 : Nat) by decide, hrow₂]
  rfl

/-- **Showing a game of the rules.** -/
theorem gameLines_gameOf (name : PyString) (moves : List Move) :
    gameLines name (shownFields (gameOf name moves)) = .ok (screen name moves) := by
  have hlength : (boardOf moves).length = 9 := (isBoard_boardOf moves).length
  have hsqrt : Nat.sqrt 9 = 3 := Nat.sqrt_eq 3
  simp only [gameLines, shownFields, gameOf, hlength, hsqrt, Nat.cast_ofNat, boardLines_shown]
  rfl

/-! ### Listing the games -/

/-- The line of a game. -/
def gameLine (name : PyString) (moves : List Move) : PyString :=
  listLine name ((playerAt moves 0).take 6) ((playerAt moves 1).take 6) (boardOf moves)
    (Xo.stateAfter moves)

/-- The line above the games. -/
def heading : PyString :=
  listLine "GAME".toList "PLAYER 1".toList "PLAYER 2".toList "BOARD".toList "STATE".toList

variable (utf8 sha512) in
/-- What is answered for the prefix: the entries of validator state below it, each once. -/
structure Answered (context : PyContext) (entries : List (PyString × PyBytes)) : Prop where
  mem : ∀ address data, (address, data) ∈ entries ↔
    context.data address = some data ∧ getPrefix utf8 sha512 <+: address
  nodup : (entries.map Prod.fst).Nodup

section Listing

variable {makeAddress : PyString → PyString} {d : Dict PyString Game}

/-- The records in some entries are the games of their addresses. -/
theorem mapM_recordsOf (hd : AreGames d) {entries : List (PyString × PyBytes)}
    (h : ∀ entry ∈ entries, stateOf utf8 makeAddress d entry.1 = some entry.2) :
    ∃ texts, ∃ records : List (PyString × Game),
      entries.mapM (fun entry => recordsOf utf8 entry.2) = .ok texts ∧
      texts.flatten = records.map gameStr ∧
      records.Perm (entries.flatMap fun entry => (bucket makeAddress d entry.1).entries) := by
  induction entries with
  | nil => exact ⟨[], [], rfl, rfl, List.Perm.refl _⟩
  | cons entry entries ih =>
      obtain ⟨texts, records, htexts, hflatten, hperm⟩ := ih fun e he => h e (by simp [he])
      obtain ⟨text, first, htext, hsplit, hfirst⟩ := split_stateOf hd (h entry (by simp))
      have hrecords : recordsOf utf8 entry.2 = .ok (first.map gameStr) := by
        rw [recordsOf, htext]
        exact congrArg Except.ok hsplit
      refine ⟨first.map gameStr :: texts, first ++ records, ?_, ?_, ?_⟩
      · rw [List.mapM_cons, hrecords, htexts]
        rfl
      · rw [List.flatten_cons, hflatten, List.map_append]
      · rw [List.flatMap_cons]
        exact hfirst.append hperm

theorem mapM_recordLine {records : List (PyString × Game)}
    (h : ∀ record ∈ records, NoSeparator record.1 ∧ record.2.Storable) :
    (records.map gameStr).mapM recordLine = .ok (records.map fun record =>
      listLine record.1 (record.2.player1.take 6) (record.2.player2.take 6) record.2.board
        record.2.state) := by
  induction records with
  | nil => rfl
  | cons record records ih =>
      obtain ⟨hplain, hgame⟩ := h record (by simp)
      have hline : recordLine (gameStr record) = .ok (listLine record.1 (record.2.player1.take 6)
          (record.2.player2.take 6) record.2.board record.2.state) := by
        rw [recordLine, split_gameStr hplain hgame]
      rw [List.map_cons, List.mapM_cons, hline, ih fun r hr => h r (by simp [hr])]
      rfl

/-- An address is that of the games at it. -/
theorem mem_bucket_iff {address : PyString} {record : PyString × Game} :
    record ∈ (bucket makeAddress d address).entries ↔
      makeAddress record.1 = address ∧ d.get? record.1 = some record.2 := by
  rw [← Dict.get?_eq_some_iff (d := bucket makeAddress d address) (k := record.1)
    (v := record.2), get?_bucket]
  by_cases haddress : makeAddress record.1 = address <;> simp [haddress]

/-- **The names at distinct addresses** are distinct. -/
theorem nodup_names {entries : List (PyString × PyBytes)} (h : (entries.map Prod.fst).Nodup) :
    ((entries.flatMap fun entry => (bucket makeAddress d entry.1).entries).map
      Prod.fst).Nodup := by
  induction entries with
  | nil => exact List.nodup_nil
  | cons entry entries ih =>
      rw [List.map_cons, List.nodup_cons] at h
      rw [List.flatMap_cons, List.map_append]
      refine List.Nodup.append (bucket makeAddress d entry.1).nodup (ih h.2) ?_
      intro name hfirst hrest
      obtain ⟨record, hrecord, rfl⟩ := List.mem_map.mp hfirst
      obtain ⟨other, hother, hname⟩ := List.mem_map.mp hrest
      obtain ⟨e, he, hmem⟩ := List.mem_flatMap.mp hother
      refine h.1 (List.mem_map.mpr ⟨e, he, ?_⟩)
      rw [← (mem_bucket_iff.mp hmem).1, hname, (mem_bucket_iff.mp hrecord).1]

end Listing

/-- An entry of a table's games. -/
theorem prefix_of_stateOf {d : Dict PyString Game} {address : PyString} {data : PyBytes}
    (hdata : stateOf utf8 (makeXoAddress utf8 sha512) d address = some data) :
    getPrefix utf8 sha512 <+: address := by
  have hne : (bucket (makeXoAddress utf8 sha512) d address).entries ≠ [] := by
    intro hempty
    rw [stateOf, if_pos hempty] at hdata
    simp at hdata
  obtain ⟨record, hrecord⟩ := List.exists_mem_of_ne_nil _ hne
  rw [← (mem_bucket_iff.mp hrecord).1]
  exact List.prefix_append _ _

/-- **Listing the games of a table.** -/
theorem doList_follows {context : PyContext} {d : Dict PyString Game} {table : Table}
    (h : Xo.Follows utf8 (makeXoAddress utf8 sha512) (XoState.new context) d table)
    {entries : List (PyString × PyBytes)} (hentries : Answered utf8 sha512 context entries) :
    ∃ names : List PyString, names.Nodup ∧ (∀ name, name ∈ names ↔ (table name).isSome) ∧
      doList utf8 entries
        = .ok (heading :: names.map fun name => gameLine name ((table name).getD [])) := by
  have hstored : ∀ address, context.data address
      = stateOf utf8 (makeXoAddress utf8 sha512) d address := h.refines.stored
  have hdata : ∀ entry ∈ entries,
      stateOf utf8 (makeXoAddress utf8 sha512) d entry.1 = some entry.2 := fun entry hentry =>
    (hstored entry.1) ▸ ((hentries.mem entry.1 entry.2).mp hentry).1
  obtain ⟨texts, records, htexts, hflatten, hperm⟩ := mapM_recordsOf h.refines.games hdata
  have hrecord : ∀ record ∈ records, d.get? record.1 = some record.2 := by
    intro record hmem
    obtain ⟨entry, -, hbucket⟩ := List.mem_flatMap.mp (hperm.mem_iff.mp hmem)
    exact (mem_bucket_iff.mp hbucket).2
  have hstorable : ∀ record ∈ records, NoSeparator record.1 ∧ record.2.Storable :=
    fun record hmem => (h.refines.games record.1 record.2 (hrecord record hmem)).2
  refine ⟨records.map Prod.fst,
    (hperm.map Prod.fst).nodup_iff.mpr (nodup_names hentries.nodup), fun name => ?_, ?_⟩
  · have hgame := h.games name
    constructor
    · rintro hname
      obtain ⟨record, hmem, rfl⟩ := List.mem_map.mp hname
      rw [hrecord record hmem] at hgame
      cases htable : table record.1 with
      | none => simp [htable] at hgame
      | some moves => rfl
    · intro hsome
      obtain ⟨moves, hmoves⟩ := Option.isSome_iff_exists.mp hsome
      rw [hmoves, Option.map_some] at hgame
      have hmem : (name, gameOf name moves)
          ∈ (bucket (makeXoAddress utf8 sha512) d (makeXoAddress utf8 sha512 name)).entries :=
        mem_bucket_iff.mpr ⟨rfl, hgame⟩
      have hne : stateOf utf8 (makeXoAddress utf8 sha512) d (makeXoAddress utf8 sha512 name)
          ≠ none := by
        intro hnone
        rw [bucket_of_none hnone] at hmem
        simp at hmem
      obtain ⟨data, hat⟩ := Option.ne_none_iff_exists'.mp hne
      have hentry := (hentries.mem _ data).mpr ⟨(hstored _).trans hat, prefix_of_stateOf hat⟩
      exact List.mem_map.mpr
        ⟨_, hperm.mem_iff.mpr (List.mem_flatMap.mpr ⟨_, hentry, hmem⟩), rfl⟩
  · unfold doList
    rw [htexts]
    show (do
      let lines ← texts.flatten.mapM recordLine
      return heading :: lines) = _
    rw [hflatten, mapM_recordLine hstorable, List.map_map]
    refine congrArg (fun lines => Except.ok (heading :: lines))
      (List.map_congr_left fun record hmem => ?_)
    have hgame := h.games record.1
    rw [hrecord record hmem] at hgame
    cases htable : table record.1 with
    | none => simp [htable] at hgame
    | some moves =>
        rw [htable, Option.map_some, Option.some.injEq] at hgame
        rw [hgame, Function.comp_apply, htable]
        rfl

/-! ### Runs of commands -/

/-- A player has a key that can be stored. -/
def PlayerOk (request : PyString × Command) : Prop := request.1 ≠ [] ∧ NoSeparator request.1

instance (request : PyString × Command) : Decidable (PlayerOk request) :=
  inferInstanceAs (Decidable (_ ∧ _))

variable (utf8 sha512) in
/-- **Commands follow the rules**, and validator state follows the commands. -/
theorem submit_follows (hint : ∀ z, int (Decimal.render z) = some z)
    {requests : List (PyString × Command)} (hplayers : ∀ request ∈ requests, PlayerOk request) :
    (trace (submit utf8 int sha512) .empty requests).map (fun e => e.2.isOk)
        = (trace obey (fun _ => none) requests).map Prod.snd ∧
      ∃ d, Xo.Follows utf8 (makeXoAddress utf8 sha512)
        (XoState.new (run (submit utf8 int sha512) .empty requests)) d
        (run obey (fun _ => none) requests) := by
  refine trace_abstraction (submit utf8 int sha512) Except.isOk id
    (fun context table => ∃ d,
      Xo.Follows utf8 (makeXoAddress utf8 sha512) (XoState.new context) d table)
    PlayerOk ?_ requests .empty (fun _ => none)
    ⟨Dict.empty, refines_empty, fun _ => rfl, by simp⟩ hplayers
  intro context table request h hplayer
  have hsigner : SignerOk (request.2.transaction utf8 sha512 request.1).forHandler := by
    cases hcommand : request.2 <;> exact hplayer
  have hstep := apply_refereed int h hsigner
  rwa [referee_transaction table hint request] at hstep

variable (utf8 sha512) in
/-- **What the players see.**  Over any commands of players with keys that can be stored, a command
is applied exactly when the rules allow it, and then "show" prints the game that the rules have
under a name, or fails where they have none. -/
theorem xo_show (hint : ∀ z, int (Decimal.render z) = some z)
    {requests : List (PyString × Command)} (hplayers : ∀ request ∈ requests, PlayerOk request) :
    (trace (submit utf8 int sha512) .empty requests).map (fun e => e.2.isOk)
        = (trace obey (fun _ => none) requests).map Prod.snd ∧
      ∀ name,
        (∀ moves, run obey (fun _ => none) requests name = some moves →
          doShow utf8 ((run (submit utf8 int sha512) .empty requests).data
            (getAddress utf8 sha512 name)) name = .ok (screen name moves)) ∧
        (run obey (fun _ => none) requests name = none →
          doShow utf8 ((run (submit utf8 int sha512) .empty requests).data
              (getAddress utf8 sha512 name)) name
            ∈ [.error (.xoException ("No such game: " ++ String.ofList name)),
              .error .keyError]) := by
  obtain ⟨hanswers, d, hd⟩ := submit_follows utf8 sha512 hint hplayers
  refine ⟨hanswers, fun name => ?_⟩
  have hgame := hd.games name
  have hstored : (run (submit utf8 int sha512) .empty requests).data (getAddress utf8 sha512 name)
      = stateOf utf8 (makeXoAddress utf8 sha512) d (makeXoAddress utf8 sha512 name) :=
    hd.refines.stored _
  rw [hstored]
  cases hstate : stateOf utf8 (makeXoAddress utf8 sha512) d (makeXoAddress utf8 sha512 name) with
  | none =>
      refine ⟨fun moves hmoves => ?_, fun _ => by simp [doShow]⟩
      rw [hmoves, Option.map_some] at hgame
      have hmem : (name, gameOf name moves)
          ∈ (bucket (makeXoAddress utf8 sha512) d (makeXoAddress utf8 sha512 name)).entries :=
        mem_bucket_iff.mpr ⟨rfl, hgame⟩
      rw [bucket_of_none hstate] at hmem
      simp at hmem
  | some data =>
      have hlookup := lookUp_stateOf hd.refines.games hstate
      rw [hgame] at hlookup
      refine ⟨fun moves hmoves => ?_, fun hnone => ?_⟩
      · rw [hmoves] at hlookup
        have hfound : lookUp utf8 data name = .ok (shownFields (gameOf name moves)) := hlookup
        rw [doShow, hfound]
        exact gameLines_gameOf name moves
      · rw [hnone] at hlookup
        have hmissing : lookUp utf8 data name = .error .keyError := hlookup
        simp [doShow, hmissing]

/-- The two take a square each, and one of them tries a third. -/
def twoPlayers : List (PyString × Command) :=
  [("alice".toList, .create "g".toList 3), ("alice".toList, .take "g".toList 5),
    ("bob".toList, .take "g".toList 1), ("bob".toList, .take "g".toList 2)]

/-- A digest under which no two texts have an address in common. -/
def plainDigest (data : PyBytes) : PyString := data.map fun byte => Char.ofNat byte.toNat

theorem xo_show_twoPlayers :
    (trace (submit .standard Decimal.parse plainDigest) .empty twoPlayers).map (fun e => e.2.isOk)
        = (trace obey (fun _ => none) twoPlayers).map Prod.snd ∧
      ∀ name,
        (∀ moves, run obey (fun _ => none) twoPlayers name = some moves →
          doShow .standard ((run (submit .standard Decimal.parse plainDigest) .empty
              twoPlayers).data (getAddress .standard plainDigest name)) name
            = .ok (screen name moves)) ∧
        (run obey (fun _ => none) twoPlayers name = none →
          doShow .standard ((run (submit .standard Decimal.parse plainDigest) .empty
              twoPlayers).data (getAddress .standard plainDigest name)) name
            ∈ [.error (.xoException ("No such game: " ++ String.ofList name)),
              .error .keyError]) :=
  xo_show .standard plainDigest Decimal.parse_render (by decide)

variable (utf8 sha512) in
/-- **The list of games.**  After any commands of players with keys that can be stored, "list"
prints one line for each game that the rules have, with its players, its board and its state. -/
theorem xo_list (hint : ∀ z, int (Decimal.render z) = some z)
    {requests : List (PyString × Command)} (hplayers : ∀ request ∈ requests, PlayerOk request)
    {entries : List (PyString × PyBytes)} (hentries : Answered utf8 sha512
      (run (submit utf8 int sha512) .empty requests) entries) :
    ∃ names : List PyString, names.Nodup ∧
      (∀ name, name ∈ names ↔ (run obey (fun _ => none) requests name).isSome) ∧
      doList utf8 entries = .ok (heading :: names.map fun name =>
        gameLine name ((run obey (fun _ => none) requests name).getD [])) := by
  obtain ⟨-, d, hd⟩ := submit_follows utf8 sha512 hint hplayers
  exact doList_follows hd hentries

/-- The name that a command is about. -/
def nameOf : Command → PyString
  | .create name _ => name
  | .take name _ => name
  | .delete name => name

/-- A command leaves the games under other names. -/
theorem obey_other {table : Table} {request : PyString × Command} {name : PyString}
    (h : nameOf request.2 ≠ name) : (obey table request).2 name = table name := by
  obtain ⟨player, command⟩ := request
  have hother : ∀ value, Function.update table (nameOf command) value name = table name :=
    fun _ => Function.update_of_ne (Ne.symm h) _ _
  cases command with
  | create game dimensions =>
      dsimp only [obey]
      split
      · exact hother _
      · rfl
  | take game space =>
      dsimp only [obey]
      split
      · rfl
      · split
        · exact hother _
        · rfl
  | delete game =>
      dsimp only [obey]
      split
      · exact hother _
      · rfl

/-- The entry of the game of the two. -/
def twoPlayersEntry : PyString × PyBytes :=
  (getAddress .standard plainDigest "g".toList,
    ((run (submit .standard Decimal.parse plainDigest) .empty twoPlayers).data
      (getAddress .standard plainDigest "g".toList)).getD [])

theorem obey_twoPlayers {name : PyString} (h : name ≠ "g".toList) :
    run obey (fun _ => none) twoPlayers name = none := by
  have hnames : ∀ request ∈ twoPlayers, nameOf request.2 = "g".toList := by decide
  exact run_frame obey (fun _ => True) (fun request => nameOf request.2 = "g".toList)
    (fun table => table name) (fun _ _ _ hrequest => ⟨trivial, obey_other (hrequest ▸ h.symm)⟩)
    twoPlayers _ trivial hnames

/-- Nothing else is stored. -/
theorem answered_twoPlayers : Answered .standard plainDigest
    (run (submit .standard Decimal.parse plainDigest) .empty twoPlayers) [twoPlayersEntry] where
  nodup := List.nodup_singleton _
  mem address data := by
    obtain ⟨-, d, hd⟩ := submit_follows .standard plainDigest Decimal.parse_render
      (show ∀ request ∈ twoPlayers, PlayerOk request by decide)
    obtain ⟨held, hheld⟩ := Option.isSome_iff_exists.mp (show ((run (submit .standard Decimal.parse
      plainDigest) .empty twoPlayers).data (getAddress .standard plainDigest
        "g".toList)).isSome = true by decide +kernel)
    have hentry : twoPlayersEntry = (getAddress .standard plainDigest "g".toList, held) := by
      rw [twoPlayersEntry, hheld, Option.getD_some]
    rw [hentry, List.mem_singleton, Prod.mk.injEq]
    constructor
    · rintro ⟨rfl, rfl⟩
      exact ⟨hheld, List.prefix_append _ _⟩
    · rintro ⟨hdata, -⟩
      have hstored : (run (submit .standard Decimal.parse plainDigest) .empty twoPlayers).data
          address = stateOf .standard (makeXoAddress .standard plainDigest) d address :=
        hd.refines.stored address
      have hne : (bucket (makeXoAddress .standard plainDigest) d address).entries ≠ [] := by
        intro hempty
        rw [hdata, stateOf, if_pos hempty] at hstored
        simp at hstored
      obtain ⟨record, hrecord⟩ := List.exists_mem_of_ne_nil _ hne
      obtain ⟨haddress, hget⟩ := mem_bucket_iff.mp hrecord
      have hname : record.1 = "g".toList := by
        by_contra hother
        rw [hd.games, obey_twoPlayers hother] at hget
        simp at hget
      obtain rfl : getAddress .standard plainDigest "g".toList = address := by
        rw [← haddress, hname]
        rfl
      exact ⟨rfl, Option.some.inj (hdata.symm.trans hheld)⟩

/-- The one line shows a square of each, and not the one that could not be taken. -/
theorem xo_list_twoPlayers : doList .standard [twoPlayersEntry]
    = .ok [heading, gameLine "g".toList [⟨5, "alice".toList⟩, ⟨1, "bob".toList⟩]] := by
  have hgame : run obey (fun _ => none) twoPlayers "g".toList
      = some [⟨5, "alice".toList⟩, ⟨1, "bob".toList⟩] := by decide +kernel
  have hplayers : ∀ request ∈ twoPlayers, PlayerOk request := by decide
  obtain ⟨names, hnodup, hnames, hlist⟩ :=
    xo_list .standard plainDigest Decimal.parse_render hplayers answered_twoPlayers
  have hall : ∀ name, name ∈ names ↔ name ∈ ["g".toList] := by
    intro name
    rw [hnames, List.mem_singleton]
    constructor
    · intro hsome
      by_contra hother
      rw [obey_twoPlayers hother] at hsome
      simp at hsome
    · rintro rfl
      rw [hgame]
      rfl
  obtain rfl := List.perm_singleton.mp
    ((List.perm_ext_iff_of_nodup hnodup (List.nodup_singleton _)).mpr hall)
  rw [hlist, List.map_singleton, hgame]
  rfl

/-! ### Declared addresses -/

theorem fromBytes_name {name action space : PyString} {payload : XoPayload}
    (haction : action ∈ ["create".toList, "take".toList, "delete".toList]) (hspace : ',' ∉ space)
    (h : XoPayload.fromBytes utf8 int (utf8.encode (pyJoin ',' [name, action, space]))
      = .ok payload) : payload.name = name := by
  by_cases hname : NameOk name
  · rw [fromBytes_of_nameOk hname haction hspace] at h
    split at h
    · cases hread : (int space).filter fun space => 1 ≤ space ∧ space < 10 with
      | none =>
          rw [hread] at h
          simp at h
      | some read =>
          rw [hread, Option.elim_some, Except.ok.injEq] at h
          rw [← h]
    · rw [← Except.ok.inj h]
  · obtain ⟨message, hrefused⟩ := fromBytes_of_not_nameOk utf8 int hname
      action space haction hspace
    rw [hrefused] at h
    simp at h

/-- The address of a command's transaction is the one it declares. -/
theorem addressOf_command {player : PyString} {command : Command} {address : PyString}
    (h : Xo.addressOf utf8 int (makeXoAddress utf8 sha512)
      (command.transaction utf8 sha512 player).forHandler = some address) :
    (command.transaction utf8 sha512 player).inputs = [address] ∧
      (command.transaction utf8 sha512 player).outputs = [address] := by
  have hdeclared : ∀ name action space : PyString,
      action ∈ ["create".toList, "take".toList, "delete".toList] → ',' ∉ space →
      Xo.addressOf utf8 int (makeXoAddress utf8 sha512)
        (sendXoTxn utf8 sha512 player name action space).forHandler = some address →
      getAddress utf8 sha512 name = address := by
    intro name action space haction hspace haddress
    unfold Xo.addressOf at haddress
    cases hread : XoPayload.fromBytes utf8 int
        (sendXoTxn utf8 sha512 player name action space).forHandler.payload with
    | error e =>
        rw [hread] at haddress
        simp at haddress
    | ok payload =>
        rw [hread, Option.some.injEq, fromBytes_name haction hspace hread] at haddress
        exact haddress
  cases command with
  | create name dimensions =>
      have haddress := hdeclared name "create".toList _ (by decide)
        (comma_not_mem_render dimensions) h
      exact ⟨congrArg ([·]) haddress, congrArg ([·]) haddress⟩
  | take name space =>
      have haddress := hdeclared name "take".toList _ (by decide) (comma_not_mem_render space) h
      exact ⟨congrArg ([·]) haddress, congrArg ([·]) haddress⟩
  | delete name =>
      have haddress := hdeclared name "delete".toList [] (by decide) (by simp) h
      exact ⟨congrArg ([·]) haddress, congrArg ([·]) haddress⟩

variable (utf8 int sha512) in
/-- **A command declares what it touches.**  In any validator state it changes nothing outside the
outputs of its transaction, and what it answers and what it leaves there depend on the inputs
alone. -/
theorem command_declares (player : PyString) (command : Command) (context : PyContext) :
    (∀ address, address ∉ (command.transaction utf8 sha512 player).outputs →
        (submit utf8 int sha512 context (player, command)).2.data address
          = context.data address) ∧
      ∀ context' : PyContext,
        (∀ address ∈ (command.transaction utf8 sha512 player).inputs,
          context.data address = context'.data address) →
        (submit utf8 int sha512 context (player, command)).1
            = (submit utf8 int sha512 context' (player, command)).1 ∧
          ∀ address ∈ (command.transaction utf8 sha512 player).outputs,
            (submit utf8 int sha512 context (player, command)).2.data address
              = (submit utf8 int sha512 context' (player, command)).2.data address := by
  have hlocal : Local (Xo.apply utf8 int (makeXoAddress utf8 sha512)) PyContext.data
    (Xo.addressOf utf8 int (makeXoAddress utf8 sha512)) := xo_local
  have hsame : (command.transaction utf8 sha512 player).inputs
      = (command.transaction utf8 sha512 player).outputs := by cases command <;> rfl
  refine ⟨fun address hout => hlocal.frame context _ address fun haddress => hout ?_,
    fun context' hinputs => ?_⟩
  · rw [(addressOf_command haddress).2]
    exact List.mem_singleton_self address
  have hagree : Footprint.Agree PyContext.data (Xo.addressOf utf8 int (makeXoAddress utf8 sha512)
      (command.transaction utf8 sha512 player).forHandler) context context' := by
    intro address haddress
    refine hinputs address ?_
    rw [(addressOf_command haddress).1]
    exact List.mem_singleton_self address
  refine ⟨hlocal.answer _ _ _ hagree, fun address hout => ?_⟩
  by_cases hkey : Xo.addressOf utf8 int (makeXoAddress utf8 sha512)
      (command.transaction utf8 sha512 player).forHandler = some address
  · exact hlocal.effect _ _ _ hagree address hkey
  · have hbefore := hlocal.frame context _ address hkey
    have hafter := hlocal.frame context' _ address hkey
    exact (hbefore.trans (hinputs address (hsame ▸ hout))).trans hafter.symm

end Evoting.XoClient

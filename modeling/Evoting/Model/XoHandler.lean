/-
`XoTransactionHandler`: the transactions of the XO game.

`int` is Python's conversion of a string to an integer, nothing where it raises a
`ValueError`.  The texts that `apply` logs are left out; of `_game_data_to_str`
there remains that it reads nine squares.
-/
import Evoting.Model.XoState

namespace Evoting

/-- `XoPayload`.  The space is a number when the action is "take"; of other actions nobody reads
it, and 0 stands for its text. -/
structure XoPayload where
  name : PyString
  action : PyString
  space : Int
  deriving DecidableEq, Repr

variable (utf8 : PyUtf8) (int : PyString → Option Int)

/-- `XoPayload.from_bytes`. -/
def XoPayload.fromBytes (payload : PyBytes) : Except PyException XoPayload :=
  match utf8.decode payload with
  | none => .error (.invalidTransaction "Invalid payload serialization")
  | some text =>
      match pySplit ',' text with
      | [name, action, space] =>
          if name = [] then .error (.invalidTransaction "Name is required")
          else if '|' ∈ name then .error (.invalidTransaction "Name cannot contain \"|\"")
          else if action = [] then .error (.invalidTransaction "Action is required")
          else if action ∉ ["create".toList, "take".toList, "delete".toList] then
            .error (.invalidTransaction ("Invalid action: " ++ String.ofList action))
          else if action = "take".toList then
            match int space with
            | none => .error (.invalidTransaction "Space must be an integer from 1 to 9")
            | some space =>
                if 1 ≤ space ∧ space < 10 then .ok ⟨name, action, space⟩
                else .error (.invalidTransaction "Space must be an integer from 1 to 9")
          else .ok ⟨name, action, 0⟩
      | _ => .error (.invalidTransaction "Invalid payload serialization")

namespace Xo

/-! ### States of a game -/

def P1_NEXT : PyString := "P1-NEXT".toList

def P2_NEXT : PyString := "P2-NEXT".toList

def P1_WIN : PyString := "P1-WIN".toList

def P2_WIN : PyString := "P2-WIN".toList

def TIE : PyString := "TIE".toList

/-! ### The board -/

/-- `board[index]`. -/
def square (board : PyString) (index : Int) : Except PyException Char :=
  let place := if 0 ≤ index then index else index + board.length
  if 0 ≤ place then
    match board[place.toNat]? with
    | some current => .ok current
    | none => .error .indexError
  else .error .indexError

/-- The mark `_update_board` places, if a branch assigns one. -/
def markOf (state : PyString) : Option Char :=
  if state = P1_NEXT then some 'X' else if state = P2_NEXT then some 'O' else none

/-- `_update_board`; the mark is read where the square is the one of the space. -/
def updateBoard (board : PyString) (space : Int) (state : PyString) :
    Except PyException PyString :=
  let index := space - 1
  (board.zipIdx).mapM fun current =>
    if (current.2 : Int) ≠ index then .ok current.1
    else
      match markOf state with
      | some mark => .ok mark
      | none => .error .unboundLocalError

/-- The lines of `_is_win`. -/
def wins : List (Int × Int × Int) :=
  [(1, 2, 3), (4, 5, 6), (7, 8, 9), (1, 4, 7), (2, 5, 8), (3, 6, 9), (1, 5, 9), (3, 5, 7)]

/-- The test of one line; a square is read only if those before it have the letter. -/
def isLine (board : PyString) (letter : Char) (win : Int × Int × Int) :
    Except PyException Bool := do
  if (← square board (win.1 - 1)) = letter then
    if (← square board (win.2.1 - 1)) = letter then
      return (← square board (win.2.2 - 1)) = letter
    else return false
  else return false

/-- `_is_win`. -/
def isWin (board : PyString) (letter : Char) : Except PyException Bool :=
  wins.anyM (isLine board letter)

/-- `_update_game_state`. -/
def updateGameState (gameState board : PyString) : Except PyException PyString := do
  let xWins ← isWin board 'X'
  let oWins ← isWin board 'O'
  if xWins ∧ oWins then .error (.internalError "Two winners (there can be only one)")
  else if xWins then return P1_WIN
  else if oWins then return P2_WIN
  else if '-' ∉ board then return TIE
  else if gameState = P1_NEXT then return P2_NEXT
  else if gameState = P2_NEXT then return P1_NEXT
  else if gameState ∈ ["P1-WINS".toList, "P2-WINS".toList, "TIE".toList] then return gameState
  else .error (.internalError ("Unhandled state: " ++ String.ofList gameState))

/-! ### Transactions -/

/-- The game that "create" stores. -/
def created (name : PyString) : Game := ⟨name, List.replicate 9 '-', P1_NEXT, [], []⟩

/-- The game that "take" stores.  The text of a taken space names the payload object. -/
def take (game : Game) (space : Int) (signer : PyString) : Except PyException Game := do
  if game.state ∈ [P1_WIN, P2_WIN, TIE] then
    .error (.invalidTransaction "Invalid Action: Game has ended")
  else if (game.player1 ≠ [] ∧ game.state = P1_NEXT ∧ game.player1 ≠ signer) ∨
      (game.player2 ≠ [] ∧ game.state = P2_NEXT ∧ game.player2 ≠ signer) then
    .error (.invalidTransaction ("Not this player's turn: " ++ String.ofList (signer.take 6)))
  else if (← square game.board (space - 1)) ≠ '-' then
    .error (.invalidTransaction "Invalid Action: space <XoPayload> already taken")
  else
    let player1 := if game.player1 = [] then signer else game.player1
    let player2 := if game.player1 ≠ [] ∧ game.player2 = [] then signer else game.player2
    let board ← updateBoard game.board space game.state
    let state ← updateGameState game.state board
    return ⟨game.name, board, state, player1, player2⟩

/-- `_game_data_to_str`: every square of the board is read. -/
def gameDataToStr (board : PyString) : Except PyException Unit :=
  if board.length < 9 then .error .indexError else .ok ()

variable (makeXoAddress : PyString → PyString)

/-- `apply` on a "delete". -/
def applyDelete (s : XoState) (name : PyString) : Except PyException Unit × XoState :=
  match s.getGame utf8 makeXoAddress name with
  | (.error e, s) => (.error e, s)
  | (.ok none, s) => (.error (.invalidTransaction "Invalid action: game does not exist"), s)
  | (.ok (some _), s) => s.deleteGame utf8 makeXoAddress name

/-- `apply` on a "create". -/
def applyCreate (s : XoState) (name : PyString) : Except PyException Unit × XoState :=
  match s.getGame utf8 makeXoAddress name with
  | (.error e, s) => (.error e, s)
  | (.ok (some _), s) => (.error (.invalidTransaction
      ("Invalid action: Game already exists: " ++ String.ofList name)), s)
  | (.ok none, s) => s.setGame utf8 makeXoAddress name (created name)

/-- `apply` on a "take". -/
def applyTake (s : XoState) (name : PyString) (space : Int) (signer : PyString) :
    Except PyException Unit × XoState :=
  match s.getGame utf8 makeXoAddress name with
  | (.error e, s) => (.error e, s)
  | (.ok none, s) =>
      (.error (.invalidTransaction "Invalid action: Take requires an existing game"), s)
  | (.ok (some game), s) =>
      match take game space signer with
      | .error e => (.error e, s)
      | .ok game =>
          match s.setGame utf8 makeXoAddress name game with
          | (.error e, s) => (.error e, s)
          | (.ok (), s) => (gameDataToStr game.board, s)

/-- The branches of `apply`. -/
def applyPayload (s : XoState) (payload : XoPayload) (signer : PyString) :
    Except PyException Unit × XoState :=
  if payload.action = "delete".toList then applyDelete utf8 makeXoAddress s payload.name
  else if payload.action = "create".toList then applyCreate utf8 makeXoAddress s payload.name
  else if payload.action = "take".toList then
    applyTake utf8 makeXoAddress s payload.name payload.space signer
  else
    (.error (.invalidTransaction ("Unhandled action: " ++ String.ofList payload.action)), s)

/-- What `apply` reads of a transaction. -/
structure Transaction where
  payload : PyBytes
  signerPublicKey : PyString
  deriving DecidableEq, Repr

/-- `XoTransactionHandler.apply`. -/
def apply (context : PyContext) (transaction : Transaction) :
    Except PyException Unit × PyContext :=
  match XoPayload.fromBytes utf8 int transaction.payload with
  | .error e => (.error e, context)
  | .ok payload =>
      let (result, s) := applyPayload utf8 makeXoAddress (XoState.new context) payload
        transaction.signerPublicKey
      (result, s.context)

end Xo

end Evoting

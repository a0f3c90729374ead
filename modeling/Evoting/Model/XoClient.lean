/-
`XoClient` and the `xo` command: the transactions that players send, and what they are
shown.

`sha512` is the digest in hexadecimal, a parameter.  A signer is its public key.  Of a
transaction header the fields stay that the handler or the validator reads; the REST
API is what it answers about validator state, base64 and YAML undone.  The status of a
batch, the credentials and the network are left out.
-/
import Evoting.Lib.Decimal
import Evoting.Model.XoHandler

namespace Evoting

/-- `_make_xo_address` of the handler. -/
def Xo.makeXoAddress (utf8 : PyUtf8) (sha512 : PyBytes → PyString) (name : PyString) : PyString :=
  (sha512 (utf8.encode "xo".toList)).take 6 ++ (sha512 (utf8.encode name)).take 64

namespace XoClient

variable (utf8 : PyUtf8) (sha512 : PyBytes → PyString)

/-- `_get_prefix`. -/
def getPrefix : PyString := (sha512 (utf8.encode "xo".toList)).take 6

/-- `_get_address`. -/
def getAddress (name : PyString) : PyString :=
  let xoPrefix := getPrefix utf8 sha512
  let gameAddress := (sha512 (utf8.encode name)).take 64
  xoPrefix ++ gameAddress

/-- The transaction that `_send_xo_txn` posts. -/
structure Transaction where
  signerPublicKey : PyString
  familyName : PyString
  familyVersion : PyString
  inputs : List PyString
  outputs : List PyString
  payload : PyBytes
  deriving DecidableEq, Repr

/-- `_send_xo_txn`; the space is the text of what the caller passes. -/
def sendXoTxn (signer name action space : PyString) : Transaction :=
  let payload := utf8.encode (pyJoin ',' [name, action, space])
  let address := getAddress utf8 sha512 name
  { signerPublicKey := signer
    familyName := "xo".toList
    familyVersion := "1.0".toList
    inputs := [address]
    outputs := [address]
    payload := payload }

/-- What the handler reads of a transaction. -/
def Transaction.forHandler (transaction : Transaction) : Xo.Transaction :=
  ⟨transaction.payload, transaction.signerPublicKey⟩

/-! ### Commands -/

/-- The commands that send a transaction, with the arguments that `argparse` has read. -/
inductive Command where
  | create (name : PyString) (dimensions : Int)
  | take (name : PyString) (space : Int)
  | delete (name : PyString)
  deriving DecidableEq, Repr

/-- `do_create`, `do_take` and `do_delete`, for the player whose key file is read. -/
def Command.transaction (player : PyString) : Command → Transaction
  | create name dimensions =>
      sendXoTxn utf8 sha512 player name "create".toList (Decimal.render dimensions)
  | take name space => sendXoTxn utf8 sha512 player name "take".toList (Decimal.render space)
  | delete name => sendXoTxn utf8 sha512 player name "delete".toList []

/-! ### Showing a game -/

/-- How a command ends that shows nothing. -/
inductive Failure where
  | xoException (message : String)
  | keyError
  | valueError
  | indexError
  | unicodeDecodeError
  deriving DecidableEq, Repr

/-- One record of the comprehension of `do_show`. -/
def readRecord (games : Dict PyString (PyString × PyString × PyString × PyString))
    (game : PyString) :
    Except Failure (Dict PyString (PyString × PyString × PyString × PyString)) :=
  match pySplit ',' game with
  | [name, board, state, player1, player2] => .ok (games.set name (board, state, player1, player2))
  | _ => .error .valueError

/-- The game that `do_show` looks up among the records. -/
def lookUp (data : PyBytes) (name : PyString) :
    Except Failure (PyString × PyString × PyString × PyString) :=
  match utf8.decode data with
  | none => .error .unicodeDecodeError
  | some text =>
      match (pySplit '|' text).foldlM readRecord Dict.empty with
      | .error e => .error e
      | .ok games =>
          match games.get? name with
          | some game => .ok game
          | none => .error .keyError

/-- `board_str.replace("-", " ")`. -/
def shownSquare (c : Char) : Char := if c = '-' then ' ' else c

/-- `board[index]`; an index below zero counts from the end. -/
def boardAt (board : PyString) (index : Int) : Except Failure Char :=
  let place := if 0 ≤ index then index else index + board.length
  if 0 ≤ place then
    match board[place.toNat]? with
    | some c => .ok c
    | none => .error .indexError
  else .error .indexError

/-- The line with a row of the board. -/
def rowLine (board : PyString) (dimensions x : Int) : Except Failure PyString := do
  let cells ← (List.range (dimensions - 1).toNat).mapM fun (y : Nat) =>
    boardAt board (y + x * dimensions)
  let last ← boardAt board ((dimensions - 1) + x * dimensions)
  return (cells.map fun c => [' ', c, ' ', '|']).flatten ++ [' ', last, ' ']

/-- The line below a row. -/
def ruleLine (board : PyString) (dimensions x : Int) : Except Failure PyString := do
  let _ ← (List.range (dimensions - 1).toNat).mapM fun (y : Nat) =>
    boardAt board (y + x * dimensions)
  let _ ← boardAt board ((dimensions - 1) + x * dimensions)
  return (List.replicate (dimensions - 1).toNat "---|".toList).flatten ++ "---".toList

/-- The lines with the board. -/
def boardLines (board : PyString) (dimensions : Int) : Except Failure (List PyString) := do
  let above ← (List.range (dimensions - 1).toNat).mapM fun (x : Nat) => do
    let row ← rowLine board dimensions x
    let rule ← ruleLine board dimensions x
    return [row, rule]
  let last ← rowLine board dimensions (dimensions - 1)
  return above.flatten ++ [last]

/-- What `do_show` prints of a game. -/
def gameLines (name : PyString) (game : PyString × PyString × PyString × PyString) :
    Except Failure (List PyString) := do
  let (boardStr, gameState, player1, player2) := game
  let board := boardStr.map shownSquare
  let dimensions : Int := (boardStr.length.sqrt : Nat)
  let lines ← boardLines board dimensions
  return [Decimal.render boardStr.length, "GAME:     : ".toList ++ name,
    "PLAYER 1  : ".toList ++ player1.take 6, "PLAYER 2  : ".toList ++ player2.take 6,
    "STATE     : ".toList ++ gameState, []] ++ lines ++ [[]]

/-- `do_show`: the lines it prints, with what is stored at the address of the name. -/
def doShow (stored : Option PyBytes) (name : PyString) : Except Failure (List PyString) :=
  match stored with
  | none => .error (.xoException ("No such game: " ++ String.ofList name))
  | some data =>
      match lookUp utf8 data name with
      | .error e => .error e
      | .ok game => gameLines name game

/-! ### Listing the games -/

/-- A text at the left of a column. -/
def leftIn (width : Nat) (text : PyString) : PyString :=
  text ++ List.replicate (width - text.length) ' '

/-- `fmt % (...)`. -/
def listLine (game player1 player2 board state : PyString) : PyString :=
  leftIn 15 game ++ [' '] ++ leftIn 15 (player1.take 15) ++ [' '] ++
    leftIn 15 (player2.take 15) ++ [' '] ++ leftIn 9 board ++ [' '] ++ state

/-- The line of a record. -/
def recordLine (game : PyString) : Except Failure PyString :=
  match pySplit ',' game with
  | [name, board, state, player1, player2] =>
      .ok (listLine name (player1.take 6) (player2.take 6) board state)
  | _ => .error .valueError

/-- The records in the data of one entry. -/
def recordsOf (data : PyBytes) : Except Failure (List PyString) :=
  match utf8.decode data with
  | none => .error .unicodeDecodeError
  | some text => .ok (pySplit '|' text)

/-- `do_list`: the lines it prints, with the entries that are answered for the prefix. -/
def doList (entries : List (PyString × PyBytes)) : Except Failure (List PyString) := do
  let games ← entries.mapM fun entry => recordsOf utf8 entry.2
  let lines ← games.flatten.mapM recordLine
  return listLine "GAME".toList "PLAYER 1".toList "PLAYER 2".toList "BOARD".toList
    "STATE".toList :: lines

end XoClient

end Evoting

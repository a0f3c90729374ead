/-
`XoState`: games in validator state, with a cache of what was read and written.

All games whose names have one address share an entry, the records of the games
separated by '|'.  The address of a name is a parameter, so that names may share
one.  What the context does not let the caller see (the timeouts, and the addresses
that a request reports) is left out.
-/
import Evoting.Lib.Dict
import Evoting.Python.Basic

namespace Evoting

/-- `Game`. -/
structure Game where
  name : PyString
  board : PyString
  state : PyString
  player1 : PyString
  player2 : PyString
  deriving DecidableEq, Repr

/-- `XoState`. -/
structure XoState where
  context : PyContext
  /-- `_address_cache`; no bytes stand for an address that is known to hold nothing. -/
  addressCache : Dict PyString (Option PyBytes)

namespace XoState

variable (utf8 : PyUtf8) (makeXoAddress : PyString → PyString)

/-- The constructor. -/
def new (context : PyContext) : XoState := ⟨context, Dict.empty⟩

/-- One pass of the loop of `_deserialize`. -/
def readGame (games : Dict PyString Game) (game : PyString) :
    Except PyException (Dict PyString Game) :=
  match pySplit ',' game with
  | [name, board, state, player1, player2] =>
      .ok (games.set name ⟨name, board, state, player1, player2⟩)
  | _ => .error (.internalError "Failed to deserialize game data")

/-- `_deserialize`. -/
def deserialize (data : PyBytes) : Except PyException (Dict PyString Game) :=
  match utf8.decode data with
  | none => .error (.internalError "Failed to deserialize game data")
  | some text => (pySplit '|' text).foldlM readGame Dict.empty

/-- The record `_serialize` writes for a game, under the name it is stored under. -/
def gameStr (entry : PyString × Game) : PyString :=
  pyJoin ',' [entry.1, entry.2.board, entry.2.state, entry.2.player1, entry.2.player2]

/-- `_serialize`. -/
def serialize (games : Dict PyString Game) : PyBytes :=
  utf8.encode (pyJoin '|' (pySorted (games.entries.map gameStr)))

/-- `_store_game`. -/
def storeGame (s : XoState) (gameName : PyString) (games : Dict PyString Game) : XoState :=
  let address := makeXoAddress gameName
  let stateData := serialize utf8 games
  { addressCache := s.addressCache.set address (some stateData)
    context := (s.context.setState [(address, stateData)]).2 }

/-- `_delete_game`. -/
def deleteStored (s : XoState) (gameName : PyString) : XoState :=
  let address := makeXoAddress gameName
  { context := (s.context.deleteState [address]).2
    addressCache := s.addressCache.set address none }

/-- `_load_games`. -/
def loadGames (s : XoState) (gameName : PyString) :
    Except PyException (Dict PyString Game) × XoState :=
  let address := makeXoAddress gameName
  match s.addressCache.get? address with
  | some none => (.ok Dict.empty, s)
  | some (some serializedGames) =>
      if serializedGames ≠ [] then (deserialize utf8 serializedGames, s) else (.ok Dict.empty, s)
  | none =>
      match s.context.getState [address] with
      | entry :: _ =>
          (deserialize utf8 entry.2,
            { s with addressCache := s.addressCache.set address (some entry.2) })
      | [] => (.ok Dict.empty, { s with addressCache := s.addressCache.set address none })

/-- `get_game`. -/
def getGame (s : XoState) (gameName : PyString) : Except PyException (Option Game) × XoState :=
  match loadGames utf8 makeXoAddress s gameName with
  | (.error e, s) => (.error e, s)
  | (.ok games, s) => (.ok (games.get? gameName), s)

/-- `set_game`. -/
def setGame (s : XoState) (gameName : PyString) (game : Game) :
    Except PyException Unit × XoState :=
  match loadGames utf8 makeXoAddress s gameName with
  | (.error e, s) => (.error e, s)
  | (.ok games, s) => (.ok (), storeGame utf8 makeXoAddress s gameName (games.set gameName game))

/-- `delete_game`. -/
def deleteGame (s : XoState) (gameName : PyString) : Except PyException Unit × XoState :=
  match loadGames utf8 makeXoAddress s gameName with
  | (.error e, s) => (.error e, s)
  | (.ok games, s) =>
      if games.get? gameName = none then (.error .keyError, s)
      else
        let games := games.erase gameName
        if games.entries ≠ [] then (.ok (), storeGame utf8 makeXoAddress s gameName games)
        else (.ok (), deleteStored makeXoAddress s gameName)

end XoState

/-- A call on an `XoState`. -/
inductive XoCall where
  | getGame (gameName : PyString)
  | setGame (gameName : PyString) (game : Game)
  | deleteGame (gameName : PyString)
  deriving DecidableEq

/-- What a call returns. -/
inductive XoAnswer where
  | game (game : Option Game)
  | done
  | raised (e : PyException)
  deriving DecidableEq

/-- The answer of a call that returns nothing. -/
def XoAnswer.ofResult : Except PyException Unit → XoAnswer
  | .ok () => .done
  | .error e => .raised e

/-- **One call.** -/
def XoState.step (utf8 : PyUtf8) (makeXoAddress : PyString → PyString) (s : XoState) :
    XoCall → XoAnswer × XoState
  | .getGame gameName =>
      match s.getGame utf8 makeXoAddress gameName with
      | (.ok game, s) => (.game game, s)
      | (.error e, s) => (.raised e, s)
  | .setGame gameName game =>
      let (result, s) := s.setGame utf8 makeXoAddress gameName game
      (.ofResult result, s)
  | .deleteGame gameName =>
      let (result, s) := s.deleteGame utf8 makeXoAddress gameName
      (.ofResult result, s)

end Evoting

/-
How `BasicElectionHandler` keeps elections in validator state.

A state entry is a list of records separated by '|', a record is the three fields
of an `ElectionData` separated by ','.  `getStateData` looks a record up by a
prefix comparison, `storeElectionData` replaces the record its own prefix
comparison finds.
-/
import Evoting.Java.Basic
import Mathlib.Logic.Function.Basic

namespace Evoting

/-- A validator state address. -/
abbrev Address := JString

/-- `BasicElectionHandler.ElectionData`. -/
structure ElectionData where
  electionName : JString
  cipher : JString
  pubKey : JString
  deriving DecidableEq, Repr

/-- What the validator holds at each address; an address without data holds the
empty byte string, as the comment in `apply` says of `getState`. -/
structure Context where
  data : Address → ByteString

namespace Context

/-- Nothing stored anywhere. -/
def empty : Context := ⟨fun _ => []⟩

/-- `context.getState(Collections.singletonList(address)).get(address)`. -/
def getState (context : Context) (address : Address) : ByteString :=
  context.data address

/-- The state with one address overwritten. -/
def put (context : Context) (address : Address) (value : ByteString) : Context :=
  ⟨Function.update context.data address value⟩

@[simp] theorem put_data_self (context : Context) (address : Address) (value : ByteString) :
    (context.put address value).data address = value :=
  Function.update_self ..

theorem put_data_of_ne (context : Context) {address a : Address} (value : ByteString)
    (h : a ≠ address) : (context.put address value).data a = context.data a :=
  Function.update_of_ne h ..

/-- `context.setState` with one entry: the addresses that were set, and the state after. -/
def setState (context : Context) (address : Address) (value : ByteString) :
    List Address × Context :=
  ([address], context.put address value)

end Context

namespace ElectionData

/-- The record `getStateData` returns when there is none. -/
def absent : ElectionData := ⟨[], [], []⟩

/-- `String.format("%s,%s,%s", electionName, cipher, pubKey)`. -/
def csv (gameData : ElectionData) : JString :=
  joinStrings ',' [gameData.electionName, gameData.cipher, gameData.pubKey]

end ElectionData

/-- `BasicElectionHandler.getGameCsv`. -/
def getGameCsv (stateEntry gameName : JString) : JString :=
  ((splitString '|' stateEntry).find? fun gameCsv => regionMatches gameCsv gameName).getD []

/-- `BasicElectionHandler.getStateData`.  Its `catch (Error e)` never runs: nothing
in the block throws an `Error`. -/
def getStateData (stateEntry gameName : JString) : ElectionData :=
  if stateEntry.length = 0 then .absent
  else
    let electionList := Fields.pad 3 (splitString ',' (getGameCsv stateEntry gameName))
    ⟨electionList.getD 0 [], electionList.getD 1 [], electionList.getD 2 []⟩

/-- The entry `storeElectionData` writes.  Its loop runs up to and including
`dataList.size()` and leaves at the first index that is the size or whose element
matches, which is what `findIdx` returns. -/
def updatedEntry (gameData : ElectionData) (stateEntry : JString) : Except Throwable JString :=
  if stateEntry.length = 0 then .ok gameData.csv
  else do
    let dataList := splitString '|' stateEntry
    let i := dataList.findIdx fun entry => regionMatches entry gameData.electionName
    let dataList ← arrayListSet dataList i gameData.csv
    return joinStrings '|' dataList

/-- `BasicElectionHandler.storeElectionData`. -/
def storeElectionData (utf8 : Utf8) (address : Address) (gameData : ElectionData)
    (stateEntry : JString) (context : Context) : Except Throwable Unit × Context :=
  match updatedEntry gameData stateEntry with
  | .error e => (.error e, context)
  | .ok entry =>
      let (addresses, context) := context.setState address (utf8.copyFromUtf8 entry)
      if addresses.length < 1 then (.error (.internalError "State Error"), context)
      else (.ok (), context)

end Evoting

/-
`IntegerKeyHandler`: integers under names, kept in validator state.

Names that share an address share an entry, a CBOR map from names to integers.  The
CBOR library and the address of a name are parameters; a `CborException` is written
as the `InternalError` that `apply` makes of it.  `Long.decode` returns no null, so
the branch "Value is required" is left out.
-/
import Evoting.Java.Long
import Evoting.Lib.Cbor
import Evoting.Lib.Dict
import Evoting.Model.Record

namespace Evoting

/-! ### The CBOR library -/

/-- What `decodeNext` of a `CborDecoder` ends in. -/
inductive DataItem where
  /-- A map: its keys and values, by their `toString`. -/
  | map (entries : List (JString × JString))
  /-- An item of another type. -/
  | other
  /-- `null`, where nothing is left to read. -/
  | null
  | cborException (text : String)
  deriving DecidableEq, Repr

/-- The library, as far as the handler uses it: of the maps it writes, each has one entry. -/
structure CborLibrary where
  decodeNext : ByteString → DataItem
  encodeMap : JString → Int → ByteString
  /-- A map is read back; a Java string has fewer than 2^31 characters. -/
  decodeNext_encodeMap : ∀ name value, name.length < 2 ^ 31 → Long.InRange value →
    decodeNext (encodeMap name value) = .map [(name, Long.toText value)]
  decodeNext_nil : decodeNext [] = .null

namespace CborLibrary

/-- The text of an item of a map. -/
def textOf : Cbor.Scalar → JString
  | .integer v => Decimal.render v
  | .text s => s

theorem fits_text {name : JString} (h : name.length < 2 ^ 31) : (Cbor.Scalar.text name).Fits := by
  have hlength := Cbor.length_textBytes_le name
  show (Cbor.textBytes name).length < 2 ^ 64
  omega

theorem fits_integer {value : Int} (h : Long.InRange value) : (Cbor.Scalar.integer value).Fits := by
  obtain ⟨hle, hlt⟩ := h
  constructor <;> omega

/-- Maps of texts and integers; nothing else is read. -/
def standard : CborLibrary where
  decodeNext bytes :=
    if bytes = [] then .null
    else
      match Cbor.readMap bytes with
      | some (entries, _) => .map (entries.map fun e => (textOf e.1, textOf e.2))
      | none => .cborException ""
  encodeMap name value := Cbor.writeMap [(.text name, .integer value)]
  decodeNext_encodeMap name value hname hvalue := by
    have hfits : ∀ e ∈ [(Cbor.Scalar.text name, Cbor.Scalar.integer value)],
        e.1.Fits ∧ e.2.Fits := by
      simpa using ⟨fits_text hname, fits_integer hvalue⟩
    have hread := Cbor.readMap_writeMap (by simp) hfits []
    rw [List.append_nil] at hread
    rw [hread, if_neg (by simp [Cbor.writeMap, Cbor.writeHead])]
    rfl
  decodeNext_nil := rfl

end CborLibrary

namespace IntegerKeyHandler

def MIN_VALUE : Int := 0

def MAX_VALUE : Int := 4294967295

def MAX_NAME_LENGTH : Nat := 20

variable (cbor : CborLibrary) (digits : CharacterDigits)

/-! ### Decoding -/

/-- What `decodePayload` and `decodeState` start with. -/
def decodeMap (bytes : ByteString) : Except Throwable (List (JString × JString)) :=
  match cbor.decodeNext bytes with
  | .map entries => .ok entries
  | .other => .error .classCast
  | .null => .error .nullPointer
  | .cborException text => .error (.internalError ("Cbor Error" ++ text))

/-- `decodePayload`. -/
def decodePayload (bytes : ByteString) : Except Throwable (Dict JString JString) := do
  let entries ← decodeMap cbor bytes
  return entries.foldl (fun result e => result.set e.1 e.2) Dict.empty

/-- One pass of the loop of `decodeState`. -/
def putLong (result : Dict JString Int) (e : JString × JString) :
    Except Throwable (Dict JString Int) := do
  let value ← Long.decode digits e.2
  return result.set e.1 value

/-- `decodeState`. -/
def decodeState (bytes : ByteString) : Except Throwable (Dict JString Int) := do
  let entries ← decodeMap cbor bytes
  entries.foldlM (putLong digits) Dict.empty

/-- `encodeState`. -/
def encodeState (address : Address) (name : JString) (value : Int) : Address × ByteString :=
  (address, cbor.encodeMap name value)

/-! ### The payload -/

/-- What `apply` takes from a payload. -/
structure Update where
  name : JString
  verb : JString
  value : Int
  deriving DecidableEq, Repr

/-- `map.get(key).toString()`. -/
def getText (updateMap : Dict JString JString) (key : String) : Except Throwable JString :=
  match updateMap.get? key.toList with
  | some text => .ok text
  | none => .error .nullPointer

/-- The checks of `apply` up to the address. -/
def readUpdate (payload : ByteString) : Except Throwable Update :=
  if payload.length = 0 then .error (.invalidTransaction "Payload is required.")
  else do
    let updateMap ← decodePayload cbor payload
    let name ← getText updateMap "Name"
    if utf16Length name = 0 then .error (.invalidTransaction "Name is required")
    else if utf16Length name > MAX_NAME_LENGTH then
      .error (.invalidTransaction ("Name must be a string of no more than "
        ++ String.ofList (Long.toText MAX_NAME_LENGTH) ++ " characters"))
    else
      let verb ← getText updateMap "Verb"
      if utf16Length verb = 0 then .error (.invalidTransaction "Verb is required")
      else if ¬["set".toList, "dec".toList, "inc".toList].contains verb then
        .error (.invalidTransaction ("Verb must be set, inc, or dec, not " ++ String.ofList verb))
      else
        let text ← getText updateMap "Value"
        match Long.decode digits text with
        | .error _ => .error (.invalidTransaction "Value must be an integer")
        | .ok value =>
            if value > MAX_VALUE ∨ value < MIN_VALUE then
              .error (.invalidTransaction ("Value must be an integer no less than "
                ++ String.ofList (Long.toText MIN_VALUE) ++ " and no greater than "
                ++ String.ofList (Long.toText MAX_VALUE)))
            else .ok ⟨name, verb, value⟩

/-! ### The verbs

Each gives the value that is to be stored, from the bytes at the address. -/

/-- The branch "set". -/
def setValue (stateValueRep : ByteString) (name : JString) (value : Int) :
    Except Throwable Int := do
  let stateValue ←
    if stateValueRep.length > 0 then decodeState cbor digits stateValueRep else .ok Dict.empty
  match stateValue.get? name with
  | some current =>
      .error (.invalidTransaction ("Verb is set but Name already in state, Name: "
        ++ String.ofList name ++ " Value: " ++ String.ofList (Long.toText current)))
  | none =>
      if value < 0 then .error (.invalidTransaction "Verb is set but Value is less than 0")
      else return value

/-- The value that "inc" and "dec" start from. -/
def currentValue (message : String) (stateValueRep : ByteString) (name : JString) :
    Except Throwable Int :=
  if stateValueRep.length = 0 then .error (.invalidTransaction message)
  else do
    let stateValue ← decodeState cbor digits stateValueRep
    match stateValue.get? name with
    | none => .error (.invalidTransaction message)
    | some current => return current

/-- The branch "inc". -/
def incValue (stateValueRep : ByteString) (name : JString) (value : Int) :
    Except Throwable Int := do
  let current ←
    currentValue cbor digits "Verb is inc but Name is not in state" stateValueRep name
  if Long.add current value > MAX_VALUE then
    .error (.invalidTransaction ("Inc would set Value to greater than "
      ++ String.ofList (Long.toText MAX_VALUE)))
  else return Long.add current value

/-- The branch "dec". -/
def decValue (stateValueRep : ByteString) (name : JString) (value : Int) :
    Except Throwable Int := do
  let current ←
    currentValue cbor digits "Verb is dec but Name is not in state" stateValueRep name
  if Long.sub current value < MIN_VALUE then
    .error (.invalidTransaction ("Dec would set Value to less than "
      ++ String.ofList (Long.toText MIN_VALUE)))
  else return Long.sub current value

/-- The branch of a verb; without one no address is set. -/
def newValue (stateValueRep : ByteString) (update : Update) : Except Throwable Int :=
  if update.verb = "set".toList then setValue cbor digits stateValueRep update.name update.value
  else if update.verb = "inc".toList then
    incValue cbor digits stateValueRep update.name update.value
  else if update.verb = "dec".toList then
    decValue cbor digits stateValueRep update.name update.value
  else .error (.internalError "State error!.")

variable (makeAddress : JString → Address)

/-- `IntegerKeyHandler.apply`. -/
def apply (context : Context) (payload : ByteString) : Except Throwable Unit × Context :=
  match readUpdate cbor digits payload with
  | .error e => (.error e, context)
  | .ok update =>
      let address := makeAddress update.name
      match newValue cbor digits (context.getState address) update with
      | .error e => (.error e, context)
      | .ok value =>
          let entry := encodeState cbor address update.name value
          let (addresses, context) := context.setState entry.1 entry.2
          if addresses.length = 0 then (.error (.internalError "State error!."), context)
          else (.ok (), context)

end IntegerKeyHandler

end Evoting

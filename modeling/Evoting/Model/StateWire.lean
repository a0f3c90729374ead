/-
The messages of a context and the validator on the wire.

The numbers and the types of the fields are those of `state_context.proto` and
`events.proto`.  `MessageLibrary.wire` is the library that reads and writes this.
-/
import Evoting.Model.Messages
import Evoting.Model.StateMessages

namespace Evoting.StreamContext

open Wire Genesis

/-! ### Statuses -/

def StateStatus.number : StateStatus → Nat
  | STATUS_UNSET => 0
  | OK => 1
  | AUTHORIZATION_ERROR => 2
  | UNRECOGNIZED => 3

def StateStatus.ofNumber : Nat → StateStatus
  | 0 => STATUS_UNSET
  | 1 => OK
  | 2 => AUTHORIZATION_ERROR
  | _ => UNRECOGNIZED

@[simp] theorem StateStatus.ofNumber_number (status : StateStatus) :
    ofNumber status.number = status := by
  cases status <;> rfl

def AddStatus.number : AddStatus → Nat
  | STATUS_UNSET => 0
  | OK => 1
  | ERROR => 2
  | UNRECOGNIZED => 3

def AddStatus.ofNumber : Nat → AddStatus
  | 0 => STATUS_UNSET
  | 1 => OK
  | 2 => ERROR
  | _ => UNRECOGNIZED

@[simp] theorem AddStatus.ofNumber_number (status : AddStatus) :
    ofNumber status.number = status := by
  cases status <;> rfl

variable (utf8 : PyUtf8)

/-! ### Pairs and lists of texts -/

/-- A `TpStateEntry`. -/
def writeEntry (entry : Address × ByteString) : ByteString :=
  writeMessage (textField utf8 1 entry.1 ++ bytesField 2 entry.2)

def parseEntry (bytes : ByteString) : Option (Address × ByteString) := do
  let fields ← readMessage bytes
  let address ← Genesis.textOf utf8 1 fields
  return (address, lastBytes 2 fields)

@[simp] theorem parseEntry_writeEntry (entry : Address × ByteString) :
    parseEntry utf8 (writeEntry utf8 entry) = some entry := by
  have haddress : Genesis.textOf utf8 1 (textField utf8 1 entry.1 ++ bytesField 2 entry.2)
      = some entry.1 := textOf_textField utf8 (by simp)
  have hdata : lastBytes 2 (textField utf8 1 entry.1 ++ bytesField 2 entry.2) = entry.2 :=
    lastBytes_eq (by simp [textField])
  rw [parseEntry, writeEntry, readMessage_writeMessage_bind, haddress, Option.bind_eq_bind,
    Option.bind_some, hdata]
  rfl

/-- An attribute of an event. -/
def writeAttribute (pair : JString × JString) : ByteString :=
  writeMessage (textField utf8 1 pair.1 ++ textField utf8 2 pair.2)

def parseAttribute (bytes : ByteString) : Option (JString × JString) := do
  let fields ← readMessage bytes
  let key ← Genesis.textOf utf8 1 fields
  let value ← Genesis.textOf utf8 2 fields
  return (key, value)

@[simp] theorem parseAttribute_writeAttribute (pair : JString × JString) :
    parseAttribute utf8 (writeAttribute utf8 pair) = some pair := by
  rw [parseAttribute, writeAttribute, readMessage_writeMessage_bind,
    textOf_textField utf8 (s := pair.1) (by simp [textField]), Option.bind_eq_bind,
    Option.bind_some, textOf_textField utf8 (s := pair.2) (by simp [textField])]
  rfl

/-- A repeated field of texts. -/
def textsField (number : Nat) (l : List JString) : List Field :=
  repeatedField number (l.map utf8.encode)

theorem textsOf_textsField {number : Nat} {l : List JString} {fields : List Field}
    (h : bytesOf number fields = bytesOf number (textsField utf8 number l)) :
    Genesis.textsOf utf8 number fields = some l := by
  rw [Genesis.textsOf, h, textsField, bytesOf_repeatedField, mapM_map_eq_some utf8.decode_encode]

/-! ### Requests -/

/-- An `Event`. -/
def writeEvent (eventType : JString) (attributes : List (JString × JString)) (data : ByteString) :
    ByteString :=
  writeMessage (textField utf8 1 eventType
    ++ repeatedField 2 (attributes.map (writeAttribute utf8)) ++ bytesField 3 data)

def parseEvent (bytes : ByteString) : Option Request := do
  let fields ← readMessage bytes
  let eventType ← Genesis.textOf utf8 1 fields
  let attributes ← (bytesOf 2 fields).mapM (parseAttribute utf8)
  return .addEvent eventType attributes (lastBytes 3 fields)

/-- The fields of a request after the id of its context. -/
def bodyFields : Request → List Field
  | .getState addresses => textsField utf8 2 addresses
  | .setState entries => repeatedField 2 (entries.map (writeEntry utf8))
  | .deleteState addresses => textsField utf8 2 addresses
  | .addReceiptData data => bytesField 3 data
  | .addEvent eventType attributes data =>
      repeatedField 2 [writeEvent utf8 eventType attributes data]

def parseBody (messageType : MessageType) (fields : List Field) : Option Request :=
  match messageType with
  | .other 7 => (Genesis.textsOf utf8 2 fields).map .getState
  | .other 9 => ((bytesOf 2 fields).mapM (parseEntry utf8)).map .setState
  | .other 11 => (Genesis.textsOf utf8 2 fields).map .deleteState
  | .other 13 => some (.addReceiptData (lastBytes 3 fields))
  | .other 15 => parseEvent utf8 (lastBytes 2 fields)
  | _ => none

/-- The bytes of a request of the context `contextId`. -/
def writeRequest (contextId : JString) (request : Request) : ByteString :=
  writeMessage (textField utf8 1 contextId ++ bodyFields utf8 request)

/-- The validator's reading of a message: the id of the context, and the request. -/
def parseRequest (messageType : MessageType) (bytes : ByteString) :
    Option (JString × Request) := do
  let fields ← readMessage bytes
  let contextId ← Genesis.textOf utf8 1 fields
  let request ← parseBody utf8 messageType fields
  return (contextId, request)

theorem parseEvent_writeEvent (eventType : JString) (attributes : List (JString × JString))
    (data : ByteString) :
    parseEvent utf8 (writeEvent utf8 eventType attributes data)
      = some (.addEvent eventType attributes data) := by
  have hdata : lastBytes 3 (textField utf8 1 eventType
      ++ repeatedField 2 (attributes.map (writeAttribute utf8)) ++ bytesField 3 data) = data :=
    lastBytes_eq (by simp [textField])
  rw [parseEvent, writeEvent, readMessage_writeMessage_bind,
    textOf_textField utf8 (s := eventType) (by simp), hdata]
  simp [textField, mapM_map_eq_some (parseAttribute_writeAttribute utf8)]

theorem parseBody_bodyFields (contextId : JString) (request : Request) :
    parseBody utf8 (messageType request) (textField utf8 1 contextId ++ bodyFields utf8 request)
      = some request := by
  cases request with
  | getState addresses =>
      rw [messageType, parseBody, textsOf_textsField utf8 (l := addresses)
        (by simp [bodyFields, textField])]
      rfl
  | setState entries =>
      simp [messageType, parseBody, bodyFields, textField,
        mapM_map_eq_some (parseEntry_writeEntry utf8)]
  | deleteState addresses =>
      rw [messageType, parseBody, textsOf_textsField utf8 (l := addresses)
        (by simp [bodyFields, textField])]
      rfl
  | addReceiptData data =>
      have hdata : lastBytes 3
            (textField utf8 1 contextId ++ bodyFields utf8 (.addReceiptData data))
          = data := lastBytes_eq (by simp [bodyFields, textField])
      rw [messageType, parseBody, hdata]
  | addEvent eventType attributes data =>
      rw [← parseEvent_writeEvent utf8 eventType attributes data]
      simp [messageType, parseBody, bodyFields, textField, lastBytes]

/-- **A request is read as it was written.** -/
theorem parseRequest_writeRequest (contextId : JString) (request : Request) :
    parseRequest utf8 (messageType request) (writeRequest utf8 contextId request)
      = some (contextId, request) := by
  have hbody : bytesOf 1 (bodyFields utf8 request) = [] := by
    cases request <;> simp [bodyFields, textsField]
  have hcontext : Genesis.textOf utf8 1 (textField utf8 1 contextId ++ bodyFields utf8 request)
      = some contextId := textOf_textField utf8 (by simp [hbody])
  rw [parseRequest, writeRequest, readMessage_writeMessage_bind, hcontext, Option.bind_eq_bind,
    Option.bind_some, parseBody_bodyFields]
  rfl

/-! ### Responses -/

def writeResponse : Response → ByteString
  | .entries status entries =>
      writeMessage (repeatedField 1 (entries.map (writeEntry utf8)) ++ varintField 2 status.number)
  | .addresses status addresses =>
      writeMessage (textsField utf8 1 addresses ++ varintField 2 status.number)
  | .added status => writeMessage (varintField 2 status.number)

/-- `parseFrom`, of the type that answers the request. -/
def parseResponse (request : Request) (bytes : ByteString) : Option Response := do
  let fields ← readMessage bytes
  let status := lastVarint 2 fields
  match request with
  | .getState _ =>
      let entries ← (bytesOf 1 fields).mapM (parseEntry utf8)
      return .entries (.ofNumber status) entries
  | .setState _ | .deleteState _ =>
      let addresses ← Genesis.textsOf utf8 1 fields
      return .addresses (.ofNumber status) addresses
  | .addReceiptData _ | .addEvent _ _ _ => return .added (.ofNumber status)

/-- **A response is read as it was written**, where it is asked for. -/
theorem parseResponse_writeResponse {request : Request} {response : Response}
    (h : response.Answers request) :
    parseResponse utf8 request (writeResponse utf8 response) = some response := by
  cases response with
  | entries status entries =>
      have hstatus : lastVarint 2 (repeatedField 1 (entries.map (writeEntry utf8))
          ++ varintField 2 status.number) = status.number := lastVarint_eq (by simp)
      cases request with
      | getState _ =>
          simp [parseResponse, writeResponse, hstatus,
            mapM_map_eq_some (parseEntry_writeEntry utf8)]
      | _ => exact absurd h id
  | addresses status addresses =>
      have hstatus : lastVarint 2 (textsField utf8 1 addresses ++ varintField 2 status.number)
          = status.number := lastVarint_eq (by simp [textsField])
      have haddresses : Genesis.textsOf utf8 1 (textsField utf8 1 addresses
          ++ varintField 2 status.number) = some addresses := textsOf_textsField utf8 (by simp)
      cases request with
      | setState _ => simp [parseResponse, writeResponse, hstatus, haddresses]
      | deleteState _ => simp [parseResponse, writeResponse, hstatus, haddresses]
      | _ => exact absurd h id
  | added status =>
      have hstatus : lastVarint 2 (varintField 2 status.number) = status.number :=
        lastVarint_eq rfl
      cases request with
      | addReceiptData _ => simp [parseResponse, writeResponse, hstatus]
      | addEvent _ _ _ => simp [parseResponse, writeResponse, hstatus]
      | _ => exact absurd h id

/-- The library, on the wire format. -/
def MessageLibrary.wire : MessageLibrary where
  writeRequest := StreamContext.writeRequest utf8
  parseRequest := StreamContext.parseRequest utf8
  writeResponse := StreamContext.writeResponse utf8
  parseResponse := StreamContext.parseResponse utf8
  parseRequest_writeRequest := StreamContext.parseRequest_writeRequest utf8
  parseResponse_writeResponse := StreamContext.parseResponse_writeResponse utf8

end Evoting.StreamContext

/-
What a context and the validator say to each other.

The numbers of the message types are those of `validator.proto`.  The protobuf library is a
parameter: the validator reads a request as it was written, and the context a response that
answers its request.
-/
import Evoting.Model.Record
import Evoting.Model.Stream

namespace Evoting.StreamContext

/-- `TpStateGetRequest`, `TpStateSetRequest`, `TpStateDeleteRequest`, `TpReceiptAddDataRequest`
and `TpEventAddRequest`, without the id of the context. -/
inductive Request where
  | getState (addresses : List Address)
  | setState (entries : List (Address × ByteString))
  | deleteState (addresses : List Address)
  | addReceiptData (data : ByteString)
  /-- An event with its type, its attributes and its data; data that is null is not set. -/
  | addEvent (eventType : JString) (attributes : List (JString × JString)) (data : ByteString)
  deriving DecidableEq, Repr

/-- The statuses of the first three responses. -/
inductive StateStatus where
  | STATUS_UNSET
  | OK
  | AUTHORIZATION_ERROR
  | UNRECOGNIZED
  deriving DecidableEq, Repr

/-- Those of the other two. -/
inductive AddStatus where
  | STATUS_UNSET
  | OK
  | ERROR
  | UNRECOGNIZED
  deriving DecidableEq, Repr

inductive Response where
  /-- `TpStateGetResponse` -/
  | entries (status : StateStatus) (entries : List (Address × ByteString))
  /-- `TpStateSetResponse` and `TpStateDeleteResponse` -/
  | addresses (status : StateStatus) (addresses : List Address)
  /-- `TpReceiptAddDataResponse` and `TpEventAddResponse` -/
  | added (status : AddStatus)
  deriving DecidableEq, Repr

/-- The response has the type that answers the request. -/
def Response.Answers : Response → Request → Prop
  | entries _ _, .getState _ => True
  | addresses _ _, .setState _ => True
  | addresses _ _, .deleteState _ => True
  | added _, .addReceiptData _ => True
  | added _, .addEvent _ _ _ => True
  | _, _ => False

/-- The numbers of the requests in `Message.MessageType`. -/
def messageType : Request → MessageType
  | .getState _ => .other 7
  | .setState _ => .other 9
  | .deleteState _ => .other 11
  | .addReceiptData _ => .other 13
  | .addEvent _ _ _ => .other 15

def responseType : Request → MessageType
  | .getState _ => .other 8
  | .setState _ => .other 10
  | .deleteState _ => .other 12
  | .addReceiptData _ => .other 14
  | .addEvent _ _ _ => .other 16

/-- The protobuf library, for these messages. -/
structure MessageLibrary where
  /-- The bytes of a request of the context `contextId`. -/
  writeRequest : JString → Request → ByteString
  /-- The validator's reading of a message: the id of the context, and the request. -/
  parseRequest : MessageType → ByteString → Option (JString × Request)
  writeResponse : Response → ByteString
  /-- `parseFrom`, of the type that answers the request. -/
  parseResponse : Request → ByteString → Option Response
  parseRequest_writeRequest : ∀ contextId request,
    parseRequest (messageType request) (writeRequest contextId request)
      = some (contextId, request)
  parseResponse_writeResponse : ∀ {request response}, Response.Answers response request →
    parseResponse request (writeResponse response) = some response

end Evoting.StreamContext

/-
`ZmqStream`, the background threads behind it, and futures.

A future that `send` returns is an object of its own: the stream keeps one result
for each, and the map from correlation ids to futures refers to them.  The methods
of the stream and the handlers of the two threads are functions on its state.
Messages on their way to the validator are what `send` and `sendBack` give back.
-/
import Evoting.Java.Basic
import Evoting.Lib.Dict

namespace Evoting

/-- The values of `Message.MessageType` that the processor tells apart, and the others by
their numbers. -/
inductive MessageType where
  | TP_PROCESS_REQUEST
  | TP_PROCESS_RESPONSE
  | PING_REQUEST
  | PING_RESPONSE
  | other (number : Nat)
  deriving DecidableEq, Repr

/-- protobuf's `Message`. -/
structure Message where
  messageType : MessageType
  correlationId : JString
  content : ByteString
  deriving DecidableEq, Repr

/-- A `FutureByteString` by its place, or a `FutureError`. -/
inductive Future where
  | byteString (place : Nat)
  | error
  deriving DecidableEq, Repr

/-- What `getResult` does. -/
inductive GetResult where
  | result (byteString : ByteString)
  /-- It waits, or times out. -/
  | pending
  | validatorConnectionError
  deriving DecidableEq, Repr

structure ZmqStream where
  futureHashMap : Dict JString Future
  /-- The `result` of each `FutureByteString`, in the order of their construction. -/
  results : List (Option ByteString)
  /-- A wrapper without a message stands for a disconnect. -/
  receiveQueue : List (Option Message)

namespace Future

/-- `getResult`. -/
def getResult (future : Future) (s : ZmqStream) : GetResult :=
  match future with
  | byteString place =>
      match s.results[place]? with
      | some (some result) => .result result
      | _ => .pending
  | error => .validatorConnectionError

/-- `setResult`; nothing when it throws a `ValidatorConnectionError`. -/
def setResult (future : Future) (bytes : ByteString) (s : ZmqStream) : Option ZmqStream :=
  match future with
  | byteString place => some { s with results := s.results.set place (some bytes) }
  | error => none

end Future

namespace ZmqStream

/-- The constructor. -/
def new : ZmqStream := ⟨Dict.empty, [], []⟩

/-- `send`, with the id that `generateId` returns: the future, and the message sent. -/
def send (id : JString) (destination : MessageType) (contents : ByteString) (s : ZmqStream) :
    Future × Message × ZmqStream :=
  let message : Message := ⟨destination, id, contents⟩
  let future := Future.byteString s.results.length
  (future, message, { s with
    futureHashMap := s.futureHashMap.set message.correlationId future
    results := s.results ++ [none] })

/-- `receive`: the first wrapper's message, once there is a wrapper.  Until then it waits,
or throws a `TimeoutException`. -/
def receive (s : ZmqStream) : Option (Option Message) × ZmqStream :=
  match s.receiveQueue with
  | wrapper :: receiveQueue => (some wrapper, { s with receiveQueue := receiveQueue })
  | [] => (none, s)

/-- `Receiver.handle`, from the message `parseFrom` returns.  What it throws, or what
`setResult` throws, is caught and printed. -/
def handle (parsed : Option Message) (s : ZmqStream) : ZmqStream :=
  match parsed with
  | none => s
  | some message =>
      match s.futureHashMap.get? message.correlationId with
      | some future =>
          match future.setResult message.content s with
          | some s => { s with futureHashMap := s.futureHashMap.erase message.correlationId }
          | none => s
      | none => { s with receiveQueue := s.receiveQueue ++ [some message] }

/-- `DisconnectThread.run`, at a disconnect. -/
def disconnected (s : ZmqStream) : ZmqStream :=
  { s with
    futureHashMap := s.futureHashMap.mapValues fun _ => .error
    receiveQueue := [none] }

end ZmqStream

/-- What happens at a stream. -/
inductive StreamEvent where
  | send (id : JString) (destination : MessageType) (contents : ByteString)
  | receive
  /-- Bytes arrive; nothing when they are not a message. -/
  | arrival (parsed : Option Message)
  | disconnect
  deriving DecidableEq

/-- What the caller of a method gets. -/
inductive StreamAnswer where
  | sent (future : Future) (message : Message)
  | received (message : Option Message)
  /-- `receive` has found nothing. -/
  | waiting
  | handled
  deriving DecidableEq

/-- **One event.** -/
def ZmqStream.step (s : ZmqStream) : StreamEvent → StreamAnswer × ZmqStream
  | .send id destination contents =>
      let (future, message, s) := s.send id destination contents
      (.sent future message, s)
  | .receive =>
      match s.receive with
      | (some message, s) => (.received message, s)
      | (none, s) => (.waiting, s)
  | .arrival parsed => (.handled, s.handle parsed)
  | .disconnect => (.handled, s.disconnected)

end Evoting

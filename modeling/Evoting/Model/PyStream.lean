/-
The Python `Stream`: its thread, its futures, and a connection that comes and goes.

The thread runs an event loop, whose coroutines take turns; the callers of `send`,
`send_back` and `receive` act between any two steps of it.  So each test of the event, each
`put`, the end of `put_message`, the callback and the coroutine that it schedules, and each
pass of a loop is a step of its own.  The callers are left open: they may take any of their
steps at any time, as a thread can that has passed its test or its wait earlier.

`_monitor_disconnects` goes over the futures without their lock.  A future that is put
meanwhile ends it with a `RuntimeError`: then the event loop runs on, nobody stops it, and
the thread never connects again.

A future is an object of its own: the stream keeps one value for each, and the collection
refers to them by correlation id.  `close` is left out.
-/
import Evoting.Lib.Dict
import Evoting.Python.Basic

namespace Evoting.PyStream

/-- `validator_pb2.Message`. -/
structure Message where
  messageType : Nat
  correlationId : PyString
  content : PyBytes
  deriving DecidableEq, Repr

/-- What a future is resolved with: a `FutureResult` or a `FutureError`. -/
inductive FutureValue where
  | result (messageType : Nat) (content : PyBytes)
  | error
  deriving DecidableEq, Repr

/-- What `receive` gives: a message, or the `RECONNECT_EVENT`. -/
inductive Item where
  | message (message : Message)
  | reconnect
  deriving DecidableEq, Repr

/-- Where the thread is. -/
inductive Loop where
  /-- The event is set, and the coroutines take turns. -/
  | running
  /-- `_monitor_disconnects` has cleared the event. -/
  | cleared
  /-- It is at a place of the futures, of which there were so many when it began. -/
  | settling (position size : Nat)
  /-- It has ended with a `RuntimeError`; the others take turns. -/
  | stuck
  /-- It has stopped the event loop. -/
  | stopped
  deriving DecidableEq, Repr

/-- `Stream`, with its thread. -/
structure Stream where
  loop : Loop
  /-- `_futures`: the place of each future. -/
  futures : Dict PyString Nat
  /-- The `_result` of each future, in the order of their construction. -/
  values : List (Option FutureValue)
  /-- `_receive_message` is running. -/
  receiving : Bool
  /-- The callbacks of `run_coroutine_threadsafe` that are waiting, by their messages. -/
  scheduled : List Message
  /-- The tasks of `_put_message` that have not run, by their messages. -/
  tasks : List Message
  sendQueue : List Message
  recvQueue : List Item

namespace Stream

/-- The constructor, once it is connected. -/
def new : Stream := ⟨.running, Dict.empty, [], true, [], [], [], []⟩

/-- `is_ready`: whether `_event` is set. -/
def isReady (s : Stream) : Bool := s.loop = .running

/-- The coroutines take turns. -/
def takesTurns (s : Stream) : Bool := s.loop = .running ∨ s.loop = .stuck

/-! ### `FutureCollection` -/

/-- `put`, of a new future. -/
def put (message : Message) (s : Stream) : Nat × Stream :=
  (s.values.length, { s with
    futures := s.futures.set message.correlationId s.values.length
    values := s.values ++ [none] })

/-- `set_result`; nothing when it raises a `FutureCollectionKeyError`. -/
def setResult (correlationId : PyString) (result : FutureValue) (s : Stream) : Option Stream :=
  match s.futures.get? correlationId with
  | some future => some { s with values := s.values.set future (some result) }
  | none => none

/-- `remove`; nothing when it raises a `FutureCollectionKeyError`. -/
def remove (correlationId : PyString) (s : Stream) : Option Stream :=
  match s.futures.get? correlationId with
  | some _ => some { s with futures := s.futures.erase correlationId }
  | none => none

/-! ### `_SendReceiveThread` -/

/-- One pass of the loop of `_receive_message`, with the message that the bytes are.  Once the
event is cleared a pass is the last one, and queues nothing. -/
def receiveMessage (parsed : Option Message) (s : Stream) : Stream :=
  if s.receiving ∧ s.takesTurns then
    match parsed with
    | none => { s with receiving := false }
    | some message =>
        match (s.setResult message.correlationId
            (.result message.messageType message.content)).bind
              (remove message.correlationId) with
        | some s => { s with receiving := s.isReady }
        | none =>
            if s.isReady then { s with recvQueue := s.recvQueue ++ [.message message] }
            else { s with receiving := false }
  else s

/-- One pass of the loop of `_send_message`.  A socket that is disconnected takes nothing. -/
def sendMessage (s : Stream) : Option Message × Stream :=
  match s.isReady, s.sendQueue with
  | true, message :: sendQueue => (some message, { s with sendQueue := sendQueue })
  | _, _ => (none, s)

/-- `put_message` after its wait: `run_coroutine_threadsafe` of `_put_message`. -/
def putMessage (message : Message) (s : Stream) : Stream :=
  { s with scheduled := s.scheduled ++ [message] }

/-- The callback, which makes a task.  The last pass of an event loop that has stopped may still
come to it. -/
def startPutMessage (s : Stream) : Stream :=
  match s.takesTurns || s.loop = .stopped, s.scheduled with
  | true, message :: scheduled =>
      { s with scheduled := scheduled, tasks := s.tasks ++ [message] }
  | _, _ => s

/-- The task: `_put_message`. -/
def runPutMessage (s : Stream) : Stream :=
  match s.takesTurns, s.tasks with
  | true, message :: tasks => { s with tasks := tasks, sendQueue := s.sendQueue ++ [message] }
  | _, _ => s

/-- `_get_message`: the first item, once there is one. -/
def getMessage (s : Stream) : Option Item × Stream :=
  match s.takesTurns, s.recvQueue with
  | true, item :: recvQueue => (some item, { s with recvQueue := recvQueue })
  | _, _ => (none, s)

/-- `_monitor_disconnects`, as far as it clears the event. -/
def monitorDisconnects (s : Stream) : Stream :=
  if s.isReady then { s with loop := .cleared } else s

/-- One pass of its loop over the futures.  Where there are as many as there were, the next one
gets an error; after the last one the tasks are cancelled, the event loop is stopped and the
queues are given up. -/
def settle (s : Stream) : Stream :=
  match s.loop with
  | .cleared => { s with loop := .settling 0 s.futures.entries.length }
  | .settling position size =>
      if s.futures.entries.length = size then
        match s.futures.entries[position]? with
        | some (_, future) =>
            { s with
              values := s.values.set future (some .error)
              loop := .settling (position + 1) size }
        | none =>
            { s with
              loop := .stopped, receiving := false, tasks := [], sendQueue := [], recvQueue := [] }
      else { s with loop := .stuck }
  | _ => s

/-- The next pass of the loop of `run`, once the event loop has stopped. -/
def connect (s : Stream) : Stream :=
  if s.loop = .stopped then
    { s with loop := .running, receiving := true, sendQueue := [], recvQueue := [.reconnect] }
  else s

end Stream

/-- What happens at a stream. -/
inductive Event where
  /-- The test of `send`, `send_back` and `put_message`: the first two raise a
  `ValidatorConnectionError` if it fails, the last one returns. -/
  | isReady
  | put (message : Message)
  | putMessage (message : Message)
  | startPutMessage
  | runPutMessage
  | getMessage
  /-- A message leaves. -/
  | sendMessage
  /-- Bytes arrive; nothing when they are not a message. -/
  | arrival (parsed : Option Message)
  | disconnect
  | settle
  | connect
  deriving DecidableEq

inductive Answer where
  | ready (event : Bool)
  | future (place : Nat)
  | received (item : Option Item)
  | sent (message : Option Message)
  | handled
  deriving DecidableEq

/-- **One step.** -/
def Stream.step (s : Stream) : Event → Answer × Stream
  | .isReady => (.ready s.isReady, s)
  | .put message => (.future (s.put message).1, (s.put message).2)
  | .putMessage message => (.handled, s.putMessage message)
  | .startPutMessage => (.handled, s.startPutMessage)
  | .runPutMessage => (.handled, s.runPutMessage)
  | .getMessage => (.received s.getMessage.1, s.getMessage.2)
  | .sendMessage => (.sent s.sendMessage.1, s.sendMessage.2)
  | .arrival parsed => (.handled, s.receiveMessage parsed)
  | .disconnect => (.handled, s.monitorDisconnects)
  | .settle => (.handled, s.settle)
  | .connect => (.handled, s.connect)

end Evoting.PyStream

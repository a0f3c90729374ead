/-
`TransactionProcessor`: the loop that answers the validator's messages, and the one that
answers what is left of them at shutdown.

A transaction handler is its two names and an `apply`, which may read and write
state (`σ`: the handlers' own, and the validator's behind their contexts).  It
returns, or throws one of its two declared exceptions with a message that is not
null.  `TpProcessRequest.parseFrom` is protobuf's; it is a parameter.
-/
import Evoting.Model.Stream

namespace Evoting.TransactionProcessor

/-- What the processor reads of a `TransactionHeader`. -/
structure TransactionHeader where
  familyName : JString
  familyVersion : JString
  deriving DecidableEq, Repr

structure TpProcessRequest where
  header : TransactionHeader
  payload : ByteString
  signature : JString
  contextId : JString
  deriving DecidableEq, Repr

inductive Status where
  | OK
  | INVALID_TRANSACTION
  | INTERNAL_ERROR
  deriving DecidableEq, Repr

structure TpProcessResponse where
  status : Status
  message : JString
  extendedData : ByteString
  deriving DecidableEq, Repr

/-- How `apply` ends; the extended data may be null. -/
inductive Outcome where
  | returned
  | invalidTransaction (message : JString) (extendedData : Option ByteString)
  | internalError (message : JString) (extendedData : Option ByteString)
  deriving DecidableEq, Repr

/-- `TransactionHandler`.  `apply` gets the request, and a context with its id. -/
structure TransactionHandler (σ : Type) where
  transactionFamilyName : JString
  getVersion : JString
  apply : TpProcessRequest → JString → σ → Outcome × σ

/-- What `sendBack` sends: the content of a response, with a correlation id. -/
inductive Reply where
  | PING_RESPONSE (correlationId : JString)
  | TP_PROCESS_RESPONSE (correlationId : JString) (response : TpProcessResponse)
  deriving DecidableEq, Repr

/-- The processor: its fields, the state of its handlers, and whether `run` has not left its
loop. -/
structure Processor (σ : Type) where
  handlers : List (TransactionHandler σ)
  currentMessage : Option Message
  state : σ
  running : Bool

variable {σ : Type} (parseFrom : ByteString → Option TpProcessRequest)

/-- The response `process` builds.  Fields that are not set are empty. -/
def buildResponse : Outcome → TpProcessResponse
  | .returned => ⟨.OK, [], []⟩
  | .invalidTransaction message extendedData =>
      ⟨.INVALID_TRANSACTION, message, extendedData.getD []⟩
  | .internalError message extendedData => ⟨.INTERNAL_ERROR, message, extendedData.getD []⟩

/-- `process`.  Content that is not a request is logged. -/
def process (message : Message) (handler : TransactionHandler σ) (state : σ) : List Reply × σ :=
  match parseFrom message.content with
  | none => ([], state)
  | some transactionRequest =>
      let (outcome, state) :=
        handler.apply transactionRequest transactionRequest.contextId state
      ([.TP_PROCESS_RESPONSE message.correlationId (buildResponse outcome)], state)

/-- The loop of `findHandler`. -/
def handlerFor (handlers : List (TransactionHandler σ)) (header : TransactionHeader) :
    Option (TransactionHandler σ) :=
  handlers.find? fun handler =>
    header.familyName = handler.transactionFamilyName ∧ header.familyVersion = handler.getVersion

/-- `findHandler`; it parses the current message, not its argument. -/
def findHandler (p : Processor σ) (_message : Message) :
    Except Throwable (Option (TransactionHandler σ)) :=
  match p.currentMessage with
  | none => .error .nullPointer
  | some currentMessage =>
      match parseFrom currentMessage.content with
      | none => .ok none
      | some transactionRequest => .ok (handlerFor p.handlers transactionRequest.header)

/-- One pass of the loop of `run`, with the message `receive` returns. -/
def dispatch (p : Processor σ) (message : Message) : List Reply × Processor σ :=
  let p := { p with currentMessage := some message }
  match message.messageType with
  | .PING_REQUEST => ([.PING_RESPONSE message.correlationId], { p with currentMessage := none })
  | .TP_PROCESS_REQUEST =>
      match findHandler parseFrom p message with
      | .error _ => ([], { p with running := false })
      | .ok none => ([], { p with running := false })
      | .ok (some handler) =>
          let (replies, state) := process parseFrom message handler p.state
          (replies, { p with state := state, currentMessage := none })
  | _ => ([], { p with currentMessage := none })

/-- **One message for the processor.**  Without handlers, and once it has left the loop,
`run` receives nothing. -/
def step (p : Processor σ) (message : Message) : List Reply × Processor σ :=
  if p.running ∧ p.handlers ≠ [] then dispatch parseFrom p message else ([], p)

/-! ### Shutdown -/

/-- What the shutdown hook does: what it sends back, each message with the handler whose
`apply` was called for it, the state it leaves, and what gets out of it. -/
structure Shutdown (σ : Type) where
  replies : List Reply
  calls : List (Message × TransactionHandler σ)
  state : σ
  thrown : Option Throwable

namespace Shutdown

/-- Nothing more is done. -/
def ends (state : σ) (thrown : Option Throwable) : Shutdown σ := ⟨[], [], state, thrown⟩

/-- One pass of the loop of `Shutdown.run`.  A handler that is null is called when the content
has been parsed, and not before. -/
def pass (p : Processor σ) (message : Message) (state : σ) : Shutdown σ :=
  match findHandler parseFrom p message with
  | .error e => ends state (some e)
  | .ok handler =>
      match parseFrom message.content, handler with
      | none, _ => ends state none
      | some _, none => ends state (some .nullPointer)
      | some _, some handler =>
          let (replies, state) := process parseFrom message handler state
          ⟨replies, [(message, handler)], state, none⟩

/-- The loop, over the messages that `message` is set to.  It is left at a message that is
null, and at an empty queue with a `TimeoutException`, which is caught. -/
def loop (p : Processor σ) : List (Option Message) → σ → Shutdown σ
  | [], state => ends state none
  | none :: _, state => ends state none
  | some message :: rest, state =>
      let first := pass parseFrom p message state
      if first.thrown = none then
        let next := loop p rest first.state
        ⟨first.replies ++ next.replies, first.calls ++ next.calls, next.state, next.thrown⟩
      else first

/-- `Shutdown.run`: whether a handler has been registered, and whether the validator answers
the request to unregister; the exceptions of `getResult` are caught. -/
def run (registered answered : Bool) (p : Processor σ) (receiveQueue : List (Option Message)) :
    Shutdown σ :=
  if registered ∧ answered then
    loop parseFrom p
      (match p.currentMessage with
      | some message => some message :: receiveQueue
      | none => receiveQueue)
      p.state
  else ends p.state none

end Shutdown

/-- Before the first message. -/
def started (handlers : List (TransactionHandler σ)) (state : σ) : Processor σ :=
  ⟨handlers, none, state, true⟩

end Evoting.TransactionProcessor

/-
A processor with the handlers that the example programs register.

`Processor` takes a handler at its word: `apply` returns, or throws one of its two
declared exceptions.  The handlers here do throw others.  Those get past both
`catch` clauses of `process` and end the thread of `run`, with the message still the
current one, so the shutdown hook finds it there.

The header's signer is kept beside a request, as a handler may read it.  Contexts of
later requests see what the earlier ones wrote.
-/
import Evoting.Model.Handler
import Evoting.Model.IntKey
import Evoting.Model.Processor

namespace Evoting.Service

open TransactionProcessor (TransactionHeader Outcome Reply buildResponse)

structure Request extends TransactionProcessor.TpProcessRequest where
  signerPublicKey : JString
  deriving DecidableEq, Repr

/-- `TransactionHandler`, with an `apply` that may throw anything. -/
structure Handler (σ : Type) where
  transactionFamilyName : JString
  getVersion : JString
  apply : Request → σ → Except Throwable Unit × σ

/-- The processor: its fields, the state of its handlers, whether `run` has not ended, and what
it has thrown. -/
structure Processor (σ : Type) where
  handlers : List (Handler σ)
  currentMessage : Option Message
  state : σ
  running : Bool
  thrown : Option Throwable

variable {σ : Type} (parseFrom : ByteString → Option Request)

/-- The two `catch` clauses around `apply`; an exception of a handler has no extended data. -/
def outcomeOf : Except Throwable Unit → Except Throwable Outcome
  | .ok () => .ok .returned
  | .error (.invalidTransaction message) => .ok (.invalidTransaction message.toList none)
  | .error (.internalError message) => .ok (.internalError message.toList none)
  | .error e => .error e

/-- `process`: what it sends back or throws, and the state it leaves. -/
def process (message : Message) (handler : Handler σ) (state : σ) :
    Except Throwable (List Reply) × σ :=
  match parseFrom message.content with
  | none => (.ok [], state)
  | some transactionRequest =>
      let (result, state) := handler.apply transactionRequest state
      ((outcomeOf result).map fun outcome =>
        [.TP_PROCESS_RESPONSE message.correlationId (buildResponse outcome)], state)

/-- The loop of `findHandler`. -/
def handlerFor (handlers : List (Handler σ)) (header : TransactionHeader) : Option (Handler σ) :=
  handlers.find? fun handler =>
    header.familyName = handler.transactionFamilyName ∧ header.familyVersion = handler.getVersion

/-- `findHandler`, of the current message. -/
def findHandler (s : Processor σ) : Except Throwable (Option (Handler σ)) :=
  match s.currentMessage with
  | none => .error .nullPointer
  | some currentMessage =>
      match parseFrom currentMessage.content with
      | none => .ok none
      | some transactionRequest => .ok (handlerFor s.handlers transactionRequest.header)

/-- One pass of the loop of `run`, with the message `receive` returns. -/
def dispatch (s : Processor σ) (message : Message) : List Reply × Processor σ :=
  let s := { s with currentMessage := some message }
  match message.messageType with
  | .PING_REQUEST => ([.PING_RESPONSE message.correlationId], { s with currentMessage := none })
  | .TP_PROCESS_REQUEST =>
      match findHandler parseFrom s with
      | .error e => ([], { s with running := false, thrown := some e })
      | .ok none => ([], { s with running := false })
      | .ok (some handler) =>
          match process parseFrom message handler s.state with
          | (.error e, state) =>
              ([], { s with state := state, running := false, thrown := some e })
          | (.ok replies, state) => (replies, { s with state := state, currentMessage := none })
  | _ => ([], { s with currentMessage := none })

/-- **One message for the processor.**  Nothing is received once `run` has ended. -/
def step (s : Processor σ) (message : Message) : List Reply × Processor σ :=
  if s.running ∧ s.handlers ≠ [] then dispatch parseFrom s message else ([], s)

/-- The handlers are registered before the first message. -/
def started (handlers : List (Handler σ)) (state : σ) : Processor σ :=
  ⟨handlers, none, state, true, none⟩

/-! ### Shutdown -/

/-- One pass of the loop of `Shutdown.run`. -/
def leftOver (s : Processor σ) (message : Message) (state : σ) :
    Except Throwable (List Reply) × σ :=
  match findHandler parseFrom s with
  | .error e => (.error e, state)
  | .ok handler =>
      match parseFrom message.content, handler with
      | none, _ => (.ok [], state)
      | some _, none => (.error .nullPointer, state)
      | some _, some handler => process parseFrom message handler state

/-- The loop, over the messages that `message` is set to, up to one that is null: what it
sends back. -/
def leftOvers (s : Processor σ) : List (Option Message) → σ → List Reply
  | some message :: rest, state =>
      match leftOver parseFrom s message state with
      | (.error _, _) => []
      | (.ok replies, state) => replies ++ leftOvers s rest state
  | _, _ => []

/-- `Shutdown.run`: whether a handler has been registered, and whether the validator answers
the request to unregister. -/
def shutdown (registered answered : Bool) (s : Processor σ) (receiveQueue : List (Option Message)) :
    List Reply :=
  if registered ∧ answered then
    leftOvers parseFrom s
      (match s.currentMessage with
      | some message => some message :: receiveQueue
      | none => receiveQueue)
      s.state
  else []

/-! ### The handlers -/

/-- `BasicElectionHandler`. -/
def electionHandler (platform : Platform) : Handler Context where
  transactionFamilyName := "election".toList
  getVersion := "1.0".toList
  apply transactionRequest context :=
    Evoting.apply platform ⟨transactionRequest.payload, transactionRequest.signerPublicKey⟩ context

/-- `IntegerKeyHandler`. -/
def integerKeyHandler (cbor : CborLibrary) (digits : CharacterDigits)
    (makeAddress : JString → Address) : Handler Context where
  transactionFamilyName := "intkey".toList
  getVersion := "1.0".toList
  apply transactionRequest context :=
    IntegerKeyHandler.apply cbor digits makeAddress context transactionRequest.payload

end Evoting.Service

/-
`StreamContext`: a handler's context, as calls over the stream to the validator.

A handler's code is a program (`Calls`) whose calls are the methods of `Context`.  Its
thread sends a request for each and waits for the future; meanwhile messages travel,
arrive and get lost, the connection may drop, and the wait may time out.  `System.step`
is one event of all that, with `ZmqStream` as it is.

The validator is not part of this repository: what it does with a request is a
`Validator`.  Texts that only show arguments, or come from protobuf, are `Texts`.
-/
import Evoting.Lib.Calls
import Evoting.Lib.Machine
import Evoting.Model.Handler
import Evoting.Model.IntKey
import Evoting.Model.StateMessages

namespace Evoting.StreamContext

/-- What a method returns. -/
inductive Returned where
  | entries (results : Dict Address ByteString)
  | addresses (addresses : List Address)
  | nothing

structure Texts where
  /-- The arguments of a method, as they appear in its messages. -/
  shown : Request → String
  /-- `ipbe.toString()` -/
  invalidProtocolBuffer : ByteString → String

/-- What the validator does with a request of a context. -/
structure Validator (V : Type) where
  serve : V → JString → Request → Response × V
  serve_answers : ∀ v contextId request, (serve v contextId request).1.Answers request

variable (pb : MessageLibrary) (texts : Texts)

/-- The end of each method, with the response it has parsed. -/
def returned (request : Request) (response : Response) : Except Throwable Returned :=
  match request, response with
  | .getState _, .entries status entries =>
      if status = .AUTHORIZATION_ERROR then
        .error (.invalidTransaction ("Tried to get unauthorized address " ++ texts.shown request))
      else .ok (.entries (entries.foldl (fun results e => results.set e.1 e.2) Dict.empty))
  | .setState _, .addresses status addresses =>
      if status = .AUTHORIZATION_ERROR then
        .error (.invalidTransaction ("Tried to set unauthorized address " ++ texts.shown request))
      else .ok (.addresses addresses)
  | .deleteState _, .addresses status addresses =>
      if status = .AUTHORIZATION_ERROR then
        .error (.invalidTransaction ("Tried to delete unauthorized address "
          ++ texts.shown request))
      else .ok (.addresses addresses)
  | .addReceiptData _, .added status =>
      if status = .ERROR then
        .error (.internalError ("Failed to add receipt data " ++ texts.shown request))
      else .ok .nothing
  | .addEvent _ _ _, .added status =>
      if status = .ERROR then
        .error (.internalError ("Failed to add event " ++ texts.shown request))
      else .ok .nothing
  -- No response of another type is parsed.
  | _, _ => .error .classCast

/-- What a method does with the bytes of its future. -/
def resolved (request : Request) (bytes : ByteString) : Except Throwable Returned :=
  match pb.parseResponse request bytes with
  | none => .error (.internalError (texts.invalidProtocolBuffer bytes))
  | some response => returned texts request response

/-- `e.toString()` of the exceptions of `getResult`. -/
def timedOut : Throwable :=
  .internalError "java.util.concurrent.TimeoutException: Future Timed out"

def connectionLost : Throwable :=
  .internalError ("sawtooth.sdk.processor.exceptions.ValidatorConnectionError: "
    ++ "The connection to the validator was lost")

/-! ### Programs and their thread -/

/-- The code of a handler. -/
abbrev Program (α : Type) := Calls Request Returned Throwable α

inductive Thread (α : Type) where
  | running (program : Program α)
  /-- In `future.getResult(TIME_OUT)`. -/
  | waiting (future : Future) (request : Request) (next : Returned → Program α)
  | ended (result : Except Throwable α)

/-- A thread with its stream, the validator, and the messages between them. -/
structure System (V α : Type) where
  stream : ZmqStream
  thread : Thread α
  validator : V
  requests : List Message
  responses : List Message

inductive Event where
  /-- The thread goes on; `generateId` returns `id`, should it make a call. -/
  | proceed (id : JString)
  /-- The time of a wait is up. -/
  | timeout
  /-- The validator gets one of the requests. -/
  | serve (i : Nat)
  /-- One of its responses arrives. -/
  | deliver (i : Nat)
  | loseRequest (i : Nat)
  | loseResponse (i : Nat)
  /-- Something else happens at the stream. -/
  | elsewhere (event : StreamEvent)

namespace System

variable {V α : Type} (contextId : JString) (validator : Validator V)

/-- The thread goes on. -/
def proceed (s : System V α) (id : JString) : System V α :=
  match s.thread with
  | .running (.returns a) => { s with thread := .ended (.ok a) }
  | .running (.throws e) => { s with thread := .ended (.error e) }
  | .running (.call request next) =>
      let (future, message, stream) :=
        s.stream.send id (messageType request) (pb.writeRequest contextId request)
      { s with
        thread := .waiting future request next
        stream := stream
        requests := s.requests ++ [message] }
  | .waiting future request next =>
      match future.getResult s.stream with
      | .pending => s
      | .validatorConnectionError => { s with thread := .ended (.error connectionLost) }
      | .result bytes =>
          match resolved pb texts request bytes with
          | .ok returned => { s with thread := .running (next returned) }
          | .error e => { s with thread := .ended (.error e) }
  | .ended _ => s

/-- A wait that times out; a result that is there is taken. -/
def timeout (s : System V α) : System V α :=
  match s.thread with
  | .waiting future _ _ =>
      if future.getResult s.stream = .pending then { s with thread := .ended (.error timedOut) }
      else s
  | _ => s

/-- The validator gets a request. -/
def served (s : System V α) (i : Nat) : System V α :=
  match s.requests[i]? with
  | none => s
  | some message =>
      let s := { s with requests := s.requests.eraseIdx i }
      match pb.parseRequest message.messageType message.content with
      | none => s
      | some (contextId, request) =>
          let (response, v) := validator.serve s.validator contextId request
          { s with
            validator := v
            responses := s.responses ++ [⟨responseType request, message.correlationId,
              pb.writeResponse response⟩] }

/-- A response arrives. -/
def delivered (s : System V α) (i : Nat) : System V α :=
  match s.responses[i]? with
  | none => s
  | some message =>
      { s with
        stream := s.stream.handle (some message)
        responses := s.responses.eraseIdx i }

/-- **One event.** -/
def step (s : System V α) : Event → System V α
  | .proceed id => s.proceed pb texts contextId id
  | .timeout => s.timeout
  | .serve i => s.served pb validator i
  | .deliver i => s.delivered i
  | .loseRequest i => { s with requests := s.requests.eraseIdx i }
  | .loseResponse i => { s with responses := s.responses.eraseIdx i }
  | .elsewhere event => { s with stream := (s.stream.step event).2 }

/-- A program before its first call. -/
def start (stream : ZmqStream) (program : Program α) (v : V) : System V α :=
  ⟨stream, .running program, v, [], []⟩

/-- The system after some events. -/
def run (s : System V α) (events : List Event) : System V α :=
  events.foldl (step pb texts contextId validator) s

/-- A program's system after some events, started when others have been at the stream. -/
def reach (earlier : List StreamEvent) (program : Program α) (v : V) (events : List Event) :
    System V α :=
  (start (Machine.run ZmqStream.step ZmqStream.new earlier) program v).run pb texts contextId
    validator events

end System

/-! ### The handlers -/

/-- `context.getState(Collections.singletonList(address)).get(address)`, and what uses it; an
address without an entry is a null dereference. -/
def getState {α : Type} (address : Address) (next : ByteString → Program α) : Program α :=
  .call (.getState [address]) fun
    | .entries results =>
        match results.get? address with
        | some bytes => next bytes
        | none => .throws .nullPointer
    | _ => .throws .classCast

/-- `context.setState` with one entry, and the check of the addresses that were set. -/
def setState (address : Address) (value : ByteString) (error : Throwable) : Program Unit :=
  .call (.setState [(address, value)]) fun
    | .addresses addresses => if addresses.length < 1 then .throws error else .returns ()
    | _ => .throws .classCast

/-- A computation that needs no call. -/
def given {α β : Type} (x : Except Throwable α) (next : α → Program β) : Program β :=
  match x with
  | .ok a => next a
  | .error e => .throws e

/-- `BasicElectionHandler.storeElectionData`, with its call. -/
def storeElectionData (utf8 : Utf8) (address : Address) (gameData : ElectionData)
    (stateEntry : JString) : Program Unit :=
  given (updatedEntry gameData stateEntry) fun entry =>
    setState address (utf8.copyFromUtf8 entry) (.internalError "State Error")

/-- `BasicElectionHandler.apply`, with its calls. -/
def electionProgram (platform : Platform) (transactionRequest : TpProcessRequest) :
    Program Unit :=
  given (getUnpackedTransaction platform transactionRequest) fun transactionData =>
  given (checkBallot platform transactionData) fun _ =>
  given (checkFields transactionData) fun _ =>
  let address := makeElectionAddress platform transactionData.electionName
  getState address fun bytes =>
  let stateEntry := platform.utf8.toStringUtf8 bytes
  let stateData := getStateData stateEntry transactionData.electionName
  given (runElection platform transactionData stateData transactionRequest.signerPublicKey)
    fun updatedElectionData =>
  storeElectionData platform.utf8 address updatedElectionData stateEntry

/-- `IntegerKeyHandler.apply`, with its calls; each of the three verbs makes the same two. -/
def integerKeyProgram (cbor : CborLibrary) (digits : CharacterDigits)
    (makeAddress : JString → Address) (payload : ByteString) : Program Unit :=
  given (IntegerKeyHandler.readUpdate cbor digits payload) fun update =>
  let address := makeAddress update.name
  getState address fun stateValueRep =>
  given (IntegerKeyHandler.newValue cbor digits stateValueRep update) fun value =>
  let entry := IntegerKeyHandler.encodeState cbor address update.name value
  setState entry.1 entry.2 (.internalError "State error!.")

end Evoting.StreamContext

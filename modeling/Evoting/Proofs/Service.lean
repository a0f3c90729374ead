/-
What ends a processor, and what is answered until then.

An exception that `process` does not catch ends the thread, as a request without a
handler does.  `Survived` says which messages do neither, and `step_survived` and
`step_stopped` say what one pass of the loop does.  From them, by induction over the
messages, everything is answered up to the first message that is not survived, and
nothing from there on.  The shutdown hook cannot catch up: it starts with that very
message, in the state it was thrown in.

For the two handlers `Survived` is worked out: for elections it is `Contained`, in the
state of the transactions before, and for integer keys it is a matter of the payload.
-/
import Evoting.Proofs.Containment
import Evoting.Proofs.IntKey
import Evoting.Model.Service

namespace Evoting.Service

open Machine
open TransactionProcessor (Reply buildResponse)

variable {σ : Type} (parseFrom : ByteString → Option Request)

/-- The request in a message, and the handler it is for. -/
def requestOf (handlers : List (Handler σ)) (message : Message) : Option (Request × Handler σ) :=
  (parseFrom message.content).bind fun request =>
    (handlerFor handlers request.header).map fun handler => (request, handler)

/-- A request has a handler, which returns or throws what `process` catches. -/
def Survived (handlers : List (Handler σ)) (state : σ) (message : Message) : Prop :=
  message.messageType = .TP_PROCESS_REQUEST →
    ∃ request handler, requestOf parseFrom handlers message = some (request, handler) ∧
      Reported (handler.apply request state).1

/-- The answer a message is to get, and the state it is to leave. -/
def answer (handlers : List (Handler σ)) (state : σ) (message : Message) : List Reply × σ :=
  match message.messageType with
  | .PING_REQUEST => ([.PING_RESPONSE message.correlationId], state)
  | .TP_PROCESS_REQUEST =>
      match requestOf parseFrom handlers message with
      | none => ([], state)
      | some (request, handler) =>
          ((outcomeOf (handler.apply request state).1).toOption.toList.map fun outcome =>
            .TP_PROCESS_RESPONSE message.correlationId (buildResponse outcome),
            (handler.apply request state).2)
  | _ => ([], state)

/-- Every message is survived, in the state the ones before it leave. -/
def Undisturbed (handlers : List (Handler σ)) : σ → List Message → Prop :=
  AllSteps (answer parseFrom handlers) (Survived parseFrom handlers)

/-- What is thrown leaves no change. -/
def Atomic (handlers : List (Handler σ)) : Prop :=
  ∀ handler ∈ handlers, ∀ request state e, (handler.apply request state).1 = .error e →
    (handler.apply request state).2 = state

/-- The processor has been ended by its current message. -/
structure Stopped (s : Processor σ) : Prop where
  running : s.running = false
  current : ∃ message, s.currentMessage = some message ∧
    ¬Survived parseFrom s.handlers s.state message

variable {parseFrom} {handlers : List (Handler σ)} {state : σ} {message : Message}

/-! ### One message -/

theorem outcomeOf_of_reported {result : Except Throwable Unit} (h : Reported result) :
    ∃ outcome, outcomeOf result = .ok outcome := by
  cases result with
  | ok _ => exact ⟨_, rfl⟩
  | error e =>
      rw [reported_error] at h
      cases e with
      | invalidTransaction message => exact ⟨_, rfl⟩
      | internalError message => exact ⟨_, rfl⟩
      | _ => simp [Throwable.isReported] at h

theorem outcomeOf_of_not_reported {result : Except Throwable Unit} (h : ¬Reported result) :
    ∃ e, result = .error e ∧ outcomeOf result = .error e := by
  cases result with
  | ok _ => exact absurd (reported_ok _) h
  | error e =>
      rw [reported_error] at h
      cases e with
      | invalidTransaction message => exact absurd rfl h
      | internalError message => exact absurd rfl h
      | _ => exact ⟨_, rfl, rfl⟩

theorem requestOf_eq_some {request : Request} {handler : Handler σ}
    (h : requestOf parseFrom handlers message = some (request, handler)) :
    parseFrom message.content = some request ∧
      handlerFor handlers request.header = some handler := by
  unfold requestOf at h
  rw [Option.bind_eq_some_iff] at h
  obtain ⟨found, hparse, h⟩ := h
  rw [Option.map_eq_some_iff] at h
  obtain ⟨taker, hfind, heq⟩ := h
  obtain ⟨rfl, rfl⟩ := Prod.mk.inj heq
  exact ⟨hparse, hfind⟩

/-- **A message that is survived is answered**, and the loop goes on. -/
theorem step_survived {s : Processor σ} (hrunning : s.running = true) (hne : s.handlers ≠ [])
    (h : Survived parseFrom s.handlers s.state message) :
    step parseFrom s message
      = ((answer parseFrom s.handlers s.state message).1,
        { s with currentMessage := none,
                 state := (answer parseFrom s.handlers s.state message).2 }) := by
  rw [step, if_pos ⟨hrunning, hne⟩]
  unfold dispatch answer
  cases htype : message.messageType with
  | TP_PROCESS_REQUEST =>
      obtain ⟨request, handler, hrequest, hreported⟩ := h htype
      obtain ⟨hparse, hfind⟩ := requestOf_eq_some hrequest
      obtain ⟨outcome, houtcome⟩ := outcomeOf_of_reported hreported
      simp [findHandler, process, hparse, hfind, hrequest, houtcome, Except.map, Except.toOption]
  | _ => rfl

/-- A transaction that is refused as invalid is answered so, and leaves the loop as it was. -/
theorem step_invalid {s : Processor σ} (hrunning : s.running = true) (hne : s.handlers ≠ [])
    (htype : message.messageType = .TP_PROCESS_REQUEST) {request : Request} {handler : Handler σ}
    (hrequest : requestOf parseFrom s.handlers message = some (request, handler)) {text : String}
    (happly : handler.apply request s.state = (.error (.invalidTransaction text), s.state)) :
    step parseFrom s message
      = ([.TP_PROCESS_RESPONSE message.correlationId ⟨.INVALID_TRANSACTION, text.toList, []⟩],
        { s with currentMessage := none }) := by
  have hreported : Reported (handler.apply request s.state).1 := by
    rw [happly]
    exact reported_invalidTransaction text
  rw [step_survived hrunning hne fun _ => ⟨request, handler, hrequest, hreported⟩]
  simp only [answer, htype, hrequest, happly]
  rfl

/-- **A message that is not survived is not answered**, and ends the loop. -/
theorem step_stopped {s : Processor σ} (hrunning : s.running = true) (hne : s.handlers ≠ [])
    (hatomic : Atomic s.handlers) (h : ¬Survived parseFrom s.handlers s.state message) :
    (step parseFrom s message).1 = [] ∧ Stopped parseFrom (step parseFrom s message).2 := by
  have htype : message.messageType = .TP_PROCESS_REQUEST := by
    by_contra htype
    exact h fun h => absurd h htype
  rw [step, if_pos ⟨hrunning, hne⟩]
  unfold dispatch
  simp only [htype, findHandler]
  cases hparse : parseFrom message.content with
  | none => exact ⟨rfl, rfl, message, rfl, h⟩
  | some request =>
      dsimp only
      cases hfind : handlerFor s.handlers request.header with
      | none => exact ⟨rfl, rfl, message, rfl, h⟩
      | some handler =>
          have hrequest : requestOf parseFrom s.handlers message = some (request, handler) := by
            simp [requestOf, hparse, hfind]
          have hthrows : ¬Reported (handler.apply request s.state).1 := fun hreported =>
            h fun _ => ⟨request, handler, hrequest, hreported⟩
          obtain ⟨e, he, houtcome⟩ := outcomeOf_of_not_reported hthrows
          have hsame := hatomic handler (List.mem_of_find?_eq_some hfind) request s.state e he
          simp only [process, hparse, houtcome, Except.map, hsame]
          exact ⟨trivial, rfl, message, rfl, h⟩

theorem step_not_running {s : Processor σ} (h : s.running = false) (message : Message) :
    step parseFrom s message = ([], s) := by
  rw [step, if_neg (by simp [h])]

/-! ### The shutdown hook -/

/-- Where no handler is found, no message is answered. -/
theorem leftOvers_of_null {s : Processor σ} (hfind : findHandler parseFrom s = .ok none) :
    ∀ (messages : List (Option Message)) (state : σ),
      leftOvers parseFrom s messages state = [] := by
  intro messages
  induction messages with
  | nil => intro state; rfl
  | cons message messages ih =>
      intro state
      cases message with
      | none => rfl
      | some message =>
          rw [leftOvers, leftOver, hfind]
          cases parseFrom message.content with
          | none => exact ih state
          | some request => rfl

/-- **Shutdown sends nothing** for a processor that has been ended. -/
theorem shutdown_of_stopped {s : Processor σ} (h : Stopped parseFrom s) (registered answered : Bool)
    (receiveQueue : List (Option Message)) :
    shutdown parseFrom registered answered s receiveQueue = [] := by
  obtain ⟨message, hcurrent, hstopped⟩ := h.current
  unfold shutdown
  by_cases hboth : registered = true ∧ answered = true
  swap
  · rw [if_neg hboth]
  rw [if_pos hboth, hcurrent]
  have hfind : findHandler parseFrom s
      = .ok ((requestOf parseFrom s.handlers message).map Prod.snd) := by
    simp only [findHandler, hcurrent, requestOf]
    cases parseFrom message.content with
    | none => rfl
    | some request => simp [Function.comp_def]
  cases hrequest : requestOf parseFrom s.handlers message with
  | none =>
      rw [hrequest] at hfind
      exact leftOvers_of_null hfind _ _
  | some found =>
      obtain ⟨request, handler⟩ := found
      obtain ⟨hparse, -⟩ := requestOf_eq_some hrequest
      have hthrows : ¬Reported (handler.apply request s.state).1 := fun hreported =>
        hstopped fun _ => ⟨request, handler, hrequest, hreported⟩
      obtain ⟨e, -, houtcome⟩ := outcomeOf_of_not_reported hthrows
      simp only [leftOvers, leftOver, hfind, hrequest, Option.map_some, hparse, process, houtcome,
        Except.map]

/-! ### Runs -/

/-- **Up to the first message that is not survived** the loop goes on. -/
theorem run_undisturbed (hne : handlers ≠ []) :
    ∀ (messages : List Message) (state : σ), Undisturbed parseFrom handlers state messages →
      run (step parseFrom) (started handlers state) messages
        = started handlers (run (answer parseFrom handlers) state messages) := by
  intro messages
  induction messages with
  | nil => intro state _; rfl
  | cons message messages ih =>
      rintro state ⟨hfirst, hrest⟩
      rw [run_cons, run_cons, step_survived rfl hne hfirst]
      exact ih _ hrest

/-- **From there on** nothing happens any more. -/
theorem run_disturbed (hne : handlers ≠ []) (hatomic : Atomic handlers) :
    ∀ (messages : List Message) (state : σ), ¬Undisturbed parseFrom handlers state messages →
      Stopped parseFrom (run (step parseFrom) (started handlers state) messages) := by
  intro messages
  induction messages with
  | nil => intro state h; exact absurd trivial h
  | cons message messages ih =>
      intro state h
      rw [run_cons]
      by_cases hfirst : Survived parseFrom handlers state message
      · rw [step_survived rfl hne hfirst]
        exact ih _ fun hrest => h ⟨hfirst, hrest⟩
      · have hstopped := (step_stopped (s := started handlers state) rfl hne hatomic hfirst).2
        refine run_invariant _ (fun s message hs => ?_) messages _ hstopped
        rw [step_not_running hs.running]
        exact hs

theorem undisturbed_concat (messages : List Message) (state : σ) (message : Message) :
    Undisturbed parseFrom handlers state (messages ++ [message]) ↔
      Undisturbed parseFrom handlers state messages ∧
        Survived parseFrom handlers (run (answer parseFrom handlers) state messages) message := by
  induction messages generalizing state with
  | nil => simp [Undisturbed, AllSteps]
  | cons first messages ih =>
      unfold Undisturbed at ih ⊢
      rw [List.cons_append, AllSteps, AllSteps, ih, run_cons, and_assoc]

variable (parseFrom) in
/-- **The life of a processor**: what it answers to a message after others, whether it still
runs, and what shutdown makes up for. -/
theorem service_run (hne : handlers ≠ []) (hatomic : Atomic handlers) (state : σ)
    (messages : List Message) (message : Message) :
    ((run (step parseFrom) (started handlers state) messages).running = true ↔
        Undisturbed parseFrom handlers state messages) ∧
      (Undisturbed parseFrom handlers state (messages ++ [message]) →
        (step parseFrom (run (step parseFrom) (started handlers state) messages) message).1
          = (answer parseFrom handlers (run (answer parseFrom handlers) state messages)
              message).1) ∧
      (¬Undisturbed parseFrom handlers state (messages ++ [message]) →
        (step parseFrom (run (step parseFrom) (started handlers state) messages) message).1 = []) ∧
      (¬Undisturbed parseFrom handlers state messages → ∀ registered answered receiveQueue,
        shutdown parseFrom registered answered
          (run (step parseFrom) (started handlers state) messages) receiveQueue = []) := by
  by_cases h : Undisturbed parseFrom handlers state messages
  · rw [run_undisturbed hne messages state h, undisturbed_concat]
    refine ⟨iff_of_true rfl h, fun hboth => ?_, fun hnot => ?_, fun hnot => absurd h hnot⟩
    · rw [step_survived rfl hne hboth.2]
      rfl
    · exact (step_stopped rfl hne hatomic fun hsurvived => hnot ⟨h, hsurvived⟩).1
  · have hstopped := run_disturbed hne hatomic messages state h
    rw [undisturbed_concat, step_not_running hstopped.running]
    refine ⟨iff_of_false (by simp [hstopped.running]) h, fun hboth => absurd hboth.1 h,
      fun _ => rfl, fun _ registered answered receiveQueue => ?_⟩
    exact shutdown_of_stopped hstopped registered answered receiveQueue

/-! ### One handler -/

/-- The requests among some messages. -/
def requests (parseFrom : ByteString → Option Request) (messages : List Message) : List Request :=
  messages.filterMap fun message =>
    if message.messageType = .TP_PROCESS_REQUEST then parseFrom message.content else none

/-- The state after some requests. -/
def applied (handler : Handler σ) (state : σ) (requests : List Request) : σ :=
  run (fun state request => handler.apply request state) state requests

variable {handler : Handler σ}

theorem requests_cons (message : Message) (messages : List Message) :
    requests parseFrom (message :: messages)
      = requests parseFrom [message] ++ requests parseFrom messages :=
  List.filterMap_append (l := [message])

theorem applied_append (state : σ) (first rest : List Request) :
    applied handler state (first ++ rest) = applied handler (applied handler state first) rest :=
  run_append _ _ _ _

theorem requestOf_singleton {request : Request} (hparse : parseFrom message.content = some request)
    (hheader : request.header = ⟨handler.transactionFamilyName, handler.getVersion⟩) :
    requestOf parseFrom [handler] message = some (request, handler) := by
  simp [requestOf, hparse, handlerFor, hheader]

theorem survived_singleton_iff :
    Survived parseFrom [handler] state message ↔
      (message.messageType = .TP_PROCESS_REQUEST → ∃ request,
        parseFrom message.content = some request ∧
        request.header = ⟨handler.transactionFamilyName, handler.getVersion⟩ ∧
        Reported (handler.apply request state).1) := by
  refine imp_congr_right fun _ => exists_congr fun request => ?_
  constructor
  · rintro ⟨taker, hrequest, hreported⟩
    obtain ⟨hparse, htaker⟩ := requestOf_eq_some hrequest
    obtain rfl : taker = handler := List.mem_singleton.mp (List.mem_of_find?_eq_some htaker)
    unfold handlerFor at htaker
    obtain ⟨hname, hversion⟩ := by simpa only [decide_eq_true_eq] using List.find?_some htaker
    exact ⟨hparse, congrArg₂ TransactionProcessor.TransactionHeader.mk hname hversion, hreported⟩
  · rintro ⟨hparse, hheader, hreported⟩
    exact ⟨handler, requestOf_singleton hparse hheader, hreported⟩

/-- What a survived message leaves is what its request leaves, if it has one. -/
theorem answer_of_survived (h : Survived parseFrom [handler] state message) :
    (answer parseFrom [handler] state message).2
      = applied handler state (requests parseFrom [message]) := by
  unfold answer requests applied
  cases htype : message.messageType with
  | TP_PROCESS_REQUEST =>
      obtain ⟨request, taker, hrequest, -⟩ := h htype
      obtain ⟨hparse, htaker⟩ := requestOf_eq_some hrequest
      have hsame : taker = handler := by
        simpa using List.mem_of_find?_eq_some htaker
      simp [hrequest, hparse, htype, hsame]
  | _ => simp [htype]

/-- **The states of a run** are those its requests lead to. -/
theorem undisturbed_iff (state : σ) (messages : List Message) :
    Undisturbed parseFrom [handler] state messages ↔
      ∀ before message after, messages = before ++ message :: after →
        Survived parseFrom [handler] (applied handler state (requests parseFrom before))
          message := by
  let byRequest : σ → Message → Unit × σ := fun state message =>
    ((), applied handler state (requests parseFrom [message]))
  have hrun : ∀ (messages : List Message) (state : σ),
      run byRequest state messages = applied handler state (requests parseFrom messages) := by
    intro messages
    induction messages with
    | nil => intro state; rfl
    | cons message messages ih =>
        intro state
        rw [run_cons, ih, requests_cons, applied_append]
  have hcongr : Undisturbed parseFrom [handler] state messages ↔
      AllSteps byRequest (Survived parseFrom [handler]) state messages :=
    allSteps_congr _ Eq (fun s t i h => by rw [h])
      (fun s t i h hsurvived => by rw [← h]; exact answer_of_survived hsurvived)
      messages state state rfl
  refine hcongr.trans ((allSteps_iff byRequest messages state).trans ?_)
  simp only [hrun]

theorem run_answer {messages : List Message} {state : σ}
    (h : Undisturbed parseFrom [handler] state messages) :
    run (answer parseFrom [handler]) state messages
      = applied handler state (requests parseFrom messages) := by
  induction messages generalizing state with
  | nil => rfl
  | cons message messages ih =>
      rw [run_cons, ih h.2, answer_of_survived h.1, requests_cons message messages, applied_append]

/-- What one handler's processor does after some messages. -/
theorem singleton_run (hatomic : Atomic [handler]) (state : σ) (messages : List Message)
    (message : Message) :
    ((run (step parseFrom) (started [handler] state) messages).running = true ↔
        Undisturbed parseFrom [handler] state messages) ∧
      (Undisturbed parseFrom [handler] state (messages ++ [message]) →
        (step parseFrom (run (step parseFrom) (started [handler] state) messages) message).1
          = (answer parseFrom [handler] (applied handler state (requests parseFrom messages))
              message).1) ∧
      (¬Undisturbed parseFrom [handler] state (messages ++ [message]) →
        (step parseFrom (run (step parseFrom) (started [handler] state) messages) message).1 = []) ∧
      (¬Undisturbed parseFrom [handler] state messages → ∀ registered answered receiveQueue,
        shutdown parseFrom registered answered
          (run (step parseFrom) (started [handler] state) messages) receiveQueue = []) := by
  obtain ⟨hrunning, hanswer, hrest⟩ :=
    service_run parseFrom (by simp) hatomic state messages message
  refine ⟨hrunning, fun h => ?_, hrest⟩
  rw [hanswer h, run_answer ((undisturbed_concat messages state message).mp h).1]

/-! ### Elections -/

section Election

variable {platform : Platform} {context : Context}

/-- The transaction in a request. -/
def Request.transaction (request : Request) : TpProcessRequest :=
  ⟨request.payload, request.signerPublicKey⟩

/-- **What an election processor survives**: a message that is no request; and a request of its
family whose transaction is contained. -/
def ElectionSurvives (platform : Platform) (parseFrom : ByteString → Option Request)
    (context : Context) (message : Message) : Prop :=
  message.messageType = .TP_PROCESS_REQUEST → ∃ request,
    parseFrom message.content = some request ∧
    request.header = ⟨"election".toList, "1.0".toList⟩ ∧
    Contained platform context request.transaction

/-- The state after some messages that are survived. -/
def electionContext (platform : Platform) (parseFrom : ByteString → Option Request)
    (messages : List Message) : Context :=
  applyAll platform Context.empty ((requests parseFrom messages).map Request.transaction)

/-- Every one of some messages is survived, in the state the transactions before it leave. -/
def ElectionRuns (platform : Platform) (parseFrom : ByteString → Option Request)
    (messages : List Message) : Prop :=
  ∀ before message after, messages = before ++ message :: after →
    ElectionSurvives platform parseFrom (electionContext platform parseFrom before) message

theorem reported_iff_contained (hreg : Registry platform context) (request : TpProcessRequest) :
    Reported (apply platform request context).1 ↔ Contained platform context request := by
  unfold Contained
  cases htx : getUnpackedTransaction platform request with
  | error e =>
      have hresult : (apply platform request context).1 = .error e := by
        rw [apply, prepare, htx, error_bind]
      rw [hresult, reported_error]
      exact iff_of_true (isReported_of_unpacked htx) (by simp)
  | ok tx =>
      simp only [Except.ok.injEq, forall_eq']
      by_cases hvote : tx.action = "vote".toList
      · have hne : tx.action ≠ "create".toList := by rw [hvote]; decide
        simpa [hvote, hne] using vote_reported_iff hreg htx hvote
      by_cases hcreate : tx.action = "create".toList
      · simpa [hvote, hcreate] using create_reported_iff hreg htx hcreate
      · have hcheck : checkBallot platform tx = .ok () := by rw [checkBallot, if_neg hvote]
        have hrefused : ¬FieldsAccepted tx := by
          rintro ⟨-, -, haction⟩
          exact haction.elim hvote hcreate
        exact iff_of_true (apply_of_refused htx hcheck hrefused)
          ⟨fun h => absurd h hvote, fun h => absurd h hcreate⟩

theorem applied_election (context : Context) (requests : List Request) :
    applied (electionHandler platform) context requests
      = applyAll platform context (requests.map Request.transaction) := by
  induction requests generalizing context with
  | nil => rfl
  | cons request requests ih => exact ih _

theorem undisturbed_election_iff (messages : List Message) :
    Undisturbed parseFrom [electionHandler platform] Context.empty messages ↔
      ElectionRuns platform parseFrom messages := by
  rw [undisturbed_iff]
  refine forall_congr' fun before => forall_congr' fun message => forall_congr' fun after =>
    imp_congr_right fun _ => ?_
  rw [survived_singleton_iff, applied_election]
  refine imp_congr_right fun _ => exists_congr fun request => ?_
  exact and_congr_right fun _ => and_congr_right fun _ =>
    reported_iff_contained (registry_reachable _) request.transaction

theorem atomic_electionHandler (platform : Platform) : Atomic [electionHandler platform] := by
  intro handler hhandler request context e he
  obtain rfl := List.mem_singleton.mp hhandler
  exact apply_error he

/-- **The life of an election processor.**  It runs exactly as long as every message is
survived.  Up to there it answers each message with what its transaction ends in; from there on
it answers nothing, and neither does the shutdown hook. -/
theorem election_service (platform : Platform) (parseFrom : ByteString → Option Request)
    (messages : List Message) (message : Message) :
    ((run (step parseFrom) (started [electionHandler platform] Context.empty) messages).running
        = true ↔ ElectionRuns platform parseFrom messages) ∧
      (ElectionRuns platform parseFrom (messages ++ [message]) →
        (step parseFrom (run (step parseFrom) (started [electionHandler platform] Context.empty)
            messages) message).1
          = (answer parseFrom [electionHandler platform]
              (electionContext platform parseFrom messages) message).1) ∧
      (¬ElectionRuns platform parseFrom (messages ++ [message]) →
        (step parseFrom (run (step parseFrom) (started [electionHandler platform] Context.empty)
            messages) message).1 = []) ∧
      (¬ElectionRuns platform parseFrom messages → ∀ registered answered receiveQueue,
        shutdown parseFrom registered answered
          (run (step parseFrom) (started [electionHandler platform] Context.empty) messages)
          receiveQueue = []) := by
  rw [← undisturbed_election_iff, ← undisturbed_election_iff, electionContext, ← applied_election]
  exact singleton_run (atomic_electionHandler platform) Context.empty messages message

end Election

/-! ### Integer keys -/

section IntegerKeys

open IntegerKeyHandler

variable {cbor : CborLibrary} {digits : CharacterDigits} {makeAddress : JString → Address}

/-- The fields that are looked up are there: the verb of a name that is not refused, and the
value of a verb that is known. -/
def FieldsPresent (updateMap : Dict JString JString) : Prop :=
  ∃ name, updateMap.get? "Name".toList = some name ∧
    (utf16Length name = 0 ∨ utf16Length name > MAX_NAME_LENGTH ∨
      ∃ verb, updateMap.get? "Verb".toList = some verb ∧
        (verb ∉ ["set".toList, "dec".toList, "inc".toList] ∨
          ∃ text, updateMap.get? "Value".toList = some text))

/-- A payload from which nothing escapes: it is empty, or the library throws, or it is a map with
the fields that are looked up. -/
def PayloadContained (cbor : CborLibrary) (payload : ByteString) : Prop :=
  payload = [] ∨ (∃ text, cbor.decodeNext payload = .cborException text) ∨
    ∃ updateMap, decodePayload cbor payload = .ok updateMap ∧ FieldsPresent updateMap

/-- A field that is not there is a null dereference. -/
theorem getText_reported_iff {α : Type} {updateMap : Dict JString JString} {key : String}
    {next : JString → Except Throwable α} :
    Reported (getText updateMap key >>= next) ↔
      ∃ text, updateMap.get? key.toList = some text ∧ Reported (next text) := by
  unfold getText
  cases updateMap.get? key.toList <;> simp [Throwable.isReported]

/-- A payload that is no map gets past `apply`, unless it is the library that throws. -/
theorem decodePayload_error {payload : ByteString} {e : Throwable}
    (h : decodePayload cbor payload = .error e) :
    e.isReported = true ↔ ∃ text, cbor.decodeNext payload = .cborException text := by
  unfold decodePayload decodeMap at h
  cases hitem : cbor.decodeNext payload with
  | map entries => simp [hitem] at h
  | other | null | cborException text =>
      simp only [hitem, error_bind, Except.error.injEq] at h
      simp [← h, Throwable.isReported]

variable (digits) in
/-- **What the checks lose**: the fields that are not there. -/
theorem readUpdate_reported_iff {payload : ByteString} :
    Reported (readUpdate cbor digits payload) ↔ PayloadContained cbor payload := by
  unfold readUpdate PayloadContained
  by_cases hempty : payload = []
  · rw [if_pos (by rw [hempty]; rfl)]
    exact iff_of_true (reported_invalidTransaction _) (Or.inl hempty)
  rw [if_neg (by simpa using hempty)]
  cases hmap : decodePayload cbor payload with
  | error e =>
      rw [error_bind, reported_error, decodePayload_error hmap]
      simp [hempty]
  | ok updateMap =>
      have hlibrary : ¬∃ text, cbor.decodeNext payload = .cborException text := by
        rintro ⟨text, htext⟩
        simp [decodePayload, decodeMap, htext] at hmap
      simp only [ok_bind, getText_reported_iff, hempty, hlibrary, false_or, Except.ok.injEq,
        exists_eq_left', FieldsPresent]
      refine exists_congr fun name => and_congr_right fun _ => ?_
      by_cases hname : utf16Length name = 0
      · rw [if_pos hname]
        exact iff_of_true (reported_invalidTransaction _) (Or.inl hname)
      by_cases hlong : utf16Length name > MAX_NAME_LENGTH
      · rw [if_neg hname, if_pos hlong]
        exact iff_of_true (reported_invalidTransaction _) (Or.inr (Or.inl hlong))
      rw [if_neg hname, if_neg hlong, getText_reported_iff]
      simp only [hname, hlong, false_or]
      refine exists_congr fun verb => and_congr_right fun _ => ?_
      by_cases hknown : verb ∈ ["set".toList, "dec".toList, "inc".toList]
      swap
      · refine iff_of_true ?_ (Or.inl hknown)
        by_cases hverb : utf16Length verb = 0
        · rw [if_pos hverb]
          exact reported_invalidTransaction _
        · rw [if_neg hverb, if_pos (mt List.contains_iff_mem.mp hknown)]
          exact reported_invalidTransaction _
      have hverb : ¬utf16Length verb = 0 := by
        have hverbs : ∀ verb ∈ ["set".toList, "dec".toList, "inc".toList],
            ¬utf16Length verb = 0 := by decide
        exact hverbs verb hknown
      rw [if_neg hverb, if_neg (not_not.mpr (List.contains_iff_mem.mpr hknown)),
        getText_reported_iff]
      simp only [hknown, not_true_eq_false, false_or]
      refine exists_congr fun text => and_iff_left ?_
      -- Whatever the value is, it is refused with a message or taken.
      cases Long.decode digits text with
      | error e => exact reported_invalidTransaction _
      | ok value =>
          dsimp only
          split
          · exact reported_invalidTransaction _
          · exact reported_ok _

variable {context : Context} {payload : ByteString}

variable (digits) in
/-- **The verbs lose nothing**: what is stored is what the handler has written. -/
theorem newValue_reported {address : Address} {stateValueRep : ByteString}
    (h : EntryAt cbor makeAddress address stateValueRep) {update : Update}
    (hvalue : IsValue update.value) : Reported (newValue cbor digits stateValueRep update) := by
  unfold newValue
  split
  · rw [setValue_eq h hvalue]
    split
    · exact reported_invalidTransaction _
    · exact reported_ok _
  split
  · rw [incValue, currentValue_eq h]
    split
    · dsimp only [ok_bind]
      split
      · exact reported_invalidTransaction _
      · exact reported_ok _
    · exact reported_invalidTransaction _
  split
  · rw [decValue, currentValue_eq h]
    split
    · dsimp only [ok_bind]
      split
      · exact reported_invalidTransaction _
      · exact reported_ok _
    · exact reported_invalidTransaction _
  · rw [reported_error]
    rfl

theorem reported_iff_payloadContained (hone : OneName cbor makeAddress context) :
    Reported (IntegerKeyHandler.apply cbor digits makeAddress context payload).1 ↔
      PayloadContained cbor payload := by
  rw [← readUpdate_reported_iff digits]
  unfold IntegerKeyHandler.apply
  cases hread : readUpdate cbor digits payload with
  | error e => exact reported_error.trans reported_error.symm
  | ok update =>
      refine iff_of_true ?_ (reported_ok _)
      have hnew := newValue_reported digits (hone (makeAddress update.name))
        (readUpdate_ok hread).2
      dsimp only
      cases hvalue : newValue cbor digits (context.getState (makeAddress update.name)) update with
      | error e => exact reported_error.mpr (hnew e hvalue)
      | ok value => exact reported_ok _

/-- **What an integer key processor survives**: a message that is no request; and a request of
its family whose payload is contained. -/
def IntegerKeySurvives (cbor : CborLibrary) (parseFrom : ByteString → Option Request)
    (message : Message) : Prop :=
  message.messageType = .TP_PROCESS_REQUEST → ∃ request,
    parseFrom message.content = some request ∧
    request.header = ⟨"intkey".toList, "1.0".toList⟩ ∧ PayloadContained cbor request.payload

/-- The state after some messages that are survived. -/
def integerKeyContext (cbor : CborLibrary) (digits : CharacterDigits)
    (makeAddress : JString → Address) (parseFrom : ByteString → Option Request)
    (messages : List Message) : Context :=
  run (IntegerKeyHandler.apply cbor digits makeAddress) .empty
    ((requests parseFrom messages).map fun request => request.payload)

theorem applied_integerKey (context : Context) (requests : List Request) :
    applied (integerKeyHandler cbor digits makeAddress) context requests
      = run (IntegerKeyHandler.apply cbor digits makeAddress) context
          (requests.map fun request => request.payload) := by
  induction requests generalizing context with
  | nil => rfl
  | cons request requests ih => exact ih _

variable (digits makeAddress) in
theorem undisturbed_integerKey_iff (messages : List Message) :
    Undisturbed parseFrom [integerKeyHandler cbor digits makeAddress] Context.empty messages ↔
      ∀ message ∈ messages, IntegerKeySurvives cbor parseFrom message := by
  have hsurvived : ∀ before message,
      Survived parseFrom [integerKeyHandler cbor digits makeAddress]
        (applied (integerKeyHandler cbor digits makeAddress) Context.empty
          (requests parseFrom before)) message ↔ IntegerKeySurvives cbor parseFrom message := by
    intro before message
    rw [survived_singleton_iff, applied_integerKey]
    refine imp_congr_right fun _ => exists_congr fun request => ?_
    refine and_congr_right fun _ => and_congr_right fun _ => reported_iff_payloadContained ?_
    exact run_invariant _ (fun _ payload hs => hs.apply payload) _ _ oneName_empty
  rw [undisturbed_iff]
  simp only [hsurvived]
  constructor
  · intro h message hmessage
    obtain ⟨before, after, hsplit⟩ := List.append_of_mem hmessage
    exact h before message after hsplit
  · rintro h before message after rfl
    exact h message (by simp)

/-- **The life of an integer key processor.**  Whether it goes on is no matter of what is stored:
it runs exactly as long as every request is one of its family with a payload that is contained.
Up to there it answers each message, and from there on nothing. -/
theorem integerKey_service (cbor : CborLibrary) (digits : CharacterDigits)
    (makeAddress : JString → Address) (parseFrom : ByteString → Option Request)
    (messages : List Message) (message : Message) :
    ((run (step parseFrom) (started [integerKeyHandler cbor digits makeAddress] Context.empty)
        messages).running = true ↔
          ∀ earlier ∈ messages, IntegerKeySurvives cbor parseFrom earlier) ∧
      ((∀ earlier ∈ messages ++ [message], IntegerKeySurvives cbor parseFrom earlier) →
        (step parseFrom (run (step parseFrom)
            (started [integerKeyHandler cbor digits makeAddress] Context.empty) messages) message).1
          = (answer parseFrom [integerKeyHandler cbor digits makeAddress]
              (integerKeyContext cbor digits makeAddress parseFrom messages) message).1) ∧
      ((¬∀ earlier ∈ messages ++ [message], IntegerKeySurvives cbor parseFrom earlier) →
        (step parseFrom (run (step parseFrom)
            (started [integerKeyHandler cbor digits makeAddress] Context.empty) messages)
            message).1 = []) ∧
      ((¬∀ earlier ∈ messages, IntegerKeySurvives cbor parseFrom earlier) →
        ∀ registered answered receiveQueue, shutdown parseFrom registered answered
          (run (step parseFrom) (started [integerKeyHandler cbor digits makeAddress] Context.empty)
            messages) receiveQueue = []) := by
  have hatomic : Atomic [integerKeyHandler cbor digits makeAddress] := by
    intro handler hhandler request context e he
    obtain rfl := List.mem_singleton.mp hhandler
    rcases apply_cases cbor digits makeAddress context request.payload with
      ⟨-, hsame⟩ | ⟨update, value, -, -, happly⟩
    · exact hsame
    · exact absurd (he.symm.trans (congrArg Prod.fst happly)) (by simp)
  rw [← undisturbed_integerKey_iff digits makeAddress,
    ← undisturbed_integerKey_iff digits makeAddress,
    integerKeyContext, ← applied_integerKey]
  exact singleton_run hatomic Context.empty messages message

end IntegerKeys

end Evoting.Service

/-
Which handler gets the messages that are left at shutdown.

`findHandler` parses the processor's current message, and the loop of the shutdown
hook leaves that as it is.  So one handler is found for every message of the loop, the
current message's (`loop_of_handler`), or null for every one of them (`loop_of_null`);
without a current message the first pass throws.  The messages get their own handlers
just when all their headers are the current one's (`shutdown_drains_iff`).
-/
import Evoting.Proofs.Processor

namespace Evoting.TransactionProcessor

variable {σ : Type} (parseFrom : ByteString → Option TpProcessRequest)

/-- The messages the loop gets, up to one that is null. -/
def received : List (Option Message) → List Message
  | some message :: rest => message :: received rest
  | _ => []

/-- The messages the shutdown hook goes through: the current one, and what is received. -/
def drained (p : Processor σ) (receiveQueue : List (Option Message)) : List Message :=
  p.currentMessage.toList ++ received receiveQueue

/-- The content of a message is a request. -/
def isRequest (message : Message) : Bool := (parseFrom message.content).isSome

/-- Every request among some messages goes to the handler it is for, in order, and nothing is
thrown. -/
structure DrainsRight (handlers : List (TransactionHandler σ)) (messages : List Message)
    (result : Shutdown σ) : Prop where
  calls : result.calls.map (fun call => (call.1, some call.2))
    = (messages.filter (isRequest parseFrom)).map fun message =>
        (message, handlerOf parseFrom handlers message)
  thrown : result.thrown = none

/-- The shutdown hook finds no message; or it finds a current message, and no request; or the
current message is a request with a handler, and every other request has its header. -/
def SameHeaders (p : Processor σ) (receiveQueue : List (Option Message)) : Prop :=
  match p.currentMessage with
  | none => received receiveQueue = []
  | some current =>
      match parseFrom current.content with
      | none => ∀ message ∈ received receiveQueue, parseFrom message.content = none
      | some request =>
          handlerFor p.handlers request.header ≠ none ∧
          ∀ message ∈ received receiveQueue, ∀ other, parseFrom message.content = some other →
            other.header = request.header

variable {parseFrom} {p : Processor σ}

/-! ### The loop -/

theorem loop_eq (messages : List (Option Message)) (state : σ) :
    Shutdown.loop parseFrom p messages state
      = Shutdown.loop parseFrom p ((received messages).map some) state := by
  induction messages generalizing state with
  | nil => rfl
  | cons message messages ih =>
      cases message with
      | none => rfl
      | some message =>
          rw [received, List.map_cons, Shutdown.loop, Shutdown.loop, ih]

/-- **Where a handler is found**, it gets every request. -/
theorem loop_of_handler {handler : TransactionHandler σ}
    (hfind : ∀ message, findHandler parseFrom p message = .ok (some handler))
    (messages : List Message) (state : σ) :
    (Shutdown.loop parseFrom p (messages.map some) state).calls
      = (messages.filter (isRequest parseFrom)).map (fun message => (message, handler)) ∧
    (Shutdown.loop parseFrom p (messages.map some) state).thrown = none := by
  induction messages generalizing state with
  | nil => exact ⟨rfl, rfl⟩
  | cons message messages ih =>
      rw [List.map_cons, Shutdown.loop, Shutdown.pass, hfind]
      cases hparse : parseFrom message.content with
      | none => simpa [isRequest, hparse, Shutdown.ends] using ih state
      | some request => simpa [isRequest, hparse] using ih _

/-- **Where null is found**, the first request is a null dereference. -/
theorem loop_of_null (hfind : ∀ message, findHandler parseFrom p message = .ok none)
    (messages : List Message) (state : σ) :
    (Shutdown.loop parseFrom p (messages.map some) state).calls = [] ∧
    ((Shutdown.loop parseFrom p (messages.map some) state).thrown = none ↔
      ∀ message ∈ messages, parseFrom message.content = none) := by
  induction messages generalizing state with
  | nil => exact ⟨rfl, by simp [Shutdown.loop, Shutdown.ends]⟩
  | cons message messages ih =>
      rw [List.map_cons, Shutdown.loop, Shutdown.pass, hfind]
      cases hparse : parseFrom message.content with
      | none => simpa [hparse, Shutdown.ends] using ih state
      | some request => simp [hparse, Shutdown.ends]

/-- **Without a current message** every message is a null dereference. -/
theorem loop_of_error {e : Throwable}
    (hfind : ∀ message, findHandler parseFrom p message = .error e)
    (messages : List Message) (state : σ) :
    (Shutdown.loop parseFrom p (messages.map some) state).calls = [] ∧
    ((Shutdown.loop parseFrom p (messages.map some) state).thrown = none ↔ messages = []) := by
  cases messages with
  | nil => exact ⟨rfl, by simp [Shutdown.loop, Shutdown.ends]⟩
  | cons message messages =>
      rw [List.map_cons, Shutdown.loop, Shutdown.pass, hfind]
      simp [Shutdown.ends]

/-! ### Which handler is found -/

theorem findHandler_none (h : p.currentMessage = none) (message : Message) :
    findHandler parseFrom p message = .error .nullPointer := by
  rw [findHandler, h]

theorem findHandler_some {current : Message} (h : p.currentMessage = some current)
    (message : Message) :
    findHandler parseFrom p message = .ok (handlerOf parseFrom p.handlers current) := by
  simp only [findHandler, h, handlerOf]
  cases parseFrom current.content <;> rfl

/-- A handler is found for one header alone. -/
theorem header_of_handlerFor {handlers : List (TransactionHandler σ)}
    {handler : TransactionHandler σ} {first second : TransactionHeader}
    (hfirst : handlerFor handlers first = some handler)
    (hsecond : handlerFor handlers second = some handler) : first = second := by
  have hnames : ∀ header, handlerFor handlers header = some handler →
      header = ⟨handler.transactionFamilyName, handler.getVersion⟩ := by
    intro header hfind
    have hmatch := List.find?_some hfind
    rw [decide_eq_true_eq] at hmatch
    cases header
    simp only [TransactionHeader.mk.injEq]
    exact hmatch
  rw [hnames first hfirst, hnames second hsecond]

/-- **What `findHandler` goes by** is not its argument, whatever the handlers are. -/
theorem findHandler_not_of_message (parseFrom : ByteString → Option TpProcessRequest)
    (p : Processor σ) : ¬∃ f : Message → Except Throwable (Option (TransactionHandler σ)),
      ∀ current message,
        findHandler parseFrom { p with currentMessage := current } message = f message := by
  rintro ⟨f, hf⟩
  have hnull := (findHandler_none rfl ⟨.PING_REQUEST, [], []⟩).symm.trans (hf none _)
  have hsome := (findHandler_some rfl ⟨.PING_REQUEST, [], []⟩).symm.trans
    (hf (some ⟨.PING_REQUEST, [], []⟩) _)
  exact absurd (hnull.trans hsome.symm) (by simp)

/-! ### The shutdown hook -/

/-- With the handler of the current message for all, every request has its own handler when
its header is the current message's. -/
theorem drainsRight_of_handler {handlers : List (TransactionHandler σ)} {result : Shutdown σ}
    {messages : List Message} {request : TpProcessRequest} {handler : TransactionHandler σ}
    (hhandler : handlerFor handlers request.header = some handler)
    (hcalls : result.calls
      = (messages.filter (isRequest parseFrom)).map fun message => (message, handler))
    (hthrown : result.thrown = none) :
    DrainsRight parseFrom handlers messages result ↔
      ∀ message ∈ messages, ∀ other, parseFrom message.content = some other →
        other.header = request.header := by
  have hsame : (result.calls.map fun call => (call.1, some call.2))
        = (messages.filter (isRequest parseFrom)).map (fun message =>
          (message, handlerOf parseFrom handlers message)) ↔
      ∀ message ∈ messages, isRequest parseFrom message →
        handlerOf parseFrom handlers message = some handler := by
    rw [hcalls, List.map_map, List.map_inj_left]
    simp only [List.mem_filter, Function.comp_apply, Prod.mk.injEq, true_and, and_imp,
      eq_comm (a := some handler)]
  constructor
  · intro h message hmessage other hparse
    have hown := hsame.mp h.calls message hmessage (by rw [isRequest, hparse]; rfl)
    rw [handlerOf, hparse, Option.bind_some] at hown
    exact header_of_handlerFor hown hhandler
  · intro h
    refine ⟨hsame.mpr fun message hmessage hrequest => ?_, hthrown⟩
    obtain ⟨other, hparse⟩ := Option.isSome_iff_exists.mp hrequest
    rw [handlerOf, hparse, Option.bind_some, h message hmessage other hparse, hhandler]

/-- With null for all, no message may be a request. -/
theorem drainsRight_of_null {handlers : List (TransactionHandler σ)} {result : Shutdown σ}
    {messages : List Message} (hcalls : result.calls = [])
    (hthrown : result.thrown = none ↔ ∀ message ∈ messages, parseFrom message.content = none) :
    DrainsRight parseFrom handlers messages result ↔
      ∀ message ∈ messages, parseFrom message.content = none := by
  constructor
  · intro h
    exact hthrown.mp h.thrown
  · intro h
    refine ⟨?_, hthrown.mpr h⟩
    have hnone : messages.filter (isRequest parseFrom) = [] := by
      rw [List.filter_eq_nil_iff]
      intro message hmessage
      simp [isRequest, h message hmessage]
    rw [hcalls, hnone]
    rfl

/-- **When shutdown gives every message to its own handler.**  The shutdown hook calls, for
each request it goes through, the first handler with the names of its own header, and ends
without a null dereference, if and only if there is nothing to go through, or no request in
it, or a current message with a handler and the same header in every request; and what
`findHandler` finds is never a matter of its argument alone. -/
theorem shutdown_drains_iff (parseFrom : ByteString → Option TpProcessRequest) (p : Processor σ) :
    (∀ receiveQueue, DrainsRight parseFrom p.handlers (drained p receiveQueue)
        (Shutdown.run parseFrom true true p receiveQueue) ↔
      SameHeaders parseFrom p receiveQueue) ∧
    ¬∃ f : Message → Except Throwable (Option (TransactionHandler σ)), ∀ current message,
      findHandler parseFrom { p with currentMessage := current } message = f message := by
  refine ⟨fun receiveQueue => ?_, findHandler_not_of_message parseFrom p⟩
  rw [Shutdown.run, if_pos ⟨rfl, rfl⟩]
  cases hcurrent : p.currentMessage with
  | none =>
      have hfind : ∀ message, findHandler parseFrom p message = .error .nullPointer :=
        findHandler_none hcurrent
      obtain ⟨hcalls, hthrown⟩ := loop_of_error hfind (received receiveQueue) p.state
      rw [← loop_eq] at hcalls hthrown
      rw [drained, hcurrent, SameHeaders, hcurrent]
      constructor
      · intro h
        exact hthrown.mp h.thrown
      · intro h
        refine ⟨?_, hthrown.mpr h⟩
        rw [h]
        simp [hcalls]
  | some current =>
      have hfind : ∀ message, findHandler parseFrom p message
          = .ok (handlerOf parseFrom p.handlers current) := findHandler_some hcurrent
      rw [loop_eq, received, drained, hcurrent, SameHeaders, hcurrent]
      cases hparse : parseFrom current.content with
      | none =>
          have hnull : handlerOf parseFrom p.handlers current = none := by
            rw [handlerOf, hparse]
            rfl
          rw [hnull] at hfind
          obtain ⟨hcalls, hthrown⟩ := loop_of_null hfind (current :: received receiveQueue) p.state
          refine (drainsRight_of_null hcalls hthrown).trans ?_
          simp [hparse]
      | some request =>
          have hown : handlerOf parseFrom p.handlers current
              = handlerFor p.handlers request.header := by rw [handlerOf, hparse]; rfl
          rw [hown] at hfind
          cases hhandler : handlerFor p.handlers request.header with
          | none =>
              rw [hhandler] at hfind
              obtain ⟨hcalls, hthrown⟩ :=
                loop_of_null hfind (current :: received receiveQueue) p.state
              refine (drainsRight_of_null hcalls hthrown).trans ?_
              simp [hparse, hhandler]
          | some handler =>
              rw [hhandler] at hfind
              obtain ⟨hcalls, hthrown⟩ :=
                loop_of_handler hfind (current :: received receiveQueue) p.state
              refine (drainsRight_of_handler hhandler hcalls hthrown).trans ?_
              simp [hparse, hhandler]

/-- A handler of another family. -/
def intkeyHandler : TransactionHandler Unit where
  transactionFamilyName := "intkey".toList
  getVersion := "1.0".toList
  apply _ _ state := (.returned, state)

/-- Content is the name of a family. -/
def parseFamily (content : ByteString) : Option TpProcessRequest :=
  if content = [1] then some ⟨⟨"election".toList, "1.0".toList⟩, [], [], []⟩
  else if content = [2] then some ⟨⟨"intkey".toList, "1.0".toList⟩, [], [], []⟩
  else none

/-- A transaction of each of two families: the second goes to the first one's handler.  And
without a current message the first is a null dereference. -/
theorem shutdown_two_families :
    ¬DrainsRight parseFamily [electionHandler, intkeyHandler]
      (drained ⟨[electionHandler, intkeyHandler], some ⟨.TP_PROCESS_REQUEST, ['1'], [1]⟩, (), true⟩
        [some ⟨.TP_PROCESS_REQUEST, ['2'], [2]⟩])
      (Shutdown.run parseFamily true true
        ⟨[electionHandler, intkeyHandler], some ⟨.TP_PROCESS_REQUEST, ['1'], [1]⟩, (), true⟩
        [some ⟨.TP_PROCESS_REQUEST, ['2'], [2]⟩]) ∧
    (Shutdown.run parseFamily true true ⟨[electionHandler, intkeyHandler], none, (), true⟩
      [some ⟨.TP_PROCESS_REQUEST, ['1'], [1]⟩]).thrown = some .nullPointer := by
  refine ⟨fun h => ?_, rfl⟩
  have hfamilies := congrArg
    (List.map fun call => call.2.map TransactionHandler.transactionFamilyName) h.calls
  exact absurd hfamilies (by decide)

end Evoting.TransactionProcessor

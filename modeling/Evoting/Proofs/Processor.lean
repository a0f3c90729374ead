/-
Which messages the processor answers.

`step_live` says what one pass of the loop does: it answers as `expected` says, and
the loop is left exactly at a request that no handler takes.  From it, by induction
over the messages, a run answers everything as expected until the first such
request, and nothing after it (`answers_iff`).
-/
import Evoting.Lib.Machine
import Evoting.Model.Processor

namespace Evoting.TransactionProcessor

open Machine

variable {σ : Type} (parseFrom : ByteString → Option TpProcessRequest)

/-- The handler a request is for: the first with its header's names. -/
def handlerOf (handlers : List (TransactionHandler σ)) (message : Message) :
    Option (TransactionHandler σ) :=
  (parseFrom message.content).bind fun transactionRequest =>
    handlerFor handlers transactionRequest.header

/-- A request that no handler takes, or content that is not a request. -/
def Unmatched (handlers : List (TransactionHandler σ)) (message : Message) : Prop :=
  message.messageType = .TP_PROCESS_REQUEST ∧ handlerOf parseFrom handlers message = none

/-- A ping, or a request that a handler takes. -/
def NeedsAnswer (handlers : List (TransactionHandler σ)) (message : Message) : Prop :=
  message.messageType = .PING_REQUEST ∨
    message.messageType = .TP_PROCESS_REQUEST ∧ handlerOf parseFrom handlers message ≠ none

/-- **What a message has to be answered with**: a ping with a ping, and a request with the
outcome of the first matching handler. -/
def expected (handlers : List (TransactionHandler σ)) (state : σ) (message : Message) :
    List Reply :=
  match message.messageType with
  | .PING_REQUEST => [.PING_RESPONSE message.correlationId]
  | .TP_PROCESS_REQUEST =>
      match parseFrom message.content with
      | none => []
      | some transactionRequest =>
          match handlerFor handlers transactionRequest.header with
          | none => []
          | some handler => [.TP_PROCESS_RESPONSE message.correlationId (buildResponse
              (handler.apply transactionRequest transactionRequest.contextId state).1)]
  | _ => []

/-- The processor receives messages. -/
def Processor.Live (p : Processor σ) : Prop := p.running = true ∧ p.handlers ≠ []

/-- A message is answered as it has to be. -/
def AnswersAsExpected (p : Processor σ) (message : Message) : Prop :=
  (step parseFrom p message).1 = expected parseFrom p.handlers p.state message

theorem expected_eq_nil_iff {handlers : List (TransactionHandler σ)} {state : σ}
    {message : Message} :
    expected parseFrom handlers state message = [] ↔ ¬NeedsAnswer parseFrom handlers message := by
  unfold expected NeedsAnswer handlerOf
  cases message.messageType with
  | TP_PROCESS_REQUEST =>
      cases parseFrom message.content with
      | none => simp
      | some transactionRequest =>
          cases hfind : handlerFor handlers transactionRequest.header <;> simp [hfind]
  | PING_REQUEST => simp
  | TP_PROCESS_RESPONSE => simp
  | PING_RESPONSE => simp
  | other number => simp

theorem step_not_live {p : Processor σ} (h : ¬p.Live) (message : Message) :
    step parseFrom p message = ([], p) :=
  if_neg h

/-- **One pass of the loop.** -/
theorem step_live {p : Processor σ} (h : p.Live) (message : Message) :
    AnswersAsExpected parseFrom p message ∧
      (step parseFrom p message).2.handlers = p.handlers ∧
      ((step parseFrom p message).2.Live ↔ ¬Unmatched parseFrom p.handlers message) := by
  obtain ⟨hrunning, hne⟩ := h
  unfold AnswersAsExpected Processor.Live Unmatched handlerOf
  rw [step, if_pos ⟨hrunning, hne⟩]
  unfold dispatch expected
  cases message.messageType with
  | TP_PROCESS_REQUEST =>
      cases hparse : parseFrom message.content with
      | none => simp [findHandler, hparse]
      | some transactionRequest =>
          cases hfind : handlerFor p.handlers transactionRequest.header <;>
            simp [findHandler, process, hparse, hfind, hrunning, hne]
  | PING_REQUEST => simp [hrunning, hne]
  | TP_PROCESS_RESPONSE => simp [hrunning, hne]
  | PING_RESPONSE => simp [hrunning, hne]
  | other number => simp [hrunning, hne]

/-- **What a run answers.**  Every message is answered as it has to be if and only if every
one that needs an answer finds the loop running: it comes before any unmatched request. -/
theorem answers_run_iff : ∀ (messages : List Message) (p : Processor σ),
    AllSteps (step parseFrom) (AnswersAsExpected parseFrom) p messages ↔
      ∀ before message after, messages = before ++ message :: after →
        NeedsAnswer parseFrom p.handlers message →
        p.Live ∧ ∀ earlier ∈ before, ¬Unmatched parseFrom p.handlers earlier := by
  intro messages
  induction messages with
  | nil => intro p; simp [AllSteps]
  | cons first rest ih =>
      intro p
      rw [AllSteps, ih]
      by_cases hlive : p.Live
      · obtain ⟨hanswer, hhandlers, hnext⟩ := step_live parseFrom hlive first
        rw [hhandlers, hnext]
        constructor
        · rintro ⟨-, hrest⟩ before message after hsplit hneeds
          refine ⟨hlive, ?_⟩
          cases before with
          | nil => simp
          | cons b before =>
              obtain ⟨rfl, htail⟩ := List.cons.inj hsplit
              obtain ⟨hfirst, hbefore⟩ := hrest before message after htail hneeds
              simpa using ⟨hfirst, hbefore⟩
        · intro hall
          refine ⟨hanswer, fun before message after hsplit hneeds => ?_⟩
          obtain ⟨-, hbefore⟩ := hall (first :: before) message after (by rw [hsplit]; rfl) hneeds
          simpa using hbefore
      · rw [AnswersAsExpected, step_not_live parseFrom hlive, eq_comm, expected_eq_nil_iff]
        simp only [hlive, false_and]
        constructor
        · rintro ⟨hfirst, hrest⟩ before message after hsplit hneeds
          cases before with
          | nil =>
              obtain ⟨rfl, -⟩ := List.cons.inj hsplit
              exact hfirst hneeds
          | cons b before => exact hrest before message after (List.cons.inj hsplit).2 hneeds
        · intro hall
          exact ⟨hall [] first rest rfl, fun before message after hsplit =>
            hall (first :: before) message after (by rw [hsplit]; rfl)⟩

/-- **When every message is answered.**  With the handlers registered before the first message,
everything is answered as it has to be if and only if no request without a handler comes
before a message that needs an answer. -/
theorem answers_iff (handlers : List (TransactionHandler σ)) (state : σ) (messages : List Message) :
    AllSteps (step parseFrom) (AnswersAsExpected parseFrom) (started handlers state) messages ↔
      ∀ before message after, messages = before ++ message :: after →
        NeedsAnswer parseFrom handlers message →
        handlers ≠ [] ∧ ∀ earlier ∈ before, ¬Unmatched parseFrom handlers earlier := by
  rw [answers_run_iff]
  simp [started, Processor.Live]

/-- protobuf reads no bytes as a request with empty fields. -/
def parseEmpty (content : ByteString) : Option TpProcessRequest :=
  if content = [] then some ⟨⟨[], []⟩, [], [], []⟩ else none

/-- A handler that accepts every transaction of the election family. -/
def electionHandler : TransactionHandler Unit where
  transactionFamilyName := "election".toList
  getVersion := "1.0".toList
  apply _ _ state := (.returned, state)

/-- A request with empty fields, and then a ping, which stays without an answer. -/
theorem ping_after_unmatched :
    ¬∀ messages, AllSteps (step parseEmpty) (AnswersAsExpected parseEmpty)
      (started [electionHandler] ()) messages := by
  intro h
  obtain ⟨-, hping, -⟩ := h [⟨.TP_PROCESS_REQUEST, "1".toList, []⟩, ⟨.PING_REQUEST, "2".toList, []⟩]
  exact List.cons_ne_nil _ _ hping.symm

end Evoting.TransactionProcessor

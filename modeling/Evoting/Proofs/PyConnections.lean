/-
When a Python `Stream` gets ready again, and what its connections carry.

A future that is put while a pass over the futures is under way ends the pass, and with it
every later connection: `Doomed` is kept by every step, `Healthy` leads to the next
connection, and a stream can get ready again exactly when it is not doomed
(`stream_recovers_iff`).

On one connection every message heard that is not a response is received once and in order,
after the `RECONNECT_EVENT`, and every message given to the thread leaves once and in order,
after those that waited in callbacks and tasks when it was made (`connections_carry`).
-/
import Evoting.Proofs.PyStream

namespace Evoting.PyStream

open Machine Evoting.PyStream.Stream

/-! ### Getting ready again -/

/-- A pass over the futures is under way. -/
def Loop.isSettling : Loop → Bool
  | settling _ _ => true
  | _ => false

/-- A future is put while a pass over the futures is under way. -/
def Interrupts (s : Stream) (event : Event) : Prop :=
  s.loop.isSettling = true ∧ putId event ≠ none

instance (s : Stream) (event : Event) : Decidable (Interrupts s event) :=
  inferInstanceAs (Decidable (_ ∧ _))

/-- No pass over the futures has been interrupted. -/
structure Healthy (s : Stream) : Prop where
  loop : s.loop ≠ .stuck
  whole : ∀ position size, s.loop = .settling position size → s.futures.entries.length = size

theorem Healthy.step {s : Stream} (h : Healthy s) {event : Event} (hevent : ¬Interrupts s event) :
    Healthy (s.step event).2 := by
  cases change_step s event with
  | put message hput hloop hfutures hvalues =>
      refine ⟨hloop ▸ h.loop, fun position size hsettling => ?_⟩
      refine absurd ⟨?_, by simp [hput, putId]⟩ hevent
      rw [hloop] at hsettling
      rw [hsettling, Loop.isSettling]
  | resolves message place hhears hget hloop hfutures hvalues =>
      exact ⟨hloop ▸ h.loop, fun position size hsettling =>
        absurd (hloop ▸ hsettling) (not_settling_of_hears hhears position size)⟩
  | settles position id place hloop hentry hnext hfutures hvalues =>
      refine ⟨by simp [hnext], fun position' size hsettling => ?_⟩
      rw [hfutures]
      exact (Loop.settling.inj (hnext.symm.trans hsettling)).2
  | keeps hput hhears hmoves hfutures hvalues =>
      refine ⟨fun hstuck => ?_, fun position size hsettling => ?_⟩
      · generalize (s.step event).2.loop = loop at hmoves hstuck
        cases hmoves with
        | same => exact h.loop hstuck
        | fails hloop hsize => exact hsize (h.whole _ _ hloop)
        | _ => simp at hstuck
      · rw [hfutures]
        rcases hmoves.settling hsettling with hloop | ⟨-, -, hsize⟩
        · exact h.whole position size hloop
        · exact hsize.symm

/-- A pass that nothing interrupts comes to its end. -/
theorem exists_stopped : ∀ (left : Nat) {s : Stream} {position : Nat},
    s.loop = .settling position s.futures.entries.length →
    s.futures.entries.length - position = left →
    ∃ more, (run Stream.step s more).loop = .stopped := by
  intro left
  induction left with
  | zero =>
      intro s position hloop hleft
      refine ⟨[.settle], ?_⟩
      show s.settle.loop = .stopped
      rw [settle_last hloop (Nat.le_of_sub_eq_zero hleft)]
  | succ left ih =>
      intro s position hloop hleft
      have hentry := List.getElem?_eq_getElem (show position < s.futures.entries.length by omega)
      have hsettle := settle_next hloop hentry
      have hnext : s.settle.loop = .settling (position + 1) s.settle.futures.entries.length := by
        rw [hsettle]
      have hsame : s.settle.futures = s.futures := by rw [hsettle]
      obtain ⟨more, hstopped⟩ := ih hnext (by rw [hsame]; omega)
      exact ⟨.settle :: more, hstopped⟩

/-- **A stream that no `put` has interrupted** can get ready. -/
theorem Healthy.recovers {s : Stream} (h : Healthy s) :
    ∃ more, (run Stream.step s more).isReady = true := by
  have hconnect : ∀ {s : Stream}, (∃ more, (run Stream.step s more).loop = .stopped) →
      ∃ more, (run Stream.step s more).isReady = true := by
    rintro s ⟨more, hstopped⟩
    refine ⟨more ++ [.connect], ?_⟩
    rw [run_append, run_cons, run_nil, Stream.step, connect, if_pos hstopped]
    rfl
  cases hloop : s.loop with
  | running => exact ⟨[], isReady_iff.mpr hloop⟩
  | stuck => exact absurd hloop h.loop
  | stopped => exact hconnect ⟨[], hloop⟩
  | settling position size =>
      obtain rfl := h.whole position size hloop
      exact hconnect (exists_stopped _ hloop rfl)
  | cleared =>
      have hsettle := settle_cleared hloop
      have hbegun : s.settle.loop = .settling 0 s.settle.futures.entries.length := by rw [hsettle]
      obtain ⟨more, hstopped⟩ := exists_stopped _ hbegun rfl
      exact hconnect ⟨.settle :: more, hstopped⟩

/-- The pass over the futures has been interrupted, or has failed already. -/
def Doomed (s : Stream) : Prop :=
  s.loop = .stuck ∨ ∃ position size, s.loop = .settling position size ∧
    size < s.futures.entries.length

theorem Doomed.step {s : Stream} (h : Doomed s) (event : Event) : Doomed (s.step event).2 := by
  cases change_step s event with
  | put message hput hloop hfutures hvalues =>
      refine h.imp (fun hstuck => hloop ▸ hstuck) fun ⟨position, size, hsettling, hsize⟩ =>
        ⟨position, size, hloop ▸ hsettling, Nat.lt_of_lt_of_le hsize ?_⟩
      rw [hfutures]
      exact Dict.length_le_length_set _ _ _
  | resolves message place hhears hget hloop hfutures hvalues =>
      rcases h with hstuck | ⟨position, size, hsettling, -⟩
      · exact Or.inl (hloop ▸ hstuck)
      · exact absurd hsettling (not_settling_of_hears hhears position size)
  | settles position id place hloop hentry hnext hfutures hvalues =>
      rcases h with hstuck | ⟨position', size, hsettling, hsize⟩
      · simp [hstuck] at hloop
      · obtain ⟨-, rfl⟩ := Loop.settling.inj (hloop.symm.trans hsettling)
        exact absurd hsize (Nat.lt_irrefl _)
  | keeps hput hhears hmoves hfutures hvalues =>
      unfold Doomed
      rw [hfutures]
      generalize (s.step event).2.loop = loop at hmoves
      rcases h with hstuck | ⟨position, size, hsettling, hsize⟩
      · cases hmoves with
        | same => exact Or.inl hstuck
        | begins hbegins => exact absurd (hstuck.symm.trans hbegins.2) (by simp)
        | _ => simp_all
      · cases hmoves with
        | same => exact Or.inr ⟨position, size, hsettling, hsize⟩
        | begins hbegins => exact absurd (hsettling.symm.trans hbegins.2) (by simp)
        | fails hloop hsize' => exact Or.inl rfl
        | _ => simp_all

theorem Doomed.not_isReady {s : Stream} (h : Doomed s) : s.isReady ≠ true := by
  rw [ne_eq, isReady_iff]
  rcases h with hstuck | ⟨position, size, hsettling, -⟩ <;> simp [*]

theorem doomed_of_interrupts {s : Stream} (h : Sound s) {event : Event} (hfresh : Fresh s event)
    (hevent : Interrupts s event) : Doomed (s.step event).2 := by
  obtain ⟨hsettling, hput⟩ := hevent
  cases event with
  | put message =>
      cases hloop : s.loop with
      | settling position size =>
          refine Or.inr ⟨position, size, hloop, ?_⟩
          show size < (s.futures.set _ _).entries.length
          rw [Dict.entries_set_of_fresh (hfresh _ rfl), List.length_append, List.length_singleton]
          exact Nat.lt_succ_of_le (h.grows position size hloop)
      | _ => simp [hloop, Loop.isSettling] at hsettling
  | _ => simp [putId] at hput

/-- **When a Python stream comes back.**  When every future is put under an id of its own, the
stream can get ready again if and only if none has been put while a pass over the futures was under
way. -/
theorem stream_recovers_iff {events : List Event} (hunique : (events.filterMap putId).Nodup) :
    (∃ more, (reach (events ++ more)).isReady = true) ↔
      AllSteps Stream.step (fun s event => ¬Interrupts s event) new events := by
  constructor
  · rintro ⟨more, hready⟩
    rw [allSteps_iff]
    rintro first event rest hsplit hinterrupts
    have hfresh := fresh_reach hunique
    rw [hsplit, allSteps_append] at hfresh
    have hsound : Sound (reach first) :=
      AllSteps.run_invariant Stream.step Sound (fun _ _ hs hevent => hs.step hevent) first new
        sound_new hfresh.1
    have hdoomed : Doomed (reach (events ++ more)) := by
      rw [hsplit, List.append_assoc, List.cons_append, reach, run_append, run_cons]
      exact run_invariant Stream.step (fun _ event hs => hs.step event) _ _
        (doomed_of_interrupts hsound hfresh.2.1 hinterrupts)
    exact hdoomed.not_isReady hready
  · intro hnever
    have hhealthy : Healthy (reach events) :=
      AllSteps.run_invariant Stream.step Healthy (fun _ _ hs hevent => hs.step hevent) events new
        ⟨by simp [new], by simp [new]⟩ hnever
    obtain ⟨more, hready⟩ := hhealthy.recovers
    exact ⟨more, by rw [reach, run_append]; exact hready⟩

/-- The stream is ready after the first run, and never again after the second. -/
theorem stream_recovers_latePut :
    (∃ more, (reach (lateResponse ++ more)).isReady = true) ∧
      ¬∃ more, (reach (latePut ++ more)).isReady = true :=
  ⟨(stream_recovers_iff (by decide)).mpr (by decide),
    fun hmore => absurd ((stream_recovers_iff (by decide)).mp hmore) (by decide)⟩

/-! ### What is received and sent -/

/-- The item that a call of `receive` is given. -/
def receivedAt (s : Stream) (event : Event) : List Item :=
  match (s.step event).1 with
  | .received item => item.toList
  | _ => []

/-- The items received, in order. -/
def received (s : Stream) (events : List Event) : List Item :=
  gather Stream.step receivedAt s events

/-- The message that leaves. -/
def sentAt (s : Stream) (event : Event) : List Message :=
  match (s.step event).1 with
  | .sent message => message.toList
  | _ => []

/-- The messages that leave, in order. -/
def sent (s : Stream) (events : List Event) : List Message :=
  gather Stream.step sentAt s events

/-- The message that is given to the thread. -/
def given : Event → List Message
  | .putMessage message => [message]
  | _ => []

/-- What comes for `receive`: the `RECONNECT_EVENT` of a new connection, and the messages heard
for which there is no future. -/
def arrivesAt (s : Stream) : Event → List Item
  | .connect => if s.loop = .stopped then [.reconnect] else []
  | .arrival parsed => ((hears s (.arrival parsed)).filter fun message =>
      s.isReady && (s.futures.get? message.correlationId).isNone).toList.map .message
  | _ => []

def arrivals (s : Stream) (events : List Event) : List Item :=
  gather Stream.step arrivesAt s events

/-- The messages on their way out: queued, and in the tasks and callbacks that will queue them. -/
def waiting (s : Stream) : List Message := s.sendQueue ++ s.tasks ++ s.scheduled

/-! What each part of the thread leaves of the queues. -/

theorem recvQueue_receiveMessage (s : Stream) (parsed : Option Message) :
    (s.receiveMessage parsed).recvQueue = s.recvQueue ++ arrivesAt s (.arrival parsed) := by
  by_cases hready : s.receiving = true ∧ s.takesTurns = true
  · cases parsed with
    | none => simp [receiveMessage.eq_def, hready, arrivesAt, hears]
    | some message =>
        have hhears : hears s (.arrival (some message)) = some message := if_pos hready
        rw [receiveMessage.eq_def, if_pos hready, arrivesAt, hhears]
        cases hget : s.futures.get? message.correlationId with
        | some place => simp [setResult, remove, hget, Option.filter]
        | none => cases s.isReady <;> simp [setResult, hget, Option.filter]
  · simp [receiveMessage.eq_def, hready, arrivesAt, hears]

@[simp] theorem recvQueue_startPutMessage (s : Stream) :
    s.startPutMessage.recvQueue = s.recvQueue := by
  unfold startPutMessage
  split <;> rfl

@[simp] theorem recvQueue_runPutMessage (s : Stream) :
    s.runPutMessage.recvQueue = s.recvQueue := by
  unfold runPutMessage
  split <;> rfl

@[simp] theorem recvQueue_sendMessage (s : Stream) :
    s.sendMessage.2.recvQueue = s.recvQueue := by
  unfold sendMessage
  split <;> rfl

@[simp] theorem recvQueue_monitorDisconnects (s : Stream) :
    s.monitorDisconnects.recvQueue = s.recvQueue := by
  unfold monitorDisconnects
  split <;> rfl

theorem recvQueue_getMessage (s : Stream) :
    s.getMessage.1.toList ++ s.getMessage.2.recvQueue = s.recvQueue := by
  unfold getMessage
  split <;> simp_all

@[simp] theorem waiting_receiveMessage (s : Stream) (parsed : Option Message) :
    waiting (s.receiveMessage parsed) = waiting s := by
  rw [receiveMessage.eq_def]
  split
  · cases parsed with
    | none => rfl
    | some message =>
        cases hget : s.futures.get? message.correlationId with
        | some place => simp [setResult, remove, hget, waiting]
        | none => cases s.isReady <;> simp [setResult, hget, waiting]
  · rfl

@[simp] theorem waiting_startPutMessage (s : Stream) : waiting s.startPutMessage = waiting s := by
  unfold startPutMessage
  split <;> simp_all [waiting]

@[simp] theorem waiting_runPutMessage (s : Stream) : waiting s.runPutMessage = waiting s := by
  unfold runPutMessage
  split <;> simp_all [waiting]

@[simp] theorem waiting_getMessage (s : Stream) : waiting s.getMessage.2 = waiting s := by
  unfold getMessage
  split <;> rfl

@[simp] theorem waiting_monitorDisconnects (s : Stream) :
    waiting s.monitorDisconnects = waiting s := by
  unfold monitorDisconnects
  split <;> rfl

theorem waiting_sendMessage (s : Stream) :
    s.sendMessage.1.toList ++ waiting s.sendMessage.2 = waiting s := by
  unfold sendMessage
  split <;> simp_all [waiting]

/-- **One event**: what is received and what is still queued. -/
theorem received_step {s : Stream} {event : Event} (hsettle : event ≠ .settle)
    (hconnect : event ≠ .connect) :
    receivedAt s event ++ (s.step event).2.recvQueue = s.recvQueue ++ arrivesAt s event := by
  cases event with
  | settle => exact absurd rfl hsettle
  | connect => exact absurd rfl hconnect
  | arrival parsed => exact recvQueue_receiveMessage s parsed
  | getMessage => exact (recvQueue_getMessage s).trans (List.append_nil _).symm
  | _ => simp [receivedAt, Stream.step, arrivesAt, put, putMessage]

/-- The same for what is sent. -/
theorem sent_step {s : Stream} {event : Event} (hsettle : event ≠ .settle)
    (hconnect : event ≠ .connect) :
    sentAt s event ++ waiting (s.step event).2 = waiting s ++ given event := by
  cases event with
  | settle => exact absurd rfl hsettle
  | connect => exact absurd rfl hconnect
  | sendMessage => exact (waiting_sendMessage s).trans (List.append_nil _).symm
  | putMessage message => simp [sentAt, Stream.step, putMessage, waiting, given]
  | put message => simp [sentAt, Stream.step, put, waiting, given]
  | _ => simp [sentAt, Stream.step, given]

/-- A pass over the futures, and at its end the queues are given up. -/
theorem settle_queues (s : Stream) :
    s.settle.recvQueue = s.recvQueue ∧ waiting s.settle = waiting s ∨
      s.settle.loop = .stopped ∧ s.settle.recvQueue = [] ∧ waiting s.settle = s.scheduled := by
  cases hloop : s.loop with
  | cleared => exact Or.inl (by rw [settle_cleared hloop]; exact ⟨rfl, rfl⟩)
  | settling position size =>
      by_cases hsize : s.futures.entries.length = size
      · subst hsize
        cases hentry : s.futures.entries[position]? with
        | some future => exact Or.inl (by rw [settle_next hloop hentry]; exact ⟨rfl, rfl⟩)
        | none =>
            rw [settle_last hloop (List.getElem?_eq_none_iff.mp hentry)]
            exact Or.inr ⟨rfl, rfl, rfl⟩
      · exact Or.inl (by rw [settle_interrupted hloop hsize]; exact ⟨rfl, rfl⟩)
  | running | stuck | stopped => exact Or.inl (by rw [settle, hloop]; exact ⟨rfl, rfl⟩)

theorem scheduled_sublist (s : Stream) : s.scheduled.Sublist (waiting s) :=
  List.sublist_append_right _ _

/-- Over any event nothing is received or sent twice, or out of order. -/
theorem queues_step (s : Stream) (event : Event) :
    (receivedAt s event ++ (s.step event).2.recvQueue).Sublist (s.recvQueue ++ arrivesAt s event) ∧
      (sentAt s event ++ waiting (s.step event).2).Sublist (waiting s ++ given event) := by
  by_cases hsettle : event = .settle
  · subst hsettle
    show ([] ++ s.settle.recvQueue).Sublist (s.recvQueue ++ []) ∧
      ([] ++ waiting s.settle).Sublist (waiting s ++ [])
    simp only [List.nil_append, List.append_nil]
    rcases settle_queues s with ⟨hreceive, hsend⟩ | ⟨-, hreceive, hsend⟩
    · rw [hreceive, hsend]
      exact ⟨List.Sublist.refl _, List.Sublist.refl _⟩
    · rw [hreceive, hsend]
      exact ⟨List.nil_sublist _, scheduled_sublist s⟩
  · by_cases hconnect : event = .connect
    · subst hconnect
      show ([] ++ s.connect.recvQueue).Sublist (s.recvQueue ++ _) ∧
        ([] ++ waiting s.connect).Sublist (waiting s ++ [])
      rw [connect, arrivesAt]
      split
      · refine ⟨List.sublist_append_right _ _, ?_⟩
        simp only [waiting, List.nil_append, List.append_nil, List.append_assoc]
        exact List.sublist_append_right _ _
      · simp
    · rw [received_step hsettle hconnect, sent_step hsettle hconnect]
      exact ⟨List.Sublist.refl _, List.Sublist.refl _⟩

/-- **A connection lasts until it is lost.** -/
theorem running_step {s : Stream} {event : Event} (hrunning : s.loop = .running)
    (hdisconnect : event ≠ .disconnect) : (s.step event).2.loop = .running := by
  cases change_step s event with
  | put message hevent hloop hfutures hvalues => exact hloop.trans hrunning
  | resolves message place hhears hget hloop hfutures hvalues => exact hloop.trans hrunning
  | settles position id place hloop hentry hnext hfutures hvalues =>
      exact absurd (hrunning.symm.trans hloop) (by simp)
  | keeps hput hhears hmoves hfutures hvalues =>
      generalize (s.step event).2.loop = loop at hmoves
      cases hmoves with
      | same => exact hrunning
      | connects hevent hloop => rfl
      | cleared hevent hloop => exact absurd hevent hdisconnect
      | begins hbegins => exact absurd (hrunning.symm.trans hbegins.2) (by simp)
      | ends hloop hsize hlast => exact absurd (hrunning.symm.trans hloop) (by simp)
      | fails hloop hsize => exact absurd (hrunning.symm.trans hloop) (by simp)

/-- **Without a connection** the stream waits for the next one. -/
theorem not_running_step {s : Stream} {event : Event} (hrunning : s.loop ≠ .running)
    (hconnect : event ≠ .connect) : (s.step event).2.loop ≠ .running := by
  cases change_step s event with
  | put message hevent hloop hfutures hvalues => exact hloop ▸ hrunning
  | resolves message place hhears hget hloop hfutures hvalues => exact hloop ▸ hrunning
  | settles position id place hloop hentry hnext hfutures hvalues => simp [hnext]
  | keeps hput hhears hmoves hfutures hvalues =>
      generalize (s.step event).2.loop = loop at hmoves
      cases hmoves with
      | same => exact hrunning
      | connects hevent hloop => exact absurd hevent hconnect
      | _ => simp

/-- What one event does to the queues of a stream that is connected. -/
theorem queues_step_of_running {s : Stream} {event : Event} (hrunning : s.loop = .running)
    (hdisconnect : event ≠ .disconnect) :
    receivedAt s event ++ (s.step event).2.recvQueue = s.recvQueue ++ arrivesAt s event ∧
      sentAt s event ++ waiting (s.step event).2 = waiting s ++ given event := by
  by_cases hsettle : event = .settle
  · subst hsettle
    have hsame : s.settle = s := by rw [settle, hrunning]
    simp [receivedAt, sentAt, Stream.step, hsame, arrivesAt, given]
  · by_cases hconnect : event = .connect
    · subst hconnect
      have hsame : s.connect = s := if_neg (by simp [hrunning])
      simp [receivedAt, sentAt, Stream.step, hsame, arrivesAt, given, hrunning]
    · exact ⟨received_step hsettle hconnect, sent_step hsettle hconnect⟩

theorem stopped_step {s : Stream} {event : Event} (hstopped : s.loop = .stopped)
    (hconnect : event ≠ .connect) : (s.step event).2.loop = .stopped := by
  cases change_step s event with
  | put message hevent hloop hfutures hvalues => exact hloop.trans hstopped
  | resolves message place hhears hget hloop hfutures hvalues => exact hloop.trans hstopped
  | settles position id place hloop hentry hnext hfutures hvalues =>
      exact absurd (hstopped.symm.trans hloop) (by simp)
  | keeps hput hhears hmoves hfutures hvalues =>
      generalize (s.step event).2.loop = loop at hmoves
      cases hmoves with
      | same => exact hstopped
      | ends hloop hsize hlast => rfl
      | connects hevent hloop => exact absurd hevent hconnect
      | cleared hevent hloop => exact absurd (hstopped.symm.trans hloop) (by simp)
      | begins hbegins => exact absurd (hstopped.symm.trans hbegins.2) (by simp)
      | fails hloop hsize => exact absurd (hstopped.symm.trans hloop) (by simp)

/-- Nothing leaves without a connection. -/
theorem sentAt_eq_nil {s : Stream} (hrunning : s.loop ≠ .running) (event : Event) :
    sentAt s event = [] := by
  have hready : s.isReady = false := by simpa [isReady] using hrunning
  cases event <;> simp [sentAt, Stream.step, sendMessage, hready]

/-- Nothing is received from an event loop that has stopped. -/
theorem receivedAt_eq_nil {s : Stream} (hstopped : s.loop = .stopped) (event : Event) :
    receivedAt s event = [] := by
  have hturns : s.takesTurns = false := by simp [takesTurns, hstopped]
  cases event <;> simp [receivedAt, Stream.step, getMessage, hturns]

/-- Nothing arrives without a connection, until there is a new one. -/
theorem arrivesAt_eq_nil {s : Stream} (hrunning : s.loop ≠ .running) {event : Event}
    (hconnect : event ≠ .connect) : arrivesAt s event = [] := by
  have hready : s.isReady = false := by simpa [isReady] using hrunning
  cases event with
  | connect => exact absurd rfl hconnect
  | arrival parsed => cases hhears : hears s (.arrival parsed) <;> simp [arrivesAt, hready, hhears]
  | _ => rfl

/-! ### Connections -/

/-- **What a connection carries**: its greeting and then what arrives is received, and what was
left to be sent and then what is given leaves, each once and in order; the rest is on its way. -/
structure Carries (greeting : List Item) (left : List Message) (s : Stream) (period : List Event) :
    Prop where
  received : received s period ++ (run Stream.step s period).recvQueue
    = greeting ++ arrivals s period
  sent : sent s period ++ waiting (run Stream.step s period) = left ++ period.flatMap given

/-- **A run on one connection.** -/
theorem carries_of_running {s : Stream} (hrunning : s.loop = .running) {period : List Event}
    (hperiod : ∀ event ∈ period, event ≠ .disconnect) :
    Carries s.recvQueue (waiting s) s period := by
  have hsteps := AllSteps.of_forall Stream.step hperiod s
  refine ⟨?_, ?_⟩
  · refine gather_queue Stream.step (fun s => s.loop = .running) ?_ period s hrunning hsteps
    exact fun s event h hevent => ⟨running_step h hevent, (queues_step_of_running h hevent).1⟩
  · rw [← gather_inputs Stream.step given period s]
    refine gather_queue Stream.step (fun s => s.loop = .running) ?_ period s hrunning hsteps
    exact fun s event h hevent => ⟨running_step h hevent, (queues_step_of_running h hevent).2⟩

/-- **A run on a later connection.**  The one before it has left tasks and callbacks. -/
theorem carries_of_reconnect {first period : List Event} (hfirst : (reach first).loop = .stopped)
    (hperiod : ∀ event ∈ period, event ≠ .disconnect) :
    Carries [.reconnect] ((reach first).tasks ++ (reach first).scheduled)
      (reach (first ++ [.connect])) period := by
  have hconnect : reach (first ++ [.connect]) = { reach first with
      loop := .running, receiving := true, sendQueue := [], recvQueue := [.reconnect] } := by
    rw [reach, run_append]
    exact if_pos hfirst
  have hcarries :=
    carries_of_running (s := reach (first ++ [.connect])) (by rw [hconnect]) hperiod
  rw [hconnect] at hcarries ⊢
  exact hcarries

section Between

variable {s : Stream} {rest : List Event} (hrest : ∀ event ∈ rest, event ≠ .connect)
include hrest

theorem sent_eq_nil (hrunning : s.loop ≠ .running) : sent s rest = [] :=
  gather_eq_nil Stream.step (fun s => s.loop ≠ .running)
    (fun _ event h hevent => ⟨not_running_step h hevent, sentAt_eq_nil h event⟩) rest s hrunning
    (AllSteps.of_forall Stream.step hrest s)

/-- What is received without a connection was queued before. -/
theorem received_sublist (hrunning : s.loop ≠ .running) :
    (received s rest).Sublist s.recvQueue := by
  have hsteps := AllSteps.of_forall Stream.step hrest s
  have hsublist := gather_queue_sublist Stream.step (fun s => s.loop ≠ .running)
    (fun s event h hevent => ⟨not_running_step h hevent, (queues_step s event).1⟩)
    rest s hrunning hsteps
  have hnone : arrivals s rest = [] :=
    gather_eq_nil Stream.step (fun s => s.loop ≠ .running)
      (fun _ _ h hevent => ⟨not_running_step h hevent, arrivesAt_eq_nil h hevent⟩) rest s hrunning
      hsteps
  rw [arrivals] at hnone
  rw [hnone, List.append_nil] at hsublist
  exact (List.sublist_append_left _ _).trans hsublist

theorem received_eq_nil (hstopped : s.loop = .stopped) : received s rest = [] :=
  gather_eq_nil Stream.step (fun s => s.loop = .stopped)
    (fun _ event h hevent => ⟨stopped_step h hevent, receivedAt_eq_nil h event⟩) rest s hstopped
    (AllSteps.of_forall Stream.step hrest s)

end Between

/-- **Over a whole run** nothing leaves or is received that was not given or heard, nor twice, nor
out of order. -/
theorem carried_sublist (s : Stream) (events : List Event) :
    (sent s events ++ waiting (run Stream.step s events)).Sublist
        (waiting s ++ events.flatMap given) ∧
      (received s events ++ (run Stream.step s events).recvQueue).Sublist
        (s.recvQueue ++ arrivals s events) := by
  have hsteps : AllSteps Stream.step (fun _ _ => True) s events :=
    AllSteps.of_forall Stream.step (fun _ _ => trivial) s
  constructor
  · rw [← gather_inputs Stream.step given events s]
    exact gather_queue_sublist Stream.step (fun _ => True)
      (fun s event _ _ => ⟨trivial, (queues_step s event).2⟩) events s trivial hsteps
  · exact gather_queue_sublist Stream.step (fun _ => True)
      (fun s event _ _ => ⟨trivial, (queues_step s event).1⟩) events s trivial hsteps

/-- **Deliveries of the Python stream.**  Over any order of steps the first connection carries what
arrives and is given while it lasts; every later one does after a `RECONNECT_EVENT`, and sends
first what was left in tasks and callbacks; between connections nothing leaves, and nothing is
received but what was queued before, and once the event loop has stopped nothing at all; and over
a whole run nothing leaves or is received twice, or out of order. -/
theorem connections_carry :
    (∀ period : List Event, (∀ event ∈ period, event ≠ .disconnect) → Carries [] [] new period) ∧
      (∀ first period : List Event, (reach first).loop = .stopped →
        (∀ event ∈ period, event ≠ .disconnect) →
        Carries [.reconnect] ((reach first).tasks ++ (reach first).scheduled)
          (reach (first ++ [.connect])) period) ∧
      (∀ first rest : List Event, (reach first).isReady = false →
        (∀ event ∈ rest, event ≠ .connect) →
        sent (reach first) rest = [] ∧
          (received (reach first) rest).Sublist (reach first).recvQueue ∧
          ((reach first).loop = .stopped → received (reach first) rest = [])) ∧
      ∀ events : List Event,
        (sent new events ++ waiting (reach events)).Sublist (events.flatMap given) ∧
          (received new events ++ (reach events).recvQueue).Sublist (arrivals new events) := by
  refine ⟨fun period hperiod => carries_of_running (s := new) rfl hperiod,
    fun first period hfirst hperiod => carries_of_reconnect hfirst hperiod,
    fun first rest hfirst hrest => ?_, fun events => carried_sublist new events⟩
  have hrunning : (reach first).loop ≠ .running := by simpa [isReady] using hfirst
  exact ⟨sent_eq_nil hrest hrunning, received_sublist hrest hrunning, received_eq_nil hrest⟩

/-- A message is given before the connection is lost, and its callback comes after. -/
def lateCallback : List Event :=
  [.putMessage ⟨7, "a".toList, []⟩, .disconnect, .settle, .settle]

/-- The message leaves on the next connection. -/
theorem connections_carry_lateCallback :
    Carries [.reconnect] [⟨7, "a".toList, []⟩] (reach (lateCallback ++ [.connect]))
      [.startPutMessage, .runPutMessage, .getMessage, .sendMessage] :=
  connections_carry.2.1 lateCallback _ rfl (by decide)

end Evoting.PyStream

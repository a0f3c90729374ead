/-
What the futures of a Python `Stream` come to.

`Change` says what one event does to the futures and to the thread: a future is put, one is
resolved by a message that is `heard`, the pass of `_monitor_disconnects` is at one, or none
of this.  `Sound` is the invariant: a pass that no `put` has interrupted has given an error
to all the futures that it has been at.

So the value of a future is the first message with its id that is heard; without one it is
an error once the event loop has stopped since, it is pending as long as no pass over the
futures has begun since, and otherwise it is one of the two (`futures_exact`).
-/
import Evoting.Lib.Machine
import Evoting.Model.PyStream

namespace Evoting.PyStream

open Machine Evoting.PyStream.Stream

/-- The stream after some events. -/
abbrev reach (events : List Event) : Stream := run Stream.step new events

/-! ### What an event is -/

/-- The message that `_receive_message` takes at an event. -/
def hears (s : Stream) : Event → Option Message
  | .arrival parsed => if s.receiving ∧ s.takesTurns then parsed else none
  | _ => none

/-- The messages that are heard. -/
def heard (s : Stream) (events : List Event) : List Message :=
  gather Stream.step (fun s event => (hears s event).toList) s events

/-- The id of a future that is put. -/
def putId : Event → Option PyString
  | .put message => some message.correlationId
  | _ => none

/-- A future is put under an id that has none. -/
def Fresh (s : Stream) (event : Event) : Prop :=
  ∀ id, putId event = some id → s.futures.get? id = none

/-- A pass over the futures begins. -/
def Begins (s : Stream) (event : Event) : Prop := event = .settle ∧ s.loop = .cleared

/-- The event loop stops. -/
def Stops (s : Stream) (event : Event) : Prop :=
  s.loop ≠ .stopped ∧ (s.step event).2.loop = .stopped

instance (s : Stream) (event : Event) : Decidable (Begins s event) :=
  inferInstanceAs (Decidable (_ ∧ _))

instance (s : Stream) (event : Event) : Decidable (Stops s event) :=
  inferInstanceAs (Decidable (_ ∧ _))

theorem isReady_iff {s : Stream} : s.isReady = true ↔ s.loop = .running := by
  simp [isReady]

/-! ### A pass over the futures -/

theorem settle_cleared {s : Stream} (hloop : s.loop = .cleared) :
    s.settle = { s with loop := .settling 0 s.futures.entries.length } := by
  rw [settle, hloop]

theorem settle_next {s : Stream} {position : Nat} {future : PyString × Nat}
    (hloop : s.loop = .settling position s.futures.entries.length)
    (hentry : s.futures.entries[position]? = some future) :
    s.settle = { s with
      values := s.values.set future.2 (some .error)
      loop := .settling (position + 1) s.futures.entries.length } := by
  simp [settle, hloop, hentry]

theorem settle_last {s : Stream} {position : Nat}
    (hloop : s.loop = .settling position s.futures.entries.length)
    (hlast : s.futures.entries.length ≤ position) :
    s.settle = { s with
      loop := .stopped, receiving := false, tasks := [], sendQueue := [], recvQueue := [] } := by
  simp [settle, hloop, List.getElem?_eq_none_iff.mpr hlast]

theorem settle_interrupted {s : Stream} {position size : Nat}
    (hloop : s.loop = .settling position size) (hsize : s.futures.entries.length ≠ size) :
    s.settle = { s with loop := .stuck } := by
  simp [settle, hloop, hsize]

/-! ### One event -/

/-- **How the thread moves on**, with the futures as they are. -/
inductive Moves (s : Stream) (event : Event) : Loop → Prop
  | same : Moves s event s.loop
  | cleared (hevent : event = .disconnect) (hloop : s.loop = .running) : Moves s event .cleared
  | begins (hbegins : Begins s event) : Moves s event (.settling 0 s.futures.entries.length)
  | ends {position size : Nat} (hloop : s.loop = .settling position size)
      (hsize : s.futures.entries.length = size) (hlast : size ≤ position) : Moves s event .stopped
  | fails {position size : Nat} (hloop : s.loop = .settling position size)
      (hsize : s.futures.entries.length ≠ size) : Moves s event .stuck
  | connects (hevent : event = .connect) (hloop : s.loop = .stopped) : Moves s event .running

/-- A pass that is under way has been, or begins. -/
theorem Moves.settling {s : Stream} {event : Event} {loop : Loop} (h : Moves s event loop)
    {position size : Nat} (hloop : loop = .settling position size) :
    s.loop = .settling position size ∨
      Begins s event ∧ position = 0 ∧ size = s.futures.entries.length := by
  cases h with
  | same => exact Or.inl hloop
  | begins hbegins =>
      obtain ⟨rfl, rfl⟩ := Loop.settling.inj hloop
      exact Or.inr ⟨hbegins, rfl, rfl⟩
  | _ => simp at hloop

/-- The event loop stops after a whole pass. -/
theorem Moves.stopped {s : Stream} {event : Event} {loop : Loop} (h : Moves s event loop)
    (hloop : loop = .stopped) (hbefore : s.loop ≠ .stopped) :
    ∃ position, s.loop = .settling position s.futures.entries.length ∧
      s.futures.entries.length ≤ position := by
  cases h with
  | same => exact absurd hloop hbefore
  | ends hsettling hsize hlast => exact ⟨_, hsize ▸ hsettling, hsize ▸ hlast⟩
  | _ => simp at hloop

/-- **What one event does**: a future is put, one is resolved, one gets an error, or all of them
stay as they are and the thread moves on. -/
inductive Change (s : Stream) (event : Event) (s' : Stream) : Prop
  | put (message : Message) (hevent : event = .put message) (hloop : s'.loop = s.loop)
      (hfutures : s'.futures = s.futures.set message.correlationId s.values.length)
      (hvalues : s'.values = s.values ++ [none])
  | resolves (message : Message) (place : Nat) (hhears : hears s event = some message)
      (hget : s.futures.get? message.correlationId = some place) (hloop : s'.loop = s.loop)
      (hfutures : s'.futures = s.futures.erase message.correlationId)
      (hvalues : s'.values
        = s.values.set place (some (.result message.messageType message.content)))
  | settles (position : Nat) (id : PyString) (place : Nat)
      (hloop : s.loop = .settling position s.futures.entries.length)
      (hentry : s.futures.entries[position]? = some (id, place))
      (hnext : s'.loop = .settling (position + 1) s.futures.entries.length)
      (hfutures : s'.futures = s.futures)
      (hvalues : s'.values = s.values.set place (some .error))
  | keeps (hput : putId event = none)
      (hhears : ∀ message, hears s event = some message →
        s.futures.get? message.correlationId = none)
      (hmoves : Moves s event s'.loop) (hfutures : s'.futures = s.futures)
      (hvalues : s'.values = s.values)

theorem change_arrival (s : Stream) (parsed : Option Message) :
    Change s (.arrival parsed) (s.receiveMessage parsed) := by
  have hkeeps : ∀ {s' : Stream}, (∀ message, hears s (.arrival parsed) = some message →
      s.futures.get? message.correlationId = none) → s'.loop = s.loop → s'.futures = s.futures →
      s'.values = s.values → Change s (.arrival parsed) s' := fun hhears hloop hfutures hvalues =>
    .keeps rfl hhears (hloop ▸ .same) hfutures hvalues
  by_cases hready : s.receiving = true ∧ s.takesTurns = true
  · cases parsed with
    | none =>
        rw [receiveMessage.eq_def, if_pos hready]
        exact hkeeps (by simp [hears]) rfl rfl rfl
    | some message =>
        have hhears : hears s (.arrival (some message)) = some message := if_pos hready
        rw [receiveMessage.eq_def, if_pos hready]
        cases hget : s.futures.get? message.correlationId with
        | some place =>
            simp only [setResult, hget, Option.bind_some, remove]
            exact .resolves message place hhears hget rfl rfl rfl
        | none =>
            simp only [setResult, hget, Option.bind_none]
            have hnone : ∀ other, hears s (.arrival (some message)) = some other →
                s.futures.get? other.correlationId = none := fun other hother =>
              Option.some.inj (hhears.symm.trans hother) ▸ hget
            split <;> exact hkeeps hnone rfl rfl rfl
  · rw [receiveMessage.eq_def, if_neg hready]
    exact hkeeps (by simp [hears, hready]) rfl rfl rfl

theorem change_settle (s : Stream) : Change s .settle s.settle := by
  have hhears : ∀ message, hears s .settle = some message →
      s.futures.get? message.correlationId = none := by simp [hears]
  cases hloop : s.loop with
  | cleared =>
      rw [settle_cleared hloop]
      exact .keeps rfl hhears (.begins ⟨rfl, hloop⟩) rfl rfl
  | settling position size =>
      by_cases hsize : s.futures.entries.length = size
      · subst hsize
        cases hentry : s.futures.entries[position]? with
        | some future =>
            rw [settle_next hloop hentry]
            exact .settles position future.1 future.2 hloop hentry rfl rfl rfl
        | none =>
            have hlast := List.getElem?_eq_none_iff.mp hentry
            rw [settle_last hloop hlast]
            exact .keeps rfl hhears (.ends hloop rfl hlast) rfl rfl
      · rw [settle_interrupted hloop hsize]
        exact .keeps rfl hhears (.fails hloop hsize) rfl rfl
  | running =>
      rw [settle, hloop]
      exact .keeps rfl hhears .same rfl rfl
  | stuck =>
      rw [settle, hloop]
      exact .keeps rfl hhears .same rfl rfl
  | stopped =>
      rw [settle, hloop]
      exact .keeps rfl hhears .same rfl rfl

theorem change_step (s : Stream) (event : Event) : Change s event (s.step event).2 := by
  have hkeeps : ∀ {event : Event} {s' : Stream}, putId event = none →
      (∀ message, hears s event = some message → s.futures.get? message.correlationId = none) →
      s'.loop = s.loop → s'.futures = s.futures → s'.values = s.values → Change s event s' :=
    fun hput hhears hloop hfutures hvalues => .keeps hput hhears (hloop ▸ .same) hfutures hvalues
  cases event with
  | put message => exact .put message rfl rfl rfl rfl
  | arrival parsed => exact change_arrival s parsed
  | settle => exact change_settle s
  | isReady => exact hkeeps rfl (by simp [hears]) rfl rfl rfl
  | putMessage message => exact hkeeps rfl (by simp [hears]) rfl rfl rfl
  | startPutMessage =>
      rw [Stream.step, startPutMessage]
      split <;> exact hkeeps rfl (by simp [hears]) rfl rfl rfl
  | runPutMessage =>
      rw [Stream.step, runPutMessage]
      split <;> exact hkeeps rfl (by simp [hears]) rfl rfl rfl
  | getMessage =>
      rw [Stream.step, getMessage]
      split <;> exact hkeeps rfl (by simp [hears]) rfl rfl rfl
  | sendMessage =>
      rw [Stream.step, sendMessage]
      split <;> exact hkeeps rfl (by simp [hears]) rfl rfl rfl
  | disconnect =>
      rw [Stream.step, monitorDisconnects]
      split
      · exact .keeps rfl (by simp [hears]) (.cleared rfl (isReady_iff.mp ‹_›)) rfl rfl
      · exact hkeeps rfl (by simp [hears]) rfl rfl rfl
  | connect =>
      rw [Stream.step, connect]
      split
      · exact .keeps rfl (by simp [hears]) (.connects rfl ‹_›) rfl rfl
      · exact hkeeps rfl (by simp [hears]) rfl rfl rfl

/-- Nothing is heard while a pass is under way. -/
theorem not_settling_of_hears {s : Stream} {event : Event} {message : Message}
    (h : hears s event = some message) (position size : Nat) :
    s.loop ≠ .settling position size := by
  intro hloop
  cases event with
  | arrival parsed => simp [hears, takesTurns, hloop] at h
  | _ => simp [hears] at h

/-! ### Entries and the futures they stand for -/

/-- Every entry stands for a future, no two for the same, and a pass over them that no `put` has
interrupted has given an error to each one that it has been at. -/
structure Sound (s : Stream) : Prop where
  bounded : ∀ id place, s.futures.get? id = some place → place < s.values.length
  injective : ∀ id id' place, s.futures.get? id = some place →
    s.futures.get? id' = some place → id = id'
  /-- While a pass is under way futures only come. -/
  grows : ∀ position size, s.loop = .settling position size → size ≤ s.futures.entries.length
  passed : ∀ position, s.loop = .settling position s.futures.entries.length →
    ∀ future ∈ s.futures.entries.take position, s.values[future.2]? = some (some .error)

theorem sound_new : Sound new where
  bounded := by simp [new]
  injective := by simp [new]
  grows := by simp [new]
  passed := by simp [new]

theorem Sound.place_lt {s : Stream} (h : Sound s) {future : PyString × Nat}
    (hfuture : future ∈ s.futures.entries) : future.2 < s.values.length :=
  h.bounded future.1 future.2 (Dict.get?_eq_some_iff.mpr hfuture)

theorem Sound.put {s s' : Stream} (h : Sound s) {message : Message}
    (hfresh : s.futures.get? message.correlationId = none) (hloop : s'.loop = s.loop)
    (hfutures : s'.futures = s.futures.set message.correlationId s.values.length)
    (hvalues : s'.values = s.values ++ [none]) : Sound s' := by
  have hnew : ∀ id, s.futures.get? id ≠ some s.values.length := fun id hid =>
    Nat.lt_irrefl _ (h.bounded id _ hid)
  have hlength : s'.futures.entries.length = s.futures.entries.length + 1 := by
    rw [hfutures, Dict.entries_set_of_fresh hfresh, List.length_append, List.length_singleton]
  refine ⟨fun id place hget => ?_, fun id id' place hget hget' => ?_,
    fun position size hsettling => ?_, fun position hsettling => ?_⟩
  · rw [hfutures, Dict.get?_set] at hget
    rw [hvalues, List.length_append, List.length_singleton]
    split at hget
    · rw [← Option.some.inj hget]
      exact Nat.lt_succ_self _
    · exact Nat.lt_succ_of_lt (h.bounded id place hget)
  · rw [hfutures, Dict.get?_set] at hget hget'
    split at hget <;> split at hget'
    · rw [← ‹_ = id›, ← ‹_ = id'›]
    · exact absurd (Option.some.inj hget ▸ hget') (hnew id')
    · exact absurd (Option.some.inj hget' ▸ hget) (hnew id)
    · exact h.injective id id' place hget hget'
  · have hold := h.grows position size (hloop ▸ hsettling)
    omega
  · have hold := h.grows position _ (hloop ▸ hsettling)
    omega

theorem Sound.resolve {s s' : Stream} (h : Sound s) {message : Message} {place : Nat}
    (hturn : ∀ position size, s.loop ≠ .settling position size) (hloop : s'.loop = s.loop)
    (hfutures : s'.futures = s.futures.erase message.correlationId)
    (hvalues : s'.values
      = s.values.set place (some (.result message.messageType message.content))) : Sound s' := by
  refine ⟨fun id place' hget => ?_, fun id id' place' hid hid' => ?_,
    fun position size hsettling => absurd (hloop ▸ hsettling) (hturn position size),
    fun position hsettling => absurd (hloop ▸ hsettling) (hturn position _)⟩
  · rw [hfutures, Dict.get?_erase] at hget
    split at hget
    · simp at hget
    · rw [hvalues, List.length_set]
      exact h.bounded id place' hget
  · rw [hfutures, Dict.get?_erase] at hid hid'
    split at hid <;> split at hid'
    · simp at hid
    · simp at hid
    · simp at hid'
    · exact h.injective id id' place' hid hid'

/-- One more entry has been passed. -/
theorem Sound.settle {s s' : Stream} (h : Sound s) {position : Nat} {future : PyString × Nat}
    (hloop : s.loop = .settling position s.futures.entries.length)
    (hentry : s.futures.entries[position]? = some future)
    (hnext : s'.loop = .settling (position + 1) s.futures.entries.length)
    (hfutures : s'.futures = s.futures)
    (hvalues : s'.values = s.values.set future.2 (some .error)) : Sound s' := by
  have hplace := h.place_lt (List.mem_of_getElem? hentry)
  refine ⟨fun id place hget => ?_, fun id id' place hget hget' => ?_,
    fun position' size hsettling => ?_, fun position' hsettling passed hpassed => ?_⟩
  · rw [hvalues, List.length_set]
    exact h.bounded id place (hfutures ▸ hget)
  · exact h.injective id id' place (hfutures ▸ hget) (hfutures ▸ hget')
  · obtain ⟨-, rfl⟩ := Loop.settling.inj (hnext.symm.trans hsettling)
    exact Nat.le_of_eq (hfutures ▸ rfl)
  · obtain ⟨rfl, -⟩ := Loop.settling.inj (hnext.symm.trans hsettling)
    rw [hfutures, List.take_add_one, hentry, Option.toList_some, List.mem_append,
      List.mem_singleton] at hpassed
    by_cases hsame : future.2 = passed.2
    · rw [hvalues, ← hsame, List.getElem?_set_self hplace]
    · rw [hvalues, List.getElem?_set_ne hsame]
      rcases hpassed with hpassed | rfl
      · exact h.passed position hloop passed hpassed
      · exact absurd rfl hsame

theorem Sound.move {s s' : Stream} {event : Event} (h : Sound s) (hmoves : Moves s event s'.loop)
    (hfutures : s'.futures = s.futures) (hvalues : s'.values = s.values) : Sound s' := by
  refine ⟨fun id place hget => ?_, fun id id' place hget hget' => ?_,
    fun position size hsettling => ?_, fun position hsettling => ?_⟩
  · rw [hvalues]
    exact h.bounded id place (hfutures ▸ hget)
  · exact h.injective id id' place (hfutures ▸ hget) (hfutures ▸ hget')
  · rw [hfutures]
    rcases hmoves.settling hsettling with hloop | ⟨-, -, hsize⟩
    · exact h.grows position size hloop
    · exact Nat.le_of_eq hsize
  · rw [hfutures] at hsettling ⊢
    rw [hvalues]
    rcases hmoves.settling hsettling with hloop | ⟨-, rfl, -⟩
    · exact h.passed position hloop
    · simp

theorem Sound.step {s : Stream} (h : Sound s) {event : Event} (hfresh : Fresh s event) :
    Sound (s.step event).2 := by
  cases change_step s event with
  | put message hevent hloop hfutures hvalues =>
      exact h.put (hfresh _ (hevent ▸ rfl)) hloop hfutures hvalues
  | resolves message place hhears hget hloop hfutures hvalues =>
      exact h.resolve (not_settling_of_hears hhears) hloop hfutures hvalues
  | settles position id place hloop hentry hnext hfutures hvalues =>
      exact h.settle hloop hentry hnext hfutures hvalues
  | keeps hput hhears hmoves hfutures hvalues => exact h.move hmoves hfutures hvalues

/-! ### The value of a future -/

/-- No entry stands for a future any more. -/
structure Closed (s : Stream) (place : Nat) (value : Option FutureValue) : Prop where
  sound : Sound s
  value : s.values[place]? = some value
  free : ∀ id, s.futures.get? id ≠ some place

theorem Closed.step {s : Stream} {place : Nat} {value : Option FutureValue}
    (h : Closed s place value) {event : Event} (hfresh : Fresh s event) :
    Closed (s.step event).2 place value := by
  have hplace : place < s.values.length := (List.getElem?_eq_some_iff.mp h.value).1
  have hsound := h.sound.step hfresh
  cases change_step s event with
  | put message hevent hloop hfutures hvalues =>
      refine ⟨hsound, ?_, fun id => ?_⟩
      · rw [hvalues]
        exact (List.getElem?_append_left hplace).trans h.value
      · rw [hfutures, Dict.get?_set]
        split
        · exact fun heq => absurd (Option.some.inj heq) (Nat.ne_of_gt hplace)
        · exact h.free id
  | resolves message other hhears hget hloop hfutures hvalues =>
      have hne : other ≠ place := fun hother => h.free _ (hother ▸ hget)
      refine ⟨hsound, ?_, fun id => ?_⟩
      · rw [hvalues]
        exact (List.getElem?_set_ne hne).trans h.value
      · rw [hfutures, Dict.get?_erase]
        split
        · simp
        · exact h.free id
  | settles position id other hloop hentry hnext hfutures hvalues =>
      have hget := Dict.get?_eq_some_iff.mpr (List.mem_of_getElem? hentry)
      have hne : other ≠ place := fun hother => h.free _ (hother ▸ hget)
      refine ⟨hsound, ?_, fun id => hfutures ▸ h.free id⟩
      rw [hvalues]
      exact (List.getElem?_set_ne hne).trans h.value
  | keeps hput hhears hmoves hfutures hvalues =>
      exact ⟨hsound, hvalues ▸ h.value, fun id => hfutures ▸ h.free id⟩

theorem Closed.run {s : Stream} {place : Nat} {value : Option FutureValue}
    (h : Closed s place value) {events : List Event}
    (hfresh : AllSteps Stream.step Fresh s events) :
    Closed (run Stream.step s events) place value :=
  AllSteps.run_invariant Stream.step (fun s => Closed s place value)
    (fun _ _ hs hevent => hs.step hevent) events s h hfresh

/-- An entry stands for a future that no message has resolved. -/
structure Open (s : Stream) (id : PyString) (place : Nat) (value : Option FutureValue) : Prop where
  sound : Sound s
  unresolved : value = none ∨ value = some .error
  entry : s.futures.get? id = some place
  value : s.values[place]? = some value

/-- The pass that is under way, if there is one, has been interrupted. -/
def Interrupted (s : Stream) : Prop :=
  ∀ position size, s.loop = .settling position size → size < s.futures.entries.length

/-- What an event leaves of a future that it does not resolve. -/
structure Keeps (s : Stream) (event : Event) (id : PyString) (place : Nat)
    (value value' : Option FutureValue) : Prop where
  opened : Open (s.step event).2 id place value'
  error : value = some .error → value' = some .error
  stops : Stops s event → value' = some .error
  same : Interrupted s → ¬Begins s event → value' = value ∧ Interrupted (s.step event).2

/-- **What an event does to a future that is open**: it resolves it with a message that is heard,
or it leaves it open. -/
theorem Open.step {s : Stream} {id : PyString} {place : Nat} {value : Option FutureValue}
    (h : Open s id place value) {event : Event} (hfresh : Fresh s event)
    (hput : putId event ≠ some id) :
    (∃ message, hears s event = some message ∧ message.correlationId = id ∧
      Closed (s.step event).2 place (some (.result message.messageType message.content))) ∨
    (∀ message, hears s event = some message → message.correlationId ≠ id) ∧
      ∃ value', Keeps s event id place value value' := by
  have hplace : place < s.values.length := (List.getElem?_eq_some_iff.mp h.value).1
  have hsound := h.sound.step hfresh
  cases change_step s event with
  | put message hevent hloop hfutures hvalues =>
      have hne : message.correlationId ≠ id := fun hid => hput (hevent ▸ congrArg some hid)
      have hlength : s.futures.entries.length ≤ (s.step event).2.futures.entries.length := by
        rw [hfutures]
        exact Dict.length_le_length_set _ _ _
      refine Or.inr ⟨by simp [hevent, hears], value, ⟨hsound, h.unresolved, ?_, ?_⟩, fun h => h,
        fun hstops => absurd (hloop ▸ hstops.2) hstops.1, fun hinterrupted _ => ⟨rfl, ?_⟩⟩
      · rw [hfutures, Dict.get?_set, if_neg hne, h.entry]
      · rw [hvalues]
        exact (List.getElem?_append_left hplace).trans h.value
      · intro position size hsettling
        exact Nat.lt_of_lt_of_le (hinterrupted position size (hloop ▸ hsettling)) hlength
  | resolves message other hhears hget hloop hfutures hvalues =>
      by_cases hid : message.correlationId = id
      · obtain rfl : other = place := Option.some.inj (hget.symm.trans (hid ▸ h.entry))
        refine Or.inl ⟨message, hhears, hid, hsound, ?_, fun id' => ?_⟩
        · rw [hvalues]
          exact List.getElem?_set_self hplace
        · rw [hfutures, Dict.get?_erase]
          split
          · simp
          · rename_i hne
            exact fun hget' => hne (hid.trans (h.sound.injective id id' _ h.entry hget'))
      · have hne : other ≠ place := fun hother =>
          hid (h.sound.injective _ _ place (hother ▸ hget) h.entry)
        refine Or.inr ⟨fun m hm => Option.some.inj (hhears.symm.trans hm) ▸ hid, value,
          ⟨hsound, h.unresolved, ?_, ?_⟩, fun h => h,
          fun hstops => absurd (hloop ▸ hstops.2) hstops.1, fun _ _ => ⟨rfl, ?_⟩⟩
        · rw [hfutures, Dict.get?_erase, if_neg hid, h.entry]
        · rw [hvalues]
          exact (List.getElem?_set_ne hne).trans h.value
        · exact fun position size hsettling =>
            absurd (hloop ▸ hsettling) (not_settling_of_hears hhears position size)
  | settles position other place' hloop hentry hnext hfutures hvalues =>
      have hdeaf : ∀ message, hears s event = some message → message.correlationId ≠ id :=
        fun message hhears => absurd hloop (not_settling_of_hears hhears _ _)
      have hstops : ¬Stops s event := fun hstops => by
        have hstopped := hstops.2
        rw [hnext] at hstopped
        simp at hstopped
      -- the pass is at its full length, so it has not been interrupted
      have hwhole : ¬Interrupted s := fun hinterrupted =>
        Nat.lt_irrefl _ (hinterrupted position _ hloop)
      by_cases hsame : place' = place
      · refine Or.inr ⟨hdeaf, some .error, ⟨hsound, Or.inr rfl, hfutures ▸ h.entry, ?_⟩,
          fun _ => rfl, fun _ => rfl, fun hinterrupted => absurd hinterrupted hwhole⟩
        rw [hvalues, hsame]
        exact List.getElem?_set_self hplace
      · refine Or.inr ⟨hdeaf, value, ⟨hsound, h.unresolved, hfutures ▸ h.entry, ?_⟩,
          fun h => h, fun h => absurd h hstops, fun hinterrupted => absurd hinterrupted hwhole⟩
        rw [hvalues]
        exact (List.getElem?_set_ne hsame).trans h.value
  | keeps hnone hhears hmoves hfutures hvalues =>
      refine Or.inr ⟨fun message hmessage hid => ?_, value,
        ⟨hsound, h.unresolved, hfutures ▸ h.entry, hvalues ▸ h.value⟩, fun h => h,
        fun hstops => ?_, fun hinterrupted hbegins => ⟨rfl, fun position size hsettling => ?_⟩⟩
      · have hget := hhears message hmessage
        rw [hid, h.entry] at hget
        simp at hget
      · obtain ⟨position, hloop, hlast⟩ := hmoves.stopped hstops.2 hstops.1
        have hpassed := h.sound.passed position hloop (id, place) (by
          rw [List.take_of_length_le hlast]
          exact Dict.get?_eq_some_iff.mp h.entry)
        exact Option.some.inj (h.value.symm.trans hpassed)
      · rcases hmoves.settling hsettling with hloop | ⟨hbegins', -, -⟩
        · exact hfutures ▸ hinterrupted position size hloop
        · exact absurd hbegins' hbegins

/-- The first message with an id that is heard. -/
def response (id : PyString) (s : Stream) (events : List Event) : Option Message :=
  (heard s events).find? fun message => message.correlationId = id

theorem heard_cons (s : Stream) (event : Event) (events : List Event) :
    heard s (event :: events) = (hears s event).toList ++ heard (s.step event).2 events := rfl

theorem response_of_hears {id : PyString} {s : Stream} {event : Event} {message : Message}
    (hhears : hears s event = some message) (hid : message.correlationId = id)
    (events : List Event) : response id s (event :: events) = some message := by
  rw [response, heard_cons, hhears, Option.toList_some, List.singleton_append,
    List.find?_cons_of_pos (by simpa)]

theorem response_of_not_hears {id : PyString} {s : Stream} {event : Event}
    (hother : ∀ message, hears s event = some message → message.correlationId ≠ id)
    (events : List Event) :
    response id s (event :: events) = response id (s.step event).2 events := by
  rw [response, heard_cons]
  cases hhears : hears s event with
  | none => rfl
  | some message =>
      rw [Option.toList_some, List.singleton_append,
        List.find?_cons_of_neg (by simpa using hother message hhears), response]

/-- The event loop stops at some event. -/
def HasStopped (s : Stream) (events : List Event) : Prop :=
  ¬AllSteps Stream.step (fun s event => ¬Stops s event) s events

/-- A pass over the futures begins at some event. -/
def HasBegun (s : Stream) (events : List Event) : Prop :=
  ¬AllSteps Stream.step (fun s event => ¬Begins s event) s events

/-- What a future comes to that has a value and is open. -/
structure ComesTo (id : PyString) (s : Stream) (events : List Event)
    (value value' : Option FutureValue) : Prop where
  result : ∀ message, response id s events = some message →
    value' = some (.result message.messageType message.content)
  error : response id s events = none → value = some .error ∨ HasStopped s events →
    value' = some .error
  same : response id s events = none → Interrupted s → ¬HasBegun s events → value' = value
  either : response id s events = none → value' = none ∨ value' = some .error

/-- **The value of an open future after a run.** -/
theorem Open.run : ∀ (events : List Event) {s : Stream} {id : PyString} {place : Nat}
    {value : Option FutureValue}, Open s id place value →
    AllSteps Stream.step Fresh s events → (∀ event ∈ events, putId event ≠ some id) →
    ∃ value', (Machine.run Stream.step s events).values[place]? = some value' ∧
      ComesTo id s events value value' := by
  intro events
  induction events with
  | nil =>
      intro s id place value h _ _
      exact ⟨value, h.value, by simp [response, heard, gather],
        fun _ hor => hor.resolve_right fun hstopped => hstopped trivial, fun _ _ _ => rfl,
        fun _ => h.unresolved⟩
  | cons event events ih =>
      rintro s id place value h ⟨hfresh, hrest⟩ hput
      rw [run_cons]
      rcases h.step hfresh (hput event (by simp)) with ⟨message, hhears, hid, hclosed⟩ |
        ⟨hother, next, hkeeps⟩
      · have hresponse := response_of_hears hhears hid events
        refine ⟨_, (hclosed.run hrest).value, fun m hm => ?_, fun hnone => ?_, fun hnone => ?_,
          fun hnone => ?_⟩
        · rw [← Option.some.inj (hresponse.symm.trans hm)]
        all_goals simp [hresponse] at hnone
      · obtain ⟨final, hfinal, hcomes⟩ :=
          ih hkeeps.opened hrest fun e he => hput e (by simp [he])
        have hresponse := response_of_not_hears hother events
        refine ⟨final, hfinal, fun m hm => hcomes.result m (hresponse ▸ hm),
          fun hnone hor => hcomes.error (hresponse ▸ hnone) ?_, fun hnone hinterrupted hbegun => ?_,
          fun hnone => hcomes.either (hresponse ▸ hnone)⟩
        · by_cases hstops : Stops s event
          · exact Or.inl (hkeeps.stops hstops)
          · exact hor.imp hkeeps.error fun hstopped hnever => hstopped ⟨hstops, hnever⟩
        · obtain ⟨hbegins, hnever⟩ := not_not.mp hbegun
          obtain ⟨hsame, hinterrupted'⟩ := hkeeps.same hinterrupted hbegins
          exact (hcomes.same (hresponse ▸ hnone) hinterrupted' (not_not.mpr hnever)).trans hsame

/-! ### Ids that are used once -/

theorem get?_step_eq_none {s : Stream} {event : Event} {id : PyString}
    (h : s.futures.get? id = none) (hput : putId event ≠ some id) :
    (s.step event).2.futures.get? id = none := by
  cases change_step s event with
  | put message hevent hloop hfutures hvalues =>
      have hne : message.correlationId ≠ id := fun hid => hput (hevent ▸ congrArg some hid)
      rw [hfutures, Dict.get?_set, if_neg hne, h]
  | resolves message place hhears hget hloop hfutures hvalues =>
      rw [hfutures, Dict.get?_erase, h]
      split <;> rfl
  | settles position other place hloop hentry hnext hfutures hvalues => rw [hfutures, h]
  | keeps hnone hhears hmoves hfutures hvalues => rw [hfutures, h]

/-- **Where every future is put under an id of its own**, no `put` replaces another. -/
theorem fresh_of_nodup : ∀ (events : List Event) {s : Stream},
    (events.filterMap putId).Nodup → (∀ id ∈ events.filterMap putId, s.futures.get? id = none) →
    AllSteps Stream.step Fresh s events := by
  intro events
  induction events with
  | nil => intro s _ _; exact trivial
  | cons event events ih =>
      intro s hunique hfree
      rw [List.filterMap_cons] at hunique hfree
      have hrest : ∀ id ∈ events.filterMap putId, s.futures.get? id = none ∧ putId event ≠ some id
          := by
        intro id hid
        cases hput : putId event with
        | none =>
            rw [hput] at hfree
            exact ⟨hfree id hid, by simp⟩
        | some other =>
            rw [hput] at hunique hfree
            refine ⟨hfree id (List.mem_cons_of_mem _ hid), fun hsame => ?_⟩
            exact (List.nodup_cons.mp hunique).1 (Option.some.inj hsame ▸ hid)
      refine ⟨fun id hid => ?_, ih ?_ fun id hid =>
        get?_step_eq_none (hrest id hid).1 (hrest id hid).2⟩
      · rw [hid] at hfree
        exact hfree id (List.mem_cons_self ..)
      · cases hput : putId event with
        | none =>
            rw [hput] at hunique
            exact hunique
        | some other =>
            rw [hput] at hunique
            exact (List.nodup_cons.mp hunique).2

theorem fresh_reach {events : List Event} (hunique : (events.filterMap putId).Nodup) :
    AllSteps Stream.step Fresh new events :=
  fresh_of_nodup events hunique fun _ _ => rfl

/-- **What a future comes to**, with the events after its `put`. -/
structure Exact (id : PyString) (s : Stream) (events : List Event)
    (value : Option FutureValue) : Prop where
  /-- The first message with its id that is heard. -/
  result : ∀ message, response id s events = some message →
    value = some (.result message.messageType message.content)
  /-- Without one: an error, once the event loop has stopped. -/
  error : response id s events = none → HasStopped s events → value = some .error
  /-- Without one: pending, as long as no pass over the futures has begun. -/
  pending : response id s events = none → ¬HasBegun s events → value = none
  /-- Without one: one of the two, while a pass is under way or when it has been interrupted. -/
  either : response id s events = none → value = none ∨ value = some .error

/-- **Futures of the Python stream.**  When every future is put under an id of its own, then over
any order of steps the value of a future is the first message with its id that is heard after it was
put; while there is none, it is an error once the event loop has stopped since, it is pending as
long as no pass over the futures has begun since, and otherwise it is one of the two. -/
theorem futures_exact {events : List Event} (hunique : (events.filterMap putId).Nodup)
    {before after : List Event} {message : Message}
    (hsplit : events = before ++ .put message :: after)
    {place : Nat} (hplace : ((reach before).step (.put message)).1 = .future place) :
    ∃ value, (reach events).values[place]? = some value ∧
      Exact message.correlationId ((reach before).step (.put message)).2 after value := by
  obtain rfl : (reach before).values.length = place := Answer.future.inj hplace
  have hfresh := fresh_reach hunique
  rw [hsplit, allSteps_append] at hfresh
  obtain ⟨hbefore, hput, hafter⟩ := hfresh
  have hsound : Sound (reach before) :=
    AllSteps.run_invariant Stream.step Sound (fun _ _ hs hevent => hs.step hevent) before new
      sound_new hbefore
  have hopen : Open ((reach before).step (.put message)).2 message.correlationId
      (reach before).values.length none := by
    refine ⟨hsound.step hput, Or.inl rfl, ?_, List.getElem?_concat_length⟩
    show ((reach before).futures.set _ _).get? _ = _
    rw [Dict.get?_set, if_pos rfl]
  -- a pass that was under way at the `put` does not come to the new future
  have hinterrupted : Interrupted ((reach before).step (.put message)).2 := by
    intro position size hsettling
    show size < ((reach before).futures.set _ _).entries.length
    rw [Dict.entries_set_of_fresh (hput _ rfl), List.length_append, List.length_singleton]
    exact Nat.lt_succ_of_le (hsound.grows position size hsettling)
  have hothers : ∀ event ∈ after, putId event ≠ some message.correlationId := by
    intro event hevent hid
    rw [hsplit, List.filterMap_append, List.nodup_append, List.filterMap_cons] at hunique
    have hcons := hunique.2.1
    rw [putId, List.nodup_cons] at hcons
    exact hcons.1 (List.mem_filterMap.mpr ⟨event, hevent, hid⟩)
  obtain ⟨value, hvalue, hcomes⟩ := hopen.run after hafter hothers
  refine ⟨value, ?_, hcomes.result, fun hnone hstopped => hcomes.error hnone (Or.inr hstopped),
    fun hnone hbegun => hcomes.same hnone hinterrupted hbegun, hcomes.either⟩
  rw [hsplit, reach, run_append, run_cons]
  exact hvalue

/-- A response comes after the event loop has stopped and the connection was made again. -/
def lateResponse : List Event :=
  [.put ⟨7, "a".toList, []⟩, .put ⟨7, "b".toList, []⟩, .disconnect, .settle, .settle, .settle,
    .settle, .connect, .arrival (some ⟨8, "a".toList, [1]⟩)]

/-- A future is put while the pass over the futures is at the one before. -/
def latePut : List Event :=
  [.put ⟨7, "a".toList, []⟩, .disconnect, .settle, .settle, .put ⟨7, "b".toList, []⟩, .settle]

theorem futures_exact_lateResponse :
    (reach lateResponse).values[0]? = some (some (.result 8 [1])) ∧
      (reach lateResponse).values[1]? = some (some .error) ∧
      (reach latePut).values[1]? = some none := by
  have hresponse : (lateResponse.filterMap putId).Nodup := by decide
  have hput : (latePut.filterMap putId).Nodup := by decide
  refine ⟨?_, ?_, ?_⟩
  · have hsplit : lateResponse = [] ++ .put ⟨7, "a".toList, []⟩ :: lateResponse.drop 1 := rfl
    obtain ⟨value, hvalue, hexact⟩ := futures_exact hresponse hsplit rfl
    exact hvalue.trans (congrArg some (hexact.result ⟨8, "a".toList, [1]⟩ rfl))
  · have hsplit : lateResponse
        = lateResponse.take 1 ++ .put ⟨7, "b".toList, []⟩ :: lateResponse.drop 2 := rfl
    obtain ⟨value, hvalue, hexact⟩ := futures_exact hresponse hsplit rfl
    have hstopped : HasStopped (reach (lateResponse.take 2)) (lateResponse.drop 2) := by
      unfold HasStopped
      decide
    exact hvalue.trans (congrArg some (hexact.error rfl hstopped))
  · have hsplit : latePut = latePut.take 4 ++ .put ⟨7, "b".toList, []⟩ :: latePut.drop 5 := rfl
    obtain ⟨value, hvalue, hexact⟩ := futures_exact hput hsplit rfl
    have hbegun : ¬HasBegun (reach (latePut.take 5)) (latePut.drop 5) := by
      unfold HasBegun
      decide
    exact hvalue.trans (congrArg some (hexact.pending rfl hbegun))

end Evoting.PyStream

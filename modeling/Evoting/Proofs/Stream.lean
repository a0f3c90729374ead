/-
Which futures of a stream are resolved, and by what.

Correlation ids are distinct.  Without disconnects each future gets the content of
the first message with its id that arrives after it was sent, and every other
message is received once and in order (`stream_faithful`).  At a disconnect the
entries of the map are replaced, but the callers hold the futures themselves, so
those are left pending: a disconnect settles all futures if and only if the map is
empty already (`disconnects_settle_iff`).  What an event does to the map and to the
results is said once, in `step_cases`, and every invariant is read off it.
-/
import Evoting.Lib.Machine
import Evoting.Model.Stream

namespace Evoting.ZmqStream

open Machine

/-- The stream after some events. -/
abbrev reach (events : List StreamEvent) : ZmqStream := run step new events

theorem reach_append (first rest : List StreamEvent) :
    reach (first ++ rest) = run step (reach first) rest :=
  run_append step new first rest

theorem reach_concat (events : List StreamEvent) (event : StreamEvent) :
    reach (events ++ [event]) = ((reach events).step event).2 :=
  reach_append events [event]

/-- The correlation id of a `send`. -/
def sentId : StreamEvent → Option JString
  | .send id _ _ => some id
  | _ => none

/-- The message that arrives, if its correlation id is `id`. -/
def bearing (id : JString) : StreamEvent → Option Message
  | .arrival (some message) => if message.correlationId = id then some message else none
  | _ => none

/-! ### One event -/

/-- **What the arrival of a message does.** -/
theorem handle_cases (s : ZmqStream) (message : Message) :
    (s.futureHashMap.get? message.correlationId = none ∧ s.handle (some message)
      = { s with receiveQueue := s.receiveQueue ++ [some message] }) ∨
    (∃ place, s.futureHashMap.get? message.correlationId = some (.byteString place) ∧
      s.handle (some message) = { s with
        results := s.results.set place (some message.content)
        futureHashMap := s.futureHashMap.erase message.correlationId }) ∨
    (s.futureHashMap.get? message.correlationId = some .error ∧ s.handle (some message) = s) := by
  cases hget : s.futureHashMap.get? message.correlationId with
  | none => exact Or.inl ⟨rfl, by simp [handle, hget]⟩
  | some future =>
      cases future with
      | byteString place =>
          exact Or.inr (Or.inl ⟨place, rfl, by simp [handle, hget, Future.setResult]⟩)
      | error => exact Or.inr (Or.inr ⟨rfl, by simp [handle, hget, Future.setResult]⟩)

theorem step_receive (s : ZmqStream) :
    (s.receiveQueue = [] ∧ s.step .receive = (.waiting, s)) ∨
      ∃ wrapper queue, s.receiveQueue = wrapper :: queue ∧
        s.step .receive = (.received wrapper, { s with receiveQueue := queue }) := by
  cases hqueue : s.receiveQueue with
  | nil => exact Or.inl ⟨rfl, by simp [step, receive, hqueue]⟩
  | cons wrapper queue => exact Or.inr ⟨wrapper, queue, rfl, by simp [step, receive, hqueue]⟩

/-- **What one event does to the futures.**  A future is sent, one is resolved, a disconnect comes,
or the futures stay as they are. -/
theorem step_cases (s : ZmqStream) (event : StreamEvent) :
    (∃ id destination contents, event = .send id destination contents ∧
      (s.step event).2 = { s with
        futureHashMap := s.futureHashMap.set id (.byteString s.results.length)
        results := s.results ++ [none] }) ∨
    (∃ message place, event = .arrival (some message) ∧
      s.futureHashMap.get? message.correlationId = some (.byteString place) ∧
      (s.step event).2 = { s with
        results := s.results.set place (some message.content)
        futureHashMap := s.futureHashMap.erase message.correlationId }) ∨
    (event = .disconnect ∧ (s.step event).2 = s.disconnected) ∨
    event ≠ .disconnect ∧ sentId event = none ∧
      (∀ message, event = .arrival (some message) → ∀ place,
        s.futureHashMap.get? message.correlationId ≠ some (.byteString place)) ∧
      ∃ queue, (s.step event).2 = { s with receiveQueue := queue } := by
  cases event with
  | send id destination contents => exact Or.inl ⟨id, destination, contents, rfl, rfl⟩
  | receive =>
      refine Or.inr (Or.inr (Or.inr ⟨by simp, rfl, by simp, ?_⟩))
      rcases step_receive s with ⟨-, heq⟩ | ⟨wrapper, queue, -, heq⟩
      · exact ⟨s.receiveQueue, by rw [heq]⟩
      · exact ⟨queue, by rw [heq]⟩
  | disconnect => exact Or.inr (Or.inr (Or.inl ⟨rfl, rfl⟩))
  | arrival parsed =>
      cases parsed with
      | none => exact Or.inr (Or.inr (Or.inr ⟨by simp, rfl, by simp, s.receiveQueue, rfl⟩))
      | some message =>
          rcases handle_cases s message with ⟨hget, heq⟩ | ⟨place, hget, heq⟩ | ⟨hget, heq⟩
          · refine Or.inr (Or.inr (Or.inr ⟨by simp, rfl, ?_, _, heq⟩))
            intro other hother place
            obtain rfl := Option.some.inj (StreamEvent.arrival.inj hother)
            simp [hget]
          · exact Or.inr (Or.inl ⟨message, place, rfl, hget, heq⟩)
          · refine Or.inr (Or.inr (Or.inr ⟨by simp, rfl, ?_, s.receiveQueue, heq⟩))
            intro other hother place
            obtain rfl := Option.some.inj (StreamEvent.arrival.inj hother)
            simp [hget]

theorem getResult_eq {s : ZmqStream} {place : Nat} {result : ByteString}
    (h : s.results[place]? = some (some result)) :
    (Future.byteString place).getResult s = .result result := by
  rw [Future.getResult, h]

/-- Futures themselves do not notice a disconnect. -/
theorem getResult_disconnect (future : Future) (s : ZmqStream) :
    future.getResult (s.step .disconnect).2 = future.getResult s := by
  cases future <;> rfl

/-- Only sending under an id makes an entry for it. -/
theorem get?_step_of_none {s : ZmqStream} {id : JString} (h : s.futureHashMap.get? id = none)
    {event : StreamEvent} (hsent : sentId event ≠ some id) :
    (s.step event).2.futureHashMap.get? id = none := by
  rcases step_cases s event with ⟨id', _, _, rfl, heq⟩ | ⟨_, _, -, -, heq⟩ | ⟨-, heq⟩ |
    ⟨-, -, -, _, heq⟩ <;> rw [heq]
  · have hne : id' ≠ id := fun hid => hsent (congrArg some hid)
    simp [h, hne]
  · simp [h]
  · simp [disconnected, h]
  · exact h

/-! ### Entries and the futures they stand for -/

/-- Every entry is a future that is pending, and no two entries are one future. -/
structure Sound (s : ZmqStream) : Prop where
  pending : ∀ id future, s.futureHashMap.get? id = some future →
    ∃ place, future = .byteString place ∧ s.results[place]? = some none
  injective : ∀ id id' future, s.futureHashMap.get? id = some future →
    s.futureHashMap.get? id' = some future → id = id'

theorem sound_new : Sound new where
  pending := by simp [new]
  injective := by simp [new]

theorem Sound.of_empty {s : ZmqStream} (h : s.futureHashMap = .empty) : Sound s where
  pending := by simp [h]
  injective := by simp [h]

/-- A new future has a place of its own. -/
theorem Sound.send {s : ZmqStream} (h : Sound s) (id : JString) :
    Sound { s with
      futureHashMap := s.futureHashMap.set id (.byteString s.results.length)
      results := s.results ++ [none] } := by
  have hnew : ∀ {id' future}, s.futureHashMap.get? id' = some future →
      future ≠ .byteString s.results.length := by
    rintro id' future hget rfl
    obtain ⟨place, hplace, hresult⟩ := h.pending _ _ hget
    obtain rfl := Future.byteString.inj hplace
    simp at hresult
  constructor
  · intro id' future hget
    simp only [Dict.get?_set] at hget ⊢
    by_cases hid : id = id'
    · rw [if_pos hid, Option.some.injEq] at hget
      exact ⟨_, hget.symm, by simp⟩
    · rw [if_neg hid] at hget
      obtain ⟨place, rfl, hresult⟩ := h.pending _ _ hget
      have hlt := (List.getElem?_eq_some_iff.mp hresult).1
      exact ⟨place, rfl, by rw [List.getElem?_append_left hlt, hresult]⟩
  · intro id₁ id₂ future hget₁ hget₂
    simp only [Dict.get?_set] at hget₁ hget₂
    by_cases hid₁ : id = id₁
    · by_cases hid₂ : id = id₂
      · exact hid₁.symm.trans hid₂
      · rw [if_pos hid₁, Option.some.injEq] at hget₁
        rw [if_neg hid₂] at hget₂
        exact absurd hget₁.symm (hnew hget₂)
    · rw [if_neg hid₁] at hget₁
      by_cases hid₂ : id = id₂
      · rw [if_pos hid₂, Option.some.injEq] at hget₂
        exact absurd hget₂.symm (hnew hget₁)
      · rw [if_neg hid₂] at hget₂
        exact h.injective _ _ _ hget₁ hget₂

/-- The entry of a future that is resolved goes, and no other future is touched. -/
theorem Sound.resolve {s : ZmqStream} (h : Sound s) {id : JString} {place : Nat}
    (hentry : s.futureHashMap.get? id = some (.byteString place)) (content : ByteString) :
    Sound { s with
      results := s.results.set place (some content)
      futureHashMap := s.futureHashMap.erase id } := by
  have hold : ∀ {id' future}, (s.futureHashMap.erase id).get? id' = some future →
      id ≠ id' ∧ s.futureHashMap.get? id' = some future := by
    intro id' future hget
    rw [Dict.get?_erase] at hget
    by_cases hid : id = id'
    · simp [hid] at hget
    · rw [if_neg hid] at hget
      exact ⟨hid, hget⟩
  constructor
  · intro id' future hget
    obtain ⟨hid, hget⟩ := hold hget
    obtain ⟨other, rfl, hresult⟩ := h.pending _ _ hget
    have hne : place ≠ other := by
      rintro rfl
      exact hid (h.injective _ _ _ hentry hget)
    exact ⟨other, rfl, by rw [List.getElem?_set_ne hne, hresult]⟩
  · intro id₁ id₂ future hget₁ hget₂
    exact h.injective _ _ _ (hold hget₁).2 (hold hget₂).2

/-- **One event.**  Only a disconnect that finds entries puts errors into the map. -/
theorem Sound.step {s : ZmqStream} (h : Sound s) {event : StreamEvent}
    (hdisconnect : event = .disconnect → s.futureHashMap = .empty) : Sound (s.step event).2 := by
  rcases step_cases s event with ⟨id, _, _, -, heq⟩ | ⟨message, place, -, hentry, heq⟩ |
    ⟨hevent, heq⟩ | ⟨-, -, -, _, heq⟩ <;> rw [heq]
  · exact h.send id
  · exact h.resolve hentry message.content
  · refine Sound.of_empty ?_
    rw [disconnected, hdisconnect hevent]
    rfl
  · exact ⟨h.pending, h.injective⟩

/-! ### The futures that were returned -/

/-- The future an answer returns, with its correlation id. -/
def sentFuture : StreamEvent × StreamAnswer → Option (JString × Future)
  | (_, .sent future message) => some (message.correlationId, future)
  | _ => none

/-- The futures that `send` has returned. -/
def sentFutures (events : List StreamEvent) : List (JString × Future) :=
  (trace step new events).filterMap sentFuture

/-- **Where a future comes from.** -/
theorem mem_sentFutures {events : List StreamEvent} {id : JString} {future : Future}
    (h : (id, future) ∈ sentFutures events) :
    ∃ before destination contents after, events = before ++ .send id destination contents :: after ∧
      future = .byteString (reach before).results.length := by
  obtain ⟨⟨event, answer⟩, hmem, hsent⟩ := List.mem_filterMap.mp h
  obtain ⟨first, last, htrace⟩ := List.append_of_mem hmem
  obtain ⟨before, after, rfl, -, hanswer, -⟩ := trace_eq_append step htrace
  cases event with
  | send id' destination contents =>
      obtain rfl := hanswer
      obtain ⟨rfl, rfl⟩ := Prod.mk.inj (Option.some.inj hsent)
      exact ⟨before, destination, contents, after, rfl, rfl⟩
  | receive =>
      rcases step_receive (reach before) with ⟨-, heq⟩ | ⟨wrapper, queue, -, heq⟩ <;>
        rw [hanswer, heq] at hsent <;> simp [sentFuture] at hsent
  | arrival parsed =>
      rw [hanswer] at hsent
      simp [step, sentFuture] at hsent
  | disconnect =>
      rw [hanswer] at hsent
      simp [step, sentFuture] at hsent

/-- A future that an entry stands for was there before, or has just been returned. -/
theorem get?_step_of_some {s : ZmqStream} {event : StreamEvent} {id : JString} {place : Nat}
    (h : (s.step event).2.futureHashMap.get? id = some (.byteString place)) :
    s.futureHashMap.get? id = some (.byteString place) ∨
      sentFuture (event, (s.step event).1) = some (id, .byteString place) := by
  rcases step_cases s event with ⟨id', _, _, rfl, heq⟩ | ⟨message, _, -, -, heq⟩ | ⟨-, heq⟩ |
    ⟨-, -, -, _, heq⟩ <;> rw [heq] at h
  · rw [Dict.get?_set] at h
    by_cases hid : id' = id
    · rw [if_pos hid] at h
      exact Or.inr (by simp [step, send, sentFuture, hid, Option.some.inj h])
    · rw [if_neg hid] at h
      exact Or.inl h
  · rw [Dict.get?_erase] at h
    by_cases hid : message.correlationId = id
    · simp [hid] at h
    · rw [if_neg hid] at h
      exact Or.inl h
  · simp [disconnected] at h
  · exact Or.inl h

/-- Entries stand for futures that callers hold. -/
theorem sentFutures_of_get? {events : List StreamEvent} {id : JString} {place : Nat}
    (h : (reach events).futureHashMap.get? id = some (.byteString place)) :
    (id, .byteString place) ∈ sentFutures events := by
  induction events using List.reverseRecOn with
  | nil => simp [new] at h
  | append_singleton events event ih =>
      rw [reach_concat] at h
      rw [sentFutures, trace_append, List.filterMap_append, List.mem_append]
      rcases get?_step_of_some h with hold | hnew
      · exact Or.inl (ih hold)
      · exact Or.inr (List.mem_filterMap.mpr ⟨_, List.mem_singleton_self _, hnew⟩)

/-! ### Disconnects -/

/-- **What a disconnect has to do.**  Every future returned before it has a result or throws,
and there is no entry for it any more. -/
def DisconnectsSettle (events : List StreamEvent) : Prop :=
  ∀ before after, events = before ++ .disconnect :: after →
    ∀ id future, (id, future) ∈ sentFutures before →
      future.getResult (reach (before ++ [.disconnect])) ≠ .pending ∧
        (reach events).futureHashMap.get? id = none

/-- A disconnect finds no future awaited. -/
def NoneAwaited (s : ZmqStream) (event : StreamEvent) : Prop :=
  event = .disconnect → s.futureHashMap = .empty

/-- A future that is pending has its entry. -/
structure Tracked (id : JString) (place : Nat) (s : ZmqStream) : Prop where
  exists_result : place < s.results.length
  entry : s.results[place]? = some none → s.futureHashMap.get? id = some (.byteString place)

theorem Tracked.step {s : ZmqStream} {id : JString} {place : Nat} (h : Tracked id place s)
    {event : StreamEvent} (hsent : sentId event ≠ some id) (hnone : NoneAwaited s event) :
    Tracked id place (s.step event).2 := by
  obtain ⟨hlt, hentry⟩ := h
  rcases step_cases s event with ⟨id', _, _, rfl, heq⟩ | ⟨message, other, -, hother, heq⟩ |
    ⟨hevent, heq⟩ | ⟨-, -, -, _, heq⟩ <;> rw [heq]
  · have hne : id' ≠ id := fun hid => hsent (congrArg some hid)
    constructor
    · simp only [List.length_append]
      omega
    · simp only [List.getElem?_append_left hlt, Dict.get?_set, if_neg hne]
      exact hentry
  · refine ⟨by simpa using hlt, fun hpending => ?_⟩
    by_cases hplace : other = place
    · rw [hplace, List.getElem?_set_self hlt] at hpending
      simp at hpending
    · rw [List.getElem?_set_ne hplace] at hpending
      rw [Dict.get?_erase]
      by_cases hid : message.correlationId = id
      · rw [hid, hentry hpending] at hother
        exact absurd (Future.byteString.inj (Option.some.inj hother)).symm hplace
      · rw [if_neg hid]
        exact hentry hpending
  · refine ⟨hlt, fun hpending => ?_⟩
    have hget := hentry hpending
    rw [hnone hevent] at hget
    simp at hget
  · exact ⟨hlt, hentry⟩

/-- Without an entry it has its result. -/
theorem Tracked.exists_getResult {s : ZmqStream} {id : JString} {place : Nat}
    (h : Tracked id place s) (hnone : s.futureHashMap.get? id = none) :
    ∃ result, s.results[place]? = some (some result) := by
  obtain ⟨hlt, hentry⟩ := h
  rw [List.getElem?_eq_getElem hlt] at hentry ⊢
  cases hslot : s.results[place] with
  | none => simp [hnone, hslot] at hentry
  | some result => exact ⟨result, rfl⟩

/-- The ids of two sends differ. -/
theorem sentId_ne_of_nodup {before after : List StreamEvent} {id : JString}
    {destination : MessageType} {contents : ByteString}
    (hunique : ((before ++ .send id destination contents :: after).filterMap sentId).Nodup) :
    ∀ event ∈ after, sentId event ≠ some id := by
  intro event hmem hid
  rw [List.filterMap_append, List.filterMap_cons_some (show sentId (.send id destination contents)
    = some id from rfl)] at hunique
  have hnotin := (List.nodup_cons.mp (List.nodup_append.mp hunique).2.1).1
  exact hnotin (List.mem_filterMap.mpr ⟨event, hmem, hid⟩)

/-- The future `send` returns is tracked until the end of a run in which disconnects find
nothing awaited. -/
theorem tracked_run {before after : List StreamEvent} {id : JString} {destination : MessageType}
    {contents : ByteString}
    (hunique : ((before ++ .send id destination contents :: after).filterMap sentId).Nodup)
    (hnone : AllSteps step NoneAwaited new (before ++ .send id destination contents :: after)) :
    Tracked id (reach before).results.length
      (reach (before ++ .send id destination contents :: after)) := by
  have hsent := sentId_ne_of_nodup hunique
  have hstart : Tracked id (reach before).results.length
      ((reach before).step (.send id destination contents)).2 :=
    ⟨by simp [step, send], by simp [step, send]⟩
  rw [reach_append, run_cons]
  refine AllSteps.run_invariant step (Tracked id (reach before).results.length)
    (P := fun s event => sentId event ≠ some id ∧ NoneAwaited s event)
    (fun s event h hevent => h.step hevent.1 hevent.2) after _ hstart ?_
  rw [allSteps_iff] at hnone ⊢
  rintro first event rest rfl
  refine ⟨hsent event (by simp), ?_⟩
  have hevent := hnone (before ++ .send id destination contents :: first) event rest (by simp)
  rwa [run_append, run_cons] at hevent

/-- Without an entry, and without being sent again, an id gets no entry. -/
theorem get?_run_of_none {s : ZmqStream} {id : JString} {events : List StreamEvent}
    (h : s.futureHashMap.get? id = none) (hsent : ∀ event ∈ events, sentId event ≠ some id) :
    (run step s events).futureHashMap.get? id = none := by
  exact AllSteps.run_invariant step (fun s => s.futureHashMap.get? id = none)
    (P := fun _ event => sentId event ≠ some id)
    (fun s event hs hevent => get?_step_of_none hs hevent) events s h
    (AllSteps.of_forall step hsent s)

/-- A disconnect that finds nothing awaited settles the futures returned before it. -/
theorem disconnectsSettle_of_noneAwaited {events : List StreamEvent}
    (hunique : (events.filterMap sentId).Nodup) (hnone : AllSteps step NoneAwaited new events) :
    DisconnectsSettle events := by
  rintro before after rfl id future hmem
  obtain ⟨first, destination, contents, rest, rfl, rfl⟩ := mem_sentFutures hmem
  have hempty : (reach (first ++ .send id destination contents :: rest)).futureHashMap = .empty :=
    (allSteps_iff step _ _).mp hnone _ .disconnect after rfl rfl
  have htracked : Tracked id (reach first).results.length
      (reach (first ++ .send id destination contents :: rest)) := by
    refine tracked_run ?_ ?_
    · rw [List.filterMap_append] at hunique
      exact (List.nodup_append.mp hunique).1
    · rw [allSteps_iff] at hnone ⊢
      intro before event last hsplit
      exact hnone before event (last ++ .disconnect :: after) (by rw [hsplit]; simp)
  obtain ⟨result, hresult⟩ := htracked.exists_getResult (by rw [hempty]; rfl)
  constructor
  · rw [reach_concat, getResult_disconnect, getResult_eq hresult]
    simp
  · have hsplit : first ++ .send id destination contents :: rest ++ .disconnect :: after
        = first ++ .send id destination contents :: (rest ++ .disconnect :: after) := by simp
    have hlater := sentId_ne_of_nodup (hsplit ▸ hunique)
    rw [reach_append, run_cons]
    refine get?_run_of_none ?_ fun event hevent => hlater event (by simp [hevent])
    rw [step, disconnected, hempty]
    rfl

/-- A disconnect after which no future is pending has found no entry. -/
theorem futureHashMap_of_settled {before : List StreamEvent} (hsound : Sound (reach before))
    (hsettled : ∀ id future, (id, future) ∈ sentFutures before →
      future.getResult (reach (before ++ [.disconnect])) ≠ .pending) :
    (reach before).futureHashMap = .empty := by
  have hnone : ∀ id, (reach before).futureHashMap.get? id = none := by
    intro id
    cases hget : (reach before).futureHashMap.get? id with
    | none => rfl
    | some future =>
        obtain ⟨place, rfl, hresult⟩ := hsound.pending _ _ hget
        refine absurd ?_ (hsettled id _ (sentFutures_of_get? hget))
        rw [reach_concat, getResult_disconnect, Future.getResult, hresult]
  exact Dict.eq_empty hnone

/-- If disconnects settle every future, the map is sound all along: none of them ever finds an
entry. -/
theorem sound_of_disconnectsSettle {events : List StreamEvent} (h : DisconnectsSettle events) :
    ∀ before after, events = before ++ after → Sound (reach before) := by
  intro before
  induction before using List.reverseRecOn with
  | nil => intro _ _; exact sound_new
  | append_singleton before event ih =>
      intro after hsplit
      have hsound := ih (event :: after) (by rw [hsplit]; simp)
      rw [reach_concat]
      refine hsound.step ?_
      rintro rfl
      exact futureHashMap_of_settled hsound fun id future hmem =>
        (h before after (by rw [hsplit]; simp) id future hmem).1

/-- **When disconnects settle every future.**  They do if and only if no future is awaited at
any of them. -/
theorem disconnects_settle_iff {events : List StreamEvent}
    (hunique : (events.filterMap sentId).Nodup) :
    DisconnectsSettle events ↔ AllSteps step NoneAwaited new events := by
  refine ⟨fun h => ?_, disconnectsSettle_of_noneAwaited hunique⟩
  rw [allSteps_iff]
  rintro before event after hsplit rfl
  exact futureHashMap_of_settled (sound_of_disconnectsSettle h before _ hsplit)
    fun id future hmem => (h before after hsplit id future hmem).1

/-- A future is awaited while the validator disconnects, and stays pending. -/
theorem disconnect_leaves_pending :
    ¬∀ events : List StreamEvent, (events.filterMap sentId).Nodup → DisconnectsSettle events := by
  intro h
  have hsettle := h [.send "1".toList (.other 1) [], .disconnect] (by decide)
  have hpending := (hsettle [.send "1".toList (.other 1) []] [] rfl "1".toList (.byteString 0)
    (by decide)).1
  exact hpending rfl

/-- A future is resolved before the validator disconnects. -/
theorem disconnects_settle_iff_resolved :
    DisconnectsSettle [.send "1".toList (.other 1) [],
        .arrival (some ⟨.other 2, "1".toList, [7]⟩), .disconnect] ↔
      AllSteps step NoneAwaited new [.send "1".toList (.other 1) [],
        .arrival (some ⟨.other 2, "1".toList, [7]⟩), .disconnect] :=
  disconnects_settle_iff (by decide)

/-! ### Runs without disconnects -/

/-- The messages that arrive for nobody: under their id nothing has been sent, or a message has
come since. -/
def others : (JString → Bool) → List StreamEvent → List Message
  | _, [] => []
  | awaited, .send id _ _ :: events => others (Function.update awaited id true) events
  | awaited, .arrival (some message) :: events =>
      if awaited message.correlationId then
        others (Function.update awaited message.correlationId false) events
      else message :: others awaited events
  | awaited, _ :: events => others awaited events

/-- The message that `receive` returns. -/
def receivedMessage : StreamEvent × StreamAnswer → Option (Option Message)
  | (_, .received message) => some message
  | _ => none

/-- What `receive` has returned, in order. -/
def received (s : ZmqStream) (events : List StreamEvent) : List (Option Message) :=
  (trace step s events).filterMap receivedMessage

/-- A future's outcome, from the first message for it. -/
def outcome : Option Message → GetResult
  | some message => .result message.content
  | none => .pending

/-- **What a stream promises.** -/
structure Faithful (events : List StreamEvent) : Prop where
  /-- At any time a future has the content of the first message with its id that has arrived
  since it was sent, and is pending before. -/
  resolved : ∀ before id destination contents between after,
    events = before ++ .send id destination contents :: (between ++ after) →
    ∃ future, ((reach before).step (.send id destination contents)).1
        = .sent future ⟨destination, id, contents⟩ ∧
      future.getResult (reach (before ++ .send id destination contents :: between))
        = outcome (between.findSome? (bearing id))
  /-- Every other message is received once and in order, or still waits to be. -/
  delivered : received new events ++ (reach events).receiveQueue
    = (others (fun _ => false) events).map some
  /-- While one of them waits, `receive` returns a message. -/
  waits : ∀ before after, events = before ++ .receive :: after →
    ((reach before).step .receive).1 = .waiting →
    received new before = (others (fun _ => false) before).map some

/-- An awaited future stays awaited until its message comes, and then has its content. -/
theorem awaited_step {s : ZmqStream} (hsound : Sound s) {id : JString} {place : Nat}
    (h : s.futureHashMap.get? id = some (.byteString place)) {event : StreamEvent}
    (hsent : sentId event ≠ some id) (hdisconnect : event ≠ .disconnect) :
    match bearing id event with
    | none => (s.step event).2.futureHashMap.get? id = some (.byteString place)
    | some message => (s.step event).2.results[place]? = some (some message.content) := by
  rcases step_cases s event with ⟨id', _, _, rfl, heq⟩ | ⟨message, other, rfl, hother, heq⟩ |
    ⟨hevent, -⟩ | ⟨-, -, hnobody, _, heq⟩
  · have hne : id' ≠ id := fun hid => hsent (congrArg some hid)
    rw [heq]
    simpa [bearing, hne] using h
  · rw [heq, bearing]
    by_cases hid : message.correlationId = id
    · rw [hid, h, Option.some.injEq] at hother
      obtain rfl := Future.byteString.inj hother
      obtain ⟨_, hplace, hpending⟩ := hsound.pending _ _ h
      obtain rfl := Future.byteString.inj hplace
      rw [if_pos hid]
      exact List.getElem?_set_self (List.getElem?_eq_some_iff.mp hpending).1
    · rw [if_neg hid]
      simpa [hid] using h
  · exact absurd hevent hdisconnect
  · have hbearing : bearing id event = none := by
      cases event with
      | arrival parsed =>
          cases parsed with
          | none => rfl
          | some message =>
              refine if_neg fun hid => hnobody message rfl place ?_
              rw [hid, h]
      | send id' destination contents => rfl
      | receive => rfl
      | disconnect => rfl
    rw [hbearing, heq]
    exact h

/-- A result stays. -/
theorem result_step {s : ZmqStream} (hsound : Sound s) {place : Nat} {result : ByteString}
    (h : s.results[place]? = some (some result)) (event : StreamEvent) :
    (s.step event).2.results[place]? = some (some result) := by
  rcases step_cases s event with ⟨_, _, _, -, heq⟩ | ⟨_, other, -, hother, heq⟩ | ⟨-, heq⟩ |
    ⟨-, -, -, _, heq⟩ <;> rw [heq]
  · rw [List.getElem?_append_left (List.getElem?_eq_some_iff.mp h).1, h]
  · obtain ⟨_, hplace, hpending⟩ := hsound.pending _ _ hother
    obtain rfl := Future.byteString.inj hplace
    have hne : other ≠ place := by
      rintro rfl
      rw [h] at hpending
      simp at hpending
    rw [List.getElem?_set_ne hne, h]
  · exact h
  · exact h

theorem noneAwaited_of_ne {s : ZmqStream} {event : StreamEvent} (h : event ≠ .disconnect) :
    NoneAwaited s event :=
  fun heq => absurd heq h

/-- Without disconnects the map stays sound. -/
theorem sound_run {s : ZmqStream} (events : List StreamEvent) (hsound : Sound s)
    (hdisconnect : .disconnect ∉ events) : Sound (run step s events) := by
  have hne : ∀ event ∈ events, event ≠ .disconnect := by
    rintro event hevent rfl
    exact hdisconnect hevent
  exact AllSteps.run_invariant step Sound (P := fun _ event => event ≠ .disconnect)
    (fun _ _ hs hne => hs.step (noneAwaited_of_ne hne)) events s hsound
    (AllSteps.of_forall step hne s)

theorem result_run {s : ZmqStream} (hsound : Sound s) {place : Nat} {result : ByteString}
    (h : s.results[place]? = some (some result)) {events : List StreamEvent}
    (hdisconnect : ∀ event ∈ events, event ≠ .disconnect) :
    (run step s events).results[place]? = some (some result) :=
  (AllSteps.run_invariant step
    (fun s => Sound s ∧ s.results[place]? = some (some result))
    (P := fun _ event => event ≠ .disconnect)
    (fun _ event hs hne => ⟨hs.1.step (noneAwaited_of_ne hne), result_step hs.1 hs.2 event⟩)
    events s ⟨hsound, h⟩ (AllSteps.of_forall step hdisconnect s)).2

/-- **The run of an awaited future.** -/
theorem getResult_run : ∀ (events : List StreamEvent) (s : ZmqStream), Sound s → ∀ id place,
    s.futureHashMap.get? id = some (.byteString place) →
    (∀ event ∈ events, sentId event ≠ some id ∧ event ≠ .disconnect) →
    (Future.byteString place).getResult (run step s events)
      = outcome (events.findSome? (bearing id)) := by
  intro events
  induction events with
  | nil =>
      intro s hsound id place hget _
      obtain ⟨other, hother, hpending⟩ := hsound.pending _ _ hget
      obtain rfl := Future.byteString.inj hother
      simp [Future.getResult, hpending, outcome]
  | cons event events ih =>
      intro s hsound id place hget hevents
      obtain ⟨hsent, hdisconnect⟩ := hevents event (by simp)
      have hnext := hsound.step (noneAwaited_of_ne hdisconnect)
      have hstep := awaited_step hsound hget hsent hdisconnect
      rw [run_cons, List.findSome?_cons]
      cases hbearing : bearing id event with
      | none =>
          rw [hbearing] at hstep
          exact ih _ hnext id place hstep fun e he => hevents e (by simp [he])
      | some message =>
          rw [hbearing] at hstep
          exact getResult_eq (result_run hnext hstep fun e he => (hevents e (by simp [he])).2)

/-- **What one event delivers.**  The messages it puts into the queue are those for nobody, and
what leaves the queue is received. -/
theorem received_step {s : ZmqStream} (hsound : Sound s) {awaited : JString → Bool}
    (hawaited : ∀ id, (s.futureHashMap.get? id).isSome = awaited id) {event : StreamEvent}
    (hdisconnect : event ≠ .disconnect) :
    ∃ awaited' news, (∀ id, ((s.step event).2.futureHashMap.get? id).isSome = awaited' id) ∧
      (∀ events, others awaited (event :: events) = news ++ others awaited' events) ∧
      (receivedMessage (event, (s.step event).1)).toList ++ (s.step event).2.receiveQueue
        = s.receiveQueue ++ news.map some := by
  cases event with
  | send id destination contents =>
      refine ⟨Function.update awaited id true, [], fun id' => ?_, fun _ => rfl, by
        simp [step, send, receivedMessage]⟩
      rw [← funext hawaited, ← Dict.isSome_get?_set]
      rfl
  | receive =>
      rcases step_receive s with ⟨-, heq⟩ | ⟨wrapper, queue, hqueue, heq⟩
      · rw [heq]
        exact ⟨awaited, [], hawaited, fun _ => rfl, by simp [receivedMessage]⟩
      · rw [heq]
        exact ⟨awaited, [], hawaited, fun _ => rfl, by simp [receivedMessage, hqueue]⟩
  | disconnect => exact absurd rfl hdisconnect
  | arrival parsed =>
      cases parsed with
      | none => exact ⟨awaited, [], hawaited, fun _ => rfl, by simp [step, handle, receivedMessage]⟩
      | some message =>
          have hmessage := hawaited message.correlationId
          rw [step]
          rcases handle_cases s message with ⟨hget, heq⟩ | ⟨place, hget, heq⟩ | ⟨hget, heq⟩
          · -- Nobody awaits the message, and it joins the queue.
            rw [hget, Option.isSome_none] at hmessage
            rw [heq]
            exact ⟨awaited, [message], hawaited, fun events => by rw [others, ← hmessage]; rfl, by
              simp [receivedMessage]⟩
          · -- The message resolves a future, and is awaited no more.
            rw [hget, Option.isSome_some] at hmessage
            rw [heq]
            refine ⟨Function.update awaited message.correlationId false, [], fun id => ?_,
              fun events => by rw [others, ← hmessage]; rfl, by simp [receivedMessage]⟩
            rw [← funext hawaited, ← Dict.isSome_get?_erase]
          · obtain ⟨place, hplace, -⟩ := hsound.pending _ _ hget
            simp at hplace

/-- **What is received.** -/
theorem received_run : ∀ (events : List StreamEvent) (s : ZmqStream) (awaited : JString → Bool),
    Sound s → (∀ id, (s.futureHashMap.get? id).isSome = awaited id) → .disconnect ∉ events →
    received s events ++ (run step s events).receiveQueue
      = s.receiveQueue ++ (others awaited events).map some := by
  intro events
  induction events with
  | nil => intro s awaited _ _ _; simp [received, trace, others]
  | cons event events ih =>
      intro s awaited hsound hawaited hdisconnect
      have hne : event ≠ .disconnect := fun heq => hdisconnect (by simp [heq])
      have hrest : .disconnect ∉ events := fun hmem => hdisconnect (by simp [hmem])
      obtain ⟨awaited', news, hawaited', hothers, hqueue⟩ := received_step hsound hawaited hne
      have hreceived : received s (event :: events)
          = (receivedMessage (event, (s.step event).1)).toList
            ++ received (s.step event).2 events := by
        rw [received, trace, List.filterMap_cons]
        cases receivedMessage (event, (s.step event).1) <;> rfl
      rw [hreceived, run_cons, List.append_assoc,
        ih _ awaited' (hsound.step (noneAwaited_of_ne hne)) hawaited' hrest, ← List.append_assoc,
        hqueue, hothers, List.map_append, List.append_assoc]

/-- **Nothing is lost, doubled or crossed.**  Without disconnects and with distinct correlation
ids a stream keeps its promises. -/
theorem stream_faithful {events : List StreamEvent} (hunique : (events.filterMap sentId).Nodup)
    (hdisconnect : .disconnect ∉ events) : Faithful events := by
  have hreached : ∀ before after, events = before ++ after →
      Sound (reach before) ∧ received new before ++ (reach before).receiveQueue
        = (others (fun _ => false) before).map some := by
    rintro before after rfl
    have hnone : .disconnect ∉ before := fun hmem => hdisconnect (by simp [hmem])
    exact ⟨sound_run before sound_new hnone,
      received_run before new _ sound_new (fun _ => rfl) hnone⟩
  refine ⟨?_, (hreached events [] (by simp)).2, ?_⟩
  · rintro before id destination contents between after rfl
    obtain ⟨hsound, -⟩ := hreached before _ rfl
    refine ⟨.byteString (reach before).results.length, rfl, ?_⟩
    have hlater := sentId_ne_of_nodup hunique
    rw [reach_append, run_cons]
    refine getResult_run between _ (hsound.step (noneAwaited_of_ne (by simp))) id _
      (by simp [step, send]) fun event hevent => ⟨hlater event (by simp [hevent]), ?_⟩
    rintro rfl
    exact hdisconnect (by simp [hevent])
  · rintro before after hsplit hwaiting
    obtain ⟨-, hreceived⟩ := hreached before _ hsplit
    rcases step_receive (reach before) with ⟨hqueue, -⟩ | ⟨wrapper, queue, -, heq⟩
    · rwa [hqueue, List.append_nil] at hreceived
    · rw [heq] at hwaiting
      simp at hwaiting

/-- A request with its response, an unsolicited message before and a second response after. -/
theorem stream_faithful_duplicate :
    Faithful [.arrival (some ⟨.other 3, "2".toList, [5]⟩), .send "1".toList (.other 1) [],
      .arrival (some ⟨.other 2, "1".toList, [7]⟩), .receive,
      .arrival (some ⟨.other 2, "1".toList, [8]⟩), .receive] :=
  stream_faithful (by decide) (by decide)

end Evoting.ZmqStream

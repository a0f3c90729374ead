/-
A program over the stream ends as it does over the validator itself.

The thread waits for each of its calls, so one message of it is on its way at most, and
where a call is (`Flight`) says what the validator has done.  `Phase` puts that beside a
place in the run that answers every call at once (`Calls.At`).  Every event keeps it,
whatever else is sent, received or lost at the stream; so the validator goes through
that run's states and no others, and what the thread ends in is what the run ends in,
unless a wait has timed out.
-/
import Evoting.Model.Reference
import Evoting.Model.StateWire
import Evoting.Model.StreamContext
import Evoting.Proofs.IntKey
import Evoting.Proofs.Stream

namespace Evoting.StreamContext

open Calls (At)

/-! ### Futures of the stream -/

/-- No entry stands for a future that is still to come. -/
def InBounds (s : ZmqStream) : Prop :=
  ∀ id place, s.futureHashMap.get? id = some (.byteString place) → place < s.results.length

/-- A future is pending, and stands in the map under its id if at all. -/
structure Awaits (s : ZmqStream) (id : JString) (place : Nat) : Prop where
  pending : s.results[place]? = some none
  only : ∀ other, s.futureHashMap.get? other = some (.byteString place) → other = id

/-- A future has a result, and nothing can set another. -/
structure Holds (s : ZmqStream) (place : Nat) (bytes : ByteString) : Prop where
  result : s.results[place]? = some (some bytes)
  closed : ∀ other, s.futureHashMap.get? other ≠ some (.byteString place)

/-- The correlation id of an event. -/
def idOf : StreamEvent → Option JString
  | .send id _ _ => some id
  | .arrival (some message) => some message.correlationId
  | _ => none

theorem mem_of_get?_erase {s : ZmqStream} {id other : JString} {future : Future}
    (h : (s.futureHashMap.erase id).get? other = some future) :
    id ≠ other ∧ s.futureHashMap.get? other = some future := by
  rw [Dict.get?_erase] at h
  by_cases hid : id = other
  · simp [hid] at h
  · rw [if_neg hid] at h
    exact ⟨hid, h⟩

theorem not_get?_disconnected {s : ZmqStream} (id : JString) (place : Nat) :
    s.disconnected.futureHashMap.get? id ≠ some (.byteString place) := by
  rw [ZmqStream.disconnected, Dict.get?_mapValues]
  cases s.futureHashMap.get? id <;> simp

theorem InBounds.step {s : ZmqStream} (h : InBounds s) (event : StreamEvent) :
    InBounds (s.step event).2 := by
  rcases ZmqStream.step_cases s event with ⟨id, _, _, -, heq⟩ | ⟨message, place, -, -, heq⟩ |
    ⟨-, heq⟩ | ⟨-, -, -, _, heq⟩ <;> rw [heq]
  · intro other place hget
    simp only [Dict.get?_set, List.length_append, List.length_singleton] at hget ⊢
    split at hget
    · have hplace := Future.byteString.inj (Option.some.inj hget)
      omega
    · have hlt := h other place hget
      omega
  · intro other place' hget
    rw [List.length_set]
    exact h other place' (mem_of_get?_erase hget).2
  · exact fun other place hget => absurd hget (not_get?_disconnected other place)
  · exact h

theorem Awaits.send {s : ZmqStream} (h : InBounds s) (id : JString) (destination : MessageType)
    (contents : ByteString) :
    Awaits (s.send id destination contents).2.2 id s.results.length := by
  refine ⟨List.getElem?_concat_length, fun other hget => ?_⟩
  simp only [ZmqStream.send, Dict.get?_set] at hget
  split at hget
  · exact Eq.symm ‹id = other›
  · exact absurd (h other _ hget) (Nat.lt_irrefl _)

/-- Events under other ids leave the future pending. -/
theorem Awaits.step {s : ZmqStream} {id : JString} {place : Nat} (h : Awaits s id place)
    {event : StreamEvent} (hid : idOf event ≠ some id) : Awaits (s.step event).2 id place := by
  have hlt := (List.getElem?_eq_some_iff.mp h.pending).1
  rcases ZmqStream.step_cases s event with
    ⟨id', _, _, rfl, heq⟩ | ⟨message, other, rfl, hother, heq⟩ |
    ⟨-, heq⟩ | ⟨-, -, -, _, heq⟩ <;> rw [heq]
  · refine ⟨by rw [List.getElem?_append_left hlt]; exact h.pending, fun other hget => ?_⟩
    rw [Dict.get?_set] at hget
    split at hget
    · have hplace := Future.byteString.inj (Option.some.inj hget)
      omega
    · exact h.only other hget
  · have hne : other ≠ place := by
      rintro rfl
      exact hid (congrArg some (h.only _ hother))
    exact ⟨by rw [List.getElem?_set_ne hne]; exact h.pending,
      fun other hget => h.only other (mem_of_get?_erase hget).2⟩
  · exact ⟨h.pending, fun other hget => absurd hget (not_get?_disconnected other place)⟩
  · exact ⟨h.pending, h.only⟩

/-- A response resolves the future, or is lost. -/
theorem Awaits.handle {s : ZmqStream} {message : Message} {place : Nat}
    (h : Awaits s message.correlationId place) :
    Awaits (s.handle (some message)) message.correlationId place ∨
      Holds (s.handle (some message)) place message.content := by
  have hlt := (List.getElem?_eq_some_iff.mp h.pending).1
  rcases ZmqStream.handle_cases s message with ⟨-, heq⟩ | ⟨other, hother, heq⟩ | ⟨-, heq⟩
    <;> rw [heq]
  · exact Or.inl ⟨h.pending, h.only⟩
  · by_cases hplace : other = place
    · rw [hplace]
      refine Or.inr ⟨List.getElem?_set_self hlt, fun id hget => ?_⟩
      obtain ⟨hne, hget⟩ := mem_of_get?_erase hget
      exact hne (h.only id hget).symm
    · exact Or.inl ⟨by rw [List.getElem?_set_ne hplace]; exact h.pending,
        fun id hget => h.only id (mem_of_get?_erase hget).2⟩
  · exact Or.inl h

/-- A result stays. -/
theorem Holds.step {s : ZmqStream} {place : Nat} {bytes : ByteString} (h : Holds s place bytes)
    (event : StreamEvent) : Holds (s.step event).2 place bytes := by
  have hlt := (List.getElem?_eq_some_iff.mp h.result).1
  rcases ZmqStream.step_cases s event with ⟨id', _, _, -, heq⟩ | ⟨message, other, -, hother, heq⟩ |
    ⟨-, heq⟩ | ⟨-, -, -, _, heq⟩ <;> rw [heq]
  · refine ⟨by rw [List.getElem?_append_left hlt]; exact h.result, fun other hget => ?_⟩
    rw [Dict.get?_set] at hget
    split at hget
    · have hplace := Future.byteString.inj (Option.some.inj hget)
      omega
    · exact h.closed other hget
  · have hne : other ≠ place := by
      rintro rfl
      exact h.closed _ hother
    exact ⟨by rw [List.getElem?_set_ne hne]; exact h.result,
      fun other hget => h.closed other (mem_of_get?_erase hget).2⟩
  · exact ⟨h.result, fun other hget => not_get?_disconnected other place hget⟩
  · exact ⟨h.result, h.closed⟩

/-! ### A call on its way -/

variable {V α : Type} (pb : MessageLibrary) (texts : Texts) (contextId : JString)
  (validator : Validator V)

/-- **A call that is answered at once**, by the validator itself. -/
def answered (v : V) (request : Request) : Except Throwable Returned × V :=
  (returned texts request (validator.serve v contextId request).1,
    (validator.serve v contextId request).2)

/-- The message of a call, and the one that answers it. -/
def asking (id : JString) (request : Request) : Message :=
  ⟨messageType request, id, pb.writeRequest contextId request⟩

def answering (id : JString) (request : Request) (v : V) : Message :=
  ⟨responseType request, id, pb.writeResponse (validator.serve v contextId request).1⟩

/-- Where the one call of a thread is, that was made when the validator was at `v`. -/
inductive Flight (s : System V α) (id : JString) (place : Nat) (request : Request) (v : V) : Prop
  | asked (requests : s.requests = [asking pb contextId id request])
      (responses : s.responses = [])
      (stands : s.validator = v) (awaits : Awaits s.stream id place)
  | answered (requests : s.requests = [])
      (responses : s.responses = [answering pb contextId validator id request v])
      (stands : s.validator = (validator.serve v contextId request).2)
      (awaits : Awaits s.stream id place)
  | arrived (requests : s.requests = []) (responses : s.responses = [])
      (stands : s.validator = (validator.serve v contextId request).2)
      (holds : Holds s.stream place
        (pb.writeResponse (validator.serve v contextId request).1))
  | lost (requests : s.requests = []) (responses : s.responses = [])
      (stands : s.validator = v ∨ s.validator = (validator.serve v contextId request).2)
      (awaits : Awaits s.stream id place)

variable {pb texts contextId validator} {s : System V α} {id : JString} {place : Nat}
  {request : Request} {v : V}

theorem Flight.stands (h : Flight pb contextId validator s id place request v) :
    s.validator = v ∨ s.validator = (validator.serve v contextId request).2 := by
  cases h with
  | asked _ _ hv _ => exact Or.inl hv
  | answered _ _ hv _ => exact Or.inr hv
  | arrived _ _ hv _ => exact Or.inr hv
  | lost _ _ hv _ => exact hv

/-- Of one message only the first can be picked. -/
theorem getElem?_singleton_cases {β : Type} (a : β) (i : Nat) :
    (i = 0 ∧ [a][i]? = some a ∧ [a].eraseIdx i = []) ∨ [a][i]? = none ∧ [a].eraseIdx i = [a] := by
  cases i with
  | zero => exact Or.inl ⟨rfl, rfl, rfl⟩
  | succ i => exact Or.inr ⟨rfl, rfl⟩

/-- **The validator gets a request.** -/
theorem Flight.served (h : Flight pb contextId validator s id place request v) (i : Nat) :
    Flight pb contextId validator (s.served pb validator i) id place request v := by
  unfold System.served
  cases h with
  | asked hrequests hresponses hv hawaits =>
      rcases getElem?_singleton_cases (asking pb contextId id request) i with
        ⟨-, hsome, herase⟩ | ⟨hnone, -⟩
      · rw [hrequests, hsome]
        simp only [asking, pb.parseRequest_writeRequest]
        exact .answered herase (by rw [hresponses, hv]; rfl) (by rw [hv]) hawaits
      · rw [hrequests, hnone]
        exact .asked hrequests hresponses hv hawaits
  | answered hrequests hresponses hv hawaits =>
      rw [hrequests]
      exact .answered hrequests hresponses hv hawaits
  | arrived hrequests hresponses hv hholds =>
      rw [hrequests]
      exact .arrived hrequests hresponses hv hholds
  | lost hrequests hresponses hv hawaits =>
      rw [hrequests]
      exact .lost hrequests hresponses hv hawaits

/-- **A response arrives.** -/
theorem Flight.delivered (h : Flight pb contextId validator s id place request v) (i : Nat) :
    Flight pb contextId validator (s.delivered i) id place request v := by
  unfold System.delivered
  cases h with
  | asked hrequests hresponses hv hawaits =>
      rw [hresponses]
      exact .asked hrequests hresponses hv hawaits
  | answered hrequests hresponses hv hawaits =>
      rcases getElem?_singleton_cases (answering pb contextId validator id request v) i with
        ⟨-, hsome, herase⟩ | ⟨hnone, -⟩
      · rw [hresponses, hsome]
        have hlisted : Awaits s.stream
          (answering pb contextId validator id request v).correlationId place := hawaits
        rcases hlisted.handle with hstill | hholds
        · exact .lost hrequests herase (Or.inr hv) hstill
        · exact .arrived hrequests herase hv hholds
      · rw [hresponses, hnone]
        exact .answered hrequests hresponses hv hawaits
  | arrived hrequests hresponses hv hholds =>
      rw [hresponses]
      exact .arrived hrequests hresponses hv hholds
  | lost hrequests hresponses hv hawaits =>
      rw [hresponses]
      exact .lost hrequests hresponses hv hawaits

theorem Flight.loseRequest (h : Flight pb contextId validator s id place request v) (i : Nat) :
    Flight pb contextId validator { s with requests := s.requests.eraseIdx i } id place request
      v := by
  cases h with
  | asked hrequests hresponses hv hawaits =>
      rcases getElem?_singleton_cases (asking pb contextId id request) i with
        ⟨-, -, herase⟩ | ⟨-, herase⟩
      · exact .lost (by rw [hrequests]; exact herase) hresponses (Or.inl hv) hawaits
      · exact .asked (by rw [hrequests]; exact herase) hresponses hv hawaits
  | answered hrequests hresponses hv hawaits =>
      exact .answered (by rw [hrequests]; rfl) hresponses hv hawaits
  | arrived hrequests hresponses hv hholds =>
      exact .arrived (by rw [hrequests]; rfl) hresponses hv hholds
  | lost hrequests hresponses hv hawaits =>
      exact .lost (by rw [hrequests]; rfl) hresponses hv hawaits

theorem Flight.loseResponse (h : Flight pb contextId validator s id place request v) (i : Nat) :
    Flight pb contextId validator { s with responses := s.responses.eraseIdx i } id place request
      v := by
  cases h with
  | asked hrequests hresponses hv hawaits =>
      exact .asked hrequests (by rw [hresponses]; rfl) hv hawaits
  | answered hrequests hresponses hv hawaits =>
      rcases getElem?_singleton_cases (answering pb contextId validator id request v) i with
        ⟨-, -, herase⟩ | ⟨-, herase⟩
      · exact .lost hrequests (by rw [hresponses]; exact herase) (Or.inr hv) hawaits
      · exact .answered hrequests (by rw [hresponses]; exact herase) hv hawaits
  | arrived hrequests hresponses hv hholds =>
      exact .arrived hrequests (by rw [hresponses]; rfl) hv hholds
  | lost hrequests hresponses hv hawaits =>
      exact .lost hrequests (by rw [hresponses]; rfl) hv hawaits

/-- What happens elsewhere under other ids does not touch a call. -/
theorem Flight.elsewhere (h : Flight pb contextId validator s id place request v)
    {event : StreamEvent} (hid : idOf event ≠ some id) :
    Flight pb contextId validator { s with stream := (s.stream.step event).2 } id place request
      v := by
  cases h with
  | asked hrequests hresponses hv hawaits =>
      exact .asked hrequests hresponses hv (hawaits.step hid)
  | answered hrequests hresponses hv hawaits =>
      exact .answered hrequests hresponses hv (hawaits.step hid)
  | arrived hrequests hresponses hv hholds =>
      exact .arrived hrequests hresponses hv (hholds.step event)
  | lost hrequests hresponses hv hawaits =>
      exact .lost hrequests hresponses hv (hawaits.step hid)

/-! ### A place in the run -/

section Phase

variable (pb texts contextId validator)

/-- **Where a thread is**, next to the run of its program from `v₀` that answers every call at
once.  After a time-out its last request may still be on its way. -/
inductive Phase (p : Program α) (v₀ : V) (ours : JString → Prop) (s : System V α) : Prop
  | running (q : Program α) (thread : s.thread = .running q) (requests : s.requests = [])
      (responses : s.responses = [])
      (place : At (answered texts contextId validator) p v₀ q s.validator)
  | waiting (place : Nat) (request : Request) (next : Returned → Program α) (v : V) (id : JString)
      (thread : s.thread = .waiting (.byteString place) request next) (own : ours id)
      (place_run : At (answered texts contextId validator) p v₀ (.call request next) v)
      (flight : Flight pb contextId validator s id place request v)
  | timedOut (thread : s.thread = .ended (.error timedOut)) (stands : s.requests = [] ∧
        s.validator ∈ p.states (answered texts contextId validator) v₀ ∨
      ∃ id request next, s.requests = [asking pb contextId id request] ∧
        At (answered texts contextId validator) p v₀ (.call request next) s.validator)
  | ended (result : Except Throwable α) (thread : s.thread = .ended result)
      (requests : s.requests = [])
      (ends : (result, s.validator) = p.run (answered texts contextId validator) v₀)

end Phase

variable {p : Program α} {v₀ : V} {ours : JString → Prop}

/-- The validator is at a state of the run. -/
theorem Phase.mem_states (h : Phase pb texts contextId validator p v₀ ours s) :
    s.validator ∈ p.states (answered texts contextId validator) v₀ := by
  cases h with
  | running q _ _ _ hplace => exact hplace.mem_states
  | waiting place request next v id _ _ hplace hflight =>
      rcases hflight.stands with hv | hv
      · rw [hv]
        exact hplace.mem_states
      · rw [hv]
        exact hplace.served_mem_states
  | timedOut _ hstands =>
      rcases hstands with ⟨-, hmem⟩ | ⟨id, request, next, -, hplace⟩
      · exact hmem
      · exact hplace.mem_states
  | ended result _ _ hends =>
      have hlast : s.validator = (p.run (answered texts contextId validator) v₀).2 :=
        congrArg Prod.snd hends
      rw [hlast]
      exact Calls.run_mem_states p v₀

theorem Phase.proceed (hbounds : InBounds s.stream)
    (h : Phase pb texts contextId validator p v₀ ours s) {id : JString} (hid : ours id) :
    Phase pb texts contextId validator p v₀ ours (s.proceed pb texts contextId id) := by
  unfold System.proceed
  cases h with
  | running q hthread hrequests hresponses hplace =>
      rw [hthread]
      cases q with
      | returns a => exact .ended _ rfl hrequests hplace.run
      | throws e => exact .ended _ rfl hrequests hplace.run
      | call request next =>
          exact .waiting _ request next s.validator id rfl hid hplace
            (.asked (by rw [hrequests]; rfl) hresponses rfl (Awaits.send hbounds id _ _))
  | waiting place request next v id' hthread hown hplace hflight =>
      rw [hthread]
      have hpending : ∀ {stream : ZmqStream} {id : JString}, Awaits stream id place →
          (Future.byteString place).getResult stream = .pending := by
        intro stream id hawaits
        simp [Future.getResult, hawaits.pending]
      have hsame : Phase pb texts contextId validator p v₀ ours s :=
        .waiting place request next v id' hthread hown hplace hflight
      cases hflight with
      | asked _ _ _ hawaits => simpa only [hpending hawaits] using hsame
      | answered _ _ _ hawaits => simpa only [hpending hawaits] using hsame
      | lost _ _ _ hawaits => simpa only [hpending hawaits] using hsame
      | arrived hrequests hresponses hv hholds =>
          have hresolved : resolved pb texts request
              (pb.writeResponse (validator.serve v contextId request).1)
              = (answered texts contextId validator v request).1 := by
            simp only [resolved, answered,
              pb.parseResponse_writeResponse (validator.serve_answers v contextId request)]
          simp only [ZmqStream.getResult_eq hholds.result, hresolved]
          cases hanswer : (answered texts contextId validator v request).1 with
          | ok reply =>
              refine .running (next reply) rfl hrequests hresponses (hplace.answered ?_)
              rw [hv, ← hanswer]
              rfl
          | error e =>
              have hends : answered texts contextId validator v request = (.error e, s.validator) :=
                Prod.ext hanswer hv.symm
              refine .ended (.error e) rfl hrequests ?_
              rw [← hplace.run, Calls.run, hends]
  | timedOut hthread hstands => rw [hthread]; exact .timedOut hthread hstands
  | ended result hthread hrequests hends =>
      rw [hthread]
      exact .ended result hthread hrequests hends

/-- A call that has timed out is served or not, like any other. -/
theorem Phase.timeout (h : Phase pb texts contextId validator p v₀ ours s) :
    Phase pb texts contextId validator p v₀ ours s.timeout := by
  have hmem := h.mem_states
  unfold System.timeout
  cases h with
  | running q hthread hrequests hresponses hplace =>
      rw [hthread]
      exact .running q hthread hrequests hresponses hplace
  | waiting place request next v id hthread hown hplace hflight =>
      rw [hthread]
      dsimp only
      split
      swap
      · exact .waiting place request next v id hthread hown hplace hflight
      cases hflight with
      | asked hrequests _ hv _ =>
          exact .timedOut rfl (Or.inr ⟨id, request, next, hrequests, by rw [hv]; exact hplace⟩)
      | answered hrequests _ _ _ => exact .timedOut rfl (Or.inl ⟨hrequests, hmem⟩)
      | arrived hrequests _ _ _ => exact .timedOut rfl (Or.inl ⟨hrequests, hmem⟩)
      | lost hrequests _ _ _ => exact .timedOut rfl (Or.inl ⟨hrequests, hmem⟩)
  | timedOut hthread hstands => rw [hthread]; exact .timedOut hthread hstands
  | ended result hthread hrequests hends =>
      rw [hthread]
      exact .ended result hthread hrequests hends

/-- A validator that is asked nothing does nothing. -/
theorem System.served_of_requests_nil (hrequests : s.requests = []) (i : Nat) :
    s.served pb validator i = s := by
  simp [System.served, hrequests]

theorem Phase.served (h : Phase pb texts contextId validator p v₀ ours s) (i : Nat) :
    Phase pb texts contextId validator p v₀ ours (s.served pb validator i) := by
  have hthread : (s.served pb validator i).thread = s.thread := by
    unfold System.served
    split
    · rfl
    · dsimp only
      split <;> rfl
  cases h with
  | running q hrunning hrequests hresponses hplace =>
      rw [System.served_of_requests_nil hrequests]
      exact .running q hrunning hrequests hresponses hplace
  | waiting place request next v id hwaiting hown hplace hflight =>
      exact .waiting place request next v id (hthread.trans hwaiting) hown hplace
        (hflight.served i)
  | timedOut hended hstands =>
      rcases hstands with ⟨hrequests, hmem⟩ | ⟨id, request, next, hrequests, hplace⟩
      · rw [System.served_of_requests_nil hrequests]
        exact .timedOut hended (Or.inl ⟨hrequests, hmem⟩)
      · refine .timedOut (hthread.trans hended) ?_
        unfold System.served
        rcases getElem?_singleton_cases (asking pb contextId id request) i with
          ⟨-, hsome, herase⟩ | ⟨hnone, -⟩
        · rw [hrequests, hsome]
          simp only [asking, pb.parseRequest_writeRequest]
          exact Or.inl ⟨herase, hplace.served_mem_states⟩
        · rw [hrequests, hnone]
          exact Or.inr ⟨id, request, next, hrequests, hplace⟩
  | ended result hended hrequests hends =>
      rw [System.served_of_requests_nil hrequests]
      exact .ended result hended hrequests hends

theorem Phase.delivered (h : Phase pb texts contextId validator p v₀ ours s) (i : Nat) :
    Phase pb texts contextId validator p v₀ ours (s.delivered i) := by
  have hsame : (s.delivered i).thread = s.thread ∧ (s.delivered i).requests = s.requests ∧
      (s.delivered i).validator = s.validator := by
    unfold System.delivered
    split <;> exact ⟨rfl, rfl, rfl⟩
  obtain ⟨hthread, hrequests, hvalidator⟩ := hsame
  cases h with
  | running q hrunning hnone hresponses hplace =>
      have hsame : s.delivered i = s := by simp [System.delivered, hresponses]
      rw [hsame]
      exact .running q hrunning hnone hresponses hplace
  | waiting place request next v id hwaiting hown hplace hflight =>
      exact .waiting place request next v id (hthread.trans hwaiting) hown hplace
        (hflight.delivered i)
  | timedOut hended hstands =>
      refine .timedOut (hthread.trans hended) ?_
      rw [hrequests, hvalidator]
      exact hstands
  | ended result hended hnone hends =>
      refine .ended result (hthread.trans hended) (hrequests.trans hnone) ?_
      rw [hvalidator]
      exact hends

theorem Phase.loseRequest (h : Phase pb texts contextId validator p v₀ ours s) (i : Nat) :
    Phase pb texts contextId validator p v₀ ours
      { s with requests := s.requests.eraseIdx i } := by
  cases h with
  | running q hrunning hrequests hresponses hplace =>
      exact .running q hrunning (by rw [hrequests]; rfl) hresponses hplace
  | waiting place request next v id hwaiting hown hplace hflight =>
      exact .waiting place request next v id hwaiting hown hplace (hflight.loseRequest i)
  | timedOut hended hstands =>
      refine .timedOut hended ?_
      rcases hstands with ⟨hrequests, hmem⟩ | ⟨id, request, next, hrequests, hplace⟩
      · exact Or.inl ⟨by rw [hrequests]; rfl, hmem⟩
      · rcases getElem?_singleton_cases (asking pb contextId id request) i with
          ⟨-, -, herase⟩ | ⟨-, herase⟩
        · exact Or.inl ⟨by rw [hrequests]; exact herase, hplace.mem_states⟩
        · exact Or.inr ⟨id, request, next, by rw [hrequests]; exact herase, hplace⟩
  | ended result hended hrequests hends =>
      exact .ended result hended (by rw [hrequests]; rfl) hends

theorem Phase.loseResponse (h : Phase pb texts contextId validator p v₀ ours s) (i : Nat) :
    Phase pb texts contextId validator p v₀ ours
      { s with responses := s.responses.eraseIdx i } := by
  cases h with
  | running q hrunning hrequests hresponses hplace =>
      exact .running q hrunning hrequests (by rw [hresponses]; rfl) hplace
  | waiting place request next v id hwaiting hown hplace hflight =>
      exact .waiting place request next v id hwaiting hown hplace (hflight.loseResponse i)
  | timedOut hended hstands => exact .timedOut hended hstands
  | ended result hended hrequests hends => exact .ended result hended hrequests hends

theorem Phase.elsewhere (h : Phase pb texts contextId validator p v₀ ours s)
    {event : StreamEvent} (hforeign : ∀ id, idOf event = some id → ¬ours id) :
    Phase pb texts contextId validator p v₀ ours
      { s with stream := (s.stream.step event).2 } := by
  cases h with
  | running q hrunning hrequests hresponses hplace =>
      exact .running q hrunning hrequests hresponses hplace
  | waiting place request next v id hwaiting hown hplace hflight =>
      exact .waiting place request next v id hwaiting hown hplace
        (hflight.elsewhere fun hid => hforeign id hid hown)
  | timedOut hended hstands => exact .timedOut hended hstands
  | ended result hended hrequests hends => exact .ended result hended hrequests hends

/-! ### Runs -/

/-- The ids of the thread's calls are its own. -/
def Event.Apart (ours : JString → Prop) : Event → Prop
  | .proceed id => ours id
  | .elsewhere event => ∀ id, idOf event = some id → ¬ours id
  | _ => True

/-- An event of the system is one of the stream, or leaves it alone. -/
theorem stream_step (s : System V α) (event : Event) :
    (s.step pb texts contextId validator event).stream = s.stream ∨
      ∃ e, (s.step pb texts contextId validator event).stream = (s.stream.step e).2 := by
  cases event with
  | proceed id =>
      simp only [System.step, System.proceed]
      split
      · exact Or.inl rfl
      · exact Or.inl rfl
      · exact Or.inr ⟨.send id _ _, rfl⟩
      · split
        · exact Or.inl rfl
        · exact Or.inl rfl
        · split <;> exact Or.inl rfl
      · exact Or.inl rfl
  | timeout =>
      simp only [System.step, System.timeout]
      split
      · split <;> exact Or.inl rfl
      · exact Or.inl rfl
  | serve i =>
      simp only [System.step, System.served]
      split
      · exact Or.inl rfl
      · split <;> exact Or.inl rfl
  | deliver i =>
      simp only [System.step, System.delivered]
      split
      · exact Or.inl rfl
      · exact Or.inr ⟨.arrival _, rfl⟩
  | loseRequest i => exact Or.inl rfl
  | loseResponse i => exact Or.inl rfl
  | elsewhere event => exact Or.inr ⟨event, rfl⟩

/-- **One event.** -/
theorem Phase.step (hbounds : InBounds s.stream)
    (h : Phase pb texts contextId validator p v₀ ours s) {event : Event}
    (hapart : event.Apart ours) :
    InBounds (s.step pb texts contextId validator event).stream ∧
      Phase pb texts contextId validator p v₀ ours
        (s.step pb texts contextId validator event) := by
  constructor
  · rcases stream_step s event with heq | ⟨e, heq⟩
    · rw [heq]
      exact hbounds
    · rw [heq]
      exact hbounds.step e
  · cases event with
    | proceed id => exact h.proceed hbounds hapart
    | timeout => exact h.timeout
    | serve i => exact h.served i
    | deliver i => exact h.delivered i
    | loseRequest i => exact h.loseRequest i
    | loseResponse i => exact h.loseResponse i
    | elsewhere event => exact h.elsewhere hapart

theorem Phase.run : ∀ (events : List Event) {s : System V α}, InBounds s.stream →
    Phase pb texts contextId validator p v₀ ours s → (∀ event ∈ events, event.Apart ours) →
    Phase pb texts contextId validator p v₀ ours
      (s.run pb texts contextId validator events) := by
  intro events
  induction events with
  | nil => intro s _ h _; exact h
  | cons event events ih =>
      intro s hbounds h hapart
      obtain ⟨hbounds', h'⟩ := h.step hbounds (hapart event (by simp))
      exact ih hbounds' h' fun e he => hapart e (by simp [he])

theorem inBounds_reach (earlier : List StreamEvent) : InBounds (ZmqStream.reach earlier) := by
  have hstep : ∀ (s : ZmqStream) (event : StreamEvent), InBounds s → InBounds (s.step event).2 :=
    fun _ event h => h.step event
  refine Machine.run_invariant ZmqStream.step hstep earlier ZmqStream.new ?_
  intro id place hget
  simp [ZmqStream.new] at hget

variable (pb texts contextId validator) in
/-- **A call with nothing lost**: it is sent, served and delivered, and its result is taken. -/
theorem exists_call (stream : ZmqStream) (v : V) (request : Request)
    (next : Returned → Program α) :
    ∃ stream', (⟨stream, .running (.call request next), v, [], []⟩ : System V α).run pb texts
        contextId validator [.proceed [], .serve 0, .deliver 0, .proceed []]
      = ⟨stream', (match (answered texts contextId validator v request).1 with
          | .ok reply => .running (next reply)
          | .error e => .ended (.error e)),
        (answered texts contextId validator v request).2, [], []⟩ := by
  let place := stream.results.length
  let sent := (stream.send [] (messageType request) (pb.writeRequest contextId request)).2.2
  let answering := answering pb contextId validator [] request v
  let v' := (validator.serve v contextId request).2
  have hserved : (⟨sent, .waiting (.byteString place) request next, v,
        [asking pb contextId [] request], []⟩ : System V α).served pb validator 0
      = ⟨sent, .waiting (.byteString place) request next, v', [], [answering]⟩ := by
    simp only [System.served, List.getElem?_cons_zero, asking, pb.parseRequest_writeRequest]
    rfl
  have hentry : sent.futureHashMap.get? [] = some (.byteString place) := by
    simp [sent, place, ZmqStream.send]
  have hhandle : sent.handle (some answering) = { sent with
      results := sent.results.set place (some answering.content)
      futureHashMap := sent.futureHashMap.erase [] } := by
    simp only [ZmqStream.handle]
    rw [show answering.correlationId = [] from rfl, hentry]
    rfl
  have hresult : (Future.byteString place).getResult (sent.handle (some answering))
      = .result answering.content := by
    refine ZmqStream.getResult_eq ?_
    rw [hhandle]
    exact List.getElem?_set_self (by simp [sent, place, ZmqStream.send])
  have hresolved : resolved pb texts request answering.content
      = (answered texts contextId validator v request).1 := by
    simp only [resolved, answered, answering, StreamContext.answering,
      pb.parseResponse_writeResponse (validator.serve_answers v contextId request)]
  refine ⟨sent.handle (some answering), ?_⟩
  show (((((⟨stream, .running (.call request next), v, [], []⟩ : System V α).proceed pb texts
    contextId []).served pb validator 0).delivered 0).proceed pb texts contextId []) = _
  have hproceed : (⟨stream, .running (.call request next), v, [], []⟩ : System V α).proceed pb
      texts contextId [] = ⟨sent, .waiting (.byteString place) request next, v,
        [asking pb contextId [] request], []⟩ := rfl
  have hdelivered : (⟨sent, .waiting (.byteString place) request next, v', [], [answering]⟩ :
      System V α).delivered 0 = ⟨sent.handle (some answering),
        .waiting (.byteString place) request next, v', [], []⟩ := rfl
  rw [hproceed, hserved, hdelivered]
  simp only [System.proceed, hresult, hresolved]
  cases (answered texts contextId validator v request).1 <;> rfl

/-- **A program can be brought to its end.** -/
theorem exists_ended (p : Program α) (v : V) (stream : ZmqStream) :
    ∃ events, ((System.start stream p v).run pb texts contextId validator events).thread
      = .ended (p.run (answered texts contextId validator) v).1 := by
  induction p generalizing v stream with
  | returns a => exact ⟨[.proceed []], rfl⟩
  | throws e => exact ⟨[.proceed []], rfl⟩
  | call request next ih =>
      obtain ⟨stream', hcall⟩ := exists_call pb texts contextId validator stream v request next
      rw [Calls.run]
      rcases hanswer : answered texts contextId validator v request with ⟨e | reply, v'⟩
      · refine ⟨[.proceed [], .serve 0, .deliver 0, .proceed []], ?_⟩
        rw [System.start, hcall, hanswer]
      · obtain ⟨events, hevents⟩ := ih reply v' stream'
        refine ⟨[.proceed [], .serve 0, .deliver 0, .proceed []] ++ events, ?_⟩
        rw [System.run, List.foldl_append, ← System.run, ← System.run, System.start, hcall, hanswer]
        exact hevents

/-- Nothing else at the stream has an id of the thread's calls. -/
def Foreign (events : List Event) : Prop :=
  ∀ event id, .elsewhere event ∈ events → idOf event = some id → .proceed id ∉ events

variable (pb texts contextId validator) in
/-- **A handler over the stream.**  Whatever is sent, received or lost at the stream meanwhile, and
in whatever order, the validator is at a state of the run that answers every call at once; and
what the thread ends in is what that run ends in, with the state it leaves, unless a wait has timed
out.  There are events that bring it there. -/
theorem streamContext_refines (earlier : List StreamEvent) (p : Program α) (v : V)
    {events : List Event} (hforeign : Foreign events) :
    (System.reach pb texts contextId validator earlier p v events).validator
        ∈ p.states (answered texts contextId validator) v ∧
      (∀ result, (System.reach pb texts contextId validator earlier p v events).thread
          = .ended result →
        result = .error timedOut ∨
          (result, (System.reach pb texts contextId validator earlier p v events).validator)
            = p.run (answered texts contextId validator) v) ∧
      ∃ finishing, (System.reach pb texts contextId validator earlier p v finishing).thread
        = .ended (p.run (answered texts contextId validator) v).1 := by
  have hstart : Phase pb texts contextId validator p v (fun id => .proceed id ∈ events)
      (System.start (ZmqStream.reach earlier) p v) := .running p rfl rfl rfl .start
  have hapart : ∀ event ∈ events, event.Apart fun id => .proceed id ∈ events := by
    intro event hevent
    cases event with
    | proceed id => exact hevent
    | elsewhere event => exact fun id hid => hforeign event id hevent hid
    | _ => exact trivial
  have hend : Phase pb texts contextId validator p v (fun id => .proceed id ∈ events)
      (System.reach pb texts contextId validator earlier p v events) :=
    hstart.run events (inBounds_reach earlier) hapart
  refine ⟨hend.mem_states, fun result hresult => ?_, exists_ended p v (ZmqStream.reach earlier)⟩
  cases hend with
  | running q hthread => rw [hthread] at hresult; cases hresult
  | waiting place request next v id hthread => rw [hthread] at hresult; cases hresult
  | timedOut hthread =>
      rw [hthread] at hresult
      exact Or.inl (Thread.ended.inj hresult).symm
  | ended result' hthread _ hends =>
      rw [hthread] at hresult
      rw [← Thread.ended.inj hresult]
      exact Or.inr hends

/-! ### The handlers -/

/-- A validator with state, for a transaction that may touch some of the addresses. -/
def contextValidator (authorized : Address → Bool) : Validator Context where
  serve context _ request :=
    match request with
    | .getState addresses =>
        if addresses.all authorized then
          (.entries .OK (addresses.map fun address => (address, context.getState address)), context)
        else (.entries .AUTHORIZATION_ERROR [], context)
    | .setState entries =>
        if entries.all fun e => authorized e.1 then
          (.addresses .OK (entries.map Prod.fst),
            entries.foldl (fun context e => context.put e.1 e.2) context)
        else (.addresses .AUTHORIZATION_ERROR [], context)
    | .deleteState addresses =>
        if addresses.all authorized then
          (.addresses .OK (addresses.filter fun address => context.getState address ≠ []),
            addresses.foldl (fun context address => context.put address []) context)
        else (.addresses .AUTHORIZATION_ERROR [], context)
    | .addReceiptData _ => (.added .OK, context)
    | .addEvent _ _ _ => (.added .OK, context)
  serve_answers context _ request := by
    cases request with
    | getState addresses => dsimp only; split <;> trivial
    | setState entries => dsimp only; split <;> trivial
    | deleteState addresses => dsimp only; split <;> trivial
    | _ => trivial

/-- The validator has stored an entry, but its response to that is lost; a ping comes meanwhile. -/
def lostResponse : List Event :=
  [.proceed "1".toList, .serve 0, .deliver 0, .proceed "2".toList, .proceed "2".toList,
    .elsewhere (.arrival (some ⟨.PING_REQUEST, "3".toList, []⟩)), .serve 0, .loseResponse 0,
    .timeout]

theorem foreign_lostResponse : Foreign lostResponse := by
  intro event id hevent hid hproceed
  simp only [lostResponse, List.mem_cons, reduceCtorEq, Event.elsewhere.injEq, Event.proceed.injEq,
    List.not_mem_nil, false_or, or_false] at hevent hproceed
  obtain rfl := hevent
  obtain rfl := Option.some.inj hid
  rcases hproceed with h | h | h <;> exact absurd h (by decide)

def noTexts : Texts := ⟨fun _ => "", fun _ => ""⟩

/-- A program that copies an entry. -/
def copies : Program Unit :=
  getState "a".toList fun bytes => setState "b".toList bytes (.internalError "State Error")

/-- A state with an entry to copy. -/
def oneEntry : Context := Context.empty.put "a".toList [1]

theorem streamContext_refines_lostResponse :
    (System.reach (.wire .standard) noTexts [] (contextValidator fun _ => true) [] copies oneEntry
        lostResponse).validator
        ∈ copies.states (answered noTexts [] (contextValidator fun _ => true)) oneEntry ∧
      (∀ result, (System.reach (.wire .standard) noTexts [] (contextValidator fun _ => true) []
          copies oneEntry lostResponse).thread = .ended result →
        result = .error timedOut ∨
          (result, (System.reach (.wire .standard) noTexts [] (contextValidator fun _ => true) []
            copies oneEntry lostResponse).validator)
            = copies.run (answered noTexts [] (contextValidator fun _ => true)) oneEntry) ∧
      ∃ finishing, (System.reach (.wire .standard) noTexts [] (contextValidator fun _ => true) []
          copies oneEntry finishing).thread
        = .ended (copies.run (answered noTexts [] (contextValidator fun _ => true)) oneEntry).1 :=
  streamContext_refines (.wire .standard) noTexts [] (contextValidator fun _ => true) [] copies
    oneEntry foreign_lostResponse

section Handlers

variable {authorized : Address → Bool} {context : Context} {address : Address}

variable (texts contextId authorized context) in
/-- A program ends in a result, and goes through no state between the first and the last. -/
structure Computes (program : Program Unit) (result : Except Throwable Unit × Context) : Prop where
  run : program.run (answered texts contextId (contextValidator authorized)) context = result
  states : ∀ c ∈ program.states (answered texts contextId (contextValidator authorized)) context,
    c = context ∨ c = result.2

theorem computes_throws (e : Throwable) :
    Computes texts contextId authorized context (.throws e) (.error e, context) :=
  ⟨rfl, by simp [Calls.states]⟩

/-- **A program that reads an entry** goes on with what is stored. -/
theorem Computes.getState (hauthorized : authorized address = true)
    {next : ByteString → Program Unit} {result : Except Throwable Unit × Context}
    (h : Computes texts contextId authorized context (next (context.getState address)) result) :
    Computes texts contextId authorized context (getState address next) result := by
  have hanswered : answered texts contextId (contextValidator authorized) context
      (.getState [address])
        = (.ok (.entries (Dict.empty.set address (context.getState address))), context) := by
    simp [answered, contextValidator, returned, hauthorized]
  constructor
  · rw [StreamContext.getState, Calls.run, hanswered]
    simpa using h.run
  · rw [StreamContext.getState, Calls.states, hanswered]
    simpa using h.states

/-- **A program that stores an entry.** -/
theorem computes_setState (hauthorized : authorized address = true) (value : ByteString)
    (error : Throwable) :
    Computes texts contextId authorized context (setState address value error)
      (.ok (), context.put address value) := by
  have hanswered : answered texts contextId (contextValidator authorized) context
      (.setState [(address, value)]) = (.ok (.addresses [address]), context.put address value) := by
    simp [answered, contextValidator, returned, hauthorized]
  constructor
  · rw [setState, Calls.run, hanswered]
    simp [Calls.run]
  · rw [setState, Calls.states, hanswered]
    simp [Calls.states]

/-- **`BasicElectionHandler.apply` makes its calls**, at an address it may touch. -/
theorem computes_electionProgram {platform : Platform} {request : TpProcessRequest}
    (hauthorized : ∀ tx, getUnpackedTransaction platform request = .ok tx →
      authorized (makeElectionAddress platform tx.electionName) = true) :
    Computes texts contextId authorized context (electionProgram platform request)
      (apply platform request context) := by
  unfold electionProgram apply prepare
  cases htx : getUnpackedTransaction platform request with
  | error e => exact computes_throws e
  | ok tx =>
      simp only [given, ok_bind]
      cases checkBallot platform tx with
      | error e => exact computes_throws e
      | ok _ =>
          simp only [ok_bind]
          cases checkFields tx with
          | error e => exact computes_throws e
          | ok _ =>
              simp only [ok_bind]
              refine Computes.getState (hauthorized tx htx) ?_
              rw [← readEntry]
              cases runElection platform tx (getStateData (readEntry platform context
                  (makeElectionAddress platform tx.electionName)) tx.electionName)
                  request.signerPublicKey with
              | error e => exact computes_throws e
              | ok updated =>
                  simp only [ok_bind, pure_eq_ok, storeElectionData, Evoting.storeElectionData]
                  cases updatedEntry updated (readEntry platform context
                      (makeElectionAddress platform tx.electionName)) with
                  | error e => exact computes_throws e
                  | ok entry => exact computes_setState (hauthorized tx htx) _ _

/-- **So does `IntegerKeyHandler.apply`.** -/
theorem computes_integerKeyProgram {cbor : CborLibrary} {digits : CharacterDigits}
    {makeAddress : JString → Address} {payload : ByteString}
    (hauthorized : ∀ update, IntegerKeyHandler.readUpdate cbor digits payload = .ok update →
      authorized (makeAddress update.name) = true) :
    Computes texts contextId authorized context (integerKeyProgram cbor digits makeAddress payload)
      (IntegerKeyHandler.apply cbor digits makeAddress context payload) := by
  unfold integerKeyProgram IntegerKeyHandler.apply
  cases hupdate : IntegerKeyHandler.readUpdate cbor digits payload with
  | error e => exact computes_throws e
  | ok update =>
      simp only [given]
      refine Computes.getState (hauthorized update hupdate) ?_
      cases IntegerKeyHandler.newValue cbor digits (context.getState (makeAddress update.name))
          update with
      | error e => exact computes_throws e
      | ok value => exact computes_setState (hauthorized update hupdate) _ _

/-- **How a transaction over the stream can stand**: the validator is at the state before it or at
the state it leaves; and it ends in its result, in that state, unless a wait has timed out. -/
structure KeepsTo (context : Context) (result : Except Throwable Unit × Context)
    (s : System Context Unit) : Prop where
  state : s.validator = context ∨ s.validator = result.2
  ended : ∀ outcome, s.thread = .ended outcome →
    outcome = .error timedOut ∨ (outcome, s.validator) = result

variable (pb texts contextId) in
theorem Computes.keepsTo {program : Program Unit} {result : Except Throwable Unit × Context}
    (h : Computes texts contextId authorized context program result) (earlier : List StreamEvent)
    {events : List Event} (hforeign : Foreign events) :
    KeepsTo context result (System.reach pb texts contextId (contextValidator authorized) earlier
      program context events) := by
  obtain ⟨hmem, hended, -⟩ := streamContext_refines pb texts contextId
    (contextValidator authorized) earlier program context hforeign
  refine ⟨h.states _ hmem, fun outcome houtcome => ?_⟩
  rw [← h.run]
  exact hended outcome houtcome

variable (pb texts contextId) in
/-- **An election transaction over the stream.**  It keeps to what `apply` does in the state it
finds, whatever happens at the stream, when it may touch the address of its election. -/
theorem election_over_stream (platform : Platform) (request : TpProcessRequest)
    (hauthorized : ∀ tx, getUnpackedTransaction platform request = .ok tx →
      authorized (makeElectionAddress platform tx.electionName) = true)
    (context : Context) (earlier : List StreamEvent) {events : List Event}
    (hforeign : Foreign events) :
    KeepsTo context (apply platform request context)
      (System.reach pb texts contextId (contextValidator authorized) earlier
        (electionProgram platform request) context events) :=
  (computes_electionProgram hauthorized).keepsTo pb texts contextId earlier hforeign

/-- A `create` is accepted, but the response to its new record is lost, and the wait times out. -/
theorem election_over_stream_lostResponse :
    KeepsTo Context.empty (apply .reference (createReference "mayor".toList) Context.empty)
      (System.reach (.wire .standard) noTexts [] (contextValidator fun _ => true) []
        (electionProgram .reference (createReference "mayor".toList)) Context.empty
        lostResponse) :=
  election_over_stream (.wire .standard) noTexts [] .reference _ (fun _ _ => rfl) Context.empty []
    foreign_lostResponse

variable (pb texts contextId) in
/-- **An integer key transaction over the stream**, in the same way. -/
theorem integerKey_over_stream (cbor : CborLibrary) (digits : CharacterDigits)
    (makeAddress : JString → Address) (payload : ByteString)
    (hauthorized : ∀ update, IntegerKeyHandler.readUpdate cbor digits payload = .ok update →
      authorized (makeAddress update.name) = true)
    (context : Context) (earlier : List StreamEvent) {events : List Event}
    (hforeign : Foreign events) :
    KeepsTo context (IntegerKeyHandler.apply cbor digits makeAddress context payload)
      (System.reach pb texts contextId (contextValidator authorized) earlier
        (integerKeyProgram cbor digits makeAddress payload) context events) :=
  (computes_integerKeyProgram hauthorized).keepsTo pb texts contextId earlier hforeign

theorem integerKey_over_stream_lostResponse :
    KeepsTo Context.empty
      (IntegerKeyHandler.apply .standard .ascii (fun name => name) Context.empty
        (IntegerKeyHandler.setPayload "foo" 20))
      (System.reach (.wire .standard) noTexts [] (contextValidator fun _ => true) []
        (integerKeyProgram .standard .ascii (fun name => name)
          (IntegerKeyHandler.setPayload "foo" 20)) Context.empty lostResponse) :=
  integerKey_over_stream (.wire .standard) noTexts [] .standard .ascii _ _ (fun _ _ => rfl)
    Context.empty [] foreign_lostResponse

end Handlers

end Evoting.StreamContext

/-
What the history of a run looks like, one election at a time.

`accepted_create` and `not_accepted_vote` read a place of the trace through the
inversion lemma `apply_ok`; that a name is created once is then the rule
`Machine.filter_trace_le_one`, whose flag is "something is stored at the address
of the name".
-/
import Evoting.Proofs.Handler

namespace Evoting

variable {platform : Platform}

/-- A run as the validator saw it: each transaction with what `apply` did on it. -/
abbrev history (platform : Platform) (requests : List TpProcessRequest) :
    List (TpProcessRequest × Except Throwable Unit) :=
  Machine.trace (fun context request => apply platform request context) Context.empty requests

/-- A place of the history where `action` was accepted for `name`. -/
def isAccepted (platform : Platform) (action name : JString)
    (entry : TpProcessRequest × Except Throwable Unit) : Bool :=
  match entry.2, getUnpackedTransaction platform entry.1 with
  | .ok (), .ok tx => tx.action = action ∧ tx.electionName = name
  | _, _ => false

theorem isAccepted_iff {action name : JString} {entry : TpProcessRequest × Except Throwable Unit} :
    isAccepted platform action name entry = true ↔ entry.2 = .ok () ∧
      ∃ tx, getUnpackedTransaction platform entry.1 = .ok tx ∧ tx.action = action ∧
        tx.electionName = name := by
  obtain ⟨request, result⟩ := entry
  cases result <;> cases h : getUnpackedTransaction platform request <;> simp [isAccepted, h]

/-- What a history may look like for one election name. -/
structure Lawful (platform : Platform) (requests : List TpProcessRequest) (name : JString) :
    Prop where
  /-- At most one `create` is accepted. -/
  create_once :
    ((history platform requests).filter (isAccepted platform "create".toList name)).length ≤ 1
  /-- An accepted vote comes after an accepted `create`. -/
  create_before_vote : ∀ before entry after,
    history platform requests = before ++ entry :: after →
    isAccepted platform "vote".toList name entry = true →
    ∃ earlier ∈ before, isAccepted platform "create".toList name earlier = true
  /-- A transaction that is rejected, or that names another election, leaves what is
  stored for the name as it was. -/
  untouched : ∀ first request rest, requests = first ++ request :: rest →
    ((apply platform request (applyAll platform Context.empty first)).1 ≠ .ok () ∨
      ∀ tx, getUnpackedTransaction platform request = .ok tx → tx.electionName ≠ name) →
    (applyAll platform Context.empty (first ++ [request])).data (makeElectionAddress platform name)
      = (applyAll platform Context.empty first).data (makeElectionAddress platform name)

/-- An accepted `create` finds nothing at the address of its name, and something is there after. -/
theorem accepted_create {request : TpProcessRequest} {context : Context}
    (hreg : Registry platform context) {name : JString}
    (h : isAccepted platform "create".toList name
      (request, (apply platform request context).1) = true) :
    context.data (makeElectionAddress platform name) = [] ∧
      (apply platform request context).2.data (makeElectionAddress platform name) ≠ [] := by
  obtain ⟨hok, tx, htx, -, rfl⟩ := isAccepted_iff.mp h
  obtain ⟨tx', r, htx', -, -, -, -, hnil, hstate⟩ := apply_ok hreg hok
  have hsame : tx = tx' := by rw [htx'] at htx; exact (Except.ok.inj htx).symm
  subst hsame
  refine ⟨hnil, ?_⟩
  rw [hstate, Context.put_data_self]
  intro hempty
  have hcsv := platform.utf8.toStringUtf8_copyFromUtf8 r.csv
  rw [hempty, Utf8.toStringUtf8_nil] at hcsv
  exact r.csv_ne_nil hcsv.symm

/-- No vote is accepted in a state `apply` has built itself. -/
theorem not_accepted_vote {request : TpProcessRequest} {context : Context}
    (hreg : Registry platform context) {name : JString} :
    isAccepted platform "vote".toList name (request, (apply platform request context).1)
      = false := by
  rw [← Bool.not_eq_true, isAccepted_iff]
  rintro ⟨hok, tx, htx, hvote, -⟩
  obtain ⟨tx', r, htx', hcreate, -⟩ := apply_ok hreg hok
  have hsame : tx = tx' := by rw [htx'] at htx; exact (Except.ok.inj htx).symm
  rw [hsame, hcreate] at hvote
  exact absurd hvote (by decide)

/-- A transaction leaves every address alone but the one of the name it carries. -/
theorem data_of_other {request : TpProcessRequest} {context : Context}
    (hreg : Registry platform context) {a : Address}
    (h : ∀ tx, getUnpackedTransaction platform request = .ok tx →
      makeElectionAddress platform tx.electionName ≠ a) :
    (apply platform request context).2.data a = context.data a := by
  cases hok : (apply platform request context).1 with
  | error e => rw [apply_error hok]
  | ok _ =>
      obtain ⟨tx, r, htx, -, -, -, -, -, hstate⟩ := apply_ok hreg hok
      rw [hstate, Context.put_data_of_ne _ _ (h tx htx).symm]

/-- The names of a run do not share the address of `name`. -/
def AddressOwn (platform : Platform) (requests : List TpProcessRequest) (name : JString) : Prop :=
  ∀ request ∈ requests, ∀ tx, getUnpackedTransaction platform request = .ok tx →
    makeElectionAddress platform tx.electionName = makeElectionAddress platform name →
    tx.electionName = name

/-- **Elections are created once, voted on only then, and not touched by others.** -/
theorem history_lawful (requests : List TpProcessRequest) (name : JString)
    (hdistinct : AddressOwn platform requests name) : Lawful platform requests name where
  create_once := by
    refine (Machine.filter_trace_le_one _ (Registry platform)
      (fun context => context.data (makeElectionAddress platform name) ≠ [])
      (fun _ _ => registry_step) ?_ ?_ requests Context.empty registry_empty).1
    · intro context request hreg hup
      rw [data_step hreg hup]
      exact hup
    · intro context request hreg haccepted
      obtain ⟨hnil, hsome⟩ := accepted_create hreg haccepted
      exact ⟨fun h => h hnil, hsome⟩
  create_before_vote := by
    intro before entry after htrace hvote
    obtain ⟨request, result⟩ := entry
    obtain ⟨first, rest, -, -, rfl, -⟩ := Machine.trace_eq_append _ htrace
    rw [not_accepted_vote (registry_reachable first)] at hvote
    simp at hvote
  untouched := by
    intro first request rest hrequests h
    rw [applyAll_append, applyAll_cons]
    rcases h with hrejected | hother
    · cases hok : (apply platform request (applyAll platform Context.empty first)).1 with
      | error e => rw [apply_error hok]; rfl
      | ok _ => exact absurd hok hrejected
    · refine data_of_other (registry_reachable first) ?_
      intro tx htx hsame
      exact hother tx htx (hdistinct request (by simp [hrequests]) tx htx hsame)

/-- Two elections and a second attempt at the first. -/
def electionRequests : List TpProcessRequest :=
  ["mayor".toList, "council".toList, "mayor".toList].map fun name =>
    referenceRequest name "create".toList
      (referenceText (.publicKey KeyPair.reference.publicKey.toObject))

theorem history_lawful_mayor : Lawful .reference electionRequests "mayor".toList := by
  refine history_lawful electionRequests "mayor".toList ?_
  intro request hrequest tx htx haddr
  obtain ⟨name, hname, rfl⟩ := List.mem_map.mp hrequest
  simp only [List.mem_cons, List.not_mem_nil, or_false] at hname
  rw [getUnpackedTransaction_reference (by rcases hname with rfl | rfl | rfl <;> decide)
    (by decide), Except.ok.injEq] at htx
  subst htx
  rcases hname with rfl | rfl | rfl
  · rfl
  · exact absurd haddr (by decide +kernel)
  · rfl

end Evoting

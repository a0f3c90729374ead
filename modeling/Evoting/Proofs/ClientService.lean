/-
What `ElectionImp` does to the processor it sends to.

Nothing of what it sends is accepted, in any state.  Not every refusal is harmless:
`create` is refused with an exception that `process` catches, while what `vote`
sends as a ballot is not Base64, and what the decoder throws gets past it.

The messages in between may be anybody's.
-/
import Evoting.Proofs.Client
import Evoting.Proofs.Service

namespace Evoting.Service

open Machine

variable {platform : Platform} {parseFrom : ByteString → Option Request}

/-- A command of `ElectionImp`, with its name and the key of its file. -/
inductive Command where
  | create (name : JString) (pk : PaillierPublicKey)
  | vote (name : JString) (pk : PaillierPublicKey)

namespace Command

/-- The transaction that is sent. -/
def sent (platform : Platform) : Command → ClientTransaction
  | create name pk => ElectionImp.create platform "create".toList name pk
  | vote name pk => ElectionImp.vote platform "vote".toList name pk

/-- A vote whose name is one field of its payload. -/
def Fatal : Command → Prop
  | create _ _ => False
  | vote name _ => ',' ∉ name

end Command

/-- The message carries a command to the handler of elections. -/
structure Carries (platform : Platform) (parseFrom : ByteString → Option Request)
    (message : Message) (command : Command) : Prop where
  messageType : message.messageType = .TP_PROCESS_REQUEST
  request : ∃ request, parseFrom message.content = some request ∧
    request.header = ⟨"election".toList, "1.0".toList⟩ ∧
    request.transaction = (command.sent platform).request

/-! ### One command -/

/-- A name with a comma makes a field too many. -/
theorem unpacked_of_comma {name : JString} (hname : ',' ∈ name) (action : JString)
    {third : JString} (hthird : ',' ∉ third) (hne : third ≠ []) {request : TpProcessRequest}
    (h : request.payload
      = platform.utf8.copyFromUtf8 (name ++ ",".toList ++ action ++ ",".toList ++ third)) :
    getUnpackedTransaction platform request
      = .error (.invalidTransaction "Invalid payload serialization") := by
  have hstrip : Fields.strip ',' (name ++ ",".toList ++ action ++ ",".toList ++ third)
      = name ++ ",".toList ++ action ++ ",".toList ++ third := by
    refine List.rdropWhile_eq_self_iff.mpr fun hl => ?_
    rw [List.getLast_append_of_ne_nil _ hne, decide_eq_true_eq]
    exact fun hlast => hthird (hlast ▸ List.getLast_mem hne)
  have hcount : 0 < name.count ',' := List.count_pos_iff.mpr hname
  have hlength : ¬(splitString ','
      (name ++ ",".toList ++ action ++ ",".toList ++ third)).length ≤ 3 := by
    rw [Fields.length_split_le_iff (by decide), hstrip]
    simp only [List.count_append]
    have hcomma : ",".toList.count ',' = 1 := by decide
    omega
  rw [getUnpackedTransaction, h, Utf8.toStringUtf8_copyFromUtf8, if_pos (Nat.lt_of_not_le hlength)]

theorem refused_of_error {request : TpProcessRequest} {context : Context} (text : String)
    (h : prepare platform request context = .error (.invalidTransaction text)) :
    ∃ text, apply platform request context = (.error (.invalidTransaction text), context) :=
  ⟨text, by rw [apply, h]⟩

theorem checkFields_cases (tx : TransactionData) :
    checkFields tx = .ok () ∨ ∃ text, checkFields tx = .error (.invalidTransaction text) := by
  unfold checkFields
  split_ifs <;> simp

/-- A key that cannot be read is refused, at the latest where it is read. -/
theorem create_refused {request : TpProcessRequest} {tx : TransactionData}
    (htx : getUnpackedTransaction platform request = .ok tx) (haction : tx.action = "create".toList)
    (hkey : Undeserializable platform tx.ballotOrKey) (context : Context) :
    ∃ text, apply platform request context = (.error (.invalidTransaction text), context) := by
  have hcheck : checkBallot platform tx = .ok () :=
    if_neg (by rw [haction]; decide)
  have hrun : ∀ r player, ∃ text,
      runElection platform tx r player = .error (.invalidTransaction text) := by
    intro r player
    rw [runElection, if_pos haction, applyCreate]
    by_cases hstored : r.cipher ≠ []
    · exact ⟨_, if_pos hstored⟩
    · obtain ⟨failure, hfailure⟩ := hkey
      rw [if_neg hstored, ObjectStreams.readPublicKey, hfailure]
      simp only [catching_thrown, error_bind]
      exact ⟨_, rfl⟩
  rcases checkFields_cases tx with hfields | ⟨text, hfields⟩
  · obtain ⟨text, htext⟩ := hrun (foundRecord platform context tx) request.signerPublicKey
    refine refused_of_error text ?_
    rw [prepare, htx, ok_bind, hcheck, ok_bind, hfields, ok_bind]
    dsimp only
    rw [← foundRecord, htext, error_bind]
  · refine refused_of_error text ?_
    rw [prepare, htx, ok_bind, hcheck, ok_bind, hfields, error_bind]

/-- A name with a comma is refused before anything is read. -/
theorem comma_refused {name : JString} (hname : ',' ∈ name) (action : JString)
    {third : JString} (hthird : ',' ∉ third) (hne : third ≠ []) {request : TpProcessRequest}
    (h : request.payload
      = platform.utf8.copyFromUtf8 (name ++ ",".toList ++ action ++ ",".toList ++ third))
    (context : Context) :
    ∃ text, apply platform request context = (.error (.invalidTransaction text), context) := by
  refine refused_of_error "Invalid payload serialization" ?_
  rw [prepare, unpacked_of_comma hname action hthird hne h, error_bind]

variable (platform) in
/-- **What is not fatal is refused in every state**, with an exception that is caught. -/
theorem refused_of_not_fatal {command : Command} (h : ¬command.Fatal) (context : Context) :
    ∃ text, apply platform (command.sent platform).request context
      = (.error (.invalidTransaction text), context) := by
  cases command with
  | create name pk =>
      by_cases hname : ',' ∈ name
      · exact comma_refused hname _ (Base64.not_mem_of_decode (Base64.decode_encode _)
          Base64.not_isText_comma) (createKey_ne_nil pk) rfl context
      · exact create_refused (create_unpacked hname pk) rfl (readBase64_createKey platform pk)
          context
  | vote name pk =>
      exact comma_refused (not_not.mp h) _ (toText_chars pk).2
        (List.ne_nil_of_mem (semicolon_mem_toText pk)) rfl context

/-- **What is fatal is not caught**, whatever the state. -/
theorem not_contained_of_fatal {command : Command} (h : command.Fatal) (context : Context) :
    ¬Contained platform context (command.sent platform).request := by
  cases command with
  | create name pk => exact absurd h id
  | vote name pk =>
      intro hcontained
      rcases (hcontained _ (vote_unpacked h pk)).1 rfl with hfails | ⟨⟨o, ho, -⟩, -⟩
      · exact not_undeserializable_of_error (readBase64_voteKey pk) hfails
      · rw [readBase64_voteKey] at ho
        simp at ho

/-! ### In a run -/

/-- **What `ElectionImp` does to an election processor**, whatever has been sent before.  A vote
on a name without a comma is the last message: it is not answered, and neither is any message
after it, while the processor runs or at shutdown.  Any other command is answered as invalid by a
processor that runs, and leaves it as it was. -/
theorem electionImp_service (messages : List Message) {message : Message} {command : Command}
    (hcarries : Carries platform parseFrom message command) :
    (command.Fatal →
      (step parseFrom (run (step parseFrom) (started [electionHandler platform] Context.empty)
        messages) message).1 = [] ∧
      ∀ later next, (step parseFrom (run (step parseFrom)
          (started [electionHandler platform] Context.empty) (messages ++ message :: later))
          next).1 = [] ∧
        ∀ registered answered receiveQueue, shutdown parseFrom registered answered
          (run (step parseFrom) (started [electionHandler platform] Context.empty)
            (messages ++ message :: later)) receiveQueue = []) ∧
    (¬command.Fatal →
      (run (step parseFrom) (started [electionHandler platform] Context.empty) messages).running
        = true →
      ∃ text, step parseFrom
          (run (step parseFrom) (started [electionHandler platform] Context.empty) messages) message
        = ([.TP_PROCESS_RESPONSE message.correlationId ⟨.INVALID_TRANSACTION, text, []⟩],
          run (step parseFrom) (started [electionHandler platform] Context.empty) messages)) := by
  have hatomic : Atomic [electionHandler platform] := atomic_electionHandler platform
  obtain ⟨request, hparse, hheader, hrequest⟩ := hcarries.request
  constructor
  · intro hfatal
    have hends : ∀ later, ¬Undisturbed parseFrom [electionHandler platform] Context.empty
        (messages ++ message :: later) := by
      intro later hrun
      rw [undisturbed_election_iff] at hrun
      obtain ⟨found, hfound, -, hcontained⟩ :=
        hrun messages message later rfl hcarries.messageType
      rw [Option.some.inj (hfound.symm.trans hparse), hrequest] at hcontained
      exact not_contained_of_fatal hfatal _ hcontained
    refine ⟨?_, fun later next => ⟨?_, ?_⟩⟩
    · exact (singleton_run hatomic Context.empty messages message).2.2.1 (hends [])
    · have hstopped := run_disturbed (by simp) hatomic _ _ (hends later)
      rw [step_not_running hstopped.running]
    · exact fun registered answered receiveQueue => shutdown_of_stopped
        (run_disturbed (by simp) hatomic _ _ (hends later)) registered answered receiveQueue
  · intro hnot hrunning
    have hrun : Undisturbed parseFrom [electionHandler platform] Context.empty messages :=
      (singleton_run hatomic Context.empty messages message).1.mp hrunning
    rw [run_undisturbed (by simp) messages _ hrun]
    generalize run (answer parseFrom [electionHandler platform]) Context.empty messages = context
    have hrefused := refused_of_not_fatal platform hnot context
    rw [← hrequest] at hrefused
    obtain ⟨text, happly⟩ := hrefused
    have hfor : requestOf parseFrom [electionHandler platform] message
        = some (request, electionHandler platform) := requestOf_singleton hparse hheader
    refine ⟨text.toList, ?_⟩
    rw [step_invalid (s := started [electionHandler platform] context) rfl (by simp [started])
      hcarries.messageType hfor happly]
    rfl

/-- One vote of `ElectionImp` on "mayor" ends a processor that has just been started. -/
theorem electionImp_service_mayor :
    let vote : TpProcessRequest :=
      (ElectionImp.vote .reference "vote".toList "mayor".toList KeyPair.reference.publicKey).request
    let parseFrom : ByteString → Option Request := fun payload =>
      some ⟨⟨⟨"election".toList, "1.0".toList⟩, payload, [], []⟩, vote.signerPublicKey⟩
    let message : Message := ⟨.TP_PROCESS_REQUEST, "1".toList, vote.payload⟩
    (step parseFrom (started [electionHandler .reference] Context.empty) message).1 = [] ∧
      ∀ later next, (step parseFrom (run (step parseFrom)
        (started [electionHandler .reference] Context.empty) (message :: later)) next).1 = [] := by
  intro vote parseFrom message
  have hcarries : Carries .reference parseFrom message
      (.vote "mayor".toList KeyPair.reference.publicKey) := ⟨rfl, _, rfl, rfl, rfl⟩
  obtain ⟨hanswer, hlater⟩ := (electionImp_service [] hcarries).1 (by
    show ',' ∉ "mayor".toList
    decide)
  exact ⟨hanswer, fun later next => (hlater later next).1⟩

end Evoting.Service

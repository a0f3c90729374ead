/-
Counting an election from its creation on.

The run of the theorem is what a blockchain would hand the handler: transactions
on other elections, the `create` of this one, then honest votes on it mixed with
transactions on others.  `CountsVotes` says that all of them are accepted and
that what is stored decrypts to the sums.  The votes are what fails: `applyCreate`
leaves the key where `applyVote` looks for the ciphertexts, so no vote is ever
accepted, and `countsVotes_iff` says that the count is right exactly when there
is nothing to count.
-/
import Evoting.Proofs.Ballots
import Evoting.Proofs.History
import Evoting.Proofs.Paillier

namespace Evoting

variable {platform : Platform}

/-- Keys and arrays of the Paillier classes can be written. -/
structure Serializes (streams : ObjectStreams) : Prop where
  publicKey : ∀ pk : PaillierPublicKey, ∃ bs, streams.writeObject (.publicKey pk.toObject) = .ok bs
  cipherTexts : ∀ cs : List PaillierCipherText, ∃ bs,
    streams.writeObject (.cipherTexts (cs.map fun c => some c.toObject)) = .ok bs

/-- The transaction carries these three fields. -/
def Carries (platform : Platform) (request : TpProcessRequest) (name action third : JString) :
    Prop :=
  platform.utf8.toStringUtf8 request.payload = joinStrings ',' [name, action, third]

/-- A `create` of `name` with a key. -/
def IsCreate (platform : Platform) (pk : PaillierPublicKey) (name : JString)
    (request : TpProcessRequest) : Prop :=
  ∃ text, platform.streams.writeBase64 (.publicKey pk.toObject) = .ok text ∧
    Carries platform request name "create".toList text

/-- A vote on `name` whose ballot is five encryptions, of these plaintexts. -/
def IsVote (platform : Platform) (pk : PaillierPublicKey) (name : JString)
    (request : TpProcessRequest) (plaintexts : List Int) : Prop :=
  plaintexts.length = 5 ∧ ∃ (ciphers : List PaillierCipherText) (text : JString),
    List.Forall₂ (fun m c => ∃ draws, pk.encryptToCipherText m draws = some (.ok c))
      plaintexts ciphers ∧
    platform.streams.writeBase64 (.cipherTexts (ciphers.map fun c => some c.toObject)) = .ok text ∧
    Carries platform request name "vote".toList text

/-- A transaction that does not name this election. -/
def IsOnOther (platform : Platform) (name : JString) (request : TpProcessRequest) : Prop :=
  ∀ tx, getUnpackedTransaction platform request = .ok tx → tx.electionName ≠ name

/-- A transaction after the `create`. -/
inductive Cast where
  | vote (request : TpProcessRequest) (plaintexts : List Int)
  | other (request : TpProcessRequest)

namespace Cast

def request : Cast → TpProcessRequest
  | vote request _ => request
  | other request => request

/-- It is what it says it is. -/
def Honest (platform : Platform) (pk : PaillierPublicKey) (name : JString) : Cast → Prop
  | vote request plaintexts => IsVote platform pk name request plaintexts
  | other request => IsOnOther platform name request

/-- The plaintexts of the votes, vote by vote. -/
def votes (casts : List Cast) : List (List Int) :=
  casts.filterMap fun
    | vote _ plaintexts => some plaintexts
    | other _ => none

end Cast

/-- The state when the election has been created and these casts have followed. -/
def stateAfter (platform : Platform) (before : List TpProcessRequest)
    (createRequest : TpProcessRequest) (casts : List Cast) : Context :=
  applyAll platform Context.empty (before ++ createRequest :: casts.map Cast.request)

/-- The record of an election in a state. -/
def storedRecord (platform : Platform) (context : Context) (name : JString) : ElectionData :=
  getStateData (readEntry platform context (makeElectionAddress platform name)) name

/-- The election is created, all its votes are accepted, and the array stored for it
decrypts at each place to the sum of the plaintexts there. -/
structure CountsVotes (platform : Platform) (k : KeyPair) (name : JString)
    (before : List TpProcessRequest) (createRequest : TpProcessRequest) (casts : List Cast) :
    Prop where
  created : (apply platform createRequest (applyAll platform Context.empty before)).1 = .ok ()
  voted : ∀ first request plaintexts rest, casts = first ++ .vote request plaintexts :: rest →
    (apply platform request (stateAfter platform before createRequest first)).1 = .ok ()
  counted :
    let record := storedRecord platform (stateAfter platform before createRequest casts) name
    ∃ field ∈ [record.cipher, record.pubKey], ∃ texts : List Int, texts.length = 5 ∧
      platform.streams.readCipherTexts field = .ok (some (arrayOf k.publicKey texts)) ∧
      ∀ i text, texts[i]? = some text → ∃ v, k.decryptCipherText ⟨text, k.publicKey⟩ = .ok v ∧
        v ≡ ((Cast.votes casts).map fun plaintexts => plaintexts.getD i 0).sum
          [ZMOD k.publicKey.n]

/-! ### What honest transactions carry -/

theorem getUnpackedTransaction_of_carries {request : TpProcessRequest} {name action third : JString}
    {o : JObject} (hname : PlainName name) (haction : ',' ∉ action)
    (hwrite : platform.streams.writeBase64 o = .ok third)
    (h : Carries platform request name action third) :
    getUnpackedTransaction platform request = .ok ⟨name, action, third⟩ := by
  obtain ⟨hne, hcomma, -⟩ := platform.streams.text_of_readBase64
    (platform.streams.readBase64_of_writeBase64 hwrite)
  exact getUnpackedTransaction_of_fields h hname.comma haction hcomma hne

/-- An honest vote is never accepted. -/
theorem vote_not_accepted {pk : PaillierPublicKey} {name : JString} (hname : PlainName name)
    {request : TpProcessRequest} {plaintexts : List Int}
    (hvote : IsVote platform pk name request plaintexts) {context : Context}
    (hreg : Registry platform context) : (apply platform request context).1 ≠ .ok () := by
  intro hok
  obtain ⟨-, ciphers, text, -, hwrite, hcarries⟩ := hvote
  have htx := getUnpackedTransaction_of_carries hname (by decide) hwrite hcarries
  obtain ⟨tx, r, htx', hcreate, -⟩ := apply_ok hreg hok
  rw [htx, Except.ok.injEq] at htx'
  rw [← htx'] at hcreate
  exact absurd (show "vote".toList = "create".toList from hcreate) (by decide)

/-- Nothing happens at the address of `name` while only other elections are named. -/
theorem data_run_other {name : JString} {requests : List TpProcessRequest} {context : Context}
    (hreg : Registry platform context) (hother : ∀ r ∈ requests, IsOnOther platform name r)
    (hdistinct : AddressOwn platform requests name) :
    (applyAll platform context requests).data (makeElectionAddress platform name)
      = context.data (makeElectionAddress platform name) := by
  refine Machine.run_frame _ (Registry platform)
    (fun request => ∀ tx, getUnpackedTransaction platform request = .ok tx →
      makeElectionAddress platform tx.electionName ≠ makeElectionAddress platform name)
    (fun c => c.data (makeElectionAddress platform name)) ?_ requests context hreg ?_
  · exact fun c request hc h => ⟨registry_step hc, data_of_other hc h⟩
  · intro request hr tx htx hsame
    exact hother request hr tx htx (hdistinct request hr tx htx hsame)

theorem getEmptyCipherText_toObject (pk : PaillierPublicKey) :
    List.replicate 5 (some pk.toObject.getEmptyCipherText) = arrayOf pk (List.replicate 5 1) := rfl

/-! ### The count -/

section Count

variable {k : KeyPair} {p q : ℕ} {name : JString} {before : List TpProcessRequest}
  {createRequest : TpProcessRequest} {casts : List Cast}

/-- A run that counts has no votes. -/
theorem votes_nil_of_countsVotes (hname : PlainName name)
    (hcasts : ∀ c ∈ casts, c.Honest platform k.publicKey name)
    (h : CountsVotes platform k name before createRequest casts) : Cast.votes casts = [] := by
  rw [Cast.votes, List.filterMap_eq_nil_iff]
  rintro (⟨request, plaintexts⟩ | request) hc
  · obtain ⟨first, rest, hsplit⟩ := List.append_of_mem hc
    exact absurd (h.voted first request plaintexts rest hsplit)
      (vote_not_accepted hname (hcasts _ hc) (registry_reachable _))
  · rfl

/-- The record `create` writes. -/
theorem apply_of_isCreate (hserial : Serializes platform.streams) (hname : PlainName name)
    (hcreate : IsCreate platform k.publicKey name createRequest) {context : Context}
    (hnil : context.data (makeElectionAddress platform name) = []) :
    ∃ r : ElectionData, Created platform r ∧ r.electionName = name ∧
      platform.streams.readCipherTexts r.pubKey
        = .ok (some (arrayOf k.publicKey (List.replicate 5 1))) ∧
      apply platform createRequest context = (.ok (),
        context.put (makeElectionAddress platform name) (platform.utf8.copyFromUtf8 r.csv)) := by
  obtain ⟨key, hkey, hcarries⟩ := hcreate
  have htx := getUnpackedTransaction_of_carries hname (by decide) hkey hcarries
  have hread := platform.streams.readBase64_of_writeBase64 hkey
  obtain ⟨bs, hbs⟩ := hserial.cipherTexts (List.replicate 5 k.publicKey.getEmptyCipherText)
  have hwrite : platform.streams.writeBase64 (.cipherTexts
      (List.replicate 5 (some k.publicKey.toObject.getEmptyCipherText)))
        = .ok (Base64.encode bs) := by
    rw [List.map_replicate] at hbs
    exact congrArg (Except.map Base64.encode) hbs
  refine ⟨⟨name, key, Base64.encode bs⟩, ⟨hname, _, hread, hwrite⟩, rfl, ?_,
    apply_create htx ⟨hname.ne_nil, hname.bar, Or.inr rfl⟩ rfl hnil hread hwrite⟩
  rw [ObjectStreams.readCipherTexts, platform.streams.readBase64_of_writeBase64 hwrite,
    getEmptyCipherText_toObject]

/-- **The count is right exactly when there are no votes.** -/
theorem countsVotes_iff (hk : k.Valid p q) (hserial : Serializes platform.streams)
    (hname : PlainName name) (hcreate : IsCreate platform k.publicKey name createRequest)
    (hbefore : ∀ r ∈ before, IsOnOther platform name r)
    (hcasts : ∀ c ∈ casts, c.Honest platform k.publicKey name)
    (hdistinct : AddressOwn platform (before ++ createRequest :: casts.map Cast.request) name) :
    CountsVotes platform k name before createRequest casts ↔ Cast.votes casts = [] := by
  refine ⟨votes_nil_of_countsVotes hname hcasts, fun hvotes => ?_⟩
  have hothers : ∀ c ∈ casts, ∃ request, c = .other request := by
    rintro (⟨request, plaintexts⟩ | request) hc
    · have := List.filterMap_eq_nil_iff.mp hvotes _ hc
      simp at this
    · exact ⟨request, rfl⟩
  have hempty : (applyAll platform Context.empty before).data
      (makeElectionAddress platform name) = [] :=
    data_run_other registry_empty hbefore fun r hr => hdistinct r (by simp [hr])
  obtain ⟨r, hr, rfl, hread, happly⟩ := apply_of_isCreate hserial hname hcreate hempty
  have hreg : Registry platform (apply platform createRequest
      (applyAll platform Context.empty before)).2 := registry_step (registry_reachable before)
  -- the casts name other elections, so what `create` has written is still there
  have hdata : (stateAfter platform before createRequest casts).data
      (makeElectionAddress platform r.electionName) = platform.utf8.copyFromUtf8 r.csv := by
    rw [stateAfter, applyAll_append, applyAll_cons, data_run_other hreg, happly,
      Context.put_data_self]
    · intro request hrequest
      obtain ⟨c, hc, rfl⟩ := List.mem_map.mp hrequest
      obtain ⟨request, rfl⟩ := hothers c hc
      exact hcasts _ hc
    · exact fun request hrequest => hdistinct request (by simp [hrequest])
  have hrecord : storedRecord platform (stateAfter platform before createRequest casts)
      r.electionName = r := by
    rw [storedRecord, readEntry, Context.getState, hdata, Utf8.toStringUtf8_copyFromUtf8,
      getStateData_csv hr.plain hname.comma, if_pos (List.prefix_refl _)]
  refine ⟨by rw [happly], ?_, ?_⟩
  · rintro first request plaintexts rest hsplit
    obtain ⟨_, hvote⟩ := hothers (.vote request plaintexts) (by simp [hsplit])
    simp at hvote
  · refine ⟨r.pubKey, by simp [hrecord], List.replicate 5 1, rfl, hread, ?_⟩
    intro i text htext
    obtain rfl : text = 1 := List.eq_of_mem_replicate (List.mem_of_getElem? htext)
    rw [hvotes]
    exact hk.decrypt_one

end Count

/-! ### A run of the reference platform -/

theorem reference_serializes : Serializes Platform.reference.streams :=
  ⟨fun _ => ⟨_, rfl⟩, fun _ => ⟨_, rfl⟩⟩

theorem carries_reference (name action third : JString) :
    Carries .reference (referenceRequest name action third) name action third :=
  Utf8.toStringUtf8_copyFromUtf8 ..

theorem isCreate_reference (name : JString) :
    IsCreate .reference KeyPair.reference.publicKey name (createReference name) :=
  ⟨_, writeBase64_reference _, carries_reference ..⟩

theorem plainName_mayor : PlainName "mayor".toList :=
  ⟨⟨by decide, by decide⟩, by decide⟩

theorem countsVotes_reference : CountsVotes .reference KeyPair.reference "mayor".toList
    [createReference "council".toList] (createReference "mayor".toList)
    [.other (createReference "council".toList)] := by
  have hcouncil : getUnpackedTransaction .reference (createReference "council".toList)
      = .ok ⟨"council".toList, "create".toList, _⟩ :=
    getUnpackedTransaction_reference (by decide) (by decide) _
  have hother : IsOnOther .reference "mayor".toList (createReference "council".toList) := by
    intro tx htx
    rw [hcouncil, Except.ok.injEq] at htx
    rw [← htx]
    decide
  refine (countsVotes_iff reference_valid reference_serializes plainName_mayor
    (isCreate_reference _) (by simpa using hother) (by simpa [Cast.Honest] using hother) ?_).mpr rfl
  intro request hrequest tx htx haddr
  have hcases : request = createReference "council".toList
      ∨ request = createReference "mayor".toList := by
    simp only [Cast.request, List.map_cons, List.map_nil, List.cons_append, List.nil_append,
      List.mem_cons, List.not_mem_nil, or_false] at hrequest
    rcases hrequest with h | h | h
    · exact Or.inl h
    · exact Or.inr h
    · exact Or.inl h
  rcases hcases with rfl | rfl
  · rw [hcouncil, Except.ok.injEq] at htx
    rw [← htx] at haddr
    exact absurd haddr (by decide +kernel)
  · rw [createReference, getUnpackedTransaction_reference (by decide) (by decide),
      Except.ok.injEq] at htx
    rw [← htx]

/-- Five encryptions, of one and of four zeros, drawn with 2. -/
def referenceBallot : List PaillierCipherText :=
  [⟨648, KeyPair.reference.publicKey⟩, ⟨18, KeyPair.reference.publicKey⟩,
    ⟨18, KeyPair.reference.publicKey⟩, ⟨18, KeyPair.reference.publicKey⟩,
    ⟨18, KeyPair.reference.publicKey⟩]

/-- The vote that carries them. -/
def voteReference (name : JString) : TpProcessRequest :=
  referenceRequest name "vote".toList
    (referenceText (.cipherTexts (referenceBallot.map fun c => some c.toObject)))

theorem isVote_reference (name : JString) :
    IsVote .reference KeyPair.reference.publicKey name (voteReference name) [1, 0, 0, 0, 0] := by
  refine ⟨rfl, referenceBallot, _, ?_, writeBase64_reference _, carries_reference ..⟩
  simp only [referenceBallot, List.forall₂_cons, List.forall₂_nil_left_iff, and_true]
  refine ⟨⟨[2], ?_⟩, ⟨[2], ?_⟩, ⟨[2], ?_⟩, ⟨[2], ?_⟩, ⟨[2], ?_⟩⟩ <;> decide

/-- One honest vote after the `create`, and the election is not counted. -/
theorem not_countsVotes_of_one_vote :
    IsCreate .reference KeyPair.reference.publicKey "mayor".toList
        (createReference "mayor".toList) ∧
      IsVote .reference KeyPair.reference.publicKey "mayor".toList
        (voteReference "mayor".toList) [1, 0, 0, 0, 0] ∧
      ¬CountsVotes .reference KeyPair.reference "mayor".toList [] (createReference "mayor".toList)
        [.vote (voteReference "mayor".toList) [1, 0, 0, 0, 0]] := by
  refine ⟨isCreate_reference _, isVote_reference _, fun h => ?_⟩
  have hvotes := votes_nil_of_countsVotes plainName_mayor
    (by simpa [Cast.Honest] using isVote_reference "mayor".toList) h
  simp [Cast.votes] at hvotes

end Evoting

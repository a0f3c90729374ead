/-
Transactions of different addresses in any order.

The three handlers read and write one address for each transaction: that of the name it
carries, or none when the payload is refused.  So they are `Footprint.Local`, and two
orders of the same transactions that agree at each address leave the validator in one
state and give each transaction one answer, wherever the refused ones come.  Nothing is
assumed of the state, which may hold what no handler has written, and names may share
addresses.
-/
import Evoting.Lib.Footprint
import Evoting.Lib.Decimal
import Evoting.Model.XoHandler
import Evoting.Proofs.Count
import Evoting.Proofs.IntKey

namespace Evoting

open Footprint

theorem Context.ext_data {context context' : Context}
    (h : ∀ address, context.data address = context'.data address) : context = context' := by
  cases context
  cases context'
  exact congrArg Context.mk (funext h)

/-- What a transaction that reads and writes one address makes of the entry there. -/
theorem Context.put_congr {context context' : Context} {address : Address}
    (value : ByteString) (a : Address) (h : context.data a = context'.data a) :
    (context.put address value).data a = (context'.put address value).data a := by
  by_cases ha : a = address
  · rw [ha, put_data_self, put_data_self]
  · rw [put_data_of_ne _ _ ha, put_data_of_ne _ _ ha, h]

/-! ### Elections -/

section Elections

variable {platform : Platform}

/-- The address of the election that a request is about. -/
def addressOf (platform : Platform) (request : TpProcessRequest) : Option Address :=
  match getUnpackedTransaction platform request with
  | .ok transactionData => some (makeElectionAddress platform transactionData.electionName)
  | .error _ => none

theorem storeElectionData_local {utf8 : Utf8} {address : Address} {gameData : ElectionData}
    {stateEntry : JString} (context context' : Context) :
    (storeElectionData utf8 address gameData stateEntry context).1
      = (storeElectionData utf8 address gameData stateEntry context').1 ∧
    ∀ a, context.data a = context'.data a →
      (storeElectionData utf8 address gameData stateEntry context).2.data a
        = (storeElectionData utf8 address gameData stateEntry context').2.data a := by
  rw [storeElectionData_eq, storeElectionData_eq]
  cases updatedEntry gameData stateEntry with
  | error e => exact ⟨rfl, fun _ h => h⟩
  | ok entry => exact ⟨rfl, fun a h => Context.put_congr _ a h⟩

theorem storeElectionData_frame {utf8 : Utf8} {address a : Address} {gameData : ElectionData}
    {stateEntry : JString} (context : Context) (ha : a ≠ address) :
    (storeElectionData utf8 address gameData stateEntry context).2.data a = context.data a := by
  rw [storeElectionData_eq]
  cases updatedEntry gameData stateEntry with
  | error e => rfl
  | ok entry => exact Context.put_data_of_ne _ _ ha

/-- What is computed before the store depends on the entry at the address alone. -/
theorem prepare_congr {request : TpProcessRequest} {context context' : Context}
    (h : Footprint.Agree Context.data (addressOf platform request) context context') :
    prepare platform request context = prepare platform request context' := by
  unfold prepare
  cases htx : getUnpackedTransaction platform request with
  | error e => rfl
  | ok tx =>
      have hentry : readEntry platform context (makeElectionAddress platform tx.electionName)
          = readEntry platform context' (makeElectionAddress platform tx.electionName) := by
        rw [addressOf, htx, agree_some_iff] at h
        rw [readEntry, readEntry, Context.getState, Context.getState, h]
      simp only [ok_bind, hentry]

/-- A transaction that is stored is stored at its address. -/
theorem addressOf_of_prepare {request : TpProcessRequest} {context : Context}
    {tx : TransactionData} {updated : ElectionData}
    (h : prepare platform request context = .ok (tx, updated)) :
    addressOf platform request = some (makeElectionAddress platform tx.electionName) := by
  obtain ⟨htx, -⟩ := prepare_ok h
  rw [addressOf, htx]

theorem election_local : Local (fun context request => apply platform request context)
    Context.data (addressOf platform) where
  answer context context' request h := by
    rw [apply, apply, prepare_congr h]
    cases hprepare : prepare platform request context' with
    | error e => rfl
    | ok result =>
        rw [addressOf_of_prepare hprepare, agree_some_iff] at h
        dsimp only
        rw [readEntry, readEntry, Context.getState, Context.getState, h]
        exact (storeElectionData_local context context').1
  effect context context' request h := by
    rw [apply, apply, prepare_congr h]
    cases hprepare : prepare platform request context' with
    | error e => exact h
    | ok result =>
        rw [addressOf_of_prepare hprepare, agree_some_iff] at h
        rw [addressOf_of_prepare hprepare, agree_some_iff]
        dsimp only
        rw [readEntry, readEntry, Context.getState, Context.getState, h]
        exact (storeElectionData_local context context').2 _ h
  frame context request a ha := by
    rw [apply]
    cases hprepare : prepare platform request context with
    | error e => rfl
    | ok result =>
        rw [addressOf_of_prepare hprepare] at ha
        exact storeElectionData_frame context fun heq => ha (by rw [heq])

variable (platform) in
/-- **Elections in any order.**  Runs of the election handler over the same transactions, those of
each address in the same order, leave the same state and give each transaction the same result. -/
theorem election_schedules {requests requests' : List TpProcessRequest}
    (h : SameOrder (addressOf platform) requests requests') (context : Context) :
    SameOutcome (fun context request => apply platform request context) (addressOf platform)
      context requests requests' :=
  election_local.sameOutcome (fun _ _ => Context.ext_data) h context

/-- Two elections are created in either order, and one of them again. -/
theorem election_schedules_swap :
    SameOutcome (fun context request => apply .reference request context) (addressOf .reference)
      Context.empty ([] ++ createReference "mayor".toList :: createReference "council".toList ::
        [createReference "mayor".toList])
      ([] ++ createReference "council".toList :: createReference "mayor".toList ::
        [createReference "mayor".toList]) :=
  election_schedules .reference (sameOrder_swap (by decide +kernel) _ _) Context.empty

end Elections

/-! ### Integers -/

namespace IntegerKeyHandler

section Integers

variable {cbor : CborLibrary} {digits : CharacterDigits} {makeAddress : JString → Address}

/-- The address of the integer that a payload is about. -/
def addressOf (cbor : CborLibrary) (digits : CharacterDigits) (makeAddress : JString → Address)
    (payload : ByteString) : Option Address :=
  match readUpdate cbor digits payload with
  | .ok update => some (makeAddress update.name)
  | .error _ => none

theorem intkey_local :
    Local (apply cbor digits makeAddress) Context.data (addressOf cbor digits makeAddress) where
  answer context context' payload h := by
    unfold addressOf at h
    unfold apply
    cases hread : readUpdate cbor digits payload with
    | error e => rfl
    | ok update =>
        rw [hread, agree_some_iff] at h
        dsimp only
        rw [Context.getState, Context.getState, h]
        cases newValue cbor digits (context'.data (makeAddress update.name)) update <;> rfl
  effect context context' payload h := by
    unfold addressOf at h ⊢
    unfold apply
    cases hread : readUpdate cbor digits payload with
    | error e => simp [Footprint.Agree]
    | ok update =>
        rw [hread, agree_some_iff] at h
        rw [agree_some_iff]
        dsimp only
        rw [Context.getState, Context.getState, h]
        cases newValue cbor digits (context'.data (makeAddress update.name)) update with
        | error e => exact h
        | ok value => exact Context.put_congr _ _ h
  frame context payload a ha := by
    unfold addressOf at ha
    unfold apply
    cases hread : readUpdate cbor digits payload with
    | error e => rfl
    | ok update =>
        rw [hread] at ha
        dsimp only
        cases newValue cbor digits (context.getState (makeAddress update.name)) update with
        | error e => rfl
        | ok value => exact Context.put_data_of_ne _ _ fun heq => ha (by rw [heq]; rfl)

variable (cbor digits makeAddress) in
/-- **Integers in any order.** -/
theorem intkey_schedules {payloads payloads' : List ByteString}
    (h : SameOrder (addressOf cbor digits makeAddress) payloads payloads') (context : Context) :
    SameOutcome (apply cbor digits makeAddress) (addressOf cbor digits makeAddress) context
      payloads payloads' :=
  intkey_local.sameOutcome (fun _ _ => Context.ext_data) h context

theorem intkey_schedules_swap :
    SameOutcome (apply .standard .ascii id) (addressOf .standard .ascii id) .empty
      ([] ++ setPayload "foo" 20 :: setPayload "bar" 26 :: [setPayload "foo" 7])
      ([] ++ setPayload "bar" 26 :: setPayload "foo" 20 :: [setPayload "foo" 7]) :=
  intkey_schedules .standard .ascii id (sameOrder_swap (by decide +kernel) _ _) .empty

end Integers

end IntegerKeyHandler

/-! ### Games -/

section Games

variable {utf8 : PyUtf8} {makeXoAddress : PyString → PyString} {gameName : PyString}

theorem PyContext.ext_data {context context' : PyContext}
    (h : ∀ address, context.data address = context'.data address) : context = context' := by
  cases context
  cases context'
  exact congrArg PyContext.mk (funext h)

namespace XoState

/-- Two states that hold the same at an address, and have read and written the same. -/
structure SameAt (address : PyString) (s t : XoState) : Prop where
  data : s.context.data address = t.context.data address
  cache : s.addressCache = t.addressCache

/-- A call that reads and writes no address but one. -/
structure Touches {α : Type} (address : PyString)
    (f : XoState → Except PyException α × XoState) : Prop where
  result : ∀ {s t}, SameAt address s t → (f s).1 = (f t).1
  state : ∀ {s t}, SameAt address s t → SameAt address (f s).2 (f t).2
  frame : ∀ s {a}, a ≠ address → (f s).2.context.data a = s.context.data a

/-- A call, and another unless it has raised something. -/
def andThen {α β : Type} (f : XoState → Except PyException α × XoState)
    (g : α → XoState → Except PyException β × XoState) (s : XoState) :
    Except PyException β × XoState :=
  match f s with
  | (.error e, s) => (.error e, s)
  | (.ok a, s) => g a s

section Touches

variable {α β : Type} {address : PyString}

theorem Touches.answer (result : Except PyException α) : Touches address fun s => (result, s) where
  result _ := rfl
  state h := h
  frame _ _ _ := rfl

/-- **One call after the other.** -/
theorem Touches.andThen {f : XoState → Except PyException α × XoState}
    {g : α → XoState → Except PyException β × XoState} (hf : Touches address f)
    (hg : ∀ a, Touches address (g a)) : Touches address (XoState.andThen f g) where
  result {s t} h := by
    have hresult := hf.result h
    have hstate := hf.state h
    unfold XoState.andThen
    cases hs : f s with | mk result s' =>
    cases ht : f t with | mk result' t' =>
    rw [hs, ht] at hresult hstate
    obtain rfl : result = result' := hresult
    cases result with
    | error e => rfl
    | ok a => exact (hg a).result hstate
  state {s t} h := by
    have hresult := hf.result h
    have hstate := hf.state h
    unfold XoState.andThen
    cases hs : f s with | mk result s' =>
    cases ht : f t with | mk result' t' =>
    rw [hs, ht] at hresult hstate
    obtain rfl : result = result' := hresult
    cases result with
    | error e => exact hstate
    | ok a => exact (hg a).state hstate
  frame s a ha := by
    have hframe := hf.frame s ha
    unfold XoState.andThen
    cases hs : f s with | mk result s' =>
    rw [hs] at hframe
    cases result with
    | error e => exact hframe
    | ok v => exact ((hg v).frame s' ha).trans hframe

theorem Touches.of_eq {f g : XoState → Except PyException α × XoState} (hg : Touches address g)
    (heq : ∀ s, f s = g s) : Touches address f := by
  obtain rfl : f = g := funext heq
  exact hg

theorem Touches.ite {p : Prop} [Decidable p] {f g : XoState → Except PyException α × XoState}
    (hf : Touches address f) (hg : Touches address g) :
    Touches address fun s => if p then f s else g s := by
  by_cases hp : p
  · simpa only [hp, if_true] using hf
  · simpa only [hp, if_false] using hg

end Touches

variable (utf8) in
theorem touches_storeGame (games : Dict PyString Game) : Touches (makeXoAddress gameName)
    fun s =>
      ((.ok () : Except PyException Unit), storeGame utf8 makeXoAddress s gameName games) where
  result _ := rfl
  state h := ⟨by simp [storeGame, PyContext.setState], by rw [storeGame, storeGame, h.cache]⟩
  frame s a ha := by simp [storeGame, PyContext.setState, ha]

theorem touches_deleteStored : Touches (makeXoAddress gameName)
    fun s => ((.ok () : Except PyException Unit), deleteStored makeXoAddress s gameName) where
  result _ := rfl
  state h := ⟨by simp [deleteStored, PyContext.deleteState],
    by rw [deleteStored, deleteStored, h.cache]⟩
  frame s a ha := by simp [deleteStored, PyContext.deleteState, ha]

/-- What is loaded, from the cache or from what validator state holds at the address. -/
theorem loadGames_eq (s : XoState) : loadGames utf8 makeXoAddress s gameName =
    match s.addressCache.get? (makeXoAddress gameName),
        s.context.getState [makeXoAddress gameName] with
    | some none, _ => (.ok Dict.empty, s)
    | some (some serializedGames), _ =>
        (if serializedGames ≠ [] then deserialize utf8 serializedGames else .ok Dict.empty, s)
    | none, entry :: _ => (deserialize utf8 entry.2,
        { s with addressCache := s.addressCache.set (makeXoAddress gameName) (some entry.2) })
    | none, [] => (.ok Dict.empty,
        { s with addressCache := s.addressCache.set (makeXoAddress gameName) none }) := by
  unfold loadGames
  dsimp only
  rcases s.addressCache.get? (makeXoAddress gameName) with _ | _ | serializedGames
  · rcases s.context.getState [makeXoAddress gameName] with _ | ⟨entry, _⟩ <;> rfl
  · rfl
  · by_cases hne : serializedGames = []
    · simp [hne]
    · simp [hne]

variable (utf8) in
theorem touches_loadGames : Touches (makeXoAddress gameName)
    fun s => loadGames utf8 makeXoAddress s gameName where
  result {s t} h := by
    have hread : s.context.getState [makeXoAddress gameName]
        = t.context.getState [makeXoAddress gameName] := by simp [PyContext.getState, h.data]
    rw [loadGames_eq, loadGames_eq, ← h.cache, ← hread]
    split <;> rfl
  state {s t} h := by
    have hread : s.context.getState [makeXoAddress gameName]
        = t.context.getState [makeXoAddress gameName] := by simp [PyContext.getState, h.data]
    rw [loadGames_eq, loadGames_eq, ← h.cache, ← hread]
    split
    · exact h
    · exact h
    · exact ⟨h.data, rfl⟩
    · exact ⟨h.data, rfl⟩
  frame s a _ := by
    rw [loadGames_eq]
    split <;> rfl

variable (utf8) in
theorem touches_getGame : Touches (makeXoAddress gameName)
    fun s => getGame utf8 makeXoAddress s gameName := by
  refine ((touches_loadGames utf8).andThen fun games =>
    .answer (.ok (games.get? gameName))).of_eq ?_
  intro s
  unfold getGame andThen
  dsimp only
  rcases loadGames utf8 makeXoAddress s gameName with ⟨e | games, s'⟩ <;> rfl

theorem touches_setGame (game : Game) : Touches (makeXoAddress gameName)
    fun s => setGame utf8 makeXoAddress s gameName game := by
  refine ((touches_loadGames utf8).andThen fun games =>
    touches_storeGame utf8 (games.set gameName game)).of_eq ?_
  intro s
  unfold setGame andThen
  dsimp only
  rcases loadGames utf8 makeXoAddress s gameName with ⟨e | games, s'⟩ <;> rfl

theorem touches_deleteGame : Touches (makeXoAddress gameName)
    fun s => deleteGame utf8 makeXoAddress s gameName := by
  refine ((touches_loadGames utf8).andThen fun games =>
    Touches.ite (p := games.get? gameName = none) (.answer (.error .keyError))
      (Touches.ite (p := (games.erase gameName).entries ≠ [])
        (touches_storeGame utf8 (games.erase gameName)) touches_deleteStored)).of_eq ?_
  intro s
  unfold deleteGame andThen
  dsimp only
  rcases loadGames utf8 makeXoAddress s gameName with ⟨e | games, s'⟩ <;> rfl

end XoState

namespace Xo

open XoState

theorem touches_applyDelete : Touches (makeXoAddress gameName)
    fun s => applyDelete utf8 makeXoAddress s gameName := by
  have hfound : ∀ game : Option Game, Touches (makeXoAddress gameName) fun s =>
      match game with
      | none => (.error (.invalidTransaction "Invalid action: game does not exist"), s)
      | some _ => s.deleteGame utf8 makeXoAddress gameName := by
    intro game
    cases game with
    | none => exact .answer _
    | some _ => exact touches_deleteGame
  refine ((touches_getGame utf8).andThen hfound).of_eq fun s => ?_
  unfold applyDelete andThen
  dsimp only
  rcases s.getGame utf8 makeXoAddress gameName with ⟨e | _ | game, s'⟩ <;> rfl

theorem touches_applyCreate : Touches (makeXoAddress gameName)
    fun s => applyCreate utf8 makeXoAddress s gameName := by
  have hfound : ∀ game : Option Game, Touches (makeXoAddress gameName) fun s =>
      match game with
      | some _ => (.error (.invalidTransaction
          ("Invalid action: Game already exists: " ++ String.ofList gameName)), s)
      | none => s.setGame utf8 makeXoAddress gameName (created gameName) := by
    intro game
    cases game with
    | none => exact touches_setGame _
    | some _ => exact .answer _
  refine ((touches_getGame utf8).andThen hfound).of_eq fun s => ?_
  unfold applyCreate andThen
  dsimp only
  rcases s.getGame utf8 makeXoAddress gameName with ⟨e | _ | game, s'⟩ <;> rfl

/-- What a "take" does once the move has been tried. -/
theorem touches_storeTaken (taken : Except PyException Game) : Touches (makeXoAddress gameName)
    fun s => match taken with
      | .error e => (.error e, s)
      | .ok game => andThen (fun s => s.setGame utf8 makeXoAddress gameName game)
          (fun _ s => (gameDataToStr game.board, s)) s := by
  cases taken with
  | error e => exact .answer _
  | ok game => exact (touches_setGame game).andThen fun _ => .answer _

variable (utf8) in
/-- What a "take" does with the game that it has read. -/
theorem touches_takeFound (space : Int) (signer : PyString) (game : Option Game) :
    Touches (makeXoAddress gameName) fun s => match game with
      | none => (.error (.invalidTransaction "Invalid action: Take requires an existing game"), s)
      | some game =>
          match take game space signer with
          | .error e => (.error e, s)
          | .ok game => andThen (fun s => s.setGame utf8 makeXoAddress gameName game)
              (fun _ s => (gameDataToStr game.board, s)) s := by
  cases game with
  | none => exact .answer _
  | some game => exact touches_storeTaken (take game space signer)

theorem touches_applyTake (space : Int) (signer : PyString) : Touches (makeXoAddress gameName)
    fun s => applyTake utf8 makeXoAddress s gameName space signer := by
  refine ((touches_getGame utf8).andThen (touches_takeFound utf8 space signer)).of_eq fun s => ?_
  unfold applyTake andThen
  dsimp only
  rcases s.getGame utf8 makeXoAddress gameName with ⟨e | _ | game, s'⟩
  · rfl
  · rfl
  · dsimp only
    cases take game space signer with
    | error e => rfl
    | ok taken =>
        dsimp only
        rcases s'.setGame utf8 makeXoAddress gameName taken with ⟨e | _, s''⟩ <;> rfl

/-- **A transaction touches the address of the game it names.** -/
theorem touches_applyPayload (payload : XoPayload) (signer : PyString) :
    Touches (makeXoAddress payload.name)
      fun s => applyPayload utf8 makeXoAddress s payload signer :=
  .ite touches_applyDelete (.ite touches_applyCreate
    (.ite (touches_applyTake payload.space signer) (.answer _)))

variable {int : PyString → Option Int}

/-- The address of the game that a transaction names. -/
def addressOf (utf8 : PyUtf8) (int : PyString → Option Int) (makeXoAddress : PyString → PyString)
    (transaction : Transaction) : Option PyString :=
  match XoPayload.fromBytes utf8 int transaction.payload with
  | .ok payload => some (makeXoAddress payload.name)
  | .error _ => none

theorem xo_local :
    Local (apply utf8 int makeXoAddress) PyContext.data (addressOf utf8 int makeXoAddress) where
  answer context context' transaction h := by
    unfold addressOf at h
    unfold apply
    cases hpayload : XoPayload.fromBytes utf8 int transaction.payload with
    | error e => rfl
    | ok payload =>
        rw [hpayload, agree_some_iff] at h
        have hsame : SameAt (makeXoAddress payload.name) (.new context) (.new context') := ⟨h, rfl⟩
        exact (touches_applyPayload payload transaction.signerPublicKey).result hsame
  effect context context' transaction h := by
    unfold addressOf at h ⊢
    unfold apply
    cases hpayload : XoPayload.fromBytes utf8 int transaction.payload with
    | error e => simp [Footprint.Agree]
    | ok payload =>
        rw [hpayload, agree_some_iff] at h
        rw [agree_some_iff]
        have hsame : SameAt (makeXoAddress payload.name) (.new context) (.new context') := ⟨h, rfl⟩
        exact ((touches_applyPayload payload transaction.signerPublicKey).state hsame).data
  frame context transaction a ha := by
    unfold addressOf at ha
    unfold apply
    cases hpayload : XoPayload.fromBytes utf8 int transaction.payload with
    | error e => rfl
    | ok payload =>
        rw [hpayload] at ha
        exact (touches_applyPayload payload transaction.signerPublicKey).frame (XoState.new context)
          fun heq => ha (by rw [heq])

variable (utf8 int makeXoAddress) in
/-- **Games in any order.** -/
theorem xo_schedules {transactions transactions' : List Transaction}
    (h : SameOrder (addressOf utf8 int makeXoAddress) transactions transactions')
    (context : PyContext) :
    SameOutcome (apply utf8 int makeXoAddress) (addressOf utf8 int makeXoAddress) context
      transactions transactions' :=
  xo_local.sameOutcome (fun _ _ => PyContext.ext_data) h context

/-- Two games are created in either order, and a square is taken in one of them. -/
theorem xo_schedules_swap :
    SameOutcome (apply .standard Decimal.parse id) (addressOf .standard Decimal.parse id) .empty
      ([] ++ ⟨PyUtf8.standard.encode "g,create,".toList, "alice".toList⟩ ::
        ⟨PyUtf8.standard.encode "h,create,".toList, "bob".toList⟩ ::
        [⟨PyUtf8.standard.encode "g,take,5".toList, "alice".toList⟩])
      ([] ++ ⟨PyUtf8.standard.encode "h,create,".toList, "bob".toList⟩ ::
        ⟨PyUtf8.standard.encode "g,create,".toList, "alice".toList⟩ ::
        [⟨PyUtf8.standard.encode "g,take,5".toList, "alice".toList⟩]) :=
  xo_schedules .standard id Decimal.parse (sameOrder_swap (by decide +kernel) _ _) .empty

end Xo

end Games

end Evoting

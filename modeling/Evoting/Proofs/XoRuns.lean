/-
Runs of XO transactions.

`Play` is the game as its players see it: on a dictionary of games, a transaction
creates a game, deletes one, or marks a free square of one.  `apply_settles` shows
that this is what `apply` does in validator state, unless it refuses an invalid
transaction and leaves the games alone.  A run from the empty state is then a run of
plays, and what one play keeps of the games (`GamesOk.play`, `Play.extends`) the run
keeps.
-/
import Evoting.Lib.Decimal
import Evoting.Proofs.XoGame

namespace Evoting.Xo

open Machine XoState

/-! ### Playing on a dictionary -/

/-- Every game of a dictionary is as games are stored. -/
def GamesOk (d : Dict PyString Game) : Prop := ∀ name game, d.get? name = some game → GameOk game

/-- **What a transaction does to the games.** -/
inductive Play (signer : PyString) (d : Dict PyString Game) : Dict PyString Game → Prop
  | create {name : PyString} (habsent : d.get? name = none) :
      Play signer d (d.set name (created name))
  | take {name : PyString} {game : Game} {i : Nat} {mark : Char} {state : PyString}
      (hgame : d.get? name = some game) (hfree : game.board[i]? = some '-')
      (hmark : mark = 'X' ∨ mark = 'O') (hfits : StateFits (game.board.set i mark) state) :
      Play signer d (d.set name (marked game i mark state signer))
  | delete (name : PyString) : Play signer d (d.erase name)

section Play

variable {signer : PyString} {d d' : Dict PyString Game}

/-- **A game after a play** was there before, has just been created, or has one mark more. -/
theorem Play.get?_cases (hplay : Play signer d d') {name : PyString} {game' : Game}
    (hafter : d'.get? name = some game') :
    d.get? name = some game' ∨ (d.get? name = none ∧ game' = created name) ∨
      ∃ game i mark state, d.get? name = some game ∧ game.board[i]? = some '-' ∧
        (mark = 'X' ∨ mark = 'O') ∧ StateFits (game.board.set i mark) state ∧
        game' = marked game i mark state signer := by
  cases hplay with
  | @create played habsent =>
      rw [Dict.get?_set] at hafter
      by_cases hname : played = name
      · rw [if_pos hname, Option.some.injEq] at hafter
        rw [← hname]
        exact Or.inr (Or.inl ⟨habsent, hafter.symm⟩)
      · rw [if_neg hname] at hafter
        exact Or.inl hafter
  | @take played game i mark state hgame hfree hmark hfits =>
      rw [Dict.get?_set] at hafter
      by_cases hname : played = name
      · rw [if_pos hname, Option.some.injEq] at hafter
        rw [← hname]
        exact Or.inr (Or.inr ⟨game, i, mark, state, hgame, hfree, hmark, hfits, hafter.symm⟩)
      · rw [if_neg hname] at hafter
        exact Or.inl hafter
  | delete played =>
      rw [Dict.get?_erase] at hafter
      by_cases hname : played = name
      · simp [hname] at hafter
      · rw [if_neg hname] at hafter
        exact Or.inl hafter

/-- **A play keeps the games as they are stored.** -/
theorem GamesOk.play (h : GamesOk d) (hsigner : signer ≠ []) (hplay : Play signer d d') :
    GamesOk d' := by
  intro name game' hafter
  rcases hplay.get?_cases hafter with
    hsame | ⟨-, rfl⟩ | ⟨game, i, mark, state, hgame, hfree, hmark, hfits, rfl⟩
  · exact h name game' hsame
  · exact gameOk_created name
  · exact (h name game hgame).marked hfree hmark hsigner hfits

/-- **A play keeps the marks and players** of a game that is there before and after. -/
theorem Play.extends (hplay : Play signer d d') {name : PyString} {game game' : Game}
    (hbefore : d.get? name = some game) (hafter : d'.get? name = some game') :
    Extends game game' := by
  rcases hplay.get?_cases hafter with
    hsame | ⟨habsent, -⟩ | ⟨old, i, mark, state, hold, hfree, -, -, rfl⟩
  · obtain rfl := Option.some.inj (hbefore.symm.trans hsame)
    exact Extends.refl game
  · rw [hbefore] at habsent
    exact absurd habsent (by simp)
  · obtain rfl := Option.some.inj (hbefore.symm.trans hold)
    exact extends_marked hfree mark state signer

end Play

variable (utf8 : PyUtf8) (int : PyString → Option Int) (makeXoAddress : PyString → PyString)

/-! ### Payloads -/

/-- What a payload that is read has been checked for. -/
structure PayloadOk (payload : XoPayload) : Prop where
  name : NoSeparator payload.name
  action : payload.action ∈ ["create".toList, "take".toList, "delete".toList]
  space : payload.action = "take".toList → 1 ≤ payload.space ∧ payload.space < 10

/-- A payload is refused or has passed the checks. -/
theorem fromBytes_cases (payload : PyBytes) :
    (∃ message, XoPayload.fromBytes utf8 int payload = .error (.invalidTransaction message)) ∨
      ∃ p, XoPayload.fromBytes utf8 int payload = .ok p ∧ PayloadOk p := by
  unfold XoPayload.fromBytes
  cases utf8.decode payload with
  | none => exact Or.inl ⟨_, rfl⟩
  | some text =>
      dsimp only
      split
      · rename_i name action space hsplit
        have hmem : name ∈ pySplit ',' text := by
          rw [hsplit]
          simp
        have hcomma : ',' ∉ name := Fields.not_mem_of_mem_splitOn hmem
        by_cases hname : name = []
        · exact Or.inl ⟨_, if_pos hname⟩
        rw [if_neg hname]
        by_cases hbar : '|' ∈ name
        · exact Or.inl ⟨_, if_pos hbar⟩
        rw [if_neg hbar]
        by_cases hempty : action = []
        · exact Or.inl ⟨_, if_pos hempty⟩
        rw [if_neg hempty]
        by_cases haction : action ∉ ["create".toList, "take".toList, "delete".toList]
        · exact Or.inl ⟨_, if_pos haction⟩
        rw [if_neg haction]
        rw [not_not] at haction
        by_cases htake : action = "take".toList
        · rw [if_pos htake]
          cases int space with
          | none => exact Or.inl ⟨_, rfl⟩
          | some space =>
              by_cases hspace : 1 ≤ space ∧ space < 10
              · exact Or.inr ⟨_, if_pos hspace, ⟨hcomma, hbar⟩, haction, fun _ => hspace⟩
              · exact Or.inl ⟨_, if_neg hspace⟩
        · rw [if_neg htake]
          exact Or.inr ⟨_, rfl, ⟨hcomma, hbar⟩, haction, fun h => absurd h htake⟩
      · exact Or.inl ⟨_, rfl⟩

/-! ### Transactions -/

variable {utf8 int makeXoAddress}

/-- A transaction is refused as invalid and leaves the games alone, or plays. -/
def Settles (utf8 : PyUtf8) (makeXoAddress : PyString → PyString) (signer : PyString)
    (d : Dict PyString Game) (outcome : Except PyException Unit × XoState) : Prop :=
  ((∃ message, outcome.1 = .error (.invalidTransaction message)) ∧
      Refines utf8 makeXoAddress outcome.2 d) ∨
    outcome.1 = .ok () ∧ ∃ d', Play signer d d' ∧ Refines utf8 makeXoAddress outcome.2 d'

theorem noSeparator_nil : NoSeparator [] := by
  simp [NoSeparator]

section Settles

variable {s : XoState} {d : Dict PyString Game} {signer name : PyString}

theorem applyDelete_settles (h : Refines utf8 makeXoAddress s d) :
    Settles utf8 makeXoAddress signer d (applyDelete utf8 makeXoAddress s name) := by
  obtain ⟨s₁, hget, h₁⟩ := getGame_refines h name
  unfold applyDelete
  rw [hget]
  cases hgame : d.get? name with
  | none => exact Or.inl ⟨⟨_, rfl⟩, h₁⟩
  | some game =>
      obtain ⟨s₂, hdelete, h₂⟩ := deleteGame_refines h₁ name
      have hpresent : d.get? name ≠ none := by simp [hgame]
      rw [if_neg hpresent] at hdelete h₂
      dsimp only
      rw [hdelete]
      exact Or.inr ⟨rfl, _, Play.delete name, h₂⟩

theorem applyCreate_settles (h : Refines utf8 makeXoAddress s d) (hname : NoSeparator name) :
    Settles utf8 makeXoAddress signer d (applyCreate utf8 makeXoAddress s name) := by
  obtain ⟨s₁, hget, h₁⟩ := getGame_refines h name
  unfold applyCreate
  rw [hget]
  cases hgame : d.get? name with
  | some game => exact Or.inl ⟨⟨_, rfl⟩, h₁⟩
  | none =>
      have hstorable : (created name).Storable :=
        (gameOk_created name).storable noSeparator_nil noSeparator_nil
      obtain ⟨s₂, hset, h₂⟩ := setGame_refines h₁ hname hstorable
      dsimp only
      rw [hset]
      exact Or.inr ⟨rfl, _, Play.create hgame, h₂⟩

theorem applyTake_settles (h : Refines utf8 makeXoAddress s d) (hok : GamesOk d) {space : Int}
    (hspace : 1 ≤ space ∧ space < 10) (hsigner : signer ≠ []) (hplain : NoSeparator signer) :
    Settles utf8 makeXoAddress signer d (applyTake utf8 makeXoAddress s name space signer) := by
  obtain ⟨s₁, hget, h₁⟩ := getGame_refines h name
  unfold applyTake
  rw [hget]
  cases hgame : d.get? name with
  | none => exact Or.inl ⟨⟨_, rfl⟩, h₁⟩
  | some game =>
      dsimp only
      rcases take_cases (hok name game hgame) hspace signer with
        ⟨message, htake⟩ | ⟨i, mark, state, htake, hfree, hmark, hfits⟩
      · rw [htake]
        exact Or.inl ⟨⟨_, rfl⟩, h₁⟩
      · obtain ⟨hnamed, hname, hgameStorable⟩ := h.games name game hgame
        have hnew := (hok name game hgame).marked hfree hmark hsigner hfits
        have hstorable : (marked game i mark state signer).Storable := by
          refine hnew.storable ?_ ?_
          · show NoSeparator (if _ then _ else _)
            split
            · exact hplain
            · exact hgameStorable.player1
          · show NoSeparator (if _ then _ else _)
            split
            · exact hplain
            · exact hgameStorable.player2
        obtain ⟨s₂, hset, h₂⟩ := setGame_refines h₁ hname hstorable
        have hrenamed : { marked game i mark state signer with name := name }
            = marked game i mark state signer := by
          rw [← hnamed]
          rfl
        rw [hrenamed] at h₂
        have hlength : ¬(marked game i mark state signer).board.length < 9 := by
          rw [hnew.board.length]
          decide
        rw [htake]
        dsimp only
        rw [hset]
        exact Or.inr ⟨if_neg hlength, _, Play.take hgame hfree hmark hfits, h₂⟩

theorem applyPayload_settles (h : Refines utf8 makeXoAddress s d) (hok : GamesOk d)
    {payload : XoPayload} (hpayload : PayloadOk payload) (hsigner : signer ≠ [])
    (hplain : NoSeparator signer) :
    Settles utf8 makeXoAddress signer d (applyPayload utf8 makeXoAddress s payload signer) := by
  unfold applyPayload
  by_cases hdelete : payload.action = "delete".toList
  · rw [if_pos hdelete]
    exact applyDelete_settles h
  rw [if_neg hdelete]
  by_cases hcreate : payload.action = "create".toList
  · rw [if_pos hcreate]
    exact applyCreate_settles h hpayload.name
  rw [if_neg hcreate]
  have htake : payload.action = "take".toList := by
    have haction := hpayload.action
    simpa only [List.mem_cons, List.not_mem_nil, hdelete, hcreate, false_or, or_false] using haction
  rw [if_pos htake]
  exact applyTake_settles h hok (hpayload.space htake) hsigner hplain

end Settles

/-- An `XoState` made over the context that another leaves. -/
theorem refines_new {s : XoState} {d : Dict PyString Game} (h : Refines utf8 makeXoAddress s d) :
    Refines utf8 makeXoAddress (XoState.new s.context) d where
  games := h.games
  stored := h.stored
  cached := by simp [XoState.new]

variable (int)

/-- **One transaction.** -/
theorem apply_settles {context : PyContext} {d : Dict PyString Game}
    (h : Refines utf8 makeXoAddress (XoState.new context) d) (hok : GamesOk d)
    {transaction : Transaction} (hsigner : transaction.signerPublicKey ≠ [])
    (hplain : NoSeparator transaction.signerPublicKey) :
    ∃ d', (d' = d ∨ Play transaction.signerPublicKey d d') ∧
      Refines utf8 makeXoAddress
        (XoState.new (apply utf8 int makeXoAddress context transaction).2) d' ∧
      ((apply utf8 int makeXoAddress context transaction).1 = .ok () ∨ ∃ message,
        (apply utf8 int makeXoAddress context transaction).1
          = .error (.invalidTransaction message)) := by
  unfold apply
  rcases fromBytes_cases utf8 int transaction.payload with
    ⟨message, hpayload⟩ | ⟨payload, hpayload, hchecked⟩
  · rw [hpayload]
    exact ⟨d, Or.inl rfl, h, Or.inr ⟨_, rfl⟩⟩
  · rw [hpayload]
    rcases applyPayload_settles h hok hchecked hsigner hplain with
      ⟨hrefused, hsame⟩ | ⟨hdone, d', hplay, hnext⟩
    · exact ⟨d, Or.inl rfl, refines_new hsame, Or.inr hrefused⟩
    · exact ⟨d', Or.inr hplay, refines_new hnext, Or.inl hdone⟩

/-! ### Runs -/

/-- The signer of a transaction has a key that can be stored. -/
def SignerOk (transaction : Transaction) : Prop :=
  transaction.signerPublicKey ≠ [] ∧ NoSeparator transaction.signerPublicKey

instance (transaction : Transaction) : Decidable (SignerOk transaction) :=
  inferInstanceAs (Decidable (_ ∧ _))

/-- Validator state that holds games as they are stored. -/
def Played (utf8 : PyUtf8) (makeXoAddress : PyString → PyString) (context : PyContext) : Prop :=
  ∃ d, Refines utf8 makeXoAddress (XoState.new context) d ∧ GamesOk d

theorem played_empty : Played utf8 makeXoAddress .empty :=
  ⟨Dict.empty, refines_empty, by simp [GamesOk]⟩

/-- **A transaction keeps the games as they are stored.** -/
theorem Played.apply {context : PyContext} (h : Played utf8 makeXoAddress context)
    {transaction : Transaction} (hsigner : SignerOk transaction) :
    Played utf8 makeXoAddress (apply utf8 int makeXoAddress context transaction).2 := by
  obtain ⟨d, hd, hok⟩ := h
  obtain ⟨d', hplay, hd', -⟩ := apply_settles int hd hok hsigner.1 hsigner.2
  rcases hplay with rfl | hplay
  · exact ⟨d', hd', hok⟩
  · exact ⟨d', hd', hok.play hsigner.1 hplay⟩

/-- **A run keeps the games as they are stored.** -/
theorem Played.run {context : PyContext} (h : Played utf8 makeXoAddress context)
    {transactions : List Transaction} (hsigners : ∀ t ∈ transactions, SignerOk t) :
    Played utf8 makeXoAddress (run (Xo.apply utf8 int makeXoAddress) context transactions) :=
  AllSteps.run_invariant _ _ (fun _ _ hs ht => hs.apply int ht) transactions context h
    (AllSteps.of_forall _ hsigners context)

/-- The game under a name, as `get_game` finds it in validator state. -/
def storedGame (utf8 : PyUtf8) (makeXoAddress : PyString → PyString) (context : PyContext)
    (name : PyString) : Except PyException (Option Game) :=
  ((XoState.new context).getGame utf8 makeXoAddress name).1

theorem storedGame_eq {context : PyContext} {d : Dict PyString Game}
    (h : Refines utf8 makeXoAddress (XoState.new context) d) (name : PyString) :
    storedGame utf8 makeXoAddress context name = .ok (d.get? name) := by
  obtain ⟨s', hget, -⟩ := getGame_refines h name
  rw [storedGame, hget]

/-- **What is at an address is read, and every game read is as games are stored.** -/
theorem Played.entry {context : PyContext} (h : Played utf8 makeXoAddress context)
    {address : PyString} {data : PyBytes} (hdata : context.data address = some data) :
    ∃ games, deserialize utf8 data = .ok games ∧ GamesOk games := by
  obtain ⟨d, hd, hok⟩ := h
  have hstate : stateOf utf8 makeXoAddress d address = some data := by
    rw [← hd.stored]
    exact hdata
  obtain ⟨-, games, hgames, hlookup⟩ := deserialize_stateOf hd.games hstate
  refine ⟨games, hgames, fun name game hget => ?_⟩
  rw [hlookup, get?_bucket] at hget
  by_cases haddress : makeXoAddress name = address
  · rw [if_pos haddress] at hget
    exact hok name game hget
  · simp [haddress] at hget

/-- A transaction keeps the marks and players of a game that is there before and after. -/
theorem Played.extends {context : PyContext} (h : Played utf8 makeXoAddress context)
    {transaction : Transaction} (hsigner : SignerOk transaction) {name : PyString}
    {game game' : Game} (hbefore : storedGame utf8 makeXoAddress context name = .ok (some game))
    (hafter : storedGame utf8 makeXoAddress
      (Xo.apply utf8 int makeXoAddress context transaction).2 name = .ok (some game')) :
    Extends game game' := by
  obtain ⟨d, hd, hok⟩ := h
  obtain ⟨d', hplay, hd', -⟩ := apply_settles int hd hok hsigner.1 hsigner.2
  rw [storedGame_eq hd, Except.ok.injEq] at hbefore
  rw [storedGame_eq hd', Except.ok.injEq] at hafter
  rcases hplay with rfl | hplay
  · obtain rfl := Option.some.inj (hbefore.symm.trans hafter)
    exact Extends.refl game
  · exact hplay.extends hbefore hafter

/-- In validator state that holds games, looking one up does not fail. -/
theorem Played.exists_storedGame {context : PyContext} (h : Played utf8 makeXoAddress context)
    (name : PyString) :
    ∃ game?, storedGame utf8 makeXoAddress context name = .ok game? := by
  obtain ⟨d, hd, -⟩ := h
  exact ⟨_, storedGame_eq hd name⟩

/-- **A run keeps the marks and players of a game**, as long as the game is there. -/
theorem Played.run_extends {name : PyString} : ∀ (transactions : List Transaction)
    {context : PyContext}, Played utf8 makeXoAddress context →
      (∀ t ∈ transactions, SignerOk t) →
      (∀ first rest, transactions = first ++ rest → storedGame utf8 makeXoAddress
        (Machine.run (Xo.apply utf8 int makeXoAddress) context first) name ≠ .ok none) →
      ∀ {game game' : Game}, storedGame utf8 makeXoAddress context name = .ok (some game) →
        storedGame utf8 makeXoAddress
          (Machine.run (Xo.apply utf8 int makeXoAddress) context transactions) name
            = .ok (some game') →
        Extends game game' := by
  intro transactions
  induction transactions with
  | nil =>
      intro context _ _ _ game game' hbefore hafter
      rw [run_nil, hbefore, Except.ok.injEq, Option.some.injEq] at hafter
      rw [hafter]
      exact Extends.refl game'
  | cons t transactions ih =>
      intro context h hsigners hthere game game' hbefore hafter
      have ht := hsigners t (by simp)
      have hnext := h.apply int ht
      obtain ⟨game₁, hgame₁⟩ := hnext.exists_storedGame name
      cases game₁ with
      | none => exact absurd hgame₁ (hthere [t] transactions rfl)
      | some game₁ =>
          refine (h.extends int ht hbefore hgame₁).trans ?_
          exact ih hnext (fun u hu => hsigners u (by simp [hu]))
            (fun first rest hsplit => hthere (t :: first) rest (by rw [hsplit]; rfl)) hgame₁ hafter

variable (utf8 makeXoAddress) in
/-- **Games of XO.**  After any transactions from the empty state, by signers with keys that can be
stored, every entry is read and holds games whose board, state and players fit each other; a game
keeps its marks and players while it is there; and a transaction that is not applied was invalid. -/
theorem xo_games {transactions : List Transaction} (hsigners : ∀ t ∈ transactions, SignerOk t) :
    (∀ address data,
      (run (apply utf8 int makeXoAddress) .empty transactions).data address = some data →
        ∃ games, deserialize utf8 data = .ok games ∧ ∀ name game,
          games.get? name = some game → GameOk game) ∧
    (∀ first rest name game game', transactions = first ++ rest →
      (∀ mid last, rest = mid ++ last → storedGame utf8 makeXoAddress
        (run (apply utf8 int makeXoAddress) .empty (first ++ mid)) name ≠ .ok none) →
      storedGame utf8 makeXoAddress (run (apply utf8 int makeXoAddress) .empty first) name
        = .ok (some game) →
      storedGame utf8 makeXoAddress (run (apply utf8 int makeXoAddress) .empty transactions) name
        = .ok (some game') → Extends game game') ∧
    ∀ t result, (t, result) ∈ trace (apply utf8 int makeXoAddress) .empty transactions →
      result = .ok () ∨ ∃ message, result = .error (.invalidTransaction message) := by
  have hplayed : ∀ {ts : List Transaction}, (∀ t ∈ ts, SignerOk t) →
      Played utf8 makeXoAddress (run (apply utf8 int makeXoAddress) .empty ts) :=
    fun hts => played_empty.run int hts
  refine ⟨fun address data hdata => (hplayed hsigners).entry hdata, ?_, ?_⟩
  · rintro first rest name game game' rfl hthere hbefore hafter
    rw [run_append] at hafter
    refine (hplayed fun t ht => hsigners t (by simp [ht])).run_extends int rest
      (fun t ht => hsigners t (by simp [ht])) (fun mid last hsplit => ?_) hbefore hafter
    rw [← run_append]
    exact hthere mid last hsplit
  · intro t result hmem
    obtain ⟨before, after, htrace⟩ := List.append_of_mem hmem
    obtain ⟨first, rest, rfl, -, rfl, -⟩ := trace_eq_append _ htrace
    obtain ⟨d, hd, hok⟩ := hplayed fun u hu => hsigners u (List.mem_append_left _ hu)
    have ht := hsigners t (by simp)
    obtain ⟨-, -, -, hresult⟩ := apply_settles int hd hok ht.1 ht.2
    exact hresult

/-- Two players, the second of whom first tries the square that is taken. -/
def twoMarks : List Transaction :=
  [⟨PyUtf8.standard.encode "g,create,".toList, "alice".toList⟩,
    ⟨PyUtf8.standard.encode "g,take,5".toList, "alice".toList⟩,
    ⟨PyUtf8.standard.encode "g,take,5".toList, "bob".toList⟩,
    ⟨PyUtf8.standard.encode "g,take,1".toList, "bob".toList⟩]

theorem xo_games_twoMarks :
    storedGame .standard id (run (apply .standard Decimal.parse id) .empty twoMarks) "g".toList
      = .ok (some ⟨"g".toList, "O---X----".toList, P1_NEXT, "alice".toList, "bob".toList⟩) ∧
    (∀ address data,
      (run (apply .standard Decimal.parse id) .empty twoMarks).data address = some data →
        ∃ games, deserialize .standard data = .ok games ∧ ∀ name game,
          games.get? name = some game → GameOk game) ∧
    ∀ t result, (t, result) ∈ trace (apply .standard Decimal.parse id) .empty twoMarks →
      result = .ok () ∨ ∃ message, result = .error (.invalidTransaction message) := by
  have hsigners : ∀ t ∈ twoMarks, SignerOk t := by decide
  have hrun := xo_games .standard Decimal.parse id hsigners
  exact ⟨by decide +kernel, hrun.1, hrun.2.2⟩

end Evoting.Xo

/-
`XoState` is a dictionary.

`stateOf` is what a dictionary of games looks like in validator state: under each
address the serialization of the games whose names have it.  Reading that back gives
the games again (`deserialize_serialize`), whatever order they came in, so an
`XoState` whose context holds a dictionary and whose cache agrees with the context
answers every call as the dictionary does and keeps both (`step_refines`).
-/
import Evoting.Lib.Machine
import Evoting.Model.XoState

namespace Evoting

open Machine

/-- Text that can stand in a record. -/
def NoSeparator (s : PyString) : Prop := ',' ∉ s ∧ '|' ∉ s

instance (s : PyString) : Decidable (NoSeparator s) := inferInstanceAs (Decidable (_ ∧ _))

/-- The fields of a game that are stored can stand in a record. -/
structure Game.Storable (game : Game) : Prop where
  board : NoSeparator game.board
  state : NoSeparator game.state
  player1 : NoSeparator game.player1
  player2 : NoSeparator game.player2

/-- Games that can be stored, each under its own name. -/
def AreGames (d : Dict PyString Game) : Prop :=
  ∀ name game, d.get? name = some game → game.name = name ∧ NoSeparator name ∧ game.Storable

namespace XoState

variable (utf8 : PyUtf8) (makeXoAddress : PyString → PyString)

/-! ### Serializing -/

theorem bar_not_mem_join {fields : List PyString} (h : ∀ field ∈ fields, '|' ∉ field) :
    '|' ∉ pyJoin ',' fields := by
  induction fields with
  | nil => simp [Fields.join]
  | cons field fields ih =>
      have hrest := ih fun f hf => h f (by simp [hf])
      cases fields with
      | nil => simpa using h field (by simp)
      | cons next fields =>
          rw [pyJoin, Fields.join_cons_cons, List.mem_append, List.mem_cons, not_or, not_or]
          exact ⟨h field (by simp), by decide, hrest⟩

/-- A record is read back as the game under its name. -/
theorem readGame_gameStr {games : Dict PyString Game} {entry : PyString × Game}
    (hname : entry.2.name = entry.1) (hplain : NoSeparator entry.1) (hgame : entry.2.Storable) :
    readGame games (gameStr entry) = .ok (games.set entry.1 entry.2) := by
  have hsplit : pySplit ',' (gameStr entry)
      = [entry.1, entry.2.board, entry.2.state, entry.2.player1, entry.2.player2] :=
    Fields.splitOn_join (by
      simp [hplain.1, hgame.board.1, hgame.state.1, hgame.player1.1, hgame.player2.1]) (by simp)
  rw [readGame, hsplit, ← hname]

theorem gameStr_bar {entry : PyString × Game} (hplain : NoSeparator entry.1)
    (hgame : entry.2.Storable) : '|' ∉ gameStr entry :=
  bar_not_mem_join (by
    simp [hplain.2, hgame.board.2, hgame.state.2, hgame.player1.2, hgame.player2.2])

theorem gameStr_ne_nil (entry : PyString × Game) : gameStr entry ≠ [] := by
  simp [gameStr]

/-- Reading records one after the other sets their games. -/
theorem foldlM_readGame {entries : List (PyString × Game)}
    (h : ∀ entry ∈ entries, entry.2.name = entry.1 ∧ NoSeparator entry.1 ∧ entry.2.Storable) :
    ∀ games : Dict PyString Game, (entries.map gameStr).foldlM readGame games
      = .ok (entries.foldl (fun d e => d.set e.1 e.2) games) := by
  induction entries with
  | nil => intro games; rfl
  | cons entry entries ih =>
      intro games
      obtain ⟨hname, hplain, hgame⟩ := h entry (by simp)
      rw [List.map_cons, List.foldlM_cons, readGame_gameStr hname hplain hgame, ok_bind,
        ih fun e he => h e (by simp [he])]
      rfl

theorem deserialize_encode (text : PyString) :
    deserialize utf8 (utf8.encode text) = (pySplit '|' text).foldlM readGame Dict.empty := by
  rw [deserialize, PyUtf8.decode_encode]

/-- The records of a dictionary, in the order in which they are written. -/
theorem exists_records (d : Dict PyString Game) : ∃ entries : List (PyString × Game),
    entries.Perm d.entries ∧ serialize utf8 d = utf8.encode (pyJoin '|' (entries.map gameStr)) := by
  obtain ⟨entries, hperm, hsorted⟩ := exists_pySorted_map gameStr d.entries
  exact ⟨entries, hperm, by rw [serialize, hsorted]⟩

/-- **What is serialized is read back.** -/
theorem deserialize_serialize {d : Dict PyString Game} (hd : AreGames d) (hne : d.entries ≠ []) :
    ∃ games, deserialize utf8 (serialize utf8 d) = .ok games ∧
      ∀ name, games.get? name = d.get? name := by
  obtain ⟨entries, hperm, hserialize⟩ := exists_records utf8 d
  have hentries : ∀ entry ∈ entries,
      entry.2.name = entry.1 ∧ NoSeparator entry.1 ∧ entry.2.Storable := fun entry hentry =>
    hd entry.1 entry.2 (Dict.get?_eq_some_iff.mpr (hperm.mem_iff.mp hentry))
  have hsplit : pySplit '|' (pyJoin '|' (entries.map gameStr)) = entries.map gameStr := by
    refine Fields.splitOn_join ?_ ?_
    · intro text htext
      obtain ⟨entry, hentry, rfl⟩ := List.mem_map.mp htext
      exact gameStr_bar (hentries entry hentry).2.1 (hentries entry hentry).2.2
    · intro hnil
      rw [List.map_eq_nil_iff] at hnil
      exact hne (List.nil_perm.mp (hnil ▸ hperm))
  have hnodup : (entries.map Prod.fst).Nodup := (hperm.map Prod.fst).nodup_iff.mpr d.nodup
  refine ⟨_, by rw [hserialize, deserialize_encode, hsplit, foldlM_readGame hentries],
    fun name => ?_⟩
  ext game
  rw [Dict.get?_foldl_set hnodup, hperm.mem_iff, ← Dict.get?_eq_some_iff, Dict.get?_empty]
  simp

theorem serialize_ne_nil {d : Dict PyString Game} (hne : d.entries ≠ []) :
    serialize utf8 d ≠ [] := by
  obtain ⟨entries, hperm, hserialize⟩ := exists_records utf8 d
  rw [hserialize]
  refine utf8.encode_ne_nil ?_
  cases entries with
  | nil => exact absurd (List.nil_perm.mp hperm) hne
  | cons entry entries => exact Fields.join_ne_nil (gameStr_ne_nil entry) _

/-- Only what a dictionary holds matters, not the order it came in. -/
theorem serialize_congr {d d' : Dict PyString Game} (h : ∀ name, d.get? name = d'.get? name) :
    serialize utf8 d = serialize utf8 d' := by
  rw [serialize, serialize, pySorted_congr ((Dict.perm_of_get? h).map gameStr)]

/-! ### The dictionary in validator state -/

/-- The games whose names have an address. -/
def bucket (d : Dict PyString Game) (address : PyString) : Dict PyString Game :=
  d.filterKeys fun name => makeXoAddress name = address

/-- **What a dictionary is in validator state.** -/
def stateOf (d : Dict PyString Game) (address : PyString) : Option PyBytes :=
  if (bucket makeXoAddress d address).entries = [] then none
  else some (serialize utf8 (bucket makeXoAddress d address))

theorem get?_bucket (d : Dict PyString Game) (address name : PyString) :
    (bucket makeXoAddress d address).get? name
      = if makeXoAddress name = address then d.get? name else none := by
  rw [bucket, Dict.get?_filterKeys]
  simp

theorem areGames_bucket {d : Dict PyString Game} (hd : AreGames d) (address : PyString) :
    AreGames (bucket makeXoAddress d address) := by
  intro name game hget
  rw [get?_bucket] at hget
  split at hget
  · exact hd name game hget
  · simp at hget

theorem entries_eq_nil_iff {d : Dict PyString Game} :
    d.entries = [] ↔ ∀ name, d.get? name = none := by
  constructor
  · intro h name
    rw [Dict.get?, h]
    rfl
  · intro h
    rw [Dict.eq_empty h]
    rfl

/-- The entry of an address depends on the games of its names alone. -/
theorem stateOf_congr {d d' : Dict PyString Game} {address : PyString}
    (h : ∀ name, makeXoAddress name = address → d.get? name = d'.get? name) :
    stateOf utf8 makeXoAddress d address = stateOf utf8 makeXoAddress d' address := by
  have hbucket : ∀ name, (bucket makeXoAddress d address).get? name
      = (bucket makeXoAddress d' address).get? name := by
    intro name
    rw [get?_bucket, get?_bucket]
    by_cases hname : makeXoAddress name = address
    · rw [if_pos hname, if_pos hname, h name hname]
    · rw [if_neg hname, if_neg hname]
  have hempty : (bucket makeXoAddress d address).entries = []
      ↔ (bucket makeXoAddress d' address).entries = [] := by
    rw [entries_eq_nil_iff, entries_eq_nil_iff]
    exact forall_congr' fun name => by rw [hbucket]
  rw [stateOf, stateOf, serialize_congr utf8 hbucket]
  simp only [hempty]

/-- An `XoState` holds a dictionary: in its context, and in its cache as far as that goes. -/
structure Refines (s : XoState) (d : Dict PyString Game) : Prop where
  games : AreGames d
  stored : ∀ address, s.context.data address = stateOf utf8 makeXoAddress d address
  cached : ∀ address value, s.addressCache.get? address = some value →
    value = stateOf utf8 makeXoAddress d address

variable {utf8 makeXoAddress} {s : XoState} {d : Dict PyString Game}

/-- What the context answers about one address. -/
theorem getState_of_stored (h : Refines utf8 makeXoAddress s d) (address : PyString) :
    s.context.getState [address]
      = ((stateOf utf8 makeXoAddress d address).map fun data => (address, data)).toList := by
  simp only [PyContext.getState, List.map_cons, List.map_nil, h.stored, stateOf]
  by_cases hempty : (bucket makeXoAddress d address).entries = []
  · simp [hempty]
  · simp [hempty, serialize_ne_nil utf8 hempty]

/-- **The entry of an address is read back** as its games. -/
theorem deserialize_stateOf (hd : AreGames d) {address : PyString} {data : PyBytes}
    (hdata : stateOf utf8 makeXoAddress d address = some data) :
    data ≠ [] ∧ ∃ games, deserialize utf8 data = .ok games ∧
      ∀ name, games.get? name = (bucket makeXoAddress d address).get? name := by
  unfold stateOf at hdata
  by_cases hempty : (bucket makeXoAddress d address).entries = []
  · simp [hempty] at hdata
  · rw [if_neg hempty] at hdata
    obtain rfl := Option.some.inj hdata
    exact ⟨serialize_ne_nil utf8 hempty,
      deserialize_serialize utf8 (areGames_bucket _ hd _) hempty⟩

/-- An address without an entry has no games. -/
theorem get?_bucket_of_none {address : PyString}
    (hnone : stateOf utf8 makeXoAddress d address = none) (name : PyString) :
    (Dict.empty : Dict PyString Game).get? name
      = (bucket makeXoAddress d address).get? name := by
  unfold stateOf at hnone
  by_cases hempty : (bucket makeXoAddress d address).entries = []
  · rw [entries_eq_nil_iff.mp hempty, Dict.get?_empty]
  · simp [hempty] at hnone

/-- Caching what the validator holds. -/
theorem Refines.cache (h : Refines utf8 makeXoAddress s d) (address : PyString) :
    Refines utf8 makeXoAddress ⟨s.context, s.addressCache.set address
      (stateOf utf8 makeXoAddress d address)⟩ d := by
  refine ⟨h.games, h.stored, fun other value hvalue => ?_⟩
  rw [Dict.get?_set] at hvalue
  by_cases haddress : address = other
  · rw [if_pos haddress] at hvalue
    rw [← haddress, Option.some.inj hvalue]
  · rw [if_neg haddress] at hvalue
    exact h.cached other value hvalue

/-- **Loading finds the games of the address**, wherever it finds them. -/
theorem loadGames_refines (h : Refines utf8 makeXoAddress s d) (gameName : PyString) :
    ∃ games s', loadGames utf8 makeXoAddress s gameName = (.ok games, s') ∧
      Refines utf8 makeXoAddress s' d ∧
      ∀ name, games.get? name = (bucket makeXoAddress d (makeXoAddress gameName)).get? name := by
  have hcache := h.cache (makeXoAddress gameName)
  rw [loadGames]
  cases hget : s.addressCache.get? (makeXoAddress gameName) with
  | some value =>
      have hvalue := h.cached _ _ hget
      cases value with
      | none => exact ⟨_, s, rfl, h, get?_bucket_of_none hvalue.symm⟩
      | some data =>
          obtain ⟨hne, games, hgames, hlookup⟩ := deserialize_stateOf h.games hvalue.symm
          exact ⟨games, s, by simp [hne, hgames], h, hlookup⟩
  | none =>
      rw [getState_of_stored h]
      cases hstate : stateOf utf8 makeXoAddress d (makeXoAddress gameName) with
      | none =>
          rw [hstate] at hcache
          exact ⟨_, _, rfl, hcache, get?_bucket_of_none hstate⟩
      | some data =>
          rw [hstate] at hcache
          obtain ⟨-, games, hgames, hlookup⟩ := deserialize_stateOf h.games hstate
          exact ⟨games, _, by simp [hgames], hcache, hlookup⟩

/-- Another dictionary, with other games at one address alone, is held once the context and the
cache have its entry there. -/
theorem Refines.update (h : Refines utf8 makeXoAddress s d) {d' : Dict PyString Game}
    (hd' : AreGames d') {address : PyString}
    (hothers : ∀ name, makeXoAddress name ≠ address → d'.get? name = d.get? name)
    {value : Option PyBytes} (hvalue : value = stateOf utf8 makeXoAddress d' address) :
    Refines utf8 makeXoAddress ⟨⟨Function.update s.context.data address value⟩,
      s.addressCache.set address value⟩ d' := by
  have hsame : ∀ other, other ≠ address →
      stateOf utf8 makeXoAddress d' other = stateOf utf8 makeXoAddress d other :=
    fun other hne => stateOf_congr utf8 makeXoAddress fun name hname =>
      hothers name (hname ▸ hne)
  refine ⟨hd', fun other => ?_, fun other v hv => ?_⟩
  · show Function.update s.context.data address value other = _
    by_cases hother : other = address
    · rw [hother, Function.update_self, hvalue]
    · rw [Function.update_of_ne hother, h.stored, hsame other hother]
  · rw [Dict.get?_set] at hv
    by_cases hother : other = address
    · rw [if_pos hother.symm, Option.some.injEq] at hv
      rw [← hv, hvalue, hother]
    · rw [if_neg (Ne.symm hother)] at hv
      rw [hsame other hother]
      exact h.cached other v hv

/-- Games that look like those of an address are its entry. -/
theorem stateOf_eq_some {games : Dict PyString Game} {address : PyString}
    (hlookup : ∀ name, games.get? name = (bucket makeXoAddress d address).get? name)
    (hne : games.entries ≠ []) :
    some (serialize utf8 games) = stateOf utf8 makeXoAddress d address := by
  have hbucket : (bucket makeXoAddress d address).entries ≠ [] := by
    rw [ne_eq, entries_eq_nil_iff] at hne ⊢
    exact fun h => hne fun name => (hlookup name).trans (h name)
  rw [stateOf, if_neg hbucket, serialize_congr utf8 hlookup]

theorem stateOf_eq_none {games : Dict PyString Game} {address : PyString}
    (hlookup : ∀ name, games.get? name = (bucket makeXoAddress d address).get? name)
    (hempty : games.entries = []) : none = stateOf utf8 makeXoAddress d address := by
  rw [stateOf, if_pos]
  rw [entries_eq_nil_iff] at hempty ⊢
  exact fun name => (hlookup name).symm.trans (hempty name)

/-! ### The calls -/

theorem getGame_refines (h : Refines utf8 makeXoAddress s d) (gameName : PyString) :
    ∃ s', getGame utf8 makeXoAddress s gameName = (.ok (d.get? gameName), s') ∧
      Refines utf8 makeXoAddress s' d := by
  obtain ⟨games, s', hload, hs', hlookup⟩ := loadGames_refines h gameName
  refine ⟨s', ?_, hs'⟩
  rw [getGame, hload]
  show (Except.ok (games.get? gameName), s') = _
  rw [hlookup, get?_bucket, if_pos rfl]

theorem areGames_set {d : Dict PyString Game} (hd : AreGames d) {gameName : PyString} {game : Game}
    (hname : NoSeparator gameName) (hgame : game.Storable) :
    AreGames (d.set gameName { game with name := gameName }) := by
  intro name g hget
  rw [Dict.get?_set] at hget
  split at hget
  · rename_i heq
    obtain rfl := Option.some.inj hget
    exact ⟨heq, heq ▸ hname, hgame.board, hgame.state, hgame.player1, hgame.player2⟩
  · exact hd name g hget

theorem areGames_erase {d : Dict PyString Game} (hd : AreGames d) (gameName : PyString) :
    AreGames (d.erase gameName) := by
  intro name g hget
  rw [Dict.get?_erase] at hget
  split at hget
  · simp at hget
  · exact hd name g hget

/-- **Setting a game sets it in the dictionary**, under the name it is stored under. -/
theorem setGame_refines (h : Refines utf8 makeXoAddress s d) {gameName : PyString} {game : Game}
    (hname : NoSeparator gameName) (hgame : game.Storable) :
    ∃ s', setGame utf8 makeXoAddress s gameName game = (.ok (), s') ∧
      Refines utf8 makeXoAddress s' (d.set gameName { game with name := gameName }) := by
  obtain ⟨games, s', hload, hs', hlookup⟩ := loadGames_refines h gameName
  refine ⟨storeGame utf8 makeXoAddress s' gameName (games.set gameName game),
    by rw [setGame, hload], ?_⟩
  have hserialize : serialize utf8 (games.set gameName game)
      = serialize utf8 (games.set gameName { game with name := gameName }) := by
    have hrecords := Dict.map_entries_set_congr (f := gameStr) (k := gameName) (v := game)
      (w := { game with name := gameName }) games rfl
    rw [serialize, serialize, hrecords]
  have hnew : ∀ name, (games.set gameName { game with name := gameName }).get? name
      = (bucket makeXoAddress (d.set gameName { game with name := gameName })
          (makeXoAddress gameName)).get? name := by
    intro name
    rw [get?_bucket, Dict.get?_set, Dict.get?_set, hlookup, get?_bucket]
    by_cases heq : gameName = name
    · rw [if_pos heq, heq, if_pos rfl, if_pos rfl]
    · rw [if_neg heq, if_neg heq]
  have hne : (games.set gameName { game with name := gameName }).entries ≠ [] := by
    rw [ne_eq, entries_eq_nil_iff]
    intro hnone
    simpa using hnone gameName
  refine hs'.update (areGames_set h.games hname hgame) (fun name hother => ?_) ?_
  · rw [Dict.get?_set, if_neg fun heq => hother (by rw [heq])]
  · rw [hserialize]
    exact stateOf_eq_some hnew hne

/-- **Deleting a game deletes it in the dictionary.** -/
theorem deleteGame_refines (h : Refines utf8 makeXoAddress s d) (gameName : PyString) :
    ∃ s', deleteGame utf8 makeXoAddress s gameName
        = (if d.get? gameName = none then .error .keyError else .ok (), s') ∧
      Refines utf8 makeXoAddress s'
        (if d.get? gameName = none then d else d.erase gameName) := by
  obtain ⟨games, s', hload, hs', hlookup⟩ := loadGames_refines h gameName
  have hget : games.get? gameName = d.get? gameName := by
    rw [hlookup, get?_bucket, if_pos rfl]
  rw [deleteGame, hload]
  by_cases habsent : d.get? gameName = none
  · exact ⟨s', by simp [hget, habsent], by rwa [if_pos habsent]⟩
  have hnew : ∀ name, (games.erase gameName).get? name
      = (bucket makeXoAddress (d.erase gameName) (makeXoAddress gameName)).get? name := by
    intro name
    rw [get?_bucket, Dict.get?_erase, Dict.get?_erase, hlookup, get?_bucket]
    by_cases heq : gameName = name
    · rw [if_pos heq, if_pos heq, ite_self]
    · rw [if_neg heq, if_neg heq]
  have hupdate : ∀ value, value = stateOf utf8 makeXoAddress (d.erase gameName)
      (makeXoAddress gameName) → Refines utf8 makeXoAddress
        ⟨⟨Function.update s'.context.data (makeXoAddress gameName) value⟩,
          s'.addressCache.set (makeXoAddress gameName) value⟩ (d.erase gameName) := by
    intro value hvalue
    refine hs'.update (areGames_erase h.games gameName) (fun name hother => ?_) hvalue
    rw [Dict.get?_erase, if_neg fun heq => hother (by rw [heq])]
  by_cases hempty : (games.erase gameName).entries = []
  · exact ⟨deleteStored makeXoAddress s' gameName, by simp [hget, habsent, hempty],
      by rw [if_neg habsent]; exact hupdate none (stateOf_eq_none hnew hempty)⟩
  · exact ⟨storeGame utf8 makeXoAddress s' gameName (games.erase gameName),
      by simp [hget, habsent, hempty],
      by rw [if_neg habsent]; exact hupdate _ (stateOf_eq_some hnew hempty)⟩

end XoState

/-! ### Runs -/

/-- **What a plain dictionary does** on the same calls. -/
def dictStep (d : Dict PyString Game) : XoCall → XoAnswer × Dict PyString Game
  | .getGame gameName => (.game (d.get? gameName), d)
  | .setGame gameName game => (.done, d.set gameName game)
  | .deleteGame gameName =>
      if d.get? gameName = none then (.raised .keyError, d) else (.done, d.erase gameName)

namespace XoCall

/-- What the call sets can stand in a record. -/
def Storable : XoCall → Prop
  | setGame gameName game => NoSeparator gameName ∧ game.Storable
  | _ => True

/-- The call with its game under the name it is set under. -/
def named : XoCall → XoCall
  | setGame gameName game => setGame gameName { game with name := gameName }
  | call => call

end XoCall

namespace XoState

variable {utf8 : PyUtf8} {makeXoAddress : PyString → PyString}

/-- **One call, against the dictionary.** -/
theorem step_refines {s : XoState} {d : Dict PyString Game} (h : Refines utf8 makeXoAddress s d)
    {call : XoCall} (hcall : call.Storable) :
    (s.step utf8 makeXoAddress call).1 = (dictStep d call.named).1 ∧
      Refines utf8 makeXoAddress (s.step utf8 makeXoAddress call).2 (dictStep d call.named).2 := by
  cases call with
  | getGame gameName =>
      obtain ⟨s', hget, hs'⟩ := getGame_refines h gameName
      rw [step, hget]
      exact ⟨rfl, hs'⟩
  | setGame gameName game =>
      obtain ⟨s', hset, hs'⟩ := setGame_refines h hcall.1 hcall.2
      rw [step, hset]
      exact ⟨rfl, hs'⟩
  | deleteGame gameName =>
      obtain ⟨s', hdelete, hs'⟩ := deleteGame_refines h gameName
      rw [step, hdelete]
      by_cases habsent : d.get? gameName = none
      · simp only [dictStep, XoCall.named, if_pos habsent] at hs' ⊢
        exact ⟨rfl, hs'⟩
      · simp only [dictStep, XoCall.named, if_neg habsent] at hs' ⊢
        exact ⟨rfl, hs'⟩

/-- **An `XoState` is a dictionary.**  On a context that holds a dictionary of games, and with
any cache that agrees with the context, every call answers as the dictionary would in which each
game has the name it is set under; and in the end the context holds that dictionary. -/
theorem xoState_is_dict {s : XoState} {d : Dict PyString Game} (hgames : AreGames d)
    (hstored : ∀ address, s.context.data address = stateOf utf8 makeXoAddress d address)
    (hcache : ∀ address value, s.addressCache.get? address = some value →
      value = s.context.data address)
    {calls : List XoCall} (hcalls : ∀ call ∈ calls, call.Storable) :
    (trace (step utf8 makeXoAddress) s calls).map Prod.snd
        = (trace dictStep d (calls.map XoCall.named)).map Prod.snd ∧
      ∀ address, (run (step utf8 makeXoAddress) s calls).context.data address
        = stateOf utf8 makeXoAddress (run dictStep d (calls.map XoCall.named)) address := by
  have hstart : Refines utf8 makeXoAddress s d :=
    ⟨hgames, hstored, fun address value hvalue =>
      (hcache address value hvalue).trans (hstored address)⟩
  obtain ⟨hanswers, hend⟩ := trace_simulation (step utf8 makeXoAddress)
    (Refines utf8 makeXoAddress) XoCall.Storable XoCall.named
    (fun _ _ _ hR hcall => step_refines hR hcall) calls s d hstart hcalls
  exact ⟨hanswers, hend.stored⟩

theorem areGames_empty : AreGames Dict.empty := by
  simp [AreGames]

theorem refines_empty : Refines utf8 makeXoAddress (new .empty) Dict.empty where
  games := areGames_empty
  stored _ := rfl
  cached := by simp [new]

/-- A game of the name "b". -/
def newGame : Game := ⟨"b".toList, "---------".toList, "P1-NEXT".toList, [], []⟩

theorem newGame_storable : newGame.Storable := by
  constructor <;> decide

/-- A game set under a name that is not its own comes back with the other name. -/
theorem getGame_renames :
    ¬∀ calls : List XoCall, (∀ call ∈ calls, call.Storable) →
      (trace (step .standard id) (new .empty) calls).map Prod.snd
        = (trace dictStep Dict.empty calls).map Prod.snd := by
  intro h
  have hcalls : ∀ call ∈ [XoCall.setGame "a".toList newGame, .getGame "a".toList],
      call.Storable := by
    simpa [XoCall.Storable] using ⟨by decide, newGame_storable⟩
  have hanswers := (trace_simulation (step .standard id) (Refines .standard id) XoCall.Storable
    XoCall.named (fun _ _ _ hR hcall => step_refines hR hcall) _ _ _ refines_empty hcalls).1
  rw [h _ hcalls] at hanswers
  exact absurd hanswers (by decide)

/-- Two games are set, one is deleted and the other looked up. -/
def twoGames : List XoCall :=
  [.setGame "a".toList newGame, .setGame "b".toList newGame, .deleteGame "a".toList,
    .getGame "b".toList]

/-- The two games share an address. -/
theorem xoState_is_dict_twoGames :
    (trace (step .standard fun _ => []) (new .empty) twoGames).map Prod.snd
      = (trace dictStep Dict.empty (twoGames.map XoCall.named)).map Prod.snd ∧
      ∀ address, (run (step .standard fun _ => []) (new .empty) twoGames).context.data address
        = stateOf .standard (fun _ => []) (run dictStep Dict.empty (twoGames.map XoCall.named))
            address :=
  xoState_is_dict areGames_empty (fun _ => rfl) (by simp [new]) (by
    simpa [twoGames, XoCall.Storable] using
      ⟨⟨by decide, newGame_storable⟩, by decide, newGame_storable⟩)

end XoState

end Evoting

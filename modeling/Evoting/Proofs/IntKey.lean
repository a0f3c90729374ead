/-
What integer keys do to the other names at their address.

The handler writes maps with one entry, so an address holds nothing or one name with
one value (`OneName`).  "inc" and "dec" find that name to be their own; "set" puts its
own entry in the place of whatever is there.  So a transaction leaves the other names
alone exactly when it is no "set" that finds an entry (`keepsOthers_iff`).
-/
import Evoting.Lib.Machine
import Evoting.Model.IntKey

namespace Evoting.IntegerKeyHandler

open Machine

variable {cbor : CborLibrary} {digits : CharacterDigits} {makeAddress : JString → Address}

/-! ### Entries -/

/-- The values a payload can have, and that are stored. -/
def IsValue (value : Int) : Prop := MIN_VALUE ≤ value ∧ value ≤ MAX_VALUE

theorem IsValue.inRange {value : Int} (h : IsValue value) : Long.InRange value := by
  unfold IsValue MIN_VALUE MAX_VALUE at h
  unfold Long.InRange
  omega

theorem encodeMap_ne_nil {name : JString} {value : Int} (hname : name.length < 2 ^ 31)
    (hvalue : IsValue value) : cbor.encodeMap name value ≠ [] := by
  intro hnil
  have hread := cbor.decodeNext_encodeMap name value hname hvalue.inRange
  rw [hnil, cbor.decodeNext_nil] at hread
  exact absurd hread (by simp)

/-- **What is encoded is decoded.** -/
theorem decodeState_encodeMap {name : JString} {value : Int} (hname : name.length < 2 ^ 31)
    (hvalue : IsValue value) :
    decodeState cbor digits (cbor.encodeMap name value) = .ok (Dict.empty.set name value) := by
  simp only [decodeState, decodeMap, cbor.decodeNext_encodeMap name value hname hvalue.inRange,
    ok_bind, List.foldlM_cons, List.foldlM_nil, putLong, Long.decode_toText digits hvalue.inRange,
    pure_eq_ok]

/-- The value under a name in the bytes of an address, as `decodeState` finds it. -/
def valueIn (cbor : CborLibrary) (digits : CharacterDigits) (stateValueRep : ByteString)
    (name : JString) : Option Int :=
  if stateValueRep.length = 0 then none
  else
    match decodeState cbor digits stateValueRep with
    | .ok stateValue => stateValue.get? name
    | .error _ => none

/-- The bytes that the handler leaves at an address: none, or those of one name with its value. -/
inductive EntryAt (cbor : CborLibrary) (makeAddress : JString → Address) (address : Address) :
    ByteString → Prop
  | none : EntryAt cbor makeAddress address []
  | one (name : JString) (value : Int) (haddress : makeAddress name = address)
      (hname : name.length < 2 ^ 31) (hvalue : IsValue value) :
      EntryAt cbor makeAddress address (cbor.encodeMap name value)

theorem valueIn_nil (name : JString) : valueIn cbor digits [] name = none := rfl

theorem valueIn_encodeMap {name : JString} {value : Int} (hname : name.length < 2 ^ 31)
    (hvalue : IsValue value) (other : JString) :
    valueIn cbor digits (cbor.encodeMap name value) other
      = if name = other then some value else none := by
  have hlength : ¬(cbor.encodeMap name value).length = 0 := by
    rw [List.length_eq_zero_iff]
    exact encodeMap_ne_nil hname hvalue
  rw [valueIn, if_neg hlength, decodeState_encodeMap hname hvalue]
  exact Dict.get?_set _ _ _ _

variable {address : Address} {stateValueRep : ByteString}

/-- "set" looks its name up. -/
theorem setValue_eq (h : EntryAt cbor makeAddress address stateValueRep) {name : JString}
    {value : Int} (hvalue : IsValue value) :
    setValue cbor digits stateValueRep name value =
      match valueIn cbor digits stateValueRep name with
      | some current =>
          .error (.invalidTransaction ("Verb is set but Name already in state, Name: "
            ++ String.ofList name ++ " Value: " ++ String.ofList (Long.toText current)))
      | none => .ok value := by
  have hpos : ¬value < 0 := by
    have hle := hvalue.1
    unfold MIN_VALUE at hle
    omega
  cases h with
  | none => exact if_neg hpos
  | one stored current haddress hname hcurrent =>
      have hlength : (cbor.encodeMap stored current).length > 0 :=
        List.length_pos_iff.mpr (encodeMap_ne_nil hname hcurrent)
      rw [setValue, if_pos hlength, decodeState_encodeMap hname hcurrent, ok_bind,
        valueIn_encodeMap hname hcurrent]
      dsimp only
      rw [Dict.get?_set]
      by_cases hsame : stored = name
      · simp [hsame]
      · simp [hsame, hpos]

/-- "inc" and "dec" look their name up. -/
theorem currentValue_eq (h : EntryAt cbor makeAddress address stateValueRep) (message : String)
    (name : JString) :
    currentValue cbor digits message stateValueRep name =
      match valueIn cbor digits stateValueRep name with
      | some current => .ok current
      | none => .error (.invalidTransaction message) := by
  cases h with
  | none => rfl
  | one stored current haddress hname hcurrent =>
      have hlength : ¬(cbor.encodeMap stored current).length = 0 := by
        rw [List.length_eq_zero_iff]
        exact encodeMap_ne_nil hname hcurrent
      rw [currentValue, if_neg hlength, decodeState_encodeMap hname hcurrent, ok_bind,
        valueIn_encodeMap hname hcurrent, Dict.get?_set]
      by_cases hsame : stored = name
      · simp [hsame]
      · simp [hsame]

/-- A value that is looked up was stored. -/
theorem isValue_of_valueIn (h : EntryAt cbor makeAddress address stateValueRep) {name : JString}
    {current : Int} (hcurrent : valueIn cbor digits stateValueRep name = some current) :
    IsValue current := by
  cases h with
  | none => simp [valueIn_nil] at hcurrent
  | one stored value haddress hname hvalue =>
      rw [valueIn_encodeMap hname hvalue] at hcurrent
      by_cases hsame : stored = name
      · rw [if_pos hsame, Option.some.injEq] at hcurrent
        rw [← hcurrent]
        exact hvalue
      · simp [hsame] at hcurrent

/-- Sums of values do not overflow. -/
theorem add_eq {a b : Int} (ha : IsValue a) (hb : IsValue b) : Long.add a b = a + b := by
  unfold IsValue MIN_VALUE MAX_VALUE at ha hb
  exact Int.bmod_eq_of_le (by omega) (by omega)

theorem sub_eq {a b : Int} (ha : IsValue a) (hb : IsValue b) : Long.sub a b = a - b := by
  unfold IsValue MIN_VALUE MAX_VALUE at ha hb
  exact Int.bmod_eq_of_le (by omega) (by omega)

/-- "set" finds no value under the name. -/
theorem setValue_ok (h : EntryAt cbor makeAddress address stateValueRep) {name : JString}
    {value stored : Int} (hvalue : IsValue value)
    (hset : setValue cbor digits stateValueRep name value = .ok stored) :
    stored = value ∧ valueIn cbor digits stateValueRep name = none := by
  rw [setValue_eq h hvalue] at hset
  cases hlookup : valueIn cbor digits stateValueRep name with
  | some current => simp [hlookup] at hset
  | none =>
      simp only [hlookup, Except.ok.injEq] at hset
      exact ⟨hset.symm, rfl⟩

/-- "inc" finds the value that it adds to. -/
theorem incValue_ok (h : EntryAt cbor makeAddress address stateValueRep) {name : JString}
    {value stored : Int} (hvalue : IsValue value)
    (hinc : incValue cbor digits stateValueRep name value = .ok stored) :
    IsValue stored ∧ ∃ current, valueIn cbor digits stateValueRep name = some current ∧
      stored = current + value := by
  rw [incValue, currentValue_eq h] at hinc
  cases hlookup : valueIn cbor digits stateValueRep name with
  | none => simp [hlookup] at hinc
  | some current =>
      have hcurrent := isValue_of_valueIn h hlookup
      simp only [hlookup, ok_bind, add_eq hcurrent hvalue] at hinc
      by_cases hmax : current + value > MAX_VALUE
      · simp [hmax] at hinc
      · rw [if_neg hmax, pure_eq_ok, Except.ok.injEq] at hinc
        refine ⟨?_, current, rfl, hinc.symm⟩
        unfold IsValue MIN_VALUE at hcurrent hvalue ⊢
        omega

/-- "dec" finds the value that it takes from. -/
theorem decValue_ok (h : EntryAt cbor makeAddress address stateValueRep) {name : JString}
    {value stored : Int} (hvalue : IsValue value)
    (hdec : decValue cbor digits stateValueRep name value = .ok stored) :
    IsValue stored ∧ ∃ current, valueIn cbor digits stateValueRep name = some current ∧
      stored = current - value := by
  rw [decValue, currentValue_eq h] at hdec
  cases hlookup : valueIn cbor digits stateValueRep name with
  | none => simp [hlookup] at hdec
  | some current =>
      have hcurrent := isValue_of_valueIn h hlookup
      simp only [hlookup, ok_bind, sub_eq hcurrent hvalue] at hdec
      by_cases hmin : current - value < MIN_VALUE
      · simp [hmin] at hdec
      · rw [if_neg hmin, pure_eq_ok, Except.ok.injEq] at hdec
        refine ⟨?_, current, rfl, hdec.symm⟩
        unfold IsValue MIN_VALUE MAX_VALUE at hcurrent hvalue ⊢
        unfold MIN_VALUE at hmin
        omega

/-- **The verbs.**  "set" stores its value where there is none under the name; "inc" and "dec"
find one, and store the sum or the difference. -/
theorem newValue_exact (h : EntryAt cbor makeAddress address stateValueRep) {update : Update}
    (hupdate : IsValue update.value) {value : Int}
    (hnew : newValue cbor digits stateValueRep update = .ok value) :
    IsValue value ∧
      ((update.verb = "set".toList ∧ valueIn cbor digits stateValueRep update.name = none ∧
          value = update.value) ∨
        update.verb ≠ "set".toList ∧
          ∃ current, valueIn cbor digits stateValueRep update.name = some current ∧
            ((update.verb = "inc".toList ∧ value = current + update.value) ∨
              update.verb = "dec".toList ∧ value = current - update.value)) := by
  unfold newValue at hnew
  by_cases hset : update.verb = "set".toList
  · rw [if_pos hset] at hnew
    obtain ⟨rfl, hnone⟩ := setValue_ok h hupdate hnew
    exact ⟨hupdate, Or.inl ⟨hset, hnone, rfl⟩⟩
  rw [if_neg hset] at hnew
  by_cases hinc : update.verb = "inc".toList
  · rw [if_pos hinc] at hnew
    obtain ⟨hvalue, current, hcurrent, hsum⟩ := incValue_ok h hupdate hnew
    exact ⟨hvalue, Or.inr ⟨hset, current, hcurrent, Or.inl ⟨hinc, hsum⟩⟩⟩
  rw [if_neg hinc] at hnew
  by_cases hdec : update.verb = "dec".toList
  · rw [if_pos hdec] at hnew
    obtain ⟨hvalue, current, hcurrent, hdifference⟩ := decValue_ok h hupdate hnew
    exact ⟨hvalue, Or.inr ⟨hset, current, hcurrent, Or.inr ⟨hdec, hdifference⟩⟩⟩
  · rw [if_neg hdec] at hnew
    exact absurd hnew (by simp)

/-- What is to be stored is a value; "set" finds none under the name, and "inc" and "dec" find
one. -/
theorem newValue_ok (h : EntryAt cbor makeAddress address stateValueRep) {update : Update}
    (hupdate : IsValue update.value) {value : Int}
    (hnew : newValue cbor digits stateValueRep update = .ok value) :
    IsValue value ∧
      ((update.verb = "set".toList ∧ valueIn cbor digits stateValueRep update.name = none) ∨
        update.verb ≠ "set".toList ∧
          ∃ current, valueIn cbor digits stateValueRep update.name = some current) := by
  obtain ⟨hvalue, ⟨hset, hnone, -⟩ | ⟨hset, current, hcurrent, -⟩⟩ := newValue_exact h hupdate hnew
  · exact ⟨hvalue, Or.inl ⟨hset, hnone⟩⟩
  · exact ⟨hvalue, Or.inr ⟨hset, current, hcurrent⟩⟩

/-! ### Payloads -/

/-- **What a payload that passes the checks has**: a short name, a verb and a value, under
those keys of its map. -/
theorem readUpdate_fields {payload : ByteString} {update : Update}
    (h : readUpdate cbor digits payload = .ok update) :
    ∃ updateMap text, decodePayload cbor payload = .ok updateMap ∧
      getText updateMap "Name" = .ok update.name ∧ update.name.length < 2 ^ 31 ∧
      getText updateMap "Verb" = .ok update.verb ∧
      ["set".toList, "dec".toList, "inc".toList].contains update.verb = true ∧
      getText updateMap "Value" = .ok text ∧ Long.decode digits text = .ok update.value ∧
      IsValue update.value := by
  unfold readUpdate at h
  by_cases hempty : payload.length = 0
  · simp [hempty] at h
  rw [if_neg hempty] at h
  obtain ⟨updateMap, hmap, h⟩ := bind_eq_ok_iff.mp h
  obtain ⟨name, hgetName, h⟩ := bind_eq_ok_iff.mp h
  by_cases hname : utf16Length name = 0
  · simp [hname] at h
  rw [if_neg hname] at h
  by_cases hlong : utf16Length name > MAX_NAME_LENGTH
  · simp [hlong] at h
  rw [if_neg hlong] at h
  obtain ⟨verb, hgetVerb, h⟩ := bind_eq_ok_iff.mp h
  by_cases hverb : utf16Length verb = 0
  · simp [hverb] at h
  rw [if_neg hverb] at h
  by_cases hknown : ¬["set".toList, "dec".toList, "inc".toList].contains verb
  · rw [if_pos hknown] at h
    exact absurd h (by simp)
  rw [if_neg hknown] at h
  obtain ⟨text, hgetValue, h⟩ := bind_eq_ok_iff.mp h
  cases hdecode : Long.decode digits text with
  | error e => simp [hdecode] at h
  | ok value =>
      simp only [hdecode] at h
      by_cases hrange : value > MAX_VALUE ∨ value < MIN_VALUE
      · simp [hrange] at h
      · rw [if_neg hrange, Except.ok.injEq] at h
        rw [← h]
        have hlength := length_le_utf16Length name
        unfold MAX_NAME_LENGTH at hlong
        refine ⟨updateMap, text, hmap, hgetName, ?_, hgetVerb, not_not.mp hknown, hgetValue,
          hdecode, ?_⟩
        · show name.length < 2 ^ 31
          omega
        · show MIN_VALUE ≤ value ∧ value ≤ MAX_VALUE
          omega

theorem readUpdate_ok {payload : ByteString} {update : Update}
    (h : readUpdate cbor digits payload = .ok update) :
    update.name.length < 2 ^ 31 ∧ IsValue update.value := by
  obtain ⟨updateMap, text, -, -, hlength, -, -, -, -, hvalue⟩ := readUpdate_fields h
  exact ⟨hlength, hvalue⟩

/-! ### Transactions -/

/-- An address holds nothing, or one name with one value. -/
def OneName (cbor : CborLibrary) (makeAddress : JString → Address) (context : Context) : Prop :=
  ∀ address, EntryAt cbor makeAddress address (context.data address)

theorem oneName_empty : OneName cbor makeAddress .empty := fun _ => EntryAt.none

/-- **One transaction**: it is refused and changes nothing, or it puts an entry of its own name. -/
theorem apply_cases (cbor : CborLibrary) (digits : CharacterDigits)
    (makeAddress : JString → Address) (context : Context) (payload : ByteString) :
    ((∃ e, (apply cbor digits makeAddress context payload).1 = .error e) ∧
        (apply cbor digits makeAddress context payload).2 = context) ∨
      ∃ update value, readUpdate cbor digits payload = .ok update ∧
        newValue cbor digits (context.getState (makeAddress update.name)) update = .ok value ∧
        apply cbor digits makeAddress context payload
          = (.ok (), context.put (makeAddress update.name) (cbor.encodeMap update.name value)) := by
  unfold apply
  cases hread : readUpdate cbor digits payload with
  | error e => exact Or.inl ⟨⟨e, rfl⟩, rfl⟩
  | ok update =>
      dsimp only
      cases hnew : newValue cbor digits (context.getState (makeAddress update.name)) update with
      | error e => exact Or.inl ⟨⟨e, rfl⟩, rfl⟩
      | ok value => exact Or.inr ⟨update, value, rfl, hnew, rfl⟩

/-- **A transaction leaves at most one name at an address.** -/
theorem OneName.apply {context : Context} (h : OneName cbor makeAddress context)
    (payload : ByteString) :
    OneName cbor makeAddress (apply cbor digits makeAddress context payload).2 := by
  rcases apply_cases cbor digits makeAddress context payload with
    ⟨-, hsame⟩ | ⟨update, value, hread, hnew, happly⟩
  · rw [hsame]
    exact h
  · obtain ⟨hname, hupdate⟩ := readUpdate_ok hread
    obtain ⟨hvalue, -⟩ := newValue_ok (h _) hupdate hnew
    rw [happly]
    intro address
    by_cases haddress : address = makeAddress update.name
    · rw [haddress, Context.put_data_self]
      exact EntryAt.one update.name value rfl hname hvalue
    · rw [Context.put_data_of_ne _ _ haddress]
      exact h address

/-- The value stored for a name. -/
def storedValue (cbor : CborLibrary) (digits : CharacterDigits) (makeAddress : JString → Address)
    (context : Context) (name : JString) : Option Int :=
  valueIn cbor digits (context.getState (makeAddress name)) name

/-- What an entry put at the address of its name changes. -/
theorem storedValue_put {name : JString} {value : Int} (hname : name.length < 2 ^ 31)
    (hvalue : IsValue value) (context : Context) (other : JString) :
    storedValue cbor digits makeAddress
        (context.put (makeAddress name) (cbor.encodeMap name value)) other
      = if name = other then some value
        else if makeAddress name = makeAddress other then none
        else storedValue cbor digits makeAddress context other := by
  unfold storedValue Context.getState
  by_cases haddress : makeAddress name = makeAddress other
  · rw [← haddress, Context.put_data_self, valueIn_encodeMap hname hvalue, if_pos rfl]
  · have hne : name ≠ other := fun hsame => haddress (by rw [hsame])
    rw [Context.put_data_of_ne _ _ (Ne.symm haddress), if_neg hne, if_neg haddress]

/-- The values of the other names are what they were, if the transaction is accepted. -/
def KeepsOthers (cbor : CborLibrary) (digits : CharacterDigits) (makeAddress : JString → Address)
    (context : Context) (payload : ByteString) : Prop :=
  ∀ update, readUpdate cbor digits payload = .ok update →
    (apply cbor digits makeAddress context payload).1 = .ok () →
    ∀ other, other ≠ update.name →
      storedValue cbor digits makeAddress (apply cbor digits makeAddress context payload).2 other
        = storedValue cbor digits makeAddress context other

/-- A "set" of a name that is not stored finds nothing at the address of the name. -/
def FindsNothing (cbor : CborLibrary) (digits : CharacterDigits)
    (makeAddress : JString → Address) (context : Context) (payload : ByteString) : Prop :=
  ∀ update, readUpdate cbor digits payload = .ok update → update.verb = "set".toList →
    storedValue cbor digits makeAddress context update.name = none →
    context.getState (makeAddress update.name) = []

variable {context : Context} {payload : ByteString}

/-- "inc" and "dec" find no other name at their address; "set" finds none if it finds nothing. -/
theorem FindsNothing.keepsOthers (hone : OneName cbor makeAddress context)
    (h : FindsNothing cbor digits makeAddress context payload) :
    KeepsOthers cbor digits makeAddress context payload := by
  intro update hread haccepted other hother
  rcases apply_cases cbor digits makeAddress context payload with
    ⟨⟨e, hrefused⟩, -⟩ | ⟨update', value, hread', hnew, happly⟩
  · rw [hrefused] at haccepted
    exact absurd haccepted (by simp)
  obtain rfl := Except.ok.inj (hread.symm.trans hread')
  obtain ⟨hname, hupdate⟩ := readUpdate_ok hread
  have hentry : EntryAt cbor makeAddress (makeAddress update.name)
      (context.getState (makeAddress update.name)) := hone _
  obtain ⟨hvalue, hverb⟩ := newValue_ok hentry hupdate hnew
  rw [happly, storedValue_put hname hvalue, if_neg (Ne.symm hother)]
  by_cases haddress : makeAddress update.name = makeAddress other
  · rw [if_pos haddress, storedValue, ← haddress]
    -- What is at the address is nothing, or the name of the transaction.
    rcases hverb with ⟨hset, hnone⟩ | ⟨-, current, hcurrent⟩
    · rw [h update hread hset hnone]
      rfl
    · generalize context.getState (makeAddress update.name) = rep at hentry hcurrent ⊢
      cases hentry with
      | none => rfl
      | one stored v hstored hlength hv =>
          rw [valueIn_encodeMap hlength hv] at hcurrent ⊢
          have hsame : stored = update.name := by
            by_contra hne
            simp [hne] at hcurrent
          rw [if_neg]
          rw [hsame]
          exact Ne.symm hother
  · rw [if_neg haddress]

/-- A "set" that finds another name loses it. -/
theorem KeepsOthers.findsNothing (hone : OneName cbor makeAddress context)
    (h : KeepsOthers cbor digits makeAddress context payload) :
    FindsNothing cbor digits makeAddress context payload := by
  intro update hread hset hnone
  obtain ⟨hname, hupdate⟩ := readUpdate_ok hread
  have hentry : EntryAt cbor makeAddress (makeAddress update.name)
      (context.getState (makeAddress update.name)) := hone _
  have hnew : newValue cbor digits (context.getState (makeAddress update.name)) update
      = .ok update.value := by
    rw [newValue, if_pos hset, setValue_eq hentry hupdate]
    unfold storedValue at hnone
    rw [hnone]
  have happly : apply cbor digits makeAddress context payload
      = (.ok (), context.put (makeAddress update.name)
          (cbor.encodeMap update.name update.value)) := by
    unfold apply
    rw [hread]
    dsimp only
    rw [hnew]
    rfl
  have hkept := h update hread (by rw [happly])
  unfold storedValue at hnone
  generalize hrep : context.getState (makeAddress update.name) = rep at hentry hnone ⊢
  cases hentry with
  | none => rfl
  | one stored v hstored hlength hv =>
      have hne : stored ≠ update.name := by
        intro hsame
        rw [valueIn_encodeMap hlength hv, if_pos hsame] at hnone
        simp at hnone
      have hlost := hkept stored hne
      rw [happly, storedValue_put hname hupdate, if_neg (Ne.symm hne), if_pos hstored.symm,
        storedValue, hstored, hrep, valueIn_encodeMap hlength hv, if_pos rfl] at hlost
      simp at hlost

/-- **Which transactions leave the other names alone.** -/
theorem keepsOthers_iff (hone : OneName cbor makeAddress context) :
    KeepsOthers cbor digits makeAddress context payload ↔
      FindsNothing cbor digits makeAddress context payload :=
  ⟨fun h => h.findsNothing hone, fun h => h.keepsOthers hone⟩

/-! ### Runs -/

variable (cbor digits makeAddress) in
/-- **The other names along a run.**  From the empty state every transaction leaves the values of
the other names alone if and only if every "set" of a name that is not stored finds nothing at the
address. -/
theorem others_kept_iff (payloads : List ByteString) :
    AllSteps (apply cbor digits makeAddress) (KeepsOthers cbor digits makeAddress) .empty payloads ↔
      AllSteps (apply cbor digits makeAddress) (FindsNothing cbor digits makeAddress) .empty
        payloads := by
  have hone : ∀ first : List ByteString,
      OneName cbor makeAddress (run (apply cbor digits makeAddress) .empty first) := fun first =>
    run_invariant _ (fun _ payload hs => hs.apply payload) first _ oneName_empty
  rw [allSteps_iff, allSteps_iff]
  exact forall_congr' fun first => forall_congr' fun payload => forall_congr' fun rest =>
    imp_congr_right fun _ => keepsOthers_iff (hone first)

/-- The payload of a transaction, with its three fields. -/
def payloadOf (verb name : String) (value : Int) : ByteString :=
  Cbor.writeMap [(.text "Verb".toList, .text verb.toList), (.text "Name".toList, .text name.toList),
    (.text "Value".toList, .integer value)]

/-- That of one that sets a name. -/
def setPayload (name : String) (value : Int) : ByteString := payloadOf "set" name value

/-- Two names share an address: the second that is set is all that is left. -/
theorem set_loses_other : ¬∀ payloads, AllSteps (apply .standard .ascii fun _ => [])
    (KeepsOthers .standard .ascii fun _ => []) .empty payloads := by
  intro h
  obtain ⟨-, hsecond, -⟩ := h [setPayload "foo" 20, setPayload "bar" 26]
  have hread : readUpdate .standard .ascii (setPayload "bar" 26)
      = .ok ⟨"bar".toList, "set".toList, 26⟩ := by
    decide +kernel
  have hkept := hsecond _ hread (by decide +kernel) "foo".toList (by decide)
  exact absurd hkept (by decide +kernel)

end Evoting.IntegerKeyHandler

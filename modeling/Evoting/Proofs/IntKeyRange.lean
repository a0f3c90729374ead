/-
The values of integer keys stay between their bounds, and the sums are exact.

What `apply` reads back from an address it has stored there, so the operand of "inc"
and "dec" is between the bounds as well as the `Value` of the payload, and neither the
sum nor the difference leaves 64 bits.  `exact_step` says what one transaction does in
a state where every address has at most one name; every run keeps to such states.
-/
import Evoting.Proofs.IntKey

namespace Evoting.IntegerKeyHandler

open Machine

variable {cbor : CborLibrary} {digits : CharacterDigits} {makeAddress : JString → Address}

/-- Every value that is stored, under any name at any address, is between the bounds. -/
def StoredInRange (cbor : CborLibrary) (digits : CharacterDigits) (context : Context) : Prop :=
  ∀ address name value, valueIn cbor digits (context.data address) name = some value →
    MIN_VALUE ≤ value ∧ value ≤ MAX_VALUE

/-- A transaction that would take a value out of the bounds: by its `Value`, or by the sum or the
difference with what is stored for its name. -/
inductive LeavesRange (cbor : CborLibrary) (digits : CharacterDigits)
    (makeAddress : JString → Address) (context : Context) (payload : ByteString) : Prop
  | value (updateMap : Dict JString JString) (text : JString) (value : Int)
      (hmap : decodePayload cbor payload = .ok updateMap)
      (htext : getText updateMap "Value" = .ok text) (hdecode : Long.decode digits text = .ok value)
      (hout : value < MIN_VALUE ∨ MAX_VALUE < value)
  | inc (update : Update) (current : Int) (hread : readUpdate cbor digits payload = .ok update)
      (hverb : update.verb = "inc".toList)
      (hcurrent : storedValue cbor digits makeAddress context update.name = some current)
      (hout : MAX_VALUE < current + update.value)
  | dec (update : Update) (current : Int) (hread : readUpdate cbor digits payload = .ok update)
      (hverb : update.verb = "dec".toList)
      (hcurrent : storedValue cbor digits makeAddress context update.name = some current)
      (hout : current - update.value < MIN_VALUE)

/-- **What a transaction does to the values.** -/
structure Exact (cbor : CborLibrary) (digits : CharacterDigits) (makeAddress : JString → Address)
    (context : Context) (payload : ByteString) : Prop where
  /-- What is stored before, and what is stored after it. -/
  before : StoredInRange cbor digits context
  after : StoredInRange cbor digits (apply cbor digits makeAddress context payload).2
  /-- An accepted transaction has the three fields. -/
  read : (apply cbor digits makeAddress context payload).1 = .ok () →
    ∃ update, readUpdate cbor digits payload = .ok update ∧
      (update.verb = "set".toList ∨ update.verb = "inc".toList ∨ update.verb = "dec".toList)
  set : ∀ update, readUpdate cbor digits payload = .ok update → update.verb = "set".toList →
    (apply cbor digits makeAddress context payload).1 = .ok () →
    storedValue cbor digits makeAddress context update.name = none ∧
      storedValue cbor digits makeAddress (apply cbor digits makeAddress context payload).2
        update.name = some update.value
  inc : ∀ update, readUpdate cbor digits payload = .ok update → update.verb = "inc".toList →
    (apply cbor digits makeAddress context payload).1 = .ok () →
    ∃ current, storedValue cbor digits makeAddress context update.name = some current ∧
      storedValue cbor digits makeAddress (apply cbor digits makeAddress context payload).2
        update.name = some (current + update.value)
  dec : ∀ update, readUpdate cbor digits payload = .ok update → update.verb = "dec".toList →
    (apply cbor digits makeAddress context payload).1 = .ok () →
    ∃ current, storedValue cbor digits makeAddress context update.name = some current ∧
      storedValue cbor digits makeAddress (apply cbor digits makeAddress context payload).2
        update.name = some (current - update.value)
  /-- A refused transaction changes nothing. -/
  refused : ∀ e, (apply cbor digits makeAddress context payload).1 = .error e →
    (apply cbor digits makeAddress context payload).2 = context
  leaving : LeavesRange cbor digits makeAddress context payload →
    ∃ e, apply cbor digits makeAddress context payload = (.error e, context)
  /-- The sum and the difference that are computed are those of the integers. -/
  noOverflow : ∀ update current, readUpdate cbor digits payload = .ok update →
    storedValue cbor digits makeAddress context update.name = some current →
    Long.InRange (current + update.value) ∧ Long.add current update.value = current + update.value ∧
      Long.InRange (current - update.value) ∧
      Long.sub current update.value = current - update.value

/-! ### One transaction -/

theorem OneName.storedInRange {context : Context} (h : OneName cbor makeAddress context) :
    StoredInRange cbor digits context :=
  fun address _ _ hvalue => isValue_of_valueIn (h address) hvalue

theorem inRange_add_sub {a b : Int} (ha : IsValue a) (hb : IsValue b) :
    Long.InRange (a + b) ∧ Long.InRange (a - b) := by
  unfold IsValue MIN_VALUE MAX_VALUE at ha hb
  unfold Long.InRange
  omega

variable {context : Context} {payload : ByteString}

/-- An accepted transaction stores, under its name, what its verb computes. -/
theorem accepted_cases (hone : OneName cbor makeAddress context)
    (haccepted : (apply cbor digits makeAddress context payload).1 = .ok ()) :
    ∃ update value, readUpdate cbor digits payload = .ok update ∧
      storedValue cbor digits makeAddress (apply cbor digits makeAddress context payload).2
        update.name = some value ∧ IsValue value ∧
      ((update.verb = "set".toList ∧
          storedValue cbor digits makeAddress context update.name = none ∧
          value = update.value) ∨
        update.verb ≠ "set".toList ∧
          ∃ current, storedValue cbor digits makeAddress context update.name = some current ∧
            ((update.verb = "inc".toList ∧ value = current + update.value) ∨
              update.verb = "dec".toList ∧ value = current - update.value)) := by
  rcases apply_cases cbor digits makeAddress context payload with
    ⟨⟨e, hrefused⟩, -⟩ | ⟨update, value, hread, hnew, happly⟩
  · rw [hrefused] at haccepted
    exact absurd haccepted (by simp)
  · obtain ⟨hname, hupdate⟩ := readUpdate_ok hread
    obtain ⟨hvalue, hcases⟩ := newValue_exact (hone _) hupdate hnew
    refine ⟨update, value, hread, ?_, hvalue, hcases⟩
    rw [happly, storedValue_put hname hvalue, if_pos rfl]

/-- What is not accepted changes nothing. -/
theorem refused_eq {e : Throwable}
    (hrefused : (apply cbor digits makeAddress context payload).1 = .error e) :
    apply cbor digits makeAddress context payload = (.error e, context) := by
  rcases apply_cases cbor digits makeAddress context payload with
    ⟨-, hsame⟩ | ⟨update, value, -, -, happly⟩
  · exact Prod.ext hrefused hsame
  · rw [happly] at hrefused
    exact absurd hrefused (by simp)

/-- **A transaction that would leave the bounds is refused.** -/
theorem leavesRange_refused (hone : OneName cbor makeAddress context)
    (h : LeavesRange cbor digits makeAddress context payload) :
    ∃ e, apply cbor digits makeAddress context payload = (.error e, context) := by
  cases hresult : (apply cbor digits makeAddress context payload).1 with
  | error e => exact ⟨e, refused_eq hresult⟩
  | ok _ =>
      exfalso
      obtain ⟨update, value, hread, -, hvalue, hcases⟩ := accepted_cases hone hresult
      obtain ⟨hmin, hmax⟩ := hvalue
      cases h with
      | value updateMap text v hmap htext hdecode hout =>
          obtain ⟨updateMap', text', hmap', -, -, -, -, htext', hdecode', hmin', hmax'⟩ :=
            readUpdate_fields hread
          obtain rfl := Except.ok.inj (hmap.symm.trans hmap')
          obtain rfl := Except.ok.inj (htext.symm.trans htext')
          obtain rfl := Except.ok.inj (hdecode.symm.trans hdecode')
          omega
      | inc update' current hread' hverb hcurrent hout =>
          obtain rfl := Except.ok.inj (hread.symm.trans hread')
          rcases hcases with ⟨hset, -, -⟩ | ⟨-, current', hcurrent', hcases⟩
          · exact absurd (hset.symm.trans hverb) (by decide)
          · obtain rfl := Option.some.inj (hcurrent.symm.trans hcurrent')
            rcases hcases with ⟨-, hsum⟩ | ⟨hdec, -⟩
            · omega
            · exact absurd (hdec.symm.trans hverb) (by decide)
      | dec update' current hread' hverb hcurrent hout =>
          obtain rfl := Except.ok.inj (hread.symm.trans hread')
          rcases hcases with ⟨hset, -, -⟩ | ⟨-, current', hcurrent', hcases⟩
          · exact absurd (hset.symm.trans hverb) (by decide)
          · obtain rfl := Option.some.inj (hcurrent.symm.trans hcurrent')
            rcases hcases with ⟨hinc, -⟩ | ⟨-, hdifference⟩
            · exact absurd (hinc.symm.trans hverb) (by decide)
            · omega

/-- **One transaction.** -/
theorem exact_step (hone : OneName cbor makeAddress context) (payload : ByteString) :
    Exact cbor digits makeAddress context payload where
  before := hone.storedInRange
  after := (hone.apply payload).storedInRange
  read := by
    intro haccepted
    obtain ⟨update, value, hread, -, -, hcases⟩ := accepted_cases hone haccepted
    refine ⟨update, hread, ?_⟩
    rcases hcases with ⟨hset, -⟩ | ⟨-, current, -, ⟨hinc, -⟩ | ⟨hdec, -⟩⟩
    · exact .inl hset
    · exact .inr (.inl hinc)
    · exact .inr (.inr hdec)
  set := by
    intro update hread hverb haccepted
    obtain ⟨update', value, hread', hstored, -, hcases⟩ := accepted_cases hone haccepted
    obtain rfl := Except.ok.inj (hread.symm.trans hread')
    rcases hcases with ⟨-, hnone, rfl⟩ | ⟨hset, -⟩
    · exact ⟨hnone, hstored⟩
    · exact absurd hverb hset
  inc := by
    intro update hread hverb haccepted
    obtain ⟨update', value, hread', hstored, -, hcases⟩ := accepted_cases hone haccepted
    obtain rfl := Except.ok.inj (hread.symm.trans hread')
    rcases hcases with ⟨hset, -, -⟩ | ⟨-, current, hcurrent, ⟨-, rfl⟩ | ⟨hdec, -⟩⟩
    · exact absurd (hset.symm.trans hverb) (by decide)
    · exact ⟨current, hcurrent, hstored⟩
    · exact absurd (hdec.symm.trans hverb) (by decide)
  dec := by
    intro update hread hverb haccepted
    obtain ⟨update', value, hread', hstored, -, hcases⟩ := accepted_cases hone haccepted
    obtain rfl := Except.ok.inj (hread.symm.trans hread')
    rcases hcases with ⟨hset, -, -⟩ | ⟨-, current, hcurrent, ⟨hinc, -⟩ | ⟨-, rfl⟩⟩
    · exact absurd (hset.symm.trans hverb) (by decide)
    · exact absurd (hinc.symm.trans hverb) (by decide)
    · exact ⟨current, hcurrent, hstored⟩
  refused := by
    intro e he
    rw [refused_eq he]
  leaving := leavesRange_refused hone
  noOverflow := by
    intro update current hread hcurrent
    obtain ⟨-, hupdate⟩ := readUpdate_ok hread
    have hvalue := isValue_of_valueIn (hone _) hcurrent
    obtain ⟨hadd, hsub⟩ := inRange_add_sub hvalue hupdate
    exact ⟨hadd, add_eq hvalue hupdate, hsub, sub_eq hvalue hupdate⟩

/-! ### Runs -/

/-- **Integer keys along a run.**  From the empty state every transaction does to the values what
it says, within the bounds, and what a run leaves is within them. -/
theorem intkey_exact (cbor : CborLibrary) (digits : CharacterDigits)
    (makeAddress : JString → Address) (payloads : List ByteString) :
    AllSteps (apply cbor digits makeAddress) (Exact cbor digits makeAddress) .empty payloads ∧
      StoredInRange cbor digits (run (apply cbor digits makeAddress) .empty payloads) := by
  have hone : ∀ first : List ByteString,
      OneName cbor makeAddress (run (apply cbor digits makeAddress) .empty first) := fun first =>
    run_invariant _ (fun _ payload hs => hs.apply payload) first _ oneName_empty
  refine ⟨?_, (hone payloads).storedInRange⟩
  rw [allSteps_iff]
  exact fun first payload rest _ => exact_step (hone first) payload

/-- A name is set and then increased: both are accepted, and the sum is stored. -/
theorem intkey_exact_setInc :
    (apply .standard .ascii (fun name => name) .empty (setPayload "foo" 20)).1 = .ok () ∧
      storedValue .standard .ascii (fun name => name)
        (run (apply .standard .ascii fun name => name) .empty
          [setPayload "foo" 20, payloadOf "inc" "foo" 5]) "foo".toList = some (20 + 5) := by
  have haccepted : (apply .standard .ascii (fun name => name) .empty
      (setPayload "foo" 20)).1 = .ok () := by decide +kernel
  have haccepted' : (apply .standard .ascii (fun name => name)
      (apply .standard .ascii (fun name => name) .empty (setPayload "foo" 20)).2
      (payloadOf "inc" "foo" 5)).1 = .ok () := by decide +kernel
  have hread : readUpdate .standard .ascii (setPayload "foo" 20)
      = .ok ⟨"foo".toList, "set".toList, 20⟩ := by decide +kernel
  have hread' : readUpdate .standard .ascii (payloadOf "inc" "foo" 5)
      = .ok ⟨"foo".toList, "inc".toList, 5⟩ := by decide +kernel
  obtain ⟨hset, hinc, -⟩ := (intkey_exact .standard .ascii (fun name => name)
    [setPayload "foo" 20, payloadOf "inc" "foo" 5]).1
  have hstored := (hset.set _ hread rfl haccepted).2
  obtain ⟨current, hcurrent, hsum⟩ := hinc.inc _ hread' rfl haccepted'
  obtain rfl := Option.some.inj (hcurrent.symm.trans hstored)
  exact ⟨haccepted, hsum⟩

end Evoting.IntegerKeyHandler

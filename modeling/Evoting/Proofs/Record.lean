/-
The record store is not a map, and exactly when it acts as one.

An entry that has only ever been written by `storeElectionData` holds one record
at most: the branch that should append a second one writes past the end of the
list and throws.  `OneRecord` is that shape, `storeRecord_cases` says what one
store does to it, and `oneRecord_run` carries it over any sequence of stores.

From the shape everything else is read off.  `readRecord_run` is the refinement:
as long as no two names meet at an address, the store is the map from a name to
the record last written under it.  `actsAsMap_iff` is the exact boundary.
-/
import Evoting.Lib.Machine
import Evoting.Model.Record

namespace Evoting

/-- Text that can stand as a field of a record. -/
structure PlainField (s : JString) : Prop where
  comma : ',' ∉ s
  bar : '|' ∉ s

/-- A name the record format can carry. -/
structure PlainName (name : JString) : Prop extends PlainField name where
  ne_nil : name ≠ []

/-- A record with a name, none of whose fields contains a separator. -/
structure ElectionData.Plain (r : ElectionData) : Prop where
  name : PlainName r.electionName
  cipher : PlainField r.cipher
  pubKey : PlainField r.pubKey

theorem PlainField.nil : PlainField [] := ⟨by simp, by simp⟩

/-! ### One record as text -/

namespace ElectionData

theorem csv_eq (r : ElectionData) :
    r.csv = r.electionName ++ ',' :: (r.cipher ++ ',' :: r.pubKey) := by
  simp [csv, joinStrings]

theorem csv_ne_nil (r : ElectionData) : r.csv ≠ [] := by
  simp [csv_eq]

theorem Plain.bar_not_mem {r : ElectionData} (h : r.Plain) : '|' ∉ r.csv := by
  simp [csv_eq, h.name.bar, h.cipher.bar, h.pubKey.bar]

theorem Plain.split_csv {r : ElectionData} (h : r.Plain) : splitString '|' r.csv = [r.csv] :=
  Fields.split_of_not_mem h.bar_not_mem

/-- The fields are read back, the empty ones at the end included. -/
theorem Plain.fields_csv {r : ElectionData} (h : r.Plain) :
    Fields.pad 3 (splitString ',' r.csv) = [r.electionName, r.cipher, r.pubKey] := by
  rw [csv, splitString, joinStrings, Fields.pad_split_join ?_ (by simp) (by simp)]
  · simp [Fields.pad]
  · intro f hf
    simp only [List.mem_cons, List.not_mem_nil, or_false] at hf
    rcases hf with rfl | rfl | rfl
    · exact h.name.comma
    · exact h.cipher.comma
    · exact h.pubKey.comma

/-- A name is a prefix of a record's text exactly when it is one of the record's name. -/
theorem prefix_csv_iff {name : JString} (h : ',' ∉ name) (r : ElectionData) :
    name <+: r.csv ↔ name <+: r.electionName := by
  rw [csv_eq]
  exact Fields.prefix_append_cons h

end ElectionData

theorem getGameCsv_csv {r : ElectionData} (h : r.Plain) {name : JString} (hname : ',' ∉ name) :
    getGameCsv r.csv name = if name <+: r.electionName then r.csv else [] := by
  rw [getGameCsv, h.split_csv]
  by_cases hpre : name <+: r.electionName
  · have hm : regionMatches r.csv name = true := by
      rw [regionMatches_iff, ElectionData.prefix_csv_iff hname]
      exact hpre
    simp [hm, hpre]
  · have hm : regionMatches r.csv name = false := by
      rw [← Bool.not_eq_true, regionMatches_iff, ElectionData.prefix_csv_iff hname]
      exact hpre
    simp [hm, hpre]

@[simp] theorem getStateData_nil (name : JString) : getStateData [] name = .absent := rfl

/-- **Looking a name up in a one-record entry.** -/
theorem getStateData_csv {r : ElectionData} (h : r.Plain) {name : JString} (hname : ',' ∉ name) :
    getStateData r.csv name = if name <+: r.electionName then r else .absent := by
  have hlen : r.csv.length ≠ 0 := by simpa using r.csv_ne_nil
  rw [getStateData, if_neg hlen, getGameCsv_csv h hname]
  by_cases hpre : name <+: r.electionName
  · rw [if_pos hpre, if_pos hpre, h.fields_csv]
    simp
  · rw [if_neg hpre, if_neg hpre, splitString, Fields.split_nil]
    rfl

/-! ### One store -/

@[simp] theorem updatedEntry_nil (r : ElectionData) : updatedEntry r [] = .ok r.csv := rfl

/-- **Storing into a one-record entry** replaces the record, or throws. -/
theorem updatedEntry_csv {x : ElectionData} (h : x.Plain) {r : ElectionData}
    (hname : ',' ∉ r.electionName) :
    updatedEntry r x.csv =
      if r.electionName <+: x.electionName then .ok r.csv else .error .indexOutOfBounds := by
  have hlen : x.csv.length ≠ 0 := by simpa using x.csv_ne_nil
  rw [updatedEntry, if_neg hlen, h.split_csv]
  by_cases hpre : r.electionName <+: x.electionName
  · have hm : regionMatches x.csv r.electionName = true := by
      rw [regionMatches_iff, ElectionData.prefix_csv_iff hname]
      exact hpre
    simp [List.findIdx_cons, hm, hpre, arrayListSet, joinStrings, bind, Except.bind, pure,
      Except.pure]
  · have hm : regionMatches x.csv r.electionName = false := by
      rw [← Bool.not_eq_true, regionMatches_iff, ElectionData.prefix_csv_iff hname]
      exact hpre
    simp [List.findIdx_cons, hm, hpre, arrayListSet, bind, Except.bind]

theorem storeElectionData_eq (utf8 : Utf8) (address : Address) (r : ElectionData)
    (stateEntry : JString) (context : Context) :
    storeElectionData utf8 address r stateEntry context =
      match updatedEntry r stateEntry with
      | .error e => (.error e, context)
      | .ok entry =>
          (.ok (), context.put address (utf8.copyFromUtf8 entry)) := by
  unfold storeElectionData
  cases updatedEntry r stateEntry <;> rfl

section Store

variable (utf8 : Utf8) (address : JString → Address)

/-- Storing a record the way `apply` does, with the entry it has read at the address. -/
def storeRecord (context : Context) (r : ElectionData) : Except Throwable Unit × Context :=
  storeElectionData utf8 (address r.electionName) r
    (utf8.toStringUtf8 (context.getState (address r.electionName))) context

/-- Reading a name the way `apply` does. -/
def readRecord (context : Context) (name : JString) : ElectionData :=
  getStateData (utf8.toStringUtf8 (context.getState (address name))) name

/-- The state after a sequence of stores, from nothing; a store that throws changes nothing. -/
abbrev storeAll (rs : List ElectionData) : Context :=
  Machine.run (storeRecord utf8 address) Context.empty rs

/-! ### The shape of every entry -/

/-- Every address holds nothing, or one of the records written there. -/
def OneRecord (rs : List ElectionData) (context : Context) : Prop :=
  ∀ a, context.data a = [] ∨
    ∃ x ∈ rs, x.Plain ∧ address x.electionName = a ∧ context.data a = utf8.copyFromUtf8 x.csv

variable {utf8 address}

theorem storeRecord_of_empty {context : Context} {r : ElectionData}
    (h : context.data (address r.electionName) = []) :
    storeRecord utf8 address context r = (.ok (),
      context.put (address r.electionName) (utf8.copyFromUtf8 r.csv)) := by
  rw [storeRecord, storeElectionData_eq, Context.getState, h, utf8.toStringUtf8_nil,
    updatedEntry_nil]

theorem storeRecord_of_record {context : Context} {r x : ElectionData} (hx : x.Plain)
    (hname : ',' ∉ r.electionName)
    (h : context.data (address r.electionName) = utf8.copyFromUtf8 x.csv) :
    storeRecord utf8 address context r =
      if r.electionName <+: x.electionName then (.ok (),
        context.put (address r.electionName) (utf8.copyFromUtf8 r.csv))
      else (.error .indexOutOfBounds, context) := by
  rw [storeRecord, storeElectionData_eq, Context.getState, h,
    utf8.toStringUtf8_copyFromUtf8, updatedEntry_csv hx hname]
  by_cases hpre : r.electionName <+: x.electionName
  · rw [if_pos hpre, if_pos hpre]
  · rw [if_neg hpre, if_neg hpre]

/-- **What one store does**: it writes its record alone at its address, or throws
and changes nothing. -/
theorem storeRecord_cases {rs : List ElectionData} {context : Context} {r : ElectionData}
    (hshape : OneRecord utf8 address rs context) (hname : ',' ∉ r.electionName) :
    storeRecord utf8 address context r = (.ok (),
        context.put (address r.electionName) (utf8.copyFromUtf8 r.csv))
      ∨ storeRecord utf8 address context r = (.error .indexOutOfBounds, context) := by
  rcases hshape (address r.electionName) with hnil | ⟨x, -, hx, -, hdata⟩
  · exact Or.inl (storeRecord_of_empty hnil)
  · rw [storeRecord_of_record hx hname hdata]
    split
    · exact Or.inl rfl
    · exact Or.inr rfl

theorem oneRecord_step {rs : List ElectionData} {context : Context} {r : ElectionData}
    (hr : r.Plain) (hshape : OneRecord utf8 address rs context) :
    OneRecord utf8 address (rs ++ [r]) (storeRecord utf8 address context r).2 := by
  have hkeep : OneRecord utf8 address (rs ++ [r]) context := by
    intro a
    rcases hshape a with hnil | ⟨x, hmem, hrest⟩
    · exact Or.inl hnil
    · exact Or.inr ⟨x, by simp [hmem], hrest⟩
  rcases storeRecord_cases hshape hr.name.comma with h | h
  · rw [h]
    intro a
    by_cases ha : a = address r.electionName
    · exact Or.inr ⟨r, by simp, hr, ha.symm, by simp [ha]⟩
    · simpa [Context.put_data_of_ne _ _ ha] using hkeep a
  · rw [h]
    exact hkeep

/-- **However the stores fall, an address holds one record at most.** -/
theorem oneRecord_run {rs : List ElectionData} (h : ∀ r ∈ rs, r.Plain) :
    OneRecord utf8 address rs (storeAll utf8 address rs) := by
  induction rs using List.reverseRecOn with
  | nil => exact fun a => Or.inl rfl
  | append_singleton rs r ih =>
      rw [storeAll, Machine.run_append]
      exact oneRecord_step (h r (by simp)) (ih fun x hx => h x (by simp [hx]))

/-- Storing at another address does not change what a name reads as. -/
theorem readRecord_elsewhere {rs : List ElectionData} {context : Context} {r : ElectionData}
    (hshape : OneRecord utf8 address rs context) (hname : ',' ∉ r.electionName)
    {name : JString} (hne : address name ≠ address r.electionName) :
    readRecord utf8 address (storeRecord utf8 address context r).2 name
      = readRecord utf8 address context name := by
  rcases storeRecord_cases hshape hname with h | h
  · rw [h, readRecord, readRecord, Context.getState, Context.getState,
      Context.put_data_of_ne _ _ hne]
  · rw [h]

theorem readRecord_of_empty {context : Context} {name : JString}
    (h : context.data (address name) = []) : readRecord utf8 address context name = .absent := by
  rw [readRecord, Context.getState, h, utf8.toStringUtf8_nil, getStateData_nil]

theorem readRecord_of_record {context : Context} {name : JString} {x : ElectionData}
    (hx : x.Plain) (hname : ',' ∉ name)
    (h : context.data (address name) = utf8.copyFromUtf8 x.csv) :
    readRecord utf8 address context name = if name <+: x.electionName then x else .absent := by
  rw [readRecord, Context.getState, h, utf8.toStringUtf8_copyFromUtf8, getStateData_csv hx hname]

end Store

/-! ### The map it should be -/

section Map

variable (utf8 : Utf8) (address : JString → Address)

/-- What a map keyed by election name holds after a sequence of stores. -/
def mapLookup (rs : List ElectionData) (name : JString) : ElectionData :=
  (Machine.latest ElectionData.electionName rs name).getD .absent

/-- No name that shares an address with a stored name is stored too, or is a
prefix of it. -/
def NamesApart (rs : List ElectionData) : Prop :=
  ∀ r ∈ rs, ∀ name, PlainName name → name ≠ r.electionName →
    address name = address r.electionName →
      (∀ s ∈ rs, s.electionName ≠ name) ∧ ¬name <+: r.electionName

/-- The store implements a finite map keyed by election name, over a sequence of stores. -/
structure ActsAsMap (rs : List ElectionData) : Prop where
  /-- No store throws. -/
  stores : ∀ before r after, rs = before ++ r :: after →
    (storeRecord utf8 address (storeAll utf8 address before) r).1 = .ok ()
  /-- A stored record is read back. -/
  readsBack : ∀ before r after, rs = before ++ r :: after →
    readRecord utf8 address (storeAll utf8 address (before ++ [r])) r.electionName = r
  /-- Another name at the same address reads as before. -/
  keepsOthers : ∀ before r after, rs = before ++ r :: after →
    ∀ name, PlainName name → name ≠ r.electionName → address name = address r.electionName →
      readRecord utf8 address (storeAll utf8 address (before ++ [r])) name
        = readRecord utf8 address (storeAll utf8 address before) name
  /-- A name never stored reads as the empty record. -/
  readsAbsent : ∀ before after, rs = before ++ after → ∀ name, PlainName name →
    (∀ r ∈ before, r.electionName ≠ name) →
      readRecord utf8 address (storeAll utf8 address before) name = .absent

variable {utf8 address}

theorem NamesApart.prefix {before after : List ElectionData}
    (h : NamesApart address (before ++ after)) : NamesApart address before := by
  intro r hr name hname hne haddr
  obtain ⟨hstored, hpre⟩ := h r (by simp [hr]) name hname hne haddr
  exact ⟨fun s hs => hstored s (by simp [hs]), hpre⟩

/-- Two stored names at one address are one name. -/
theorem NamesApart.eq {rs : List ElectionData} (h : NamesApart address rs) {r s : ElectionData}
    (hr : r ∈ rs) (hs : s ∈ rs) (hplain : s.Plain)
    (haddr : address s.electionName = address r.electionName) :
    s.electionName = r.electionName := by
  by_contra hne
  exact (h r hr s.electionName hplain.name hne haddr).1 s hs rfl

/-- What an address holds when names are apart: nothing, or the last record
written under the one name that lives there. -/
def HoldsLatest (utf8 : Utf8) (address : JString → Address) (rs : List ElectionData)
    (context : Context) : Prop :=
  ∀ a, (context.data a = [] ∧ ∀ r ∈ rs, address r.electionName ≠ a) ∨
    ∃ x ∈ rs, address x.electionName = a ∧ context.data a = utf8.copyFromUtf8 x.csv ∧
      Machine.latest ElectionData.electionName rs x.electionName = some x

theorem holdsLatest_step {rs : List ElectionData} {context : Context} {r : ElectionData}
    (hplain : ∀ x ∈ rs ++ [r], x.Plain) (hapart : NamesApart address (rs ++ [r]))
    (h : HoldsLatest utf8 address rs context) :
    (storeRecord utf8 address context r).1 = .ok () ∧
      HoldsLatest utf8 address (rs ++ [r]) (storeRecord utf8 address context r).2 := by
  -- names apart: the record already at the address carries the name being stored
  have hstore : storeRecord utf8 address context r = (.ok (),
      context.put (address r.electionName) (utf8.copyFromUtf8 r.csv)) := by
    rcases h (address r.electionName) with ⟨hnil, -⟩ | ⟨x, hx, haddr, hdata, -⟩
    · exact storeRecord_of_empty hnil
    · have hname : x.electionName = r.electionName :=
        hapart.eq (by simp) (by simp [hx]) (hplain x (by simp [hx])) haddr
      rw [storeRecord_of_record (hplain x (by simp [hx])) (hplain r (by simp)).name.comma hdata,
        hname, if_pos (List.prefix_refl _)]
  rw [hstore]
  refine ⟨rfl, fun a => ?_⟩
  by_cases ha : a = address r.electionName
  · subst ha
    exact Or.inr ⟨r, by simp, rfl, by simp, by simp [Machine.latest_concat]⟩
  · rcases h a with ⟨hnil, hnone⟩ | ⟨x, hx, haddr, hdata, hlatest⟩
    · refine Or.inl ⟨by simpa [Context.put_data_of_ne _ _ ha] using hnil, ?_⟩
      intro s hs
      rcases List.mem_append.mp hs with hs' | hs'
      · exact hnone s hs'
      · rw [List.mem_singleton.mp hs']
        exact fun hc => ha hc.symm
    · refine Or.inr ⟨x, by simp [hx], haddr,
        by simpa [Context.put_data_of_ne _ _ ha] using hdata, ?_⟩
      rw [Machine.latest_concat, if_neg ?_, hlatest]
      intro hc
      exact ha (by rw [← haddr, hc])

theorem holdsLatest_run {rs : List ElectionData} (hplain : ∀ r ∈ rs, r.Plain)
    (hapart : NamesApart address rs) :
    HoldsLatest utf8 address rs (storeAll utf8 address rs) := by
  induction rs using List.reverseRecOn with
  | nil => exact fun a => Or.inl ⟨rfl, by simp⟩
  | append_singleton rs r ih =>
      rw [storeAll, Machine.run_append]
      exact (holdsLatest_step hplain hapart
        (ih (fun x hx => hplain x (by simp [hx])) hapart.prefix)).2

/-- **Refinement.** While names are apart, reading is looking up in the map. -/
theorem readRecord_run {rs : List ElectionData} (hplain : ∀ r ∈ rs, r.Plain)
    (hapart : NamesApart address rs) {name : JString} (hname : PlainName name) :
    readRecord utf8 address (storeAll utf8 address rs) name = mapLookup rs name := by
  have hholds : HoldsLatest utf8 address rs (storeAll utf8 address rs) :=
    holdsLatest_run hplain hapart
  rcases hholds (address name) with
    ⟨hnil, hnone⟩ | ⟨x, hx, haddr, hdata, hlatest⟩
  · have hlook : Machine.latest ElectionData.electionName rs name = none :=
      (Machine.latest_eq_none _).mpr fun r hr hc => hnone r hr (by rw [hc])
    rw [readRecord_of_empty hnil, mapLookup, hlook]
    rfl
  · rw [readRecord_of_record (hplain x hx) hname.comma hdata]
    by_cases heq : name = x.electionName
    · rw [if_pos (heq ▸ List.prefix_refl _), mapLookup, heq, hlatest]
      rfl
    · obtain ⟨hstored, hpre⟩ := hapart x hx name hname heq haddr.symm
      rw [if_neg hpre, mapLookup, (Machine.latest_eq_none _).mpr hstored]
      rfl

theorem mapLookup_concat (rs : List ElectionData) (r : ElectionData) (name : JString) :
    mapLookup (rs ++ [r]) name = if r.electionName = name then r else mapLookup rs name := by
  rw [mapLookup, Machine.latest_concat]
  split <;> rfl

theorem actsAsMap_of_namesApart {rs : List ElectionData} (hplain : ∀ r ∈ rs, r.Plain)
    (hapart : NamesApart address rs) : ActsAsMap utf8 address rs := by
  have hreads : ∀ before after, rs = before ++ after → ∀ name, PlainName name →
      readRecord utf8 address (storeAll utf8 address before) name = mapLookup before name := by
    rintro before after rfl name hname
    exact readRecord_run (fun x hx => hplain x (by simp [hx])) hapart.prefix hname
  refine ⟨?_, ?_, ?_, ?_⟩
  · intro before r after h
    have hsplit : rs = (before ++ [r]) ++ after := by simp [h]
    subst hsplit
    have hplain' : ∀ x ∈ before ++ [r], x.Plain := fun x hx =>
      hplain x (List.mem_append_left _ hx)
    exact (holdsLatest_step hplain' hapart.prefix (holdsLatest_run
      (fun x hx => hplain' x (List.mem_append_left _ hx)) hapart.prefix.prefix)).1
  · intro before r after h
    rw [hreads (before ++ [r]) after (by simp [h]) _ (hplain r (by simp [h])).name,
      mapLookup_concat, if_pos rfl]
  · intro before r after h name hname hne _
    rw [hreads (before ++ [r]) after (by simp [h]) name hname,
      hreads before (r :: after) h name hname, mapLookup_concat, if_neg (Ne.symm hne)]
  · intro before after h name hname hnone
    rw [hreads before after h name hname, mapLookup, (Machine.latest_eq_none _).mpr hnone]
    rfl

theorem ActsAsMap.prefix {before after : List ElectionData}
    (h : ActsAsMap utf8 address (before ++ after)) : ActsAsMap utf8 address before where
  stores first r rest hsplit := h.stores first r (rest ++ after) (by simp [hsplit])
  readsBack first r rest hsplit := h.readsBack first r (rest ++ after) (by simp [hsplit])
  keepsOthers first r rest hsplit := h.keepsOthers first r (rest ++ after) (by simp [hsplit])
  readsAbsent first rest hsplit := h.readsAbsent first (rest ++ after) (by simp [hsplit])

/-- A stored name reads as a record of that name, in a store that acts as a map. -/
theorem ActsAsMap.read_name {rs : List ElectionData} (h : ActsAsMap utf8 address rs)
    (hplain : ∀ r ∈ rs, r.Plain) : ∀ r ∈ rs,
      (readRecord utf8 address (storeAll utf8 address rs) r.electionName).electionName
        = r.electionName := by
  induction rs using List.reverseRecOn with
  | nil => intro r hr; simp at hr
  | append_singleton rs s ih =>
      intro r hr
      by_cases hname : r.electionName = s.electionName
      · rw [hname, h.readsBack rs s [] rfl]
      · have hr' : r ∈ rs := by
          rcases List.mem_append.mp hr with hr' | hr'
          · exact hr'
          · exact absurd (by rw [List.mem_singleton.mp hr']) hname
        have hbefore := ih h.prefix (fun x hx => hplain x (by simp [hx])) r hr'
        by_cases haddr : address r.electionName = address s.electionName
        · rw [h.keepsOthers rs s [] rfl _ (hplain r hr).name hname haddr]
          exact hbefore
        · rw [storeAll, Machine.run_append, Machine.run_cons, Machine.run_nil,
            readRecord_elsewhere (oneRecord_run fun x hx => hplain x (by simp [hx]))
              (hplain s (by simp)).name.comma haddr]
          exact hbefore

theorem namesApart_of_actsAsMap {rs : List ElectionData} (hplain : ∀ r ∈ rs, r.Plain)
    (h : ActsAsMap utf8 address rs) : NamesApart address rs := by
  intro r hr name hname hne haddr
  -- the one record at the address carries the stored name
  have hread := h.read_name hplain r hr
  have hshape : OneRecord utf8 address rs (storeAll utf8 address rs) := oneRecord_run hplain
  rcases hshape (address r.electionName) with
    hnil | ⟨x, hx, hxplain, -, hdata⟩
  · rw [readRecord_of_empty hnil] at hread
    exact absurd hread.symm (hplain r hr).name.ne_nil
  · rw [readRecord_of_record hxplain (hplain r hr).name.comma hdata] at hread
    split at hread
    · have hdata' : (storeAll utf8 address rs).data (address name) = utf8.copyFromUtf8 x.csv := by
        rw [haddr, hdata]
      have hother := readRecord_of_record hxplain hname.comma hdata'
      constructor
      · rintro s hs rfl
        have hs' := h.read_name hplain s hs
        rw [hother] at hs'
        split at hs'
        · exact hne (hs'.symm.trans hread)
        · exact absurd hs'.symm hname.ne_nil
      · intro hpre
        by_cases hstored : ∀ s ∈ rs, s.electionName ≠ name
        · rw [h.readsAbsent rs [] (by simp) name hname hstored, if_pos (hread ▸ hpre)] at hother
          exact absurd (congrArg ElectionData.electionName hother).symm hxplain.name.ne_nil
        · push Not at hstored
          obtain ⟨s, hs, rfl⟩ := hstored
          have hs' := h.read_name hplain s hs
          rw [hother, if_pos (hread ▸ hpre)] at hs'
          exact hne (hs'.symm.trans hread)
    · exact absurd hread.symm (hplain r hr).name.ne_nil

/-- **Exactly when the store acts as a map.** -/
theorem actsAsMap_iff {rs : List ElectionData} (hplain : ∀ r ∈ rs, r.Plain) :
    ActsAsMap utf8 address rs ↔ NamesApart address rs :=
  ⟨namesApart_of_actsAsMap hplain, actsAsMap_of_namesApart hplain⟩

end Map

/-! ### Two elections at one address -/

def mayorRecord : ElectionData := ⟨"mayor".toList, "c".toList, "k".toList⟩

def councilRecord : ElectionData := ⟨"council".toList, "d".toList, "k".toList⟩

private theorem plain_of_mem {r : ElectionData} (hr : r ∈ [mayorRecord, councilRecord]) :
    r.Plain := by
  simp only [List.mem_cons, List.not_mem_nil, or_false] at hr
  rcases hr with rfl | rfl <;>
    exact ⟨⟨⟨by decide, by decide⟩, by decide⟩, ⟨by decide, by decide⟩, ⟨by decide, by decide⟩⟩

/-- With an address each, the two are kept apart. -/
theorem actsAsMap_mayor_council : ActsAsMap Utf8.standard id [mayorRecord, councilRecord] :=
  (actsAsMap_iff fun _ => plain_of_mem).mpr fun _ _ _ _ hne haddr => absurd haddr hne

/-- The second election at an address cannot be stored. -/
theorem not_actsAsMap_of_collision :
    ¬ActsAsMap Utf8.standard (fun _ => "address".toList) [mayorRecord, councilRecord] := by
  intro h
  have hstore := h.stores [mayorRecord] councilRecord [] rfl
  have hthrows : (storeRecord Utf8.standard (fun _ => "address".toList)
      (storeAll Utf8.standard (fun _ => "address".toList) [mayorRecord]) councilRecord).1
        = .error .indexOutOfBounds := by decide +kernel
  rw [hthrows] at hstore
  simp at hstore

end Evoting

/-
`_get` and `_get_data` on pages linked by `paging.next`.

The loop of `_get` adds the data of each later page to what it has (`concatPages_items`),
but takes that data from the JSON before it looks at the status code, and of a later
page that is an error the JSON is the reason, a string without a `get`
(`concatPages_fails`); and a `next` that is null or empty is a link to it, which
`requests` refuses (`concatPages_refused`).  The loop of `_get_data` looks at the status
code first and at what `next` is, but asks every page for its `paging`
(`yieldPages_items`, `yieldPages_fails`).  So the two meet their purpose on a lone error,
and on pages of which the last has a `paging` without a `next` (`pagesRight_iff`).
-/
import Evoting.Lib.Fuel
import Evoting.Model.RestClient

namespace Evoting.Rest

/-! ### Chains of pages -/

/-- What the last page has of the object `paging`. -/
inductive LastPaging where
  | noPaging
  /-- An object without the key `next`. -/
  | noNext
  | nullNext
  | emptyNext
  deriving DecidableEq

namespace LastPaging

def paging : LastPaging → Option Paging
  | noPaging => none
  | noNext => some ⟨.absent⟩
  | nullNext => some ⟨.null⟩
  | emptyNext => some ⟨.url []⟩

/-- There is the key `next`, with no url under it. -/
def hasNext : LastPaging → Bool
  | noPaging => false
  | noNext => false
  | nullNext => true
  | emptyNext => true

end LastPaging

/-- Responses linked by `paging.next`, up to a page without a url there or to an error. -/
inductive Chain (Item : Type) where
  | error (code : Nat) (reason : PyString)
  | last (data : List Item) (paging : LastPaging)
  | page (data : List Item) (next : PyString) (rest : Chain Item)
  deriving DecidableEq

namespace Chain

variable {Item : Type}

/-- The data of all pages, in order. -/
def items : Chain Item → List Item
  | error _ _ => []
  | last data _ => data
  | page data _ rest => data ++ rest.items

/-- One of the responses is an error. -/
def fails : Chain Item → Bool
  | error _ _ => true
  | last _ _ => false
  | page _ _ rest => rest.fails

/-- The `paging` of the last page, when there are pages only. -/
def lastPaging : Chain Item → Option LastPaging
  | error _ _ => none
  | last _ paging => some paging
  | page _ _ rest => rest.lastPaging

/-- The first response is the only one, and an error. -/
def isError : Chain Item → Bool
  | error _ _ => true
  | _ => false

theorem fails_eq_false_iff {chain : Chain Item} :
    chain.fails = false ↔ ∃ paging, chain.lastPaging = some paging := by
  induction chain with
  | error code reason => simp [fails, lastPaging]
  | last data paging => simp [fails, lastPaging]
  | page data next rest ih => exact ih

end Chain

section

variable {σ Item : Type}

/-- A response with the status code 200. -/
def IsPage (reply : Except RequestException (Response Item)) (page : Page Item) : Prop :=
  ∃ reason, reply = .ok ⟨200, reason, some page⟩

/-- `requests.get` refuses what is no url: the text of `None`, and the empty one. -/
def RefusesNoUrl (server : Server σ Item) : Prop :=
  ∀ s url params authorization, url ∈ ["None".toList, []] →
    (server s ⟨url, params, authorization⟩).1 = .error .missingSchema

/-- From the state and for the first request, the responses are the chain's, when each next page
is asked for with the parameters. -/
def Serves (server : Server σ Item) (params : Params) : σ → Request → Chain Item → Prop
  | s, request, .error code reason =>
      400 ≤ code ∧ code < 600 ∧ ∃ json, (server s request).1 = .ok ⟨code, reason, json⟩
  | s, request, .last data paging =>
      IsPage (server s request).1 ⟨some data, paging.paging⟩
  | s, request, .page data next rest =>
      IsPage (server s request).1 ⟨some data, some ⟨.url next⟩⟩ ∧ next ≠ [] ∧
        Serves server params (server s request).2 ⟨next, params, request.authorization⟩ rest

end

namespace RestClient

variable {σ Item : Type} (client : RestClient) (server : Server σ Item)

/-- The first request of `_get` and `_get_data`. -/
def firstRequest (path : PyString) (queries : Dict PyString (Option PyString)) : Request :=
  ⟨client.baseUrl ++ path, formatQueries queries, client.authHeader⟩

/-- **What the two loops are for**: with pages only, `_get` returns their data in order and
`_get_data` yields the same; with an error among the responses, both raise a `CliException`. -/
structure PagesRight (s s' : σ) (path : PyString) (queries : Dict PyString (Option PyString))
    (chain : Chain Item) : Prop where
  returns : chain.fails = false →
    ∃ page, Ends (client.get server · s path queries) (.ok (.dict page)) ∧
      page.data = some chain.items
  yields : chain.fails = false →
    Ends (client.getData server · s' path queries) ⟨chain.items, none⟩
  raises : chain.fails = true →
    (∃ message, Ends (client.get server · s path queries) (.error (.cliException message))) ∧
    ∃ items message,
      Ends (client.getData server · s' path queries) ⟨items, some (.cliException message)⟩

end RestClient

namespace RestClient

variable {σ Item : Type} {client : RestClient} {server : Server σ Item} {params : Params}

/-! ### One request -/

theorem submitRequest_ok {s : σ} {url : PyString} {response : Response Item}
    (h : (server s ⟨url, params, client.authHeader⟩).1 = .ok response) :
    client.submitRequest server s url params
      = (readResponse response, (server s ⟨url, params, client.authHeader⟩).2) := by
  unfold submitRequest
  cases hserver : server s ⟨url, params, client.authHeader⟩ with
  | mk reply s' =>
      rw [hserver] at h
      subst h
      rfl

theorem submitRequest_page {s : σ} {url : PyString} {page : Page Item}
    (h : IsPage (server s ⟨url, params, client.authHeader⟩).1 page) :
    client.submitRequest server s url params
      = (.ok (200, .dict page), (server s ⟨url, params, client.authHeader⟩).2) := by
  obtain ⟨reason, hreply⟩ := h
  rw [submitRequest_ok hreply]
  rfl

theorem submitRequest_error {s : σ} {url : PyString} {code : Nat} {reason : PyString}
    (h : Serves server params s ⟨url, params, client.authHeader⟩ (.error code reason)) :
    client.submitRequest server s url params
      = (.ok (code, .str reason), (server s ⟨url, params, client.authHeader⟩).2) := by
  obtain ⟨hlow, hhigh, json, hreply⟩ := h
  rw [submitRequest_ok hreply, readResponse, if_pos ⟨hlow, hhigh⟩]

theorem ne_ok_of_serves {s : σ} {request : Request} {code : Nat} {reason : PyString}
    (h : Serves server params s request (.error code reason)) : code ≠ 200 := by
  obtain ⟨hlow, -⟩ := h
  omega

/-- The exception for a status code is a `CliException`. -/
theorem exists_refusal (client : RestClient) (path : PyString) (code : Nat)
    (result : JsonResult Item) :
    ∃ message, client.refusal path code result = .cliException message := by
  unfold refusal
  split
  · exact ⟨_, rfl⟩
  · exact ⟨_, rfl⟩

/-! ### The loop of `_get` -/

/-- Without the key `next` a page is the last. -/
theorem concatPages_last (s : σ) (data : List Item) {paging : LastPaging}
    (hnext : paging.hasNext = false) :
    Ends (client.concatPages server · s (200, .dict ⟨some data, paging.paging⟩))
      (.ok (200, .dict ⟨some data, paging.paging⟩)) := by
  refine Ends.of_pos fun fuel => ?_
  cases paging <;> first | rfl | simp [LastPaging.hasNext] at hnext

/-- One pass, when the next page is there. -/
theorem concatPages_page {s : σ} {data later : List Item} {next : PyString}
    {paging : Option Paging} {result : Except (Raised Item) (Nat × JsonResult Item)}
    (hreply : IsPage (server s ⟨next, .absent, client.authHeader⟩).1 ⟨some later, paging⟩)
    (h : Ends (client.concatPages server · (server s ⟨next, .absent, client.authHeader⟩).2
      (200, .dict ⟨some (data ++ later), paging⟩)) result) :
    Ends (client.concatPages server · s (200, .dict ⟨some data, some ⟨.url next⟩⟩)) result := by
  refine Ends.succ (g := id) (fun fuel => ?_) h
  rw [concatPages, if_pos (Eq.refl 200)]
  simp only [Option.bind_some, Next.text, submitRequest_page hreply, Option.getD_some,
    Option.map_id, id_eq]

/-- **Pages only** are added up, up to the last. -/
theorem concatPages_items (chain : Chain Item) : ∀ (s : σ) (data : List Item) (next : PyString),
    Serves server .absent s ⟨next, .absent, client.authHeader⟩ chain →
    ∀ {paging : LastPaging}, chain.lastPaging = some paging → paging.hasNext = false →
    Ends (client.concatPages server · s (200, .dict ⟨some data, some ⟨.url next⟩⟩))
      (.ok (200, .dict ⟨some (data ++ chain.items), paging.paging⟩)) := by
  induction chain with
  | error code reason =>
      intro s data next _ paging hlast
      simp [Chain.lastPaging] at hlast
  | last later paging =>
      intro s data next hserves paging' hlast hnext
      obtain rfl : paging = paging' := Option.some.inj hlast
      exact concatPages_page hserves (concatPages_last _ _ hnext)
  | page later next' rest ih =>
      intro s data next hserves paging hlast hnext
      obtain ⟨hreply, -, hrest⟩ := hserves
      have hends := ih _ (data ++ later) next' hrest hlast hnext
      rw [List.append_assoc] at hends
      exact concatPages_page hreply hends

/-- **A `next` without a url** on the last page is refused. -/
theorem concatPages_refused (hrefuses : RefusesNoUrl server) (s : σ) (data : List Item)
    {paging : LastPaging} (hnext : paging.hasNext = true) :
    Ends (client.concatPages server · s (200, .dict ⟨some data, paging.paging⟩))
      (.error (.cliException (.caught .missingSchema))) := by
  have hrefused : ∀ url ∈ ["None".toList, []], client.submitRequest server s url .absent
      = (.error (.cliException (.caught .missingSchema)),
        (server s ⟨url, .absent, client.authHeader⟩).2) := by
    intro url hurl
    have hreply := hrefuses s url .absent client.authHeader hurl
    unfold submitRequest
    cases hserver : server s ⟨url, .absent, client.authHeader⟩ with
    | mk reply s' =>
        rw [hserver] at hreply
        subst hreply
        rfl
  refine Ends.of_pos fun fuel => ?_
  rw [concatPages, if_pos (Eq.refl 200)]
  cases paging with
  | noPaging => simp [LastPaging.hasNext] at hnext
  | noNext => simp [LastPaging.hasNext] at hnext
  | nullNext =>
      simp only [LastPaging.paging, Option.bind_some, Next.text,
        hrefused "None".toList (by simp)]
  | emptyNext =>
      simp only [LastPaging.paging, Option.bind_some, Next.text, hrefused [] (by simp)]

/-- The same after the pages before it. -/
theorem concatPages_laterRefused (hrefuses : RefusesNoUrl server) (chain : Chain Item) :
    ∀ (s : σ) (data : List Item) (next : PyString),
    Serves server .absent s ⟨next, .absent, client.authHeader⟩ chain →
    ∀ {paging : LastPaging}, chain.lastPaging = some paging → paging.hasNext = true →
    Ends (client.concatPages server · s (200, .dict ⟨some data, some ⟨.url next⟩⟩))
      (.error (.cliException (.caught .missingSchema))) := by
  induction chain with
  | error code reason =>
      intro s data next _ paging hlast
      simp [Chain.lastPaging] at hlast
  | last later paging =>
      intro s data next hserves paging' hlast hnext
      obtain rfl : paging = paging' := Option.some.inj hlast
      exact concatPages_page hserves (concatPages_refused hrefuses _ _ hnext)
  | page later next' rest ih =>
      intro s data next hserves paging hlast hnext
      obtain ⟨hreply, -, hrest⟩ := hserves
      exact concatPages_page hreply (ih _ (data ++ later) next' hrest hlast hnext)

/-- **An error on a later page** is asked for its data. -/
theorem concatPages_fails (chain : Chain Item) : ∀ (s : σ) (data : List Item) (next : PyString),
    Serves server .absent s ⟨next, .absent, client.authHeader⟩ chain → chain.fails = true →
    Ends (client.concatPages server · s (200, .dict ⟨some data, some ⟨.url next⟩⟩))
      (.error (.python .attributeError)) := by
  induction chain with
  | error code reason =>
      intro s data next hserves _
      refine Ends.of_pos fun fuel => ?_
      rw [concatPages, if_pos (Eq.refl 200)]
      simp only [Option.bind_some, Next.text, submitRequest_error hserves]
  | last later paging =>
      intro s data next _ hfails
      exact absurd hfails (by simp [Chain.fails])
  | page later next' rest ih =>
      intro s data next hserves hfails
      obtain ⟨hreply, -, hrest⟩ := hserves
      exact concatPages_page hreply (ih _ (data ++ later) next' hrest hfails)

/-! ### `_get` -/

variable {path : PyString} {queries : Dict PyString (Option PyString)}

theorem get_of_first {s s' : σ} {first : Nat × JsonResult Item}
    {result : Except (Raised Item) (Nat × JsonResult Item)}
    (hfirst : client.submitRequest server s (client.baseUrl ++ path) (formatQueries queries)
      = (.ok first, s'))
    (h : Ends (client.concatPages server · s' first) result) :
    Ends (client.get server · s path queries) (result.bind (client.checkStatus path)) := by
  unfold get
  rw [hfirst]
  exact Ends.map (fun r => r.bind (client.checkStatus path)) h

/-- **A lone error** is a `CliException`. -/
theorem get_error {s : σ} {code : Nat} {reason : PyString}
    (h : Serves server params s (client.firstRequest path queries) (.error code reason)) :
    ∃ message, Ends (client.get server · s path queries) (.error (.cliException message)) := by
  have hcode : code ≠ 200 := ne_ok_of_serves h
  obtain ⟨message, hmessage⟩ := exists_refusal client path code (.str reason)
  refine ⟨message, ?_⟩
  have hloop : Ends (client.concatPages server · (server s (client.firstRequest path queries)).2
      (code, .str reason)) (.ok (code, .str reason)) := by
    refine Ends.of_pos fun fuel => ?_
    rw [concatPages, if_neg hcode]
  have hget := get_of_first (submitRequest_error h) hloop
  rw [Except.bind, checkStatus, if_neg hcode, hmessage] at hget
  exact hget

/-- **Pages only** are returned as one, if the last has no `next`. -/
theorem get_items {s : σ} {chain : Chain Item}
    (h : Serves server .absent s (client.firstRequest path queries) chain)
    {paging : LastPaging} (hlast : chain.lastPaging = some paging)
    (hnext : paging.hasNext = false) :
    ∃ page, Ends (client.get server · s path queries) (.ok (.dict page)) ∧
      page.data = some chain.items := by
  cases chain with
  | error code reason => simp [Chain.lastPaging] at hlast
  | last data paging' =>
      obtain rfl : paging' = paging := Option.some.inj hlast
      exact ⟨_, get_of_first (submitRequest_page h) (concatPages_last _ data hnext), rfl⟩
  | page data next rest =>
      obtain ⟨hreply, -, hrest⟩ := h
      exact ⟨_, get_of_first (submitRequest_page hreply)
        (concatPages_items rest _ data next hrest hlast hnext), rfl⟩

/-- **A last page with a `next`** is a `CliException`. -/
theorem get_refused (hrefuses : RefusesNoUrl server) {s : σ} {chain : Chain Item}
    (h : Serves server .absent s (client.firstRequest path queries) chain)
    {paging : LastPaging} (hlast : chain.lastPaging = some paging)
    (hnext : paging.hasNext = true) :
    Ends (client.get server · s path queries)
      (.error (.cliException (.caught .missingSchema))) := by
  cases chain with
  | error code reason => simp [Chain.lastPaging] at hlast
  | last data paging' =>
      obtain rfl : paging' = paging := Option.some.inj hlast
      exact get_of_first (submitRequest_page h) (concatPages_refused hrefuses _ data hnext)
  | page data next rest =>
      obtain ⟨hreply, -, hrest⟩ := h
      exact get_of_first (submitRequest_page hreply)
        (concatPages_laterRefused hrefuses rest _ data next hrest hlast hnext)

/-- **An error after a page** is an `AttributeError`. -/
theorem get_laterError {s : σ} {data : List Item} {next : PyString} {rest : Chain Item}
    (h : Serves server .absent s (client.firstRequest path queries) (.page data next rest))
    (hfails : rest.fails = true) :
    Ends (client.get server · s path queries) (.error (.python .attributeError)) := by
  obtain ⟨hreply, -, hrest⟩ := h
  exact get_of_first (submitRequest_page hreply) (concatPages_fails rest _ data next hrest hfails)

/-! ### The loop of `_get_data` -/

/-- One pass, when there is a page and a next one. -/
theorem yieldPages_page {s : σ} {url next : PyString} {data : List Item} {y : Yielded Item}
    (hurl : url ≠ [])
    (hreply : IsPage (server s ⟨url, params, client.authHeader⟩).1
      ⟨some data, some ⟨.url next⟩⟩)
    (h : Ends (client.yieldPages server path params ·
      (server s ⟨url, params, client.authHeader⟩).2 next) y) :
    Ends (client.yieldPages server path params · s url) (y.after data) := by
  refine Ends.succ (fun fuel => ?_) h
  rw [yieldPages, if_neg hurl, submitRequest_page hreply]
  rfl

/-- The loop stops at an empty url. -/
theorem yieldPages_nil (s : σ) :
    Ends (client.yieldPages server path params · s []) ⟨[], none⟩ :=
  Ends.of_pos fun _ => rfl

/-- What is raised after the items of the last page. -/
def LastPaging.raised : LastPaging → Option (Raised Item)
  | .noPaging => some (.python .keyError)
  | _ => none

/-- **Pages only** are yielded; then the last one is asked for its `paging`. -/
theorem yieldPages_items (chain : Chain Item) : ∀ (s : σ) (url : PyString), url ≠ [] →
    Serves server params s ⟨url, params, client.authHeader⟩ chain →
    ∀ {paging : LastPaging}, chain.lastPaging = some paging →
    Ends (client.yieldPages server path params · s url)
      ⟨chain.items, LastPaging.raised paging⟩ := by
  induction chain with
  | error code reason =>
      intro s url _ _ paging hlast
      simp [Chain.lastPaging] at hlast
  | last data paging =>
      intro s url hurl hserves paging' hlast
      obtain rfl : paging = paging' := Option.some.inj hlast
      cases paging with
      | emptyNext =>
          have hends : Ends (client.yieldPages server path params · s url)
              (Yielded.after data ⟨[], none⟩) :=
            yieldPages_page hurl hserves (yieldPages_nil _)
          rwa [Yielded.after, List.append_nil] at hends
      | noPaging | noNext | nullNext =>
          refine Ends.of_pos fun fuel => ?_
          rw [yieldPages, if_neg hurl, submitRequest_page hserves]
          rfl
  | page data next rest ih =>
      intro s url hurl hserves paging hlast
      obtain ⟨hreply, hnext, hrest⟩ := hserves
      exact yieldPages_page hurl hreply (ih _ next hnext hrest hlast)

/-- **An error** ends the items with a `CliException`, wherever it is. -/
theorem yieldPages_fails (chain : Chain Item) : ∀ (s : σ) (url : PyString), url ≠ [] →
    Serves server params s ⟨url, params, client.authHeader⟩ chain → chain.fails = true →
    ∃ items message, Ends (client.yieldPages server path params · s url)
      ⟨items, some (.cliException message)⟩ := by
  induction chain with
  | error code reason =>
      intro s url hurl hserves _
      obtain ⟨message, hmessage⟩ := exists_refusal client path code (.str reason)
      refine ⟨[], message, Ends.of_pos fun fuel => ?_⟩
      rw [yieldPages, if_neg hurl, submitRequest_error hserves]
      simp only [if_neg (ne_ok_of_serves hserves), hmessage]
  | last data hasPaging =>
      intro s url _ _ hfails
      exact absurd hfails (by simp [Chain.fails])
  | page data next rest ih =>
      intro s url hurl hserves hfails
      obtain ⟨hreply, hnext, hrest⟩ := hserves
      obtain ⟨items, message, hends⟩ := ih _ next hnext hrest hfails
      exact ⟨data ++ items, message, yieldPages_page hurl hreply hends⟩

/-! ### Both -/

theorem firstUrl_ne_nil (client : RestClient) (path : PyString) : client.baseUrl ++ path ≠ [] := by
  intro hnil
  exact client.baseUrl_ne_nil (List.append_eq_nil_iff.mp hnil).1

theorem getData_items {s : σ} {chain : Chain Item}
    (h : Serves server (formatQueries queries) s (client.firstRequest path queries) chain)
    {paging : LastPaging} (hlast : chain.lastPaging = some paging) :
    Ends (client.getData server · s path queries) ⟨chain.items, LastPaging.raised paging⟩ :=
  yieldPages_items chain s _ (firstUrl_ne_nil client path) h hlast

theorem getData_fails {s : σ} {chain : Chain Item}
    (h : Serves server (formatQueries queries) s (client.firstRequest path queries) chain)
    (hfails : chain.fails = true) :
    ∃ items message, Ends (client.getData server · s path queries)
      ⟨items, some (.cliException message)⟩ :=
  yieldPages_fails chain s _ (firstUrl_ne_nil client path) h hfails

/-- Pages only, when both loops do what they are for: the last has a `paging` without a `next`. -/
theorem noNext_of_right {s s' : σ} {chain : Chain Item} (hrefuses : RefusesNoUrl server)
    (hget : Serves server .absent s (client.firstRequest path queries) chain)
    (hdata : Serves server (formatQueries queries) s' (client.firstRequest path queries) chain)
    (hright : client.PagesRight server s s' path queries chain) {paging : LastPaging}
    (hlast : chain.lastPaging = some paging) : paging = .noNext := by
  have hfails : chain.fails = false := Chain.fails_eq_false_iff.mpr ⟨paging, hlast⟩
  have hraised : LastPaging.raised paging = none :=
    congrArg Yielded.raised ((getData_items hdata hlast).unique (hright.yields hfails))
  cases hnext : paging.hasNext with
  | true =>
      obtain ⟨page, hreturns, -⟩ := hright.returns hfails
      have hsame := (get_refused hrefuses hget hlast hnext).unique hreturns
      exact absurd hsame (by simp)
  | false =>
      cases paging with
      | noPaging => simp [LastPaging.raised] at hraised
      | noNext => rfl
      | nullNext => simp [LastPaging.hasNext] at hnext
      | emptyNext => simp [LastPaging.hasNext] at hnext

/-- **When the two loops do what they are for**: on an error that is the first response, and on
pages of which the last has the object `paging` without the key `next`. -/
theorem pagesRight_iff {s s' : σ} {chain : Chain Item} (hrefuses : RefusesNoUrl server)
    (hget : Serves server .absent s (client.firstRequest path queries) chain)
    (hdata : Serves server (formatQueries queries) s' (client.firstRequest path queries) chain) :
    client.PagesRight server s s' path queries chain ↔
      chain.isError = true ∨ chain.lastPaging = some .noNext := by
  constructor
  · intro h
    cases hfails : chain.fails with
    | false =>
        obtain ⟨paging, hlast⟩ := Chain.fails_eq_false_iff.mp hfails
        rw [noNext_of_right hrefuses hget hdata h hlast] at hlast
        exact Or.inr hlast
    | true =>
        cases chain with
        | error code reason => exact Or.inl rfl
        | last data paging => simp [Chain.fails] at hfails
        | page data next rest =>
            obtain ⟨⟨message, hraises⟩, -⟩ := h.raises hfails
            have hsame := (get_laterError hget hfails).unique hraises
            exact absurd hsame (by simp)
  · rintro (herror | hlast)
    · cases chain with
      | error code reason =>
          refine ⟨fun hfails => ?_, fun hfails => ?_, fun _ =>
            ⟨get_error hget, getData_fails hdata rfl⟩⟩
          · exact absurd hfails (by simp [Chain.fails])
          · exact absurd hfails (by simp [Chain.fails])
      | last data paging => exact absurd herror (by simp [Chain.isError])
      | page data next rest => exact absurd herror (by simp [Chain.isError])
    · have hfails := Chain.fails_eq_false_iff.mpr ⟨_, hlast⟩
      refine ⟨fun _ => get_items hget hlast rfl, fun _ => getData_items hdata hlast,
        fun hfails' => ?_⟩
      exact absurd (hfails.symm.trans hfails') (by simp)

/-! ### Examples -/

/-- Replies in turn, but for what is no url. -/
def inTurn (s : List (Response Nat)) (request : Request) :
    Except RequestException (Response Nat) × List (Response Nat) :=
  if request.url = "None".toList ∨ request.url = [] then (.error .missingSchema, s)
  else
    match s with
    | [] => (.error .connectionError, [])
    | response :: rest => (.ok response, rest)

theorem inTurn_refuses : RefusesNoUrl inTurn := by
  intro s url params authorization hurl
  have hno : url = "None".toList ∨ url = [] := by simpa using hurl
  unfold inTurn
  rw [if_pos hno]

def pageReply (data : List Nat) (paging : Option Paging) : Response Nat :=
  ⟨200, ['O', 'K'], some ⟨some data, paging⟩⟩

def localClient : RestClient := ⟨"http://localhost:8008".toList, none, by simp⟩

def batchesPath : PyString := ['/', 'b', 'a', 't', 'c', 'h', 'e', 's']

def secondUrl : PyString := ['h', 't', 't', 'p', ':', '/', '/', 'n']

/-- Two pages. -/
def bothReplies : List (Response Nat) :=
  [pageReply [1, 2] (some ⟨.url secondUrl⟩), pageReply [3] (some ⟨.absent⟩)]

theorem pagesRight_twoPages :
    localClient.PagesRight inTurn bothReplies bothReplies batchesPath Dict.empty
      (.page [1, 2] secondUrl (.last [3] .noNext)) := by
  have hget : Serves inTurn .absent bothReplies (localClient.firstRequest batchesPath Dict.empty)
      (.page [1, 2] secondUrl (.last [3] .noNext)) := ⟨⟨_, rfl⟩, by simp [secondUrl], _, rfl⟩
  have hdata : Serves inTurn (formatQueries Dict.empty) bothReplies
      (localClient.firstRequest batchesPath Dict.empty)
      (.page [1, 2] secondUrl (.last [3] .noNext)) := ⟨⟨_, rfl⟩, by simp [secondUrl], _, rfl⟩
  exact (pagesRight_iff inTurn_refuses hget hdata).mpr (Or.inr rfl)

/-- A page, and an error where the next one should be. -/
def lostReplies : List (Response Nat) :=
  [pageReply [1] (some ⟨.url secondUrl⟩), ⟨404, ['N', 'o', 't'], none⟩]

def lostChain : Chain Nat := .page [1] secondUrl (.error 404 ['N', 'o', 't'])

/-- One page, with some `paging`. -/
def oneReply (paging : LastPaging) : List (Response Nat) := [pageReply [1] paging.paging]

theorem serves_oneReply (params : Params) (paging : LastPaging) :
    Serves inTurn params (oneReply paging) (localClient.firstRequest batchesPath Dict.empty)
      (.last [1] paging) := ⟨_, rfl⟩

/-- An error on the second page is an `AttributeError` of `_get`; a page without `paging` is a
`KeyError` of `_get_data`; and a page whose `next` is null is a `CliException` of `_get`. -/
theorem not_pagesRight :
    (RefusesNoUrl inTurn ∧
      Serves inTurn .absent lostReplies (localClient.firstRequest batchesPath Dict.empty)
        lostChain ∧
      Serves inTurn (formatQueries Dict.empty) lostReplies
        (localClient.firstRequest batchesPath Dict.empty) lostChain ∧
      (∀ fuel, localClient.get inTurn (fuel + 1) lostReplies batchesPath Dict.empty
        = some (.error (.python .attributeError))) ∧
      ¬localClient.PagesRight inTurn lostReplies lostReplies batchesPath Dict.empty lostChain) ∧
    (Serves inTurn .absent (oneReply .noPaging) (localClient.firstRequest batchesPath Dict.empty)
        (.last [1] .noPaging) ∧
      Serves inTurn (formatQueries Dict.empty) (oneReply .noPaging)
        (localClient.firstRequest batchesPath Dict.empty) (.last [1] .noPaging) ∧
      (∀ fuel, localClient.getData inTurn (fuel + 1) (oneReply .noPaging) batchesPath Dict.empty
        = some ⟨[1], some (.python .keyError)⟩) ∧
      ¬localClient.PagesRight inTurn (oneReply .noPaging) (oneReply .noPaging) batchesPath
        Dict.empty (.last [1] .noPaging)) ∧
    (Serves inTurn .absent (oneReply .nullNext) (localClient.firstRequest batchesPath Dict.empty)
        (.last [1] .nullNext) ∧
      Serves inTurn (formatQueries Dict.empty) (oneReply .nullNext)
        (localClient.firstRequest batchesPath Dict.empty) (.last [1] .nullNext) ∧
      (∀ fuel, localClient.get inTurn (fuel + 1) (oneReply .nullNext) batchesPath Dict.empty
        = some (.error (.cliException (.caught .missingSchema)))) ∧
      ¬localClient.PagesRight inTurn (oneReply .nullNext) (oneReply .nullNext) batchesPath
        Dict.empty (.last [1] .nullNext)) := by
  have hlost : Serves inTurn .absent lostReplies
      (localClient.firstRequest batchesPath Dict.empty) lostChain :=
    ⟨⟨_, rfl⟩, by simp [secondUrl], by omega, by omega, _, rfl⟩
  have hlost' : Serves inTurn (formatQueries Dict.empty) lostReplies
      (localClient.firstRequest batchesPath Dict.empty) lostChain :=
    ⟨⟨_, rfl⟩, by simp [secondUrl], by omega, by omega, _, rfl⟩
  refine ⟨⟨inTurn_refuses, hlost, hlost', fun fuel => rfl, fun h => ?_⟩,
    ⟨serves_oneReply _ _, serves_oneReply _ _, fun fuel => rfl, fun h => ?_⟩,
    serves_oneReply _ _, serves_oneReply _ _, fun fuel => rfl, fun h => ?_⟩
  · obtain ⟨⟨message, hraises⟩, -⟩ := h.raises rfl
    have hget : Ends (localClient.get inTurn · lostReplies batchesPath Dict.empty)
        (.error (.python .attributeError)) := Ends.of_pos fun fuel => rfl
    exact absurd (hget.unique hraises) (by simp)
  · have hdata : Ends (localClient.getData inTurn · (oneReply .noPaging) batchesPath Dict.empty)
        ⟨[1], some (.python .keyError)⟩ := Ends.of_pos fun fuel => rfl
    exact absurd (congrArg Yielded.raised (hdata.unique (h.yields rfl))) (by simp)
  · have hget : Ends (localClient.get inTurn · (oneReply .nullNext) batchesPath Dict.empty)
        (.error (.cliException (.caught .missingSchema))) := Ends.of_pos fun fuel => rfl
    obtain ⟨page, hreturns, -⟩ := h.returns rfl
    exact absurd (hget.unique hreturns) (by simp)

end RestClient

end Evoting.Rest

/-
`RestClient`: fetching what comes in pages.

`requests.get` is a step of whatever answers it, from one state to the next; what it
returns and what it raises are all that the client sees of it.  Both loops follow
`paging.next` and take fuel.  `_get` asks whether there is such a key, `_get_data` whether
there is a url under it.  `_get` adds the query only to its first request, `_get_data` to
every one.
-/
import Evoting.Lib.Dict
import Evoting.Python.Basic

namespace Evoting.Rest

/-! ### Requests and responses -/

/-- `params`; a query is its name and the text of its value. -/
inductive Params where
  /-- `None` -/
  | absent
  /-- `''` -/
  | empty
  | dict (queries : Dict PyString PyString)

/-- `_format_queries`. -/
def formatQueries (queries : Dict PyString (Option PyString)) : Params :=
  let given := queries.filterMapValues id
  if given.entries.isEmpty then .empty else .dict given

structure Request where
  url : PyString
  params : Params
  /-- The header `Authorization`. -/
  authorization : Option PyString

/-- What the object `paging` of a page has under the key `next`. -/
inductive Next where
  /-- There is no such key. -/
  | absent
  | null
  | url (link : PyString)
  deriving DecidableEq

/-- What `requests` makes of it as a url, if there is the key; it takes any object by its text. -/
def Next.text : Next → Option PyString
  | .absent => none
  | .null => some "None".toList
  | .url link => some link

/-- The object `paging` of a page. -/
structure Paging where
  next : Next
  deriving DecidableEq

/-- The JSON object that a body is; of its fields, those that are read. -/
structure Page (Item : Type) where
  data : Option (List Item)
  paging : Option Paging
  deriving DecidableEq

structure Response (Item : Type) where
  statusCode : Nat
  reason : PyString
  /-- `json()`; nothing where the body is not JSON. -/
  json : Option (Page Item)

/-- What `requests.get` raises. -/
inductive RequestException where
  | remoteDisconnected
  | missingSchema
  | invalidURL
  | invalidSchema
  | connectionError
  /-- One that the client does not catch, as a timeout. -/
  | other
  deriving DecidableEq

/-- `requests.get`. -/
abbrev Server (σ Item : Type) := σ → Request → Except RequestException (Response Item) × σ

/-! ### What the client returns and raises -/

/-- The second component of what `_submit_request` returns. -/
inductive JsonResult (Item : Type) where
  | dict (page : Page Item)
  | str (reason : PyString)
  deriving DecidableEq

/-- The message of a `CliException`. -/
inductive CliMessage (Item : Type) where
  /-- `'{}: There is no resource with the identifier "{}"'` -/
  | noResource (baseUrl identifier : PyString)
  /-- `"{}: {} {}"` -/
  | status (baseUrl : PyString) (code : Nat) (result : JsonResult Item)
  | caught (e : RequestException)
  /-- `'Schema not valid in "{}": make sure URL has valid schema'` -/
  | schemaNotValid (baseUrl : PyString)
  /-- `'Unable to connect to "{}": make sure URL is correct'` -/
  | unableToConnect (baseUrl : PyString)
  deriving DecidableEq

inductive Raised (Item : Type) where
  | cliException (message : CliMessage Item)
  | python (e : PyException)
  | requests (e : RequestException)
  deriving DecidableEq

structure RestClient where
  baseUrl : PyString
  authHeader : Option PyString
  /-- The constructor takes `'http://localhost:8008'` for an empty one. -/
  baseUrl_ne_nil : baseUrl ≠ []

namespace RestClient

variable {σ Item : Type} (client : RestClient) (server : Server σ Item)

/-! ### `_submit_request` -/

/-- The `except` clauses. -/
def reraise : RequestException → Raised Item
  | .remoteDisconnected => .cliException (.caught .remoteDisconnected)
  | .missingSchema => .cliException (.caught .missingSchema)
  | .invalidURL => .cliException (.caught .invalidURL)
  | .invalidSchema => .cliException (.schemaNotValid client.baseUrl)
  | .connectionError => .cliException (.unableToConnect client.baseUrl)
  | .other => .requests .other

/-- The status code and the JSON of a response, or its reason where `raise_for_status` raises. -/
def readResponse (response : Response Item) : Except (Raised Item) (Nat × JsonResult Item) :=
  if 400 ≤ response.statusCode ∧ response.statusCode < 600 then
    .ok (response.statusCode, .str response.reason)
  else
    match response.json with
    | some page => .ok (response.statusCode, .dict page)
    | none => .error (.python .valueError)

/-- `_submit_request`, with the method `GET`. -/
def submitRequest (s : σ) (url : PyString) (params : Params) :
    Except (Raised Item) (Nat × JsonResult Item) × σ :=
  match server s ⟨url, params, client.authHeader⟩ with
  | (.ok response, s) => (readResponse response, s)
  | (.error e, s) => (.error (client.reraise e), s)

/-- The exception for a status code that is not 200. -/
def refusal (path : PyString) (code : Nat) (result : JsonResult Item) : Raised Item :=
  if code = 404 then
    .cliException (.noResource client.baseUrl ((pySplit '/' path).getLastD []))
  else .cliException (.status client.baseUrl code result)

/-! ### `_get` -/

/-- The loop of `_get`, unless the fuel runs out. -/
def concatPages : Nat → σ → Nat × JsonResult Item →
    Option (Except (Raised Item) (Nat × JsonResult Item))
  | 0, _, _ => none
  | fuel + 1, s, (code, jsonResult) =>
      if code = 200 then
        match jsonResult with
        | .str _ => some (.error (.python .attributeError))
        | .dict page =>
            match page.paging.bind fun paging => paging.next.text with
            -- `'next' in json_result.get('paging', {})`, whatever it is
            | none => some (.ok (code, .dict page))
            | some next =>
                match client.submitRequest server s next .absent with
                | (.error e, _) => some (.error e)
                -- `json_result` is the reason, a string has no `get`
                | (.ok (_, .str _), _) => some (.error (.python .attributeError))
                | (.ok (code, .dict later), s) =>
                    let previousData := page.data.getD []
                    concatPages fuel s
                      (code, .dict { later with data := some (previousData ++ later.data.getD []) })
      else some (.ok (code, jsonResult))

/-- What `_get` does with the status code after the loop. -/
def checkStatus (path : PyString) (result : Nat × JsonResult Item) :
    Except (Raised Item) (JsonResult Item) :=
  if result.1 = 200 then .ok result.2 else .error (client.refusal path result.1 result.2)

/-- `_get`. -/
def get (fuel : Nat) (s : σ) (path : PyString) (queries : Dict PyString (Option PyString)) :
    Option (Except (Raised Item) (JsonResult Item)) :=
  match client.submitRequest server s (client.baseUrl ++ path) (formatQueries queries) with
  | (.error e, _) => some (.error e)
  | (.ok first, s) =>
      (client.concatPages server fuel s first).map fun r => r.bind (client.checkStatus path)

/-! ### `_get_data` -/

/-- The items a generator gives, and what it raises after them. -/
structure Yielded (Item : Type) where
  items : List Item
  raised : Option (Raised Item)
  deriving DecidableEq

/-- The items of a page, before those of the pages after it. -/
def Yielded.after (items : List Item) (y : Yielded Item) : Yielded Item :=
  ⟨items ++ y.items, y.raised⟩

/-- The loop of `_get_data`, unless the fuel runs out. -/
def yieldPages (path : PyString) (params : Params) : Nat → σ → PyString → Option (Yielded Item)
  | 0, _, _ => none
  | fuel + 1, s, url =>
      if url = [] then some ⟨[], none⟩
      else
        match client.submitRequest server s url params with
        | (.error e, _) => some ⟨[], some e⟩
        | (.ok (code, jsonResult), s) =>
            if code = 200 then
              match jsonResult with
              | .str _ => some ⟨[], some (.python .attributeError)⟩
              | .dict page =>
                  let items := page.data.getD []
                  match page.paging with
                  | none => some ⟨items, some (.python .keyError)⟩
                  | some ⟨.absent⟩ => some ⟨items, none⟩
                  | some ⟨.null⟩ => some ⟨items, none⟩
                  | some ⟨.url next⟩ => (yieldPages path params fuel s next).map (.after items)
            else some ⟨[], some (client.refusal path code jsonResult)⟩

/-- `_get_data`, when all of it is consumed. -/
def getData (fuel : Nat) (s : σ) (path : PyString) (queries : Dict PyString (Option PyString)) :
    Option (Yielded Item) :=
  client.yieldPages server path (formatQueries queries) fuel s (client.baseUrl ++ path)

end RestClient

end Evoting.Rest

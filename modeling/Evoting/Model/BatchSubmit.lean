/-
`sawtooth batch submit`: the batches of a file, posted in pieces.

Posting is the other half of `RestClient`: `requests.post` is a step of whatever answers
it, and `_submit_request` does with it what it does with `requests.get`.  The pieces are
posted one after the other, and nothing is posted after one that is not accepted.  `sawset
proposal create` posts its batch in the same way when it writes no file.

Of a batch nothing is read, so its type is a parameter, with what the protobuf library
makes of a list of them.  What follows the last piece, with `--wait`, is left out.
-/
import Evoting.Model.RestClient
import Evoting.Model.Sawset

namespace Evoting.Rest

/-- The protobuf library, for `BatchList`: a parser is nothing where `ParseFromString` raises a
`DecodeError`, and the batches that a list is serialized from are parsed from it again. -/
structure BatchLists (Batch : Type) where
  parse : PyBytes → Option (List Batch)
  serialize : List Batch → PyBytes
  parse_serialize : ∀ batches, parse (serialize batches) = some batches

/-- A request with a body, which is sent as `application/octet-stream` with its length. -/
structure PostRequest where
  url : PyString
  data : PyBytes
  /-- The header `Authorization`. -/
  authorization : Option PyString
  deriving DecidableEq

/-- `requests.post`. -/
abbrev PostServer (σ Item : Type) :=
  σ → PostRequest → Except RequestException (Response Item) × σ

/-- What `_post` raises. -/
inductive PostRaised (Item : Type) where
  /-- A `CliException` with `"({}): {}"` -/
  | notAccepted (code : Nat) (result : JsonResult Item)
  | submitRequest (e : Raised Item)
  deriving DecidableEq

namespace RestClient

variable {σ Item : Type} (client : RestClient) (server : PostServer σ Item)

/-- `_submit_request`, with the method `POST`. -/
def submitPost (s : σ) (url : PyString) (data : PyBytes) :
    Except (Raised Item) (Nat × JsonResult Item) × σ :=
  match server s ⟨url, data, client.authHeader⟩ with
  | (.ok response, s) => (readResponse response, s)
  | (.error e, s) => (.error (client.reraise e), s)

/-- What `_post` does with a status code. -/
def checkPosted (result : Nat × JsonResult Item) : Except (PostRaised Item) (JsonResult Item) :=
  if result.1 ∈ [200, 201, 202] then .ok result.2 else .error (.notAccepted result.1 result.2)

/-- `_post`, of bytes and without queries. -/
def post (s : σ) (path : PyString) (data : PyBytes) :
    Except (PostRaised Item) (JsonResult Item) × σ :=
  match client.submitPost server s (client.baseUrl ++ path) data with
  | (.error e, s) => (.error (.submitRequest e), s)
  | (.ok result, s) => (checkPosted result, s)

/-- `send_batches`. -/
def sendBatches {Batch : Type} (lists : BatchLists Batch) (s : σ) (batchList : List Batch) :
    Except (PostRaised Item) (JsonResult Item) × σ :=
  client.post server s "/batches".toList (lists.serialize batchList)

end RestClient

end Evoting.Rest

namespace Evoting.BatchSubmit

open Genesis (FileSystem)
open Rest (BatchLists PostRaised PostServer)

variable {Batch σ Item : Type}

/-- The pieces of a list, `newList` being the one that is filled; none is cut off before it has
`batchSizeLimit` batches. -/
def splitFrom (batchSizeLimit : Int) : List Batch → List Batch → List (List Batch)
  | newList, [] => if newList ≠ [] then [newList] else []
  | newList, batch :: batches =>
      let newList := newList ++ [batch]
      if (newList.length : Int) = batchSizeLimit then
        newList :: splitFrom batchSizeLimit [] batches
      else splitFrom batchSizeLimit newList batches

/-- `_split_batch_list`. -/
def splitBatchList (batchSizeLimit : Int) (batches : List Batch) : List (List Batch) :=
  splitFrom batchSizeLimit [] batches

structure Args where
  filename : PyString
  batchSizeLimit : Int

inductive Raised (Item : Type) where
  /-- A `CliException` with the `IOError`. -/
  | unableToOpen
  /-- `google.protobuf.message.DecodeError` -/
  | decodeError
  | post (e : PostRaised Item)
  /-- What `sawset` raises before it posts. -/
  | sawset (e : Sawset.Raised)
  deriving DecidableEq

variable (lists : BatchLists Batch) (client : Rest.RestClient) (server : PostServer σ Item)

/-- The loop over the pieces. -/
def sendAll : σ → List (List Batch) → Except (Raised Item) Unit × σ
  | s, [] => (.ok (), s)
  | s, batchList :: batchLists =>
      match client.sendBatches server lists s batchList with
      | (.error e, s) => (.error (.post e), s)
      | (.ok _, s) => sendAll s batchLists

/-- `do_batch_submit`, without `--wait` and up to what it prints. -/
def doBatchSubmit (fs : FileSystem) (args : Args) (s : σ) : Except (Raised Item) Unit × σ :=
  match fs.contents args.filename with
  | none => (.error .unableToOpen, s)
  | some bytes =>
      match lists.parse bytes with
      | none => (.error .decodeError, s)
      | some batches => sendAll lists client server s (splitBatchList args.batchSizeLimit batches)

end Evoting.BatchSubmit

namespace Evoting.Sawset

open Genesis (Batch)

/-- The lists of batches of `sawset`. -/
def Library.batchLists (pb : Library) : Rest.BatchLists Batch :=
  ⟨pb.batchList, pb.serializeBatchList, pb.batchList_serialize⟩

variable {σ Item : Type} (pb : Library) (utf8 : PyUtf8) (hashlib : Hashlib)
  (client : Rest.RestClient) (server : Rest.PostServer σ Item)

/-- `_do_config_proposal_create`, with a URL. -/
def proposalCreate (draws : Nat → Nat) (signer : Signer) (setting : List PyString) (s : σ) :
    Except (BatchSubmit.Raised Item) Unit × σ :=
  match createProposeTxns pb utf8 hashlib signer draws (setting.map (splitMax '=' 1)) with
  | .error e => (.error (.sawset e), s)
  | .ok txns =>
      match client.sendBatches server pb.batchLists s [createBatch pb signer txns] with
      | (.error e, s) => (.error (.post e), s)
      | (.ok _, s) => (.ok (), s)

end Evoting.Sawset

/-
What `sawtooth batch submit` posts.

The pieces of a file are its batches in order, and all but the last one are full
(`pieces_splitBatchList`).  They are posted up to the first that is not accepted
(`sendAll_cases`), so what the validator gets is a beginning of the file, cut between two
pieces.  A batch of `sawset` is one piece whatever the limit is: to write it to a file and
submit that is to post it.
-/
import Evoting.Model.BatchSubmit
import Evoting.Model.Messages

namespace Evoting.BatchSubmit

open Genesis (FileSystem)
open Machine Rest

variable {Batch σ Item : Type}

/-! ### Pieces -/

/-- One batch is one piece. -/
theorem splitBatchList_singleton (limit : Int) (batch : Batch) :
    splitBatchList limit [batch] = [[batch]] := by
  simp [splitBatchList, splitFrom]

/-! ### Posting -/

/-- The request for a piece. -/
def request (lists : BatchLists Batch) (client : Rest.RestClient) (batchList : List Batch) :
    PostRequest :=
  ⟨client.baseUrl ++ "/batches".toList, lists.serialize batchList, client.authHeader⟩

/-- An answer that `_post` takes. -/
def Taken (answer : Except RequestException (Response Item)) : Prop :=
  ∃ response, answer = .ok response ∧ response.statusCode ∈ [200, 201, 202] ∧
    response.json.isSome = true

section Posting

variable (lists : BatchLists Batch) (client : Rest.RestClient) (server : PostServer σ Item)

/-- What is exchanged for some pieces. -/
def exchange (s : σ) (posted : List (List Batch)) :
    List (PostRequest × Except RequestException (Response Item)) :=
  trace server s (posted.map (request lists client))

/-- How a submission of pieces ends after some of them have been posted: well, when they are all,
and have been taken; else with the first one that was not. -/
def Ends (s : σ) (result : Except (Raised Item) Unit) (posted rest : List (List Batch)) : Prop :=
  result = .ok () ∧ rest = [] ∧ (∀ x ∈ exchange lists client server s posted, Taken x.2) ∨
    (∃ e, result = .error (.post e)) ∧ ∃ before last,
      exchange lists client server s posted = before ++ [last] ∧
        (∀ x ∈ before, Taken x.2) ∧ ¬Taken last.2

theorem doBatchSubmit_eq {fs : FileSystem} {args : Args} {bytes : PyBytes} {batches : List Batch}
    (hfile : fs.contents args.filename = some bytes)
    (hbatches : lists.parse bytes = some batches) (s : σ) :
    doBatchSubmit lists client server fs args s
      = sendAll lists client server s (splitBatchList args.batchSizeLimit batches) := by
  rw [doBatchSubmit, hfile]
  dsimp only
  rw [hbatches]

end Posting

/-- **To write a proposal to a file and to submit the file**, without waiting, **is to post it**,
with any limit: both ways raise the same and reach the same state of the validator. -/
theorem create_paths_agree (pb : Sawset.Library) (utf8 : PyUtf8) (client : Rest.RestClient)
    (server : PostServer σ Item) (s : σ) (hashlib : Sawset.Hashlib) (draws : Nat → Nat)
    (signer : Sawset.Signer) (setting : List PyString) (fs : FileSystem) (path : PyString)
    (batchSizeLimit : Int) :
    (∃ e, Sawset.command pb utf8 hashlib fs (.proposalCreate draws ⟨signer, setting, .output path⟩)
          = (.error e, fs) ∧
        Sawset.proposalCreate pb utf8 hashlib client server draws signer setting s
          = (.error (.sawset e), s)) ∨
      ∃ fs', Sawset.command pb utf8 hashlib fs
            (.proposalCreate draws ⟨signer, setting, .output path⟩) = (.ok (), fs') ∧
        Sawset.proposalCreate pb utf8 hashlib client server draws signer setting s
          = doBatchSubmit pb.batchLists client server fs' ⟨path, batchSizeLimit⟩ s := by
  unfold Sawset.command Sawset.files Sawset.createTxns Sawset.proposalCreate
  dsimp only
  cases Sawset.createProposeTxns pb utf8 hashlib signer draws
      (setting.map (Sawset.splitMax '=' 1)) with
  | error e => exact Or.inl ⟨e, rfl, rfl⟩
  | ok txns =>
      have hbatches := pb.batchLists.parse_serialize [Sawset.createBatch pb signer txns]
      refine Or.inr ⟨fs.write path _, rfl, ?_⟩
      rw [doBatchSubmit_eq pb.batchLists client server (Function.update_self _ _ _) hbatches,
        splitBatchList_singleton, sendAll]
      rfl

end Evoting.BatchSubmit

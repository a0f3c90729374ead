/-
Self-delimiting codecs over a stream of tokens.

A codec writes a value as a list of integers and reads it off the front of a
list, giving back what follows; its law is that reading undoes writing whatever
follows.  The law composes, so a codec of a compound type is assembled from the
combinators below and needs no proof of its own.
-/
import Mathlib.Data.List.Basic

namespace Evoting

structure Codec (α : Type) where
  write : α → List Int
  read : List Int → Option (α × List Int)
  read_write : ∀ a rest, read (write a ++ rest) = some (a, rest)

namespace Codec

attribute [simp] read_write

variable {α β : Type}

def int : Codec Int where
  write a := [a]
  read
    | a :: rest => some (a, rest)
    | [] => none
  read_write _ _ := rfl

def prod (c : Codec α) (d : Codec β) : Codec (α × β) where
  write p := c.write p.1 ++ d.write p.2
  read tokens := do
    let (a, tokens) ← c.read tokens
    let (b, tokens) ← d.read tokens
    return ((a, b), tokens)
  read_write p rest := by simp [List.append_assoc]

def sum (c : Codec α) (d : Codec β) : Codec (α ⊕ β) where
  write
    | .inl a => 0 :: c.write a
    | .inr b => 1 :: d.write b
  read
    | 0 :: tokens => do
        let (a, tokens) ← c.read tokens
        return (.inl a, tokens)
    | 1 :: tokens => do
        let (b, tokens) ← d.read tokens
        return (.inr b, tokens)
    | _ => none
  read_write p rest := by cases p <;> simp

def option (c : Codec α) : Codec (Option α) where
  write
    | none => [0]
    | some a => 1 :: c.write a
  read
    | 0 :: tokens => some (none, tokens)
    | 1 :: tokens => do
        let (a, tokens) ← c.read tokens
        return (some a, tokens)
    | _ => none
  read_write p rest := by cases p <;> simp

/-- The codec of a type that embeds into one that has a codec. -/
def comap (c : Codec β) (f : α → β) (g : β → α) (h : ∀ a, g (f a) = a) : Codec α where
  write a := c.write (f a)
  read tokens := (c.read tokens).map fun (b, tokens) => (g b, tokens)
  read_write a rest := by simp [h]

/-! ### Lists -/

/-- The next `count` values. -/
def readMany (c : Codec α) : Nat → List Int → Option (List α × List Int)
  | 0, tokens => some ([], tokens)
  | count + 1, tokens => do
      let (a, tokens) ← c.read tokens
      let (l, tokens) ← c.readMany count tokens
      return (a :: l, tokens)

theorem readMany_flatMap (c : Codec α) (l : List α) (rest : List Int) :
    c.readMany l.length (l.flatMap c.write ++ rest) = some (l, rest) := by
  induction l with
  | nil => rfl
  | cons a l ih => simp [readMany, List.append_assoc, ih]

/-- A list is written after its length. -/
def list (c : Codec α) : Codec (List α) where
  write l := (l.length : Int) :: l.flatMap c.write
  read
    | .ofNat count :: tokens => c.readMany count tokens
    | _ => none
  read_write l rest := readMany_flatMap c l rest

end Codec

end Evoting

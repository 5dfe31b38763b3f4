/-!
# Collections of distinct elements

A collection holds each of its elements once. Its order is that of first insertion, and `sorted`
gives the elements in an order of the caller's choice.
-/

namespace CallConv

/-- A list of elements that are all different. -/
structure Distinct (α : Type) where
  /-- The elements. -/
  elements : List α
  /-- No element occurs twice. -/
  nodup : elements.Nodup

namespace Distinct

variable {α : Type} [DecidableEq α]

/-- The collection without elements. -/
def empty : Distinct α := ⟨[], List.nodup_nil⟩

/-- Whether an element is in a collection. -/
def contains (s : Distinct α) (a : α) : Bool := decide (a ∈ s.elements)

/-- The number of elements. -/
def size (s : Distinct α) : Nat := s.elements.length

/-- A collection with one more element, unless it is there already. -/
def insert (s : Distinct α) (a : α) : Distinct α :=
  if h : a ∈ s.elements then s
  else ⟨s.elements ++ [a], by
    rw [List.nodup_append]
    refine ⟨s.nodup, by simp, ?_⟩
    intro b hb c hc
    simp only [List.mem_singleton] at hc
    subst hc
    intro hbc
    exact h (hbc ▸ hb)⟩

/-- A collection with all of some elements. -/
def insertMany (s : Distinct α) (as : List α) : Distinct α := as.foldl insert s

/-- The collection of the elements of a list. -/
def ofList (as : List α) : Distinct α := empty.insertMany as

/-- The elements in the order in which `le` puts them. -/
def sorted (s : Distinct α) (le : α → α → Bool) : List α := s.elements.mergeSort le

end Distinct

end CallConv

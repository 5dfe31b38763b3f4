import Mathlib
import CallConv.Collection.Distinct
import CallConv.Text.Basic

/-!
# Sorted collections of texts

The elements of a collection come out in the order of their bytes, each once
(`Distinct.pairwise_sorted`), and are those that were put in.
-/

namespace CallConv

/-! ## The order of texts -/

namespace Text

/-- Comparing texts is comparing them byte by byte, as lists are compared. -/
theorem compare_eq_gt_iff {s t : Text} : compare s t = .gt ↔ t < s := by
  induction s generalizing t with
  | nil => cases t <;> simp [compare]
  | cons a s ih =>
    cases t with
    | nil => simp [compare]
    | cons b t =>
      rw [compare, List.cons_lt_cons_iff, ← ih]
      split
      · next hlt =>
        have hne : ¬b = a := fun heq => Std.lt_irrefl (heq ▸ hlt)
        simp [Std.le_of_lt hlt, hne]
      · next hge =>
        split
        · next hlt => simp [hlt]
        · next hle =>
          have heq : b = a := Std.le_antisymm (Std.not_lt.mp hge) (Std.not_lt.mp hle)
          simp [heq]

theorem le_eq_true_iff {s t : Text} : le s t = true ↔ s ≤ t := by
  rw [le, bne_iff_ne, Ne, compare_eq_gt_iff, List.not_lt]

/-- Texts that are put in order are in order. -/
theorem pairwise_mergeSort (ts : List Text) : (ts.mergeSort le).Pairwise (· ≤ ·) := by
  refine (List.pairwise_mergeSort ?_ ?_ ts).imp fun h => le_eq_true_iff.mp h
  · intro r s t hrs hst
    exact le_eq_true_iff.mpr
      (Std.le_trans (le_eq_true_iff.mp hrs) (le_eq_true_iff.mp hst))
  · intro s t
    rw [Bool.or_eq_true, le_eq_true_iff, le_eq_true_iff]
    exact Std.le_total

end Text

/-- Leaving out repeated neighbours keeps the members. -/
theorem mem_eraseReps {α : Type} [BEq α] [LawfulBEq α] {l : List α} {x : α} :
    x ∈ l.eraseReps ↔ x ∈ l := by
  have hloop (a : α) (l kept : List α) :
      x ∈ List.eraseRepsBy.loop (· == ·) a l kept ↔ x ∈ a :: l ∨ x ∈ kept := by
    induction l generalizing a kept with
    | nil => simp [List.eraseRepsBy.loop]; tauto
    | cons b l ih =>
      unfold List.eraseRepsBy.loop
      split
      · next heq =>
        obtain rfl := eq_of_beq heq
        rw [ih]
        simp
      · rw [ih]
        simp only [List.mem_cons]
        tauto
  cases l with
  | nil => rfl
  | cons a l =>
    rw [List.eraseReps, List.eraseRepsBy, hloop]
    simp

/-! ## Collections -/

namespace Distinct

variable {α : Type} [DecidableEq α] {x : α}

theorem mem_insert {s : Distinct α} {a : α} :
    x ∈ (s.insert a).elements ↔ x ∈ s.elements ∨ x = a := by
  unfold insert
  split
  · next hmem =>
    refine ⟨.inl, ?_⟩
    rintro (h | rfl)
    · exact h
    · exact hmem
  · simp

theorem mem_insertMany {s : Distinct α} {as : List α} :
    x ∈ (s.insertMany as).elements ↔ x ∈ s.elements ∨ x ∈ as := by
  induction as generalizing s with
  | nil => simp [insertMany]
  | cons a as ih =>
    have hrest := ih (s := s.insert a)
    rw [insertMany, List.foldl_cons]
    rw [insertMany] at hrest
    rw [hrest, mem_insert, List.mem_cons, or_assoc]

/-- A collection has the members of the list that it was made of. -/
theorem mem_ofList {as : List α} : x ∈ (ofList as).elements ↔ x ∈ as := by
  rw [ofList, mem_insertMany]
  simp [empty]

omit [DecidableEq α] in
theorem mem_sorted {s : Distinct α} {le : α → α → Bool} : x ∈ s.sorted le ↔ x ∈ s.elements :=
  List.mem_mergeSort

/-- The texts of a collection come out in strict order. -/
theorem pairwise_sorted (s : Distinct Text) : (s.sorted Text.le).Pairwise (· < ·) := by
  have hnodup : (s.sorted Text.le).Nodup := (List.mergeSort_perm _ _).nodup_iff.mpr s.nodup
  exact ((Text.pairwise_mergeSort s.elements).and hnodup).imp
    fun ⟨hle, hne⟩ => Std.lt_of_le_of_ne hle hne

end Distinct

end CallConv

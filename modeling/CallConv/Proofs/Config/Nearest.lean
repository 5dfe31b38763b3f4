import Mathlib
import CallConv.Config.Load
import CallConv.Proofs.File.Path
import CallConv.Proofs.File.Tree
import CallConv.Toml.Decode

/-!
# The nearest configuration

The configuration of a place is looked for in the directory that it is and in those above it.
`Config.findBy_nearest` says for any files, and for any format of configurations, that the nearest
one of these directories with something under the name of configuration files decides, whatever
stands further up, and also when nothing can be read there. In a workspace a directory has something
under this name if and only if it can be gone through and there is such an entry in it, which may be
a link (`Config.hasEntry_access_iff`).
-/

namespace CallConv

open CallConv.Path

/-! ## Absolute paths in a workspace -/

section Locate

variable {tree : FileTree} {w : Workspace} {p c : Text} {cs : List Text}

/-- A canonical path is cut into its names behind the first slash. -/
theorem splitAt_ofComponents (h : ∀ c ∈ cs, Proper c) (hne : cs ≠ []) :
    Text.splitAt Byte.slash (ofComponents true cs) = [] :: cs := by
  induction cs using List.reverseRecOn with
  | nil => exact absurd rfl hne
  | append_singleton cs c ih =>
    obtain ⟨hcs, hc⟩ := List.forall_mem_append.mp h
    have hc := hc c (List.mem_singleton_self c)
    rw [ofComponents_concat, splitAt_append, splitAt_eq_self hc.slash_notMem]
    split
    · next hnil =>
      rw [hnil]
      rfl
    · next hnil =>
      rw [ih hcs hnil]
      rfl

/-- A canonical path is followed through its names. -/
theorem locate_eq (h : Canonical p) (hzero : (0 : UInt8) ∉ p) :
    w.locate p = (cleanComponents p).foldlM w.tree.step [] := by
  have heq := h.eq_ofComponents
  have hproper := h.proper
  have habsolute := h.absolute
  generalize cleanComponents p = cs at heq hproper
  have hroot : w.tree.step [] [] = .ok [] := rfl
  have hne : p ≠ [] := by
    rw [heq]
    exact List.cons_ne_nil _ _
  rw [Workspace.locate, if_neg hne, if_neg (by simpa using hzero), habsolute, if_pos rfl, heq]
  rcases eq_or_ne cs [] with rfl | hcs
  · rfl
  · rw [splitAt_ofComponents hproper hcs, List.foldlM_cons, hroot]
    rfl

/-- A name leads from a directory to what stands under it there, or to where a link leads. -/
theorem step_name_eq_ok_iff {path path' : List Text} (hc : Proper c) :
    tree.step path c = .ok path' ↔
      tree.node? path = some .directory ∧ tree.fault? path = none ∧
        tree.follow (path ++ [c]) = .ok path' ∧ (tree.node? path').isSome = true := by
  simp only [FileTree.step_eq_ok_iff, hc.ne_nil, hc.ne_current, hc.ne_parent, false_and, false_or,
    ne_eq, not_false_eq_true, true_and]

/-- Something stands under a path if the path can be followed. -/
theorem exists?_eq_true_iff : w.exists? p = true ↔ ∃ path, w.locate p = .ok path := by
  unfold Workspace.exists? Workspace.stat
  cases w.locate p with
  | error fault => simp
  | ok path => simp

/-- A path with a byte that is zero cannot be followed. -/
theorem locate_of_zero_mem (h : (0 : UInt8) ∈ p) : w.locate p = .error .invalid := by
  rw [Workspace.locate, if_neg (List.ne_nil_of_mem h), if_pos (by simpa using h)]

/-- A name in a directory has the bytes of both, and slashes. -/
theorem mem_join_iff {b : UInt8} (h : Canonical p) (hc : Proper c) (hb : b ≠ Byte.slash) :
    b ∈ join p c ↔ b ∈ p ∨ b ∈ c := by
  have heq := h.eq_ofComponents
  rw [h.join_eq hc, ofComponents_concat]
  split
  · next hnil =>
    rw [hnil] at heq
    have hp : b ∉ p := by
      rw [heq]
      exact fun hmem => hb (List.mem_singleton.mp hmem)
    simp [hp, hb]
  · rw [← heq]
    simp [hb]

/-- Something is found under a name in a directory if and only if this is a directory that can be
gone through, and the entry with the name is there or is a link to what is there. -/
theorem exists?_join_iff (h : Canonical p) (hc : Proper c) (hzero : (0 : UInt8) ∉ c) :
    w.exists? (join p c) = true ↔
      ∃ place next, w.locate p = .ok place ∧ w.tree.node? place = some .directory ∧
        w.tree.fault? place = none ∧ w.tree.follow (place ++ [c]) = .ok next ∧
        (w.tree.node? next).isSome = true := by
  have hjoin := mem_join_iff h hc (show (0 : UInt8) ≠ Byte.slash by decide)
  rw [exists?_eq_true_iff]
  by_cases hp : (0 : UInt8) ∈ p
  · rw [locate_of_zero_mem (hjoin.mpr (.inl hp)), locate_of_zero_mem hp]
    simp
  · have hname : (0 : UInt8) ∉ join p c := by simp [hjoin, hp, hzero]
    have hproper : ∀ d ∈ cleanComponents p ++ [c], Proper d :=
      List.forall_mem_append.mpr ⟨h.proper, List.forall_mem_singleton.mpr hc⟩
    have hcanonical : Canonical (join p c) := by
      rw [h.join_eq hc]
      exact canonical_ofComponents hproper
    have hcomponents : cleanComponents (join p c) = cleanComponents p ++ [c] := by
      rw [h.join_eq hc, cleanComponents_ofComponents hproper]
    rw [locate_eq hcanonical hname, hcomponents, List.foldlM_append, ← locate_eq h hp]
    cases w.locate p with
    | error fault => simp [bind, Except.bind]
    | ok place =>
      have hlast : [c].foldlM w.tree.step place = w.tree.step place c := by
        rw [List.foldlM_cons]
        exact bind_pure _
      show (∃ next, [c].foldlM w.tree.step place = .ok next) ↔ _
      simp only [hlast, step_name_eq_ok_iff hc, Except.ok.injEq]
      constructor
      · rintro ⟨next, hnode⟩
        exact ⟨place, next, rfl, hnode⟩
      · rintro ⟨_, next, rfl, hnode⟩
        exact ⟨next, hnode⟩

end Locate

namespace Config

/-- Configuration files have a name. -/
theorem proper_fileName : Proper fileName := ⟨by decide, by decide, by decide, by decide⟩

/-- In a workspace, a directory has something with the name of configuration files if and only if
there is a directory that can be gone through, with such an entry or a link of that name. -/
theorem hasEntry_access_iff (w : Workspace) {d : Text} (h : Canonical d) :
    hasEntry w.access d = true ↔
      ∃ place next, w.locate d = .ok place ∧ w.tree.node? place = some .directory ∧
        w.tree.fault? place = none ∧ w.tree.follow (place ++ [fileName]) = .ok next ∧
        (w.tree.node? next).isSome = true :=
  exists?_join_iff h proper_fileName (by decide)

end Config

end CallConv

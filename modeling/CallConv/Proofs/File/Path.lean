import Mathlib
import CallConv.File.Climb

/-!
# Absolute paths

An absolute path that is clean is the same as its components: none of them is empty, `.` or `..`,
and none has a slash. So the directory of such a path has the same components but the last, and the
directories above it are those whose components begin its own (`AtOrAbove`). Going up comes to each
of them, the nearest one first.
-/

namespace CallConv

namespace Path

/-- A text that names something in a directory. -/
structure Proper (c : Text) : Prop where
  /-- A name is not empty. -/
  ne_nil : c ≠ []
  /-- A name is not that of the directory itself. -/
  ne_current : c ≠ current
  /-- A name is not that of the directory above. -/
  ne_parent : c ≠ parent
  /-- A name stands in one directory. -/
  slash_notMem : Byte.slash ∉ c

variable {p c : Text} {cs : List Text}

/-- A text without a slash is one piece. -/
theorem splitAt_eq_self (h : Byte.slash ∉ c) : Text.splitAt Byte.slash c = [c] := by
  induction c with
  | nil => rfl
  | cons b c ih =>
    rw [List.mem_cons, not_or] at h
    rw [Text.splitAt, if_neg (Ne.symm h.1), ih h.2]

/-- No piece has a slash. -/
theorem slash_notMem_of_splitAt (h : c ∈ Text.splitAt Byte.slash p) : Byte.slash ∉ c := by
  induction p generalizing c with
  | nil =>
    obtain rfl := List.mem_singleton.mp h
    exact List.not_mem_nil
  | cons b p ih =>
    rw [Text.splitAt] at h
    split at h
    · rcases List.mem_cons.mp h with rfl | h
      · exact List.not_mem_nil
      · exact ih h
    · next hb =>
      cases hpieces : Text.splitAt Byte.slash p with
      | nil => exact absurd hpieces (splitAt_ne_nil p)
      | cons piece pieces =>
        rw [hpieces] at h ih
        rcases List.mem_cons.mp h with rfl | h
        · have hpiece := ih List.mem_cons_self
          simp [hpiece, Ne.symm hb]
        · exact ih (List.mem_cons_of_mem _ h)

/-- A name is a path of one component. -/
theorem Proper.components_eq (h : Proper c) : components c = [c] := by
  simp [components, splitAt_eq_self h.slash_notMem, h.ne_nil, h.ne_current]

/-- A name goes on top of the components so far. -/
theorem Proper.push_eq (h : Proper c) (absolute : Bool) (stack : List Text) :
    push absolute stack c = c :: stack := by
  unfold push
  rw [if_neg h.ne_parent]

/-- Names stay where they are. -/
theorem foldl_push_of_proper (h : ∀ c ∈ cs, Proper c) (absolute : Bool) (stack : List Text) :
    cs.foldl (push absolute) stack = cs.reverse ++ stack := by
  induction cs generalizing stack with
  | nil => rfl
  | cons c cs ih =>
    obtain ⟨hc, hcs⟩ := List.forall_mem_cons.mp h
    rw [List.foldl_cons, hc.push_eq, ih hcs, List.reverse_cons, List.append_assoc]
    rfl

/-- The components of an absolute path are names. -/
theorem proper_of_mem_cleanComponents (habsolute : isAbsolute p = true)
    (h : c ∈ cleanComponents p) : Proper c := by
  have hfold (cs stack : List Text) (hcs : ∀ c ∈ cs, c ∈ components p)
      (hstack : ∀ c ∈ stack, Proper c) : ∀ c ∈ cs.foldl (push true) stack, Proper c := by
    induction cs generalizing stack with
    | nil => exact hstack
    | cons c cs ih =>
      obtain ⟨hc, hcs⟩ := List.forall_mem_cons.mp hcs
      refine ih _ hcs ?_
      unfold push
      split
      · split
        · exact fun _ h => absurd h List.not_mem_nil
        · obtain ⟨htop, hrest⟩ := List.forall_mem_cons.mp hstack
          rwa [if_neg htop.ne_parent]
      · next hparent =>
        obtain ⟨hpiece, hne⟩ := List.mem_filter.mp hc
        obtain ⟨hnil, hcurrent⟩ := of_decide_eq_true hne
        exact List.forall_mem_cons.mpr
          ⟨⟨hnil, hcurrent, hparent, slash_notMem_of_splitAt hpiece⟩, hstack⟩
  rw [cleanComponents, List.mem_reverse, habsolute] at h
  exact hfold _ [] (fun _ h => h) (by simp) c h

/-- A path below the root is that of its directory with a slash and its name. -/
theorem ofComponents_concat (cs : List Text) (c : Text) :
    ofComponents true (cs ++ [c]) =
      (if cs = [] then [] else ofComponents true cs) ++ Byte.slash :: c := by
  have hjoin (d : Text) (ds : List Text) : Text.join [Byte.slash] (d :: ds ++ [c]) =
      Text.join [Byte.slash] (d :: ds) ++ Byte.slash :: c := by
    induction ds generalizing d with
    | nil => simp [Text.join]
    | cons e ds ih =>
      have hrest := ih e
      rw [List.cons_append] at hrest
      simp only [List.cons_append, Text.join, hrest, List.append_assoc]
  rcases cs with _ | ⟨d, ds⟩
  · rfl
  · rw [if_neg (List.cons_ne_nil d ds), ofComponents, if_pos rfl, hjoin]
    rfl

/-- Names are the components of their path. -/
theorem components_ofComponents (h : ∀ c ∈ cs, Proper c) :
    components (ofComponents true cs) = cs := by
  induction cs using List.reverseRecOn with
  | nil => decide
  | append_singleton cs c ih =>
    obtain ⟨hcs, hc⟩ := List.forall_mem_append.mp h
    rw [ofComponents_concat, components_append, (hc c (List.mem_singleton_self c)).components_eq]
    split
    · next hnil => rw [hnil]; rfl
    · rw [ih hcs]

theorem cleanComponents_ofComponents (h : ∀ c ∈ cs, Proper c) :
    cleanComponents (ofComponents true cs) = cs := by
  rw [cleanComponents, components_ofComponents h, foldl_push_of_proper h, List.append_nil,
    List.reverse_reverse]

/-- A path that is absolute and clean. -/
structure Canonical (p : Text) : Prop where
  /-- The path begins at the root. -/
  absolute : isAbsolute p = true
  /-- The path is as short as it can be. -/
  clean : clean p = p

/-- A canonical path is that of its components. -/
theorem Canonical.eq_ofComponents (h : Canonical p) :
    p = ofComponents true (cleanComponents p) := by
  conv_lhs => rw [← h.clean]
  rw [Path.clean, h.absolute]

theorem Canonical.proper (h : Canonical p) : ∀ c ∈ cleanComponents p, Proper c :=
  fun _ => proper_of_mem_cleanComponents h.absolute

/-- Every path of names is canonical. -/
theorem canonical_ofComponents (h : ∀ c ∈ cs, Proper c) : Canonical (ofComponents true cs) := by
  refine ⟨rfl, ?_⟩
  rw [clean, cleanComponents_ofComponents h]
  rfl

/-! ## Going up -/

/-- A name in a directory is below it. -/
theorem Canonical.join_eq (h : Canonical p) (hc : Proper c) :
    join p c = ofComponents true (cleanComponents p ++ [c]) := by
  have hne : p ≠ [] := by
    rintro rfl
    exact absurd h.absolute (by decide)
  have habsolute : isAbsolute (p ++ Byte.slash :: c) = true := by
    rw [isAbsolute_append hne, h.absolute]
  have hcomponents : cleanComponents (p ++ Byte.slash :: c) = cleanComponents p ++ [c] := by
    rw [cleanComponents, cleanComponents, habsolute, h.absolute, components_append,
      hc.components_eq, List.foldl_append, List.foldl_cons, List.foldl_nil, hc.push_eq,
      List.reverse_cons]
  rw [join, if_neg hne, Path.clean, habsolute, hcomponents]

/-- A directory is a path or stands above it: its components begin those of the path. -/
def AtOrAbove (d p : Text) : Prop := Canonical d ∧ cleanComponents d <+: cleanComponents p

/-- The number of directories above a path. -/
def depth (p : Text) : Nat := (cleanComponents p).length

/-- A directory at a path or above it for which `has` holds, such that all others are above it. -/
structure Nearest (has : Text → Bool) (p d : Text) : Prop where
  /-- The directory is at the path or above it. -/
  atOrAbove : AtOrAbove d p
  /-- It is one of those that are looked for. -/
  holds : has d = true
  /-- All others of those are above it. -/
  deepest : ∀ d', AtOrAbove d' p → has d' = true → AtOrAbove d' d

variable {has : Text → Bool} {d d' : Text}

/-- There is one nearest directory at most. -/
theorem Nearest.unique (h : Nearest has p d) (h' : Nearest has p d') : d = d' := by
  obtain ⟨hd, hstart⟩ := h'.deepest d h.atOrAbove h.holds
  obtain ⟨hd', hstart'⟩ := h.deepest d' h'.atOrAbove h'.holds
  have hcomponents : cleanComponents d = cleanComponents d' :=
    hstart.eq_of_length_le hstart'.length_le
  rw [hd.eq_ofComponents, hcomponents, ← hd'.eq_ofComponents]

end Path

end CallConv

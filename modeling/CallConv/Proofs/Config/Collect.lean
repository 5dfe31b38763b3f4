import Mathlib
import CallConv.Config.Collect
import CallConv.Glob.Find
import CallConv.Proofs.Collection.Sorted

/-!
# What paths stand for

The files that some paths stand for are a set: `SourceFilter.StandsFor` says of one path which
files they are, and `SourceFilter.collectBy_spec` that the files of some paths come in strict order
and are those of each of them. So the files of two rows of paths are put together, and nothing
depends on how often or in which order a path or an included pattern is given. What stands under the
paths, what a pattern finds and what it selects may be anything.
-/

namespace CallConv

/-! ## Lists of results -/

section Results

variable {ε α β : Type} {f : α → Except ε β} {l : List α} {bs : List β}

theorem map_eq_ok_iff {r : Except ε α} {g : α → β} {b : β} :
    r.map g = .ok b ↔ ∃ a, r = .ok a ∧ g a = b := by
  cases r <;> simp [Except.map]

theorem exists_map_eq_error_iff {r : Except ε α} {g : α → β} :
    (∃ e, r.map g = .error e) ↔ ∃ e, r = .error e := by
  cases r <;> simp [Except.map]

/-- A row of results succeeds with one value for each element. -/
theorem mapM_eq_ok_iff : l.mapM f = .ok bs ↔ List.Forall₂ (fun a b => f a = .ok b) l bs := by
  induction l generalizing bs with
  | nil => simp [pure, Except.pure, eq_comm]
  | cons a l ih =>
    rw [List.mapM_cons]
    cases hfirst : f a with
    | error e => cases bs <;> simp [bind, Except.bind, hfirst]
    | ok b =>
      cases hrest : l.mapM f with
      | error e => cases bs <;> simp [bind, Except.bind, hfirst, ← ih, hrest]
      | ok bs' => cases bs <;> simp [bind, Except.bind, pure, Except.pure, hfirst, ← ih, hrest]

/-- The values of a row of results are those of its elements. -/
theorem mem_of_mapM_eq_ok (h : l.mapM f = .ok bs) {b : β} : b ∈ bs ↔ ∃ a ∈ l, f a = .ok b := by
  have hall := mapM_eq_ok_iff.mp h
  clear h
  induction hall with
  | nil => simp
  | @cons a b' l bs hfirst hrest ih => simp [ih, hfirst, eq_comm]

/-- A row of results fails if and only if one of them does. -/
theorem exists_mapM_eq_error_iff :
    (∃ e, l.mapM f = .error e) ↔ ∃ a ∈ l, ∃ e, f a = .error e := by
  induction l with
  | nil => simp [pure, Except.pure]
  | cons a l ih =>
    rw [List.mapM_cons]
    cases hfirst : f a with
    | error e => simp [bind, Except.bind, hfirst]
    | ok b =>
      cases hrest : l.mapM f with
      | error e => simp [bind, Except.bind, hfirst, ← ih, hrest]
      | ok bs => simp [bind, Except.bind, pure, Except.pure, hfirst, ← ih, hrest]

end Results

/-! ## One path -/

namespace SourceFilter

variable {ε : Type} (f : SourceFilter) (files : FileSearch ε)

/-- A path stands for a file: it leads to the file itself, or to a directory below which an included
pattern finds the file and the filter selects it. -/
inductive StandsFor (path : Text) : Text → Prop
  | file (h : files.isDirectory path = .ok false) : StandsFor path path
  | below {pattern : Text} {found : List Text} {m : Text}
      (h : files.isDirectory path = .ok true) (hpattern : pattern ∈ f.included)
      (hfound : files.find? path pattern = some found) (hm : m ∈ found)
      (hselected : f.selectsBy files.accepts m = true) : StandsFor path (Path.join path m)

/-- A path cannot be expanded: it does not lead anywhere, or an included pattern is not well formed
where it matters below it. -/
inductive Rejects (path : Text) : Prop
  | missing {e : ε} (h : files.isDirectory path = .error e)
  | pattern {pattern : Text} (h : files.isDirectory path = .ok true)
      (hpattern : pattern ∈ f.included) (hfound : files.find? path pattern = none)

variable {f files} {path x : Text} {out : List Text}

theorem find_eq_ok_iff {pattern : Text} {found : List Text} :
    find files path pattern = .ok found ↔ files.find? path pattern = some found := by
  unfold find
  cases files.find? path pattern <;> simp

theorem exists_find_eq_error_iff {pattern : Text} :
    (∃ e, find files path pattern = .error e) ↔ files.find? path pattern = none := by
  unfold find
  cases files.find? path pattern <;> simp

/-- A search finds the files below a directory that an included pattern finds and that are
selected. -/
theorem mem_search (h : f.search files path = .ok out) :
    x ∈ out ↔ ∃ pattern ∈ f.included, ∃ found, files.find? path pattern = some found ∧
      ∃ m ∈ found, f.selectsBy files.accepts m = true ∧ Path.join path m = x := by
  obtain ⟨founds, hfounds, rfl⟩ := map_eq_ok_iff.mp h
  have hmem (m : Text) : m ∈ founds.flatten ↔
      ∃ pattern ∈ f.included, ∃ found, files.find? path pattern = some found ∧ m ∈ found := by
    simp only [List.mem_flatten, mem_of_mapM_eq_ok hfounds, find_eq_ok_iff]
    exact ⟨fun ⟨found, ⟨pattern, hpattern, hfound⟩, hm⟩ => ⟨pattern, hpattern, found, hfound, hm⟩,
      fun ⟨pattern, hpattern, found, hfound, hm⟩ => ⟨found, ⟨pattern, hpattern, hfound⟩, hm⟩⟩
  dsimp only
  rw [mem_eraseReps, List.mem_mergeSort, List.mem_map]
  constructor
  · rintro ⟨m, hm, rfl⟩
    obtain ⟨hm, hselected⟩ := List.mem_filter.mp hm
    obtain ⟨pattern, hpattern, found, hfound, hm⟩ := (hmem m).mp hm
    exact ⟨pattern, hpattern, found, hfound, m, hm, hselected, rfl⟩
  · rintro ⟨pattern, hpattern, found, hfound, m, hm, hselected, rfl⟩
    exact ⟨m, List.mem_filter.mpr ⟨(hmem m).mpr ⟨pattern, hpattern, found, hfound, hm⟩, hselected⟩,
      rfl⟩

/-- A search fails if and only if an included pattern is not well formed where it matters. -/
theorem exists_search_eq_error_iff :
    (∃ e, f.search files path = .error e) ↔
      ∃ pattern ∈ f.included, files.find? path pattern = none := by
  rw [search, exists_map_eq_error_iff, exists_mapM_eq_error_iff]
  simp only [exists_find_eq_error_iff]

/-- A path that is expanded gives the files that it stands for. -/
theorem mem_expand (h : f.expand files path = .ok out) :
    x ∈ out ↔ f.StandsFor files path x := by
  unfold expand at h
  split at h
  · simp at h
  · next hfile =>
    obtain rfl := Except.ok.inj h
    rw [List.mem_singleton]
    constructor
    · rintro rfl
      exact .file hfile
    · rintro (_ | ⟨hdirectory, -, -, -, -⟩)
      · rfl
      · simp [hfile] at hdirectory
  · next hdirectory =>
    rw [mem_search h]
    constructor
    · rintro ⟨pattern, hpattern, found, hfound, m, hm, hselected, rfl⟩
      exact .below hdirectory hpattern hfound hm hselected
    · rintro (hfile | ⟨-, hpattern, hfound, hm, hselected⟩)
      · simp [hdirectory] at hfile
      · exact ⟨_, hpattern, _, hfound, _, hm, hselected, rfl⟩

/-- A path fails to be expanded if and only if it is rejected. -/
theorem exists_expand_eq_error_iff :
    (∃ e, f.expand files path = .error e) ↔ f.Rejects files path := by
  unfold expand
  split
  · next e hmissing => exact iff_of_true ⟨_, rfl⟩ (.missing hmissing)
  · next hfile =>
    refine iff_of_false (by simp) ?_
    rintro (hmissing | ⟨hdirectory, -, -⟩)
    · simp [hfile] at hmissing
    · simp [hfile] at hdirectory
  · next hdirectory =>
    rw [exists_search_eq_error_iff]
    constructor
    · rintro ⟨pattern, hpattern, hfound⟩
      exact .pattern hdirectory hpattern hfound
    · rintro (hmissing | ⟨-, hpattern, hfound⟩)
      · simp [hdirectory] at hmissing
      · exact ⟨_, hpattern, hfound⟩

/-! ## All paths -/

variable {paths : List Text}

/-- The files of some paths are those of each of them. -/
theorem mem_collectBy (h : f.collectBy files paths = .ok out) :
    x ∈ out ↔ ∃ path ∈ paths, f.StandsFor files path x := by
  obtain ⟨founds, hfounds, rfl⟩ := map_eq_ok_iff.mp h
  rw [Distinct.mem_sorted, Distinct.mem_ofList, List.mem_flatten]
  constructor
  · rintro ⟨found, hfound, hx⟩
    obtain ⟨path, hpath, hexpand⟩ := (mem_of_mapM_eq_ok hfounds).mp hfound
    exact ⟨path, hpath, (mem_expand hexpand).mp hx⟩
  · rintro ⟨path, hpath, hx⟩
    -- All paths could be expanded, so this one could.
    cases hexpand : f.expand files path with
    | error e =>
      obtain ⟨e', he'⟩ := exists_mapM_eq_error_iff.mpr ⟨path, hpath, e, hexpand⟩
      simp [hfounds] at he'
    | ok found =>
      exact ⟨found, (mem_of_mapM_eq_ok hfounds).mpr ⟨path, hpath, hexpand⟩,
        (mem_expand hexpand).mpr hx⟩

/-- The files of some paths come in strict order. -/
theorem pairwise_collectBy (h : f.collectBy files paths = .ok out) : out.Pairwise (· < ·) := by
  obtain ⟨founds, -, rfl⟩ := map_eq_ok_iff.mp h
  exact Distinct.pairwise_sorted _

/-- Some paths cannot be collected if and only if one of them is rejected. -/
theorem exists_collectBy_eq_error_iff :
    (∃ e, f.collectBy files paths = .error e) ↔ ∃ path ∈ paths, f.Rejects files path := by
  rw [collectBy, exists_map_eq_error_iff, exists_mapM_eq_error_iff]
  simp only [exists_expand_eq_error_iff]

/-- Paths of which none is rejected are collected. -/
theorem exists_collectBy_eq_ok (h : ∀ path ∈ paths, ¬f.Rejects files path) :
    ∃ out, f.collectBy files paths = .ok out := by
  cases hcollect : f.collectBy files paths with
  | ok out => exact ⟨out, rfl⟩
  | error e =>
    obtain ⟨path, hpath, hrejects⟩ := exists_collectBy_eq_error_iff.mp ⟨e, hcollect⟩
    exact absurd hrejects (h path hpath)

/-- Of paths that are collected none is rejected. -/
theorem not_rejects_of_collectBy (h : f.collectBy files paths = .ok out) :
    ∀ path ∈ paths, ¬f.Rejects files path := by
  intro path hpath hrejects
  obtain ⟨e, he⟩ := exists_collectBy_eq_error_iff.mpr ⟨path, hpath, hrejects⟩
  simp [h] at he

/-! ## Filters with the same patterns -/

section Congr

variable {f' : SourceFilter} (hincluded : ∀ pattern, pattern ∈ f.included ↔ pattern ∈ f'.included)

include hincluded

/-- A filter selects by its included patterns, not by their order. -/
theorem selectsBy_congr (hexcluded : f.excluded = f'.excluded)
    (accepts : (pattern path : Text) → Bool) (path : Text) :
    f.selectsBy accepts path = f'.selectsBy accepts path := by
  have hany : f.included.any (accepts · path) = f'.included.any (accepts · path) := by
    rw [Bool.eq_iff_iff, List.any_eq_true, List.any_eq_true]
    simp only [hincluded]
  rw [selectsBy, selectsBy, hany, hexcluded]

theorem StandsFor.congr (hexcluded : f.excluded = f'.excluded) (h : f.StandsFor files path x) :
    f'.StandsFor files path x := by
  cases h with
  | file hfile => exact .file hfile
  | below hdirectory hpattern hfound hm hselected =>
    refine .below hdirectory ((hincluded _).mp hpattern) hfound hm ?_
    rwa [← selectsBy_congr hincluded hexcluded]

theorem Rejects.congr (h : f.Rejects files path) : f'.Rejects files path := by
  cases h with
  | missing h => exact .missing h
  | pattern hdirectory hpattern hfound =>
    exact .pattern hdirectory ((hincluded _).mp hpattern) hfound

end Congr

/-- The files of some paths are the sorted union of what each path stands for. They come in strict
order and are the paths of files as they were given, and below each directory those that an included
pattern finds and the filter selects. The files of two rows of paths together are those of either;
the order of the paths and of the included patterns does not matter, nor does how often one is
given. There is a failure if and only if a path does not lead anywhere, or an included pattern is
rejected below a directory that was given. -/
theorem collectBy_spec {ε : Type} (files : FileSearch ε) (f : SourceFilter) :
    (∀ paths out, f.collectBy files paths = .ok out →
        out.Pairwise (· < ·) ∧ ∀ x, x ∈ out ↔ ∃ path ∈ paths, f.StandsFor files path x) ∧
      (∀ ps qs xs ys, f.collectBy files ps = .ok xs → f.collectBy files qs = .ok ys →
        ∃ out, f.collectBy files (ps ++ qs) = .ok out ∧ out.Pairwise (· < ·) ∧
          ∀ x, x ∈ out ↔ x ∈ xs ∨ x ∈ ys) ∧
      (∀ (f' : SourceFilter) (paths paths' out : List Text),
        (∀ pattern, pattern ∈ f.included ↔ pattern ∈ f'.included) → f.excluded = f'.excluded →
        (∀ path, path ∈ paths ↔ path ∈ paths') →
        f.collectBy files paths = .ok out → f'.collectBy files paths' = .ok out) ∧
      ∀ paths, (∃ e, f.collectBy files paths = .error e) ↔
        ∃ path ∈ paths, f.Rejects files path := by
  refine ⟨fun paths out h => ⟨pairwise_collectBy h, fun x => mem_collectBy h⟩, ?_, ?_,
    fun paths => exists_collectBy_eq_error_iff⟩
  · intro ps qs xs ys hps hqs
    obtain ⟨out, hout⟩ := exists_collectBy_eq_ok (List.forall_mem_append.mpr
      ⟨not_rejects_of_collectBy hps, not_rejects_of_collectBy hqs⟩)
    refine ⟨out, hout, pairwise_collectBy hout, fun x => ?_⟩
    rw [mem_collectBy hout, mem_collectBy hps, mem_collectBy hqs]
    simp only [List.mem_append, or_and_right, exists_or]
  · intro f' paths paths' out hincluded hexcluded hpaths h
    have hincluded' := fun pattern => (hincluded pattern).symm
    obtain ⟨out', hout'⟩ : ∃ out', f'.collectBy files paths' = .ok out' :=
      exists_collectBy_eq_ok fun path hpath hrejects =>
        not_rejects_of_collectBy h path ((hpaths path).mpr hpath) (hrejects.congr hincluded')
    have hmem (x : Text) : x ∈ out ↔ x ∈ out' := by
      rw [mem_collectBy h, mem_collectBy hout']
      constructor
      · rintro ⟨path, hpath, hx⟩
        exact ⟨path, (hpaths path).mp hpath, hx.congr hincluded hexcluded⟩
      · rintro ⟨path, hpath, hx⟩
        exact ⟨path, (hpaths path).mpr hpath, hx.congr hincluded' hexcluded.symm⟩
    rw [hout', (pairwise_collectBy h).eq_of_mem_iff (pairwise_collectBy hout') hmem]

/-- A directory with a file, and another one below it. -/
def nestedDirectories : Workspace where
  tree := { nodes := [([utf8 "p"], .directory), ([utf8 "p", utf8 "a.rs"], .file []),
    ([utf8 "p", utf8 "q"], .directory), ([utf8 "p", utf8 "q", utf8 "b.rs"], .file [])] }
  cwd := []

/-- A filter with two patterns for the same files. -/
def twoPatterns : SourceFilter := ⟨[utf8 "**/*.rs", utf8 "*.rs"], []⟩

/-- The directories overlap and so do the patterns; nothing changes when the patterns are given in
the other order and a directory twice. -/
theorem collectBy_spec_nested :
    (SourceFilter.mk twoPatterns.included.reverse []).collectBy
        (nestedDirectories.fileSearch (Glob.findBelow? nestedDirectories) Glob.selects)
        [utf8 "/p/q", utf8 "/p", utf8 "/p"] =
      .ok [utf8 "/p/a.rs", utf8 "/p/q/b.rs"] := by
  have hcollect : twoPatterns.collectBy
      (nestedDirectories.fileSearch (Glob.findBelow? nestedDirectories) Glob.selects)
      [utf8 "/p", utf8 "/p/q"] = .ok [utf8 "/p/a.rs", utf8 "/p/q/b.rs"] := by cbv
  exact (collectBy_spec _ twoPatterns).2.2.1 _ _ _ _
    (fun _ => List.mem_reverse.symm) rfl (fun path => by simp [or_comm]) hcollect

end SourceFilter

end CallConv

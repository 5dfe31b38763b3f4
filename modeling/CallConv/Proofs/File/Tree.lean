import Mathlib
import CallConv.File.Tree

/-!
# Writing to files

A tree of files is followed by its files: where they stand and what they hold. Writing to a file
changes that one file, and adds at most directories where nothing stood; links lead where they led,
and what cannot be got at stays so. So every path that led to a place still leads there afterwards, and a row of writes can be
followed one by one. Two paths may lead to one place; where all writes to a place agree, their order
does not matter.
-/

namespace CallConv

namespace FileTree

variable {tree tree' : FileTree} {place place' : List Text} {node : FileNode} {content : Text}

/-- What the file at a place holds, if a file stands there. -/
def content? (tree : FileTree) (place : List Text) : Option Text :=
  match tree.node? place with
  | some (.file content) => some content
  | _ => none

/-- A place has a content if a file with it stands there. -/
theorem content?_eq_some_iff :
    tree.content? place = some content ↔ tree.node? place = some (.file content) := by
  unfold content?
  split
  · next h => simp [h]
  · next hne =>
    refine ⟨by simp, fun h => absurd h ?_⟩
    exact hne content

/-- What stands somewhere is kept when a directory is added. -/
theorem node?_addDirectory_of_some (h : tree.node? place = some node) (path : List Text) :
    (tree.addDirectory path).node? place = some node := by
  unfold node? at h ⊢
  split
  · next hroot => rwa [if_pos hroot] at h
  · next hroot =>
    rw [if_neg hroot] at h
    exact List.IsPrefix.lookup_eq_some (List.prefix_append _ _) h

/-- Adding a directory adds directories only. -/
theorem node?_addDirectory_of_none (h : tree.node? place = none) (path : List Text) :
    (tree.addDirectory path).node? place = none ∨
      (tree.addDirectory path).node? place = some .directory := by
  unfold node? at h ⊢
  split
  · exact .inr rfl
  · next hroot =>
    rw [if_neg hroot] at h
    rw [addDirectory, List.lookup_append, h, Option.none_or]
    cases hfound : List.lookup place _ with
    | none => exact .inl rfl
    | some node =>
      obtain ⟨before, after, hsplit, -⟩ := List.lookup_eq_some_iff.mp hfound
      have hmem := hsplit ▸ List.mem_append_right before List.mem_cons_self
      obtain ⟨path', -, heq⟩ := List.mem_map.mp hmem
      obtain ⟨-, rfl⟩ := Prod.mk.inj heq
      exact .inr rfl

/-- Adding a directory changes no file. -/
theorem content?_addDirectory (path : List Text) :
    (tree.addDirectory path).content? place = tree.content? place := by
  unfold content?
  cases h : tree.node? place with
  | some node => rw [node?_addDirectory_of_some h]
  | none =>
    rcases node?_addDirectory_of_none h path with hnode | hnode
    · rw [hnode]
    · rw [hnode]

/-- What stands elsewhere is found as well without the nodes of a place. -/
theorem lookup_filter_ne (nodes : List (List Text × FileNode)) (h : place' ≠ place) :
    (nodes.filter (·.1 ≠ place)).lookup place' = nodes.lookup place' := by
  induction nodes with
  | nil => rfl
  | cons entry nodes ih =>
    by_cases hplace : entry.1 = place
    · have hbeq : (place' == entry.1) = false := by simpa [hplace] using h
      rw [List.filter_cons_of_neg (by simpa using hplace), ih, List.lookup_cons, hbeq]
    · rw [List.filter_cons_of_pos (by simpa using hplace), List.lookup_cons, List.lookup_cons, ih]

/-- The tree in which a file replaces what stood at its place. -/
def replace (tree : FileTree) (place : List Text) (content : Text) : FileTree :=
  { tree with nodes := (place, .file content) :: tree.nodes.filter (·.1 ≠ place) }

/-- A file that is written replaces what stood at its place, below directories. -/
theorem write_eq (tree : FileTree) (place : List Text) (content : Text) :
    tree.write place content = (tree.replace place content).addDirectory place.dropLast := rfl

/-- The file stands at its place. -/
theorem node?_replace_self (h : place ≠ []) :
    (tree.replace place content).node? place = some (.file content) := by
  rw [node?, if_neg h, replace, List.lookup_cons_self]

/-- What stands elsewhere is kept. -/
theorem node?_replace_of_ne (h : place' ≠ place) :
    (tree.replace place content).node? place' = tree.node? place' := by
  have hbeq : (place' == place) = false := by simpa using h
  unfold node?
  split
  · rfl
  · rw [replace, List.lookup_cons, hbeq]
    exact lookup_filter_ne tree.nodes h

/-- A file that is written holds what was written. -/
theorem content?_write_self (h : place ≠ []) :
    (tree.write place content).content? place = some content := by
  rw [write_eq, content?_addDirectory, content?_eq_some_iff]
  exact node?_replace_self h

/-- Other files hold what they held. -/
theorem content?_write_of_ne (h : place' ≠ place) :
    (tree.write place content).content? place' = tree.content? place' := by
  rw [write_eq, content?_addDirectory, content?, node?_replace_of_ne h]
  rfl

/-- Writing changes nothing about what cannot be got at. -/
theorem fault?_write (tree : FileTree) (place : List Text) (content : Text)
    (place' : List Text) : (tree.write place content).fault? place' = tree.fault? place' := rfl

/-- Writing changes no link. -/
theorem follow_write (tree : FileTree) (place : List Text) (content : Text)
    (place' : List Text) : (tree.write place content).follow place' = tree.follow place' := rfl

/-- The root holds nothing. -/
theorem ne_nil_of_content? (h : tree.content? place = some content) : place ≠ [] := by
  rintro rfl
  simp [content?, node?] at h

/-! ## Places stay where they are -/

/-- Every directory of the first tree is one of the second, nothing goes away, and links and faults
are the same. -/
structure Keeps (tree tree' : FileTree) : Prop where
  /-- Directories stay directories. -/
  directory : ∀ place, tree.node? place = some .directory → tree'.node? place = some .directory
  /-- Where something stood, something stands. -/
  present : ∀ place, (tree.node? place).isSome = true → (tree'.node? place).isSome = true
  /-- Links lead where they led. -/
  follow : ∀ place, tree'.follow place = tree.follow place
  /-- The faults are the same. -/
  fault : ∀ place, tree'.fault? place = tree.fault? place

/-- Keeping is passed on. -/
theorem Keeps.trans {tree'' : FileTree} (h : Keeps tree tree') (h' : Keeps tree' tree'') :
    Keeps tree tree'' :=
  ⟨fun place hplace => h'.directory place (h.directory place hplace),
    fun place hplace => h'.present place (h.present place hplace),
    fun place => (h'.follow place).trans (h.follow place),
    fun place => (h'.fault place).trans (h.fault place)⟩

/-- Writing to a file keeps everything. -/
theorem keeps_write {old : Text} (h : tree.content? place = some old) (content : Text) :
    Keeps tree (tree.write place content) := by
  have hfile := content?_eq_some_iff.mp h
  have hself : (tree.write place content).node? place = some (.file content) :=
    content?_eq_some_iff.mp (content?_write_self (ne_nil_of_content? h))
  have hother {place' : List Text} {node : FileNode} (hne : place' ≠ place)
      (hnode : tree.node? place' = some node) :
      (tree.write place content).node? place' = some node := by
    rw [write_eq]
    exact node?_addDirectory_of_some ((node?_replace_of_ne hne).trans hnode) _
  refine ⟨fun place' hplace' => ?_, fun place' hplace' => ?_, tree.follow_write place content,
    tree.fault?_write place content⟩
  · refine hother (fun heq => ?_) hplace'
    rw [heq, hfile] at hplace'
    simp at hplace'
  · by_cases hne : place' = place
    · rw [hne, hself]
      rfl
    · obtain ⟨node, hnode⟩ := Option.isSome_iff_exists.mp hplace'
      rw [hother hne hnode]
      rfl

/-- A component leads on from a directory only: to the place itself, to the directory above, or to
what stands under its name there. Nothing but an empty component leads on from a directory that
cannot be gone through. -/
theorem step_eq_ok_iff {component : Text} :
    tree.step place component = .ok place' ↔
      tree.node? place = some .directory ∧
        (component = [] ∧ place = place' ∨
          component ≠ [] ∧ tree.fault? place = none ∧
            (component = Path.current ∧ place = place' ∨
              component = Path.parent ∧ place.dropLast = place' ∨
              component ≠ Path.current ∧ component ≠ Path.parent ∧
                tree.follow (place ++ [component]) = .ok place' ∧
                (tree.node? place').isSome = true)) := by
  have hparent : Path.parent ≠ Path.current := by decide
  unfold step
  cases tree.node? place with
  | none => simp
  | some node =>
    cases node with
    | file content => simp
    | directory =>
      by_cases hempty : component = []
      · simp [hempty]
      cases tree.fault? place with
      | some fault => simp [hempty]
      | none =>
        by_cases hself : component = Path.current
        · simp [hself, hparent.symm, show Path.current ≠ [] by decide]
        by_cases hup : component = Path.parent
        · simp [hup, hparent, show Path.parent ≠ [] by decide]
        simp only [hempty, hself, hup, if_false, true_and, false_and, false_or, ne_eq,
          not_false_eq_true]
        cases tree.follow (place ++ [component]) with
        | error fault => simp
        | ok next =>
          simp only [Except.ok.injEq]
          split
          · next hsome =>
            rw [Except.ok.injEq]
            exact ⟨fun heq => ⟨heq, heq ▸ hsome⟩, And.left⟩
          · next hsome => exact ⟨nofun, fun ⟨heq, hsome'⟩ => absurd (heq ▸ hsome') hsome⟩

/-- A component leads to the same place as before. -/
theorem Keeps.step (h : Keeps tree tree') {component : Text}
    (hstep : tree.step place component = .ok place') : tree'.step place component = .ok place' := by
  obtain ⟨hdirectory, hleads⟩ := step_eq_ok_iff.mp hstep
  refine step_eq_ok_iff.mpr ⟨h.directory place hdirectory, ?_⟩
  rw [h.fault, h.follow]
  rcases hleads with hempty | ⟨hne, hfault, hself | hup | ⟨hself, hup, hfollow, hsome⟩⟩
  · exact .inl hempty
  · exact .inr ⟨hne, hfault, .inl hself⟩
  · exact .inr ⟨hne, hfault, .inr (.inl hup)⟩
  · exact .inr ⟨hne, hfault, .inr (.inr ⟨hself, hup, hfollow, h.present _ hsome⟩)⟩

end FileTree

namespace Workspace

open FileTree

variable {w w' : Workspace} {path : Text} {place : List Text} {content : Text}

/-- A second workspace with the same working directory in whose tree nothing is lost. -/
structure Keeps (w w' : Workspace) : Prop where
  /-- Relative paths begin at the same place. -/
  cwd : w'.cwd = w.cwd
  /-- The tree keeps everything. -/
  tree : w.tree.Keeps w'.tree

/-- A path leads to the same place as before. -/
theorem Keeps.locate (h : Keeps w w') (hlocate : w.locate path = .ok place) :
    w'.locate path = .ok place := by
  have hfold (components : List Text) (start : List Text)
      (hstart : components.foldlM w.tree.step start = .ok place) :
      components.foldlM w'.tree.step start = .ok place := by
    induction components generalizing start with
    | nil => exact hstart
    | cons component components ih =>
      rw [List.foldlM_cons] at hstart ⊢
      cases hstep : w.tree.step start component with
      | error fault => simp [hstep, bind, Except.bind] at hstart
      | ok next =>
        rw [h.tree.step hstep]
        rw [hstep] at hstart
        exact ih next hstart
  unfold Workspace.locate at hlocate ⊢
  split at hlocate
  · simp at hlocate
  · next hne =>
    rw [if_neg hne]
    split at hlocate
    · simp at hlocate
    · next hzero =>
      rw [if_neg hzero, h.cwd]
      exact hfold _ _ hlocate

/-- A path can be read if it leads to a file that can be got at, and gives what the file holds. -/
theorem read_eq_ok_iff :
    w.read path = .ok content ↔
      ∃ place, w.locate path = .ok place ∧ w.tree.fault? place = none ∧
        w.tree.content? place = some content := by
  unfold Workspace.read
  cases hlocate : w.locate path with
  | error fault => simp
  | ok place =>
    simp only [Except.ok.injEq, exists_eq_left']
    rw [content?_eq_some_iff]
    cases hfault : w.tree.fault? place with
    | some fault => simp
    | none =>
      simp only [true_and]
      split
      · next found hfound => simp [hfound]
      · next hne => exact ⟨fun h => absurd h (by simp), fun h => absurd h (hne content)⟩

/-- What stands under a path that can be read is a file. -/
theorem stat_of_read (h : w.read path = .ok content) : w.stat path = .ok (.file content) := by
  obtain ⟨place, hlocate, -, hcontent⟩ := read_eq_ok_iff.mp h
  rw [stat, hlocate]
  simp only [content?_eq_some_iff.mp hcontent, Option.getD_some]

/-- Writing to a file keeps everything. -/
theorem keeps_write {old : Text} (h : w.read path = .ok old) (content : Text) :
    Keeps w (w.write path content) := by
  obtain ⟨place, hlocate, -, hold⟩ := read_eq_ok_iff.mp h
  rw [write, hlocate]
  exact ⟨rfl, FileTree.keeps_write hold content⟩

/-- A file that is written holds what was written. -/
theorem content?_write_self {old : Text} (h : w.read path = .ok old)
    (hlocate : w.locate path = .ok place) (content : Text) :
    (w.write path content).tree.content? place = some content := by
  obtain ⟨place', hlocate', -, hold⟩ := read_eq_ok_iff.mp h
  obtain rfl := Except.ok.inj (hlocate.symm.trans hlocate')
  rw [write, hlocate]
  exact FileTree.content?_write_self (ne_nil_of_content? hold)

/-- Other files hold what they held. -/
theorem content?_write_of_ne (h : w.locate path ≠ .ok place) (content : Text) :
    (w.write path content).tree.content? place = w.tree.content? place := by
  unfold write
  split
  · rfl
  · next place' hlocate =>
    exact FileTree.content?_write_of_ne fun heq => h (heq ▸ hlocate)

/-! ## A row of writes -/

/-- The workspace after a row of writes. -/
def writeAll (w : Workspace) (files : List (Text × Text)) : Workspace :=
  files.foldl (fun w (path, content) => w.write path content) w

variable {files : List (Text × Text)}

/-- Every path of a row of writes can be read, and paths to the same file get the same content,
which `final` gives for the place of the file. -/
def Agrees (w : Workspace) (final : List Text → Text) (files : List (Text × Text)) : Prop :=
  ∀ f ∈ files, ∃ place old, w.locate f.1 = .ok place ∧ w.read f.1 = .ok old ∧ f.2 = final place

/-- The paths of a row of writes lead to the same places as before. -/
theorem Agrees.locate {final : List Text → Text} {f : Text × Text} (h : Agrees w final files)
    (hkeeps : Keeps w w') (hf : f ∈ files) (hplace : w'.locate f.1 = .ok place) :
    w.locate f.1 = .ok place := by
  obtain ⟨place', -, hlocate, -⟩ := h f hf
  obtain rfl := Except.ok.inj ((hkeeps.locate hlocate).symm.trans hplace)
  exact hlocate

/-- The first write leaves the others as they are. -/
theorem Agrees.tail {final : List Text → Text} {f : Text × Text}
    (h : Agrees w final (f :: files)) :
    Keeps w (w.write f.1 f.2) ∧ Agrees (w.write f.1 f.2) final files := by
  obtain ⟨place, old, hlocate, hread, -⟩ := h f List.mem_cons_self
  have hkeeps := keeps_write hread f.2
  refine ⟨hkeeps, fun g hg => ?_⟩
  obtain ⟨place', old', hlocate', hread', hfinal⟩ := h g (List.mem_cons_of_mem f hg)
  obtain ⟨_, heq, hfault, hold'⟩ := read_eq_ok_iff.mp hread'
  obtain rfl := Except.ok.inj (hlocate'.symm.trans heq)
  -- The file of `g` still stands there, with what was written or with what it held.
  have hcontent : ∃ now, (w.write f.1 f.2).tree.content? place' = some now := by
    by_cases hsame : w.locate f.1 = .ok place'
    · exact ⟨_, content?_write_self hread hsame f.2⟩
    · exact ⟨_, (content?_write_of_ne hsame f.2).trans hold'⟩
  obtain ⟨now, hnow⟩ := hcontent
  have hlocate'' := hkeeps.locate hlocate'
  exact ⟨place', now, hlocate'', read_eq_ok_iff.mpr
    ⟨place', hlocate'', (hkeeps.tree.fault place').trans hfault, hnow⟩, hfinal⟩

/-- A row of writes to files keeps everything. -/
theorem keeps_writeAll {final : List Text → Text} (h : Agrees w final files) :
    Keeps w (w.writeAll files) := by
  induction files generalizing w with
  | nil => exact ⟨rfl, fun _ h => h, fun _ h => h, fun _ => rfl, fun _ => rfl⟩
  | cons f files ih =>
    obtain ⟨hkeeps, hagrees⟩ := h.tail
    have hrest := ih hagrees
    exact ⟨hrest.cwd.trans hkeeps.cwd, hkeeps.tree.trans hrest.tree⟩

/-- A file to which no path of a row of writes leads holds what it held. -/
theorem content?_writeAll_of_not_exists {final : List Text → Text} (h : Agrees w final files)
    (hplace : ¬ ∃ f ∈ files, w.locate f.1 = .ok place) :
    (w.writeAll files).tree.content? place = w.tree.content? place := by
  induction files generalizing w with
  | nil => rfl
  | cons f files ih =>
    obtain ⟨hkeeps, hagrees⟩ := h.tail
    have hfirst : w.locate f.1 ≠ .ok place := fun hf => hplace ⟨f, List.mem_cons_self, hf⟩
    have hrest : ¬ ∃ g ∈ files, (w.write f.1 f.2).locate g.1 = .ok place := by
      rintro ⟨g, hg, hlocate⟩
      have hmem := List.mem_cons_of_mem f hg
      exact hplace ⟨g, hmem, h.locate hkeeps hmem hlocate⟩
    exact (ih hagrees hrest).trans (content?_write_of_ne hfirst f.2)

/-- A file to which a path of a row of writes leads holds what all such paths agree on. -/
theorem content?_writeAll_of_exists {final : List Text → Text} (h : Agrees w final files)
    (hplace : ∃ f ∈ files, w.locate f.1 = .ok place) :
    (w.writeAll files).tree.content? place = some (final place) := by
  induction files generalizing w with
  | nil => simp at hplace
  | cons f files ih =>
    obtain ⟨hkeeps, hagrees⟩ := h.tail
    -- A later write to the file replaces what this one writes.
    by_cases hrest : ∃ g ∈ files, (w.write f.1 f.2).locate g.1 = .ok place
    · exact ih hagrees hrest
    · obtain ⟨g, hg, hlocate⟩ := hplace
      obtain rfl | hg := List.mem_cons.mp hg
      · obtain ⟨place', old, hlocate', hread, hfinal⟩ := h g List.mem_cons_self
        obtain rfl := Except.ok.inj (hlocate'.symm.trans hlocate)
        rw [← hfinal]
        exact (content?_writeAll_of_not_exists hagrees hrest).trans
          (content?_write_self hread hlocate g.2)
      · exact absurd ⟨g, hg, hkeeps.locate hlocate⟩ hrest

end Workspace

end CallConv

import Mathlib
import CallConv.CommandLine.Standard
import CallConv.Proofs.Directive.Sound
import CallConv.Proofs.File.Tree

/-!
# What a run does to the files

A run that gets to its files reads and expands all of them before it writes any. What it writes is
the output of complete expansions only, and two paths to the same file give the same output, so the
order of the writes does not matter: each collected file holds its own output afterwards if it has
one, and everything else is as it was. The exit status says whether a file failed, which a file that
cannot be read does too.
-/

namespace CallConv

namespace Run

variable {env : Environment} {w : Workspace} {arguments : List Text} {o : Options} {target : Target}
  {path : Text} {paths : List Text} {content output : Text}

/-- A run gets to its files: it handles those under `paths` for `target`. -/
structure Handles (env : Environment) (w : Workspace) (arguments : List Text) (o : Options)
    (target : Target) (paths : List Text) : Prop where
  /-- The arguments are a command line. -/
  parse : Options.parse arguments = .ok o
  /-- It names files or directories. -/
  named : o.paths ≠ []
  /-- There is a configuration, which gives the target and collects the files. -/
  collected : ∃ config, loadConfig env w o = .ok config ∧
    config.resolveTargetBy env.host env.build w (platformSettings o) = .ok target ∧
    config.sources.collectBy (env.fileSearch w) o.paths = .ok paths

/-- The file under a path can be read and expanded. -/
def Expands (w : Workspace) (target : Target) (path : Text) : Prop :=
  ∃ content output, w.read path = .ok content ∧ (expandSource content target).result = .ok output

/-! ## One file -/

/-- A file that can be read and expanded gives its output. -/
theorem expandFile_of_ok (hread : w.read path = .ok content)
    (hresult : (expandSource content target).result = .ok output) :
    expandFile w target path =
      .ok ⟨path, content, (expandSource content target).items, output⟩ := by
  simp only [expandFile, Workspace.stat_of_read hread, hread, hresult]

/-- What was read and expanded is what stands under the path and the output of its expansion. -/
theorem of_expandFile {f : ExpandedFile} (h : expandFile w target path = .ok f) :
    f.path = path ∧ w.read path = .ok f.content ∧
      (expandSource f.content target).result = .ok f.output := by
  unfold expandFile at h
  split at h
  · simp at h
  · split at h
    · simp at h
    · next content hread =>
      simp only at h
      split at h
      · simp at h
      · next output hresult =>
        obtain rfl := Except.ok.inj h
        exact ⟨rfl, hread, hresult⟩

/-- A file fails unless it can be read and expanded. -/
theorem isFailure_expandFile :
    isFailure (expandFile w target path) = true ↔ ¬ Expands w target path := by
  cases h : expandFile w target path with
  | ok f =>
    obtain ⟨-, hread, hresult⟩ := of_expandFile h
    exact iff_of_false (by simp [isFailure]) (not_not_intro ⟨_, _, hread, hresult⟩)
  | error e =>
    refine iff_of_true rfl ?_
    rintro ⟨content, output, hread, hresult⟩
    simp [expandFile_of_ok hread hresult] at h

/-! ## All files -/

@[simp]
theorem code_andThen (r s : Outcome) : (andThen r s).code = max r.code s.code := rfl

@[simp]
theorem written_andThen (r s : Outcome) : (andThen r s).written = r.written ++ s.written := rfl

/-- The outcome for files that were read and expanded, one after the other. -/
def handleAll (o : Options) (results : List (Text × Except FileFailure ExpandedFile)) : Outcome :=
  results.foldr (fun (path, r) rest => andThen (handle o path r) rest) {}

/-- All files are read and expanded before the first one is handled. -/
theorem expandFiles_eq (w : Workspace) (o : Options) (target : Target) (paths : List Text) :
    expandFiles w o target paths =
      let results := paths.map fun path => (path, expandFile w target path)
      andThen (handleAll o results)
        (summary (results.countP fun (_, r) => isFailure r) results.length) := rfl

/-- The files are written one after the other. -/
theorem written_handleAll (o : Options) (results : List (Text × Except FileFailure ExpandedFile)) :
    (handleAll o results).written = results.flatMap fun (path, r) => (handle o path r).written := by
  induction results with
  | nil => rfl
  | cons result results ih =>
    rw [List.flatMap_cons, ← ih]
    rfl

/-- The status after all files is that of a failure if a file failed. -/
theorem code_handleAll (o : Options) (results : List (Text × Except FileFailure ExpandedFile)) :
    (handleAll o results).code =
      if (results.countP fun (_, r) => isFailure r) = 0 then 0 else 1 := by
  induction results with
  | nil => rfl
  | cons result results ih =>
    obtain ⟨path, r⟩ := result
    have hcons : (handleAll o ((path, r) :: results)).code =
        max (handle o path r).code (handleAll o results).code := rfl
    rw [hcons, ih]
    cases r with
    | error e =>
      rw [List.countP_cons_of_pos rfl, if_neg (Nat.succ_ne_zero _)]
      split <;> rfl
    | ok f =>
      rw [List.countP_cons_of_neg (by simp [isFailure])]
      exact Nat.zero_max _

/-- The last line of a report writes nothing. -/
theorem written_summary (failed total : Nat) : (summary failed total).written = [] := by
  unfold summary
  split <;> rfl

/-- The last line of a report is one of a failure if files failed. -/
theorem code_summary (failed total : Nat) :
    (summary failed total).code = if failed = 0 then 0 else 1 := by
  unfold summary
  split <;> rfl

/-- What is written for the file under a path. -/
def writesFor (w : Workspace) (o : Options) (target : Target) (path : Text) : List (Text × Text) :=
  (handle o path (expandFile w target path)).written

/-- The files are written in the order of their paths. -/
theorem written_expandFiles :
    (expandFiles w o target paths).written = paths.flatMap (writesFor w o target) := by
  rw [expandFiles_eq]
  simp only [written_andThen, written_handleAll, written_summary, List.append_nil, List.flatMap_map]
  rfl

/-- No file failed if all of them can be read and expanded. -/
theorem countP_isFailure_eq_zero_iff :
    (paths.countP fun path => isFailure (expandFile w target path)) = 0 ↔
      ∀ path ∈ paths, Expands w target path := by
  simp only [List.countP_eq_zero, isFailure_expandFile, not_not]

/-- The exit status is that of a failure if a file failed. -/
theorem code_expandFiles :
    (expandFiles w o target paths).code =
      if (paths.countP fun path => isFailure (expandFile w target path)) = 0 then 0 else 1 := by
  rw [expandFiles_eq]
  simp only [code_andThen, code_handleAll, code_summary, List.countP_map, max_self]
  rfl

/-- The exit status is one or zero, and zero if all files can be read and expanded. -/
theorem code_expandFiles_iff :
    ((expandFiles w o target paths).code = 1 ↔ ∃ path ∈ paths, ¬ Expands w target path) ∧
      ((expandFiles w o target paths).code = 0 ↔ ∀ path ∈ paths, Expands w target path) := by
  rw [← countP_isFailure_eq_zero_iff, code_expandFiles]
  have hfailing : (∃ path ∈ paths, ¬ Expands w target path) ↔
      ¬ (paths.countP fun path => isFailure (expandFile w target path)) = 0 := by
    rw [countP_isFailure_eq_zero_iff]
    push Not
    rfl
  rw [hfailing]
  split
  · next h => simp [h]
  · next h => simp [h]

/-- A run that gets to its files only logs something before. -/
theorem Handles.run_eq (h : Handles env w arguments o target paths) :
    (run env w arguments).written = (expandFiles w o target paths).written ∧
      (run env w arguments).code = (expandFiles w o target paths).code := by
  obtain ⟨config, hconfig, htarget, hpaths⟩ := h.collected
  simp only [run, h.parse, ofOptions, if_neg h.named, hconfig, htarget, hpaths, written_andThen,
    code_andThen]
  split
  · exact ⟨List.nil_append _, Nat.zero_max _⟩
  · exact ⟨List.nil_append _, Nat.zero_max _⟩

/-! ## The writes -/

/-- Without the switch for writing, or with the one for listing, nothing is written. -/
theorem writesFor_eq_nil (h : o.write = false ∨ o.list = true) :
    writesFor w o target path = [] := by
  unfold writesFor handle
  split
  · rfl
  · rcases h with h | h
    · simp [ExpandedFile.writes, h]
    · simp [ExpandedFile.writes, h]

/-- Otherwise a file is written if its expansion is complete and changes it. -/
theorem mem_writesFor_iff (hwrite : o.write = true) (hlist : o.list = false) {f : Text × Text} :
    f ∈ writesFor w o target path ↔
      ∃ content, f.1 = path ∧ w.read path = .ok content ∧
        (expandSource content target).result = .ok f.2 ∧ content ≠ f.2 := by
  unfold writesFor
  cases hfile : expandFile w target path with
  | error e =>
    refine iff_of_false List.not_mem_nil ?_
    rintro ⟨content, -, hread, hresult, -⟩
    simp [expandFile_of_ok hread hresult] at hfile
  | ok x =>
    obtain ⟨hpath, hread, hresult⟩ := of_expandFile hfile
    have hwrites : (handle o path (.ok x)).written =
        if x.content ≠ x.output then [(x.path, x.output)] else [] := by
      simp [handle, ExpandedFile.writes, ExpandedFile.isChanged, hlist, hwrite]
    rw [hwrites]
    constructor
    · intro hf
      split at hf
      · next hne =>
        obtain rfl := List.mem_singleton.mp hf
        exact ⟨x.content, hpath, hread, hresult, hne⟩
      · exact absurd hf List.not_mem_nil
    · rintro ⟨content, hf, hread', hresult', hne⟩
      obtain rfl := Except.ok.inj (hread.symm.trans hread')
      have houtput := Except.ok.inj (hresult.symm.trans hresult')
      rw [if_pos (houtput ▸ hne), List.mem_singleton]
      exact Prod.ext (hf.trans hpath.symm) houtput.symm

/-- What a file holds after it was handled: the output of its expansion, or what it held. -/
def settled (target : Target) (content : Text) : Text :=
  match (expandSource content target).result with
  | .ok output => output
  | .error _ => content

/-- What the file at a place holds after it was handled. -/
def settledAt (w : Workspace) (target : Target) (place : List Text) : Text :=
  settled target ((w.tree.content? place).getD [])

section Writing

variable (hwrite : o.write = true) (hlist : o.list = false)
include hwrite hlist

/-- A run writes only to collected files that can be read, and to each what it holds settled. -/
theorem agrees_writes : w.Agrees (settledAt w target) (paths.flatMap (writesFor w o target)) := by
  intro f hf
  obtain ⟨path, -, hf⟩ := List.mem_flatMap.mp hf
  obtain ⟨content, rfl, hread, hresult, -⟩ := (mem_writesFor_iff hwrite hlist).mp hf
  obtain ⟨place, hlocate, -, hcontent⟩ := Workspace.read_eq_ok_iff.mp hread
  refine ⟨place, content, hlocate, hread, ?_⟩
  rw [settledAt, hcontent, Option.getD_some, settled, hresult]

/-- A collected file that can be read is settled by the writes. -/
theorem content?_writeAll {place : List Text} (hpath : path ∈ paths)
    (hlocate : w.locate path = .ok place) (hread : w.read path = .ok content) :
    (w.writeAll (paths.flatMap (writesFor w o target))).tree.content? place =
      some (settled target content) := by
  obtain ⟨place', hlocate', -, hcontent⟩ := Workspace.read_eq_ok_iff.mp hread
  obtain rfl := Except.ok.inj (hlocate.symm.trans hlocate')
  have hagrees : w.Agrees (settledAt w target) (paths.flatMap (writesFor w o target)) :=
    agrees_writes hwrite hlist
  by_cases hwritten : ∃ f ∈ paths.flatMap (writesFor w o target), w.locate f.1 = .ok place
  · rw [Workspace.content?_writeAll_of_exists hagrees hwritten, settledAt, hcontent]
    rfl
  · rw [Workspace.content?_writeAll_of_not_exists hagrees hwritten, hcontent, settled]
    -- The output of a complete expansion is not written only if it is what the file holds.
    split
    · next output hresult =>
      by_contra hne
      refine hwritten ⟨(path, output), List.mem_flatMap.mpr ⟨path, hpath, ?_⟩, hlocate⟩
      exact (mem_writesFor_iff hwrite hlist).mpr
        ⟨content, rfl, hread, hresult, fun heq => hne (congrArg some heq)⟩
    · rfl

/-- A file to which no collected path that can be read leads is left alone by the writes. -/
theorem content?_writeAll_of_not_read {place : List Text}
    (hplace : ∀ path ∈ paths, ∀ content, w.read path = .ok content → w.locate path ≠ .ok place) :
    (w.writeAll (paths.flatMap (writesFor w o target))).tree.content? place =
      w.tree.content? place := by
  refine Workspace.content?_writeAll_of_not_exists (agrees_writes hwrite hlist) ?_
  rintro ⟨f, hf, hlocate⟩
  obtain ⟨path, hpath, hf⟩ := List.mem_flatMap.mp hf
  obtain ⟨content, rfl, hread, -⟩ := (mem_writesFor_iff hwrite hlist).mp hf
  exact hplace _ hpath _ hread hlocate

end Writing

end Run

open Run

/-- Only complete expansions are written, whatever system a run has and however the other files are
read. Without the switch for writing, or with the one for listing, a run changes nothing. Otherwise
every path leads where it led, a collected file that can be expanded holds the output of the
expansion of what it held, under each of its paths, and a collected file that cannot be expanded
holds what it held. So does every file that was not collected, and every one that is collected but
cannot be read. The exit status is one if and only if a collected file could not be read or
expanded, and zero otherwise. Fatal failures of an expansion are not told apart from its others
here. -/
theorem run_writes {env : Environment} {w : Workspace} {arguments : List Text} {o : Options}
    {target : Target} {paths : List Text} (h : Handles env w arguments o target paths) :
    ((o.write = false ∨ o.list = true) → (run env w arguments).apply w = w) ∧
      (o.write = true → o.list = false →
        (∀ path place, w.locate path = .ok place →
          ((run env w arguments).apply w).locate path = .ok place) ∧
        (∀ path ∈ paths, ∀ content, w.read path = .ok content →
          (∀ output, (expandSource content target).result = .ok output →
            ((run env w arguments).apply w).read path = .ok output) ∧
          ∀ errors, (expandSource content target).result = .error errors →
            ((run env w arguments).apply w).read path = .ok content) ∧
        ∀ place,
          (∀ path ∈ paths, ∀ content, w.read path = .ok content → w.locate path ≠ .ok place) →
            ((run env w arguments).apply w).tree.content? place = w.tree.content? place) ∧
      ((run env w arguments).code = 1 ↔ ∃ path ∈ paths, ¬ Expands w target path) ∧
      ((run env w arguments).code = 0 ↔ ∀ path ∈ paths, Expands w target path) := by
  obtain ⟨hwritten, hcode⟩ := h.run_eq
  have happly : (run env w arguments).apply w =
      w.writeAll (paths.flatMap (writesFor w o target)) := by
    rw [← written_expandFiles, ← hwritten]
    rfl
  rw [happly, hcode]
  refine ⟨fun hoff => ?_, fun hwrite hlist => ?_, code_expandFiles_iff⟩
  · have hnone : paths.flatMap (writesFor w o target) = [] :=
      List.flatMap_eq_nil_iff.mpr fun path _ => writesFor_eq_nil hoff
    rw [hnone]
    rfl
  · have hagrees : w.Agrees (settledAt w target) (paths.flatMap (writesFor w o target)) :=
      agrees_writes hwrite hlist
    have hkeeps := Workspace.keeps_writeAll hagrees
    refine ⟨fun path place hlocate => hkeeps.locate hlocate, fun path hpath content hread => ?_,
      fun place hplace => content?_writeAll_of_not_read hwrite hlist hplace⟩
    obtain ⟨place, hlocate, hfault, -⟩ := Workspace.read_eq_ok_iff.mp hread
    have hsettled : (w.writeAll (paths.flatMap (writesFor w o target))).read path =
        .ok (settled target content) :=
      Workspace.read_eq_ok_iff.mpr ⟨place, hkeeps.locate hlocate,
        (hkeeps.tree.fault place).trans hfault,
        content?_writeAll hwrite hlist hpath hlocate hread⟩
    refine ⟨fun output hresult => ?_, fun errors hresult => ?_⟩
    · rw [hsettled, settled, hresult]
    · rw [hsettled, settled, hresult]

/-- A working directory with a file that can be expanded and a link to it, a broken file, and one
that must not be read. -/
def threeFiles : Workspace :=
  { tree :=
      { nodes := [([utf8 "p"], .directory),
          ([utf8 "p", utf8 "a.rs"], .file (utf8 "#[abi(\"C\")] fn f();")),
          ([utf8 "p", utf8 "b.rs"], .file (utf8 "#[abi] fn g();")),
          ([utf8 "p", utf8 "c.rs"], .file (utf8 "#[abi(\"C\")] fn h();"))]
        links := [([utf8 "p", utf8 "link.rs"], [utf8 "p", utf8 "a.rs"])]
        faults := [([utf8 "p", utf8 "c.rs"], .permission)] }
    cwd := [utf8 "p"] }

/-- The file that is collected under two spellings and under a link is written, the broken one and
the one that must not be read are left alone, and the run fails. -/
theorem run_writes_threeFiles :
    let env := Environment.standard ⟨utf8 "linux", utf8 "amd64"⟩
    let arguments :=
      [utf8 "-w", utf8 "./a.rs", utf8 "a.rs", utf8 "b.rs", utf8 "c.rs", utf8 "link.rs"]
    let after := (run env threeFiles arguments).apply threeFiles
    after.read (utf8 "./a.rs") = .ok (utf8 "extern \"C\" fn f();") ∧
      after.read (utf8 "a.rs") = .ok (utf8 "extern \"C\" fn f();") ∧
      after.read (utf8 "link.rs") = .ok (utf8 "extern \"C\" fn f();") ∧
      after.read (utf8 "b.rs") = .ok (utf8 "#[abi] fn g();") ∧
      after.tree.content? [utf8 "p", utf8 "c.rs"] = some (utf8 "#[abi(\"C\")] fn h();") ∧
      (run env threeFiles arguments).code = 1 := by
  intro env arguments after
  let paths := [utf8 "./a.rs", utf8 "a.rs", utf8 "b.rs", utf8 "c.rs", utf8 "link.rs"]
  let filter := (Config.forDirectory (utf8 "/p")).sources
  have hexpand : paths.mapM (filter.expand (env.fileSearch threeFiles)) =
      .ok (paths.map fun path => [path]) := by
    decide +kernel
  have hsorted : filter.collectBy (env.fileSearch threeFiles) paths = .ok paths := by
    rw [SourceFilter.collectBy, hexpand]
    exact congrArg Except.ok (List.mergeSort_of_pairwise (by decide +kernel))
  have hhandles : Handles env threeFiles arguments { write := true, paths } Target.linux64 paths :=
    ⟨by decide +kernel, by decide, Config.forDirectory (utf8 "/p"), by decide +kernel,
      by decide +kernel, hsorted⟩
  obtain ⟨-, hwrites, hfailed, -⟩ := run_writes hhandles
  obtain ⟨-, hcollected, hothers⟩ := hwrites rfl rfl
  have hresult : (expandSource (utf8 "#[abi(\"C\")] fn f();") Target.linux64).result =
      .ok (utf8 "extern \"C\" fn f();") := by decide +kernel
  have hbroken : (expandSource (utf8 "#[abi] fn g();") Target.linux64).result =
      .error [.attr (.malformed ⟨1, 1, 0⟩)] := by decide +kernel
  have hread : threeFiles.read (utf8 "b.rs") = .ok (utf8 "#[abi] fn g();") := by decide +kernel
  have hdenied : threeFiles.read (utf8 "c.rs") = .error ⟨.opening, utf8 "c.rs", .permission⟩ := by
    decide +kernel
  have hplace : ∀ path ∈ paths, ∀ content, threeFiles.read path = .ok content →
      threeFiles.locate path ≠ .ok [utf8 "p", utf8 "c.rs"] := by
    intro path _ content hpath hlocate
    obtain ⟨place, hlocate', hfault, -⟩ := Workspace.read_eq_ok_iff.mp hpath
    obtain rfl := Except.ok.inj (hlocate.symm.trans hlocate')
    exact absurd hfault (by decide +kernel)
  refine ⟨(hcollected _ (by decide) _ (by decide +kernel)).1 _ hresult,
    (hcollected _ (by decide) _ (by decide +kernel)).1 _ hresult,
    (hcollected _ (by decide) _ (by decide +kernel)).1 _ hresult,
    (hcollected _ (by decide) _ hread).2 _ hbroken,
    (hothers _ hplace).trans (by decide +kernel), hfailed.mpr ⟨utf8 "c.rs", by decide, ?_⟩⟩
  rintro ⟨content, output, hread', -⟩
  simp [hdenied] at hread'

end CallConv

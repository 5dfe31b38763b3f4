import Mathlib
import CallConv.Bazel.Constraint

/-!
# Which constraint values give a platform

Constraint values give a platform if all of them are labels, exactly one is an operating system,
exactly one an architecture, and the two names are known. Neither their order nor values of other
settings count.

The search keeps one name for each setting, which is empty as long as the setting was not met.
`Met` says what becomes of such a name, and it composes as long as no label has an empty name: this
is all that is asked of the reader of labels, which may be any other one.
-/

namespace CallConv

/-- A base name is never empty. -/
theorem Path.base_ne_nil (p : Text) : base p ≠ [] := by
  simp only [base]
  split
  · decide
  · split
    · exact List.cons_ne_nil _ _
    · next hne =>
      obtain ⟨b, rest, hcons⟩ := List.exists_cons_of_ne_nil hne
      -- What is left behind the slashes at the end does not begin with one.
      have hb : b ≠ Byte.slash := by
        have hhead := List.head_dropWhile_not (· == Byte.slash) (l := p.reverse) hne
        simpa [hcons] using hhead
      simp [hcons, hb]

/-- A label has a name. -/
theorem Label.name_ne_nil_of_parse {value : Text} {l : Label} (h : parse value = .ok l) :
    l.name ≠ [] := by
  simp only [parse] at h
  repeat' split at h
  all_goals cases h
  · exact Path.base_ne_nil _
  · assumption
  · exact Path.base_ne_nil _
  · assumption

namespace Constraint

/-- Whether a label is a value of a setting of the platforms repository. -/
def isValueOf (setting : Text) (l : Label) : Bool :=
  l.repo == utf8 "platforms" && l.pkg == setting

/-- The values of a setting among some labels. -/
def valuesOf (setting : Text) (ls : List Label) : List Label := ls.filter (isValueOf setting)

/-- The name of a setting before and after some values of it: there is none, or there is one and
none was met before. -/
def Met (before : Text) (found : List Label) (after : Text) : Prop :=
  found = [] ∧ after = before ∨ before = [] ∧ ∃ l, found = [l] ∧ after = l.name

/-- Without a value of it a setting keeps its name. -/
@[simp]
theorem met_nil {before after : Text} : Met before [] after ↔ before = after := by
  simp [Met, eq_comm]

/-- The first value of a setting gives it its name. -/
@[simp]
theorem met_singleton {before after : Text} {l : Label} :
    Met before [l] after ↔ before = [] ∧ l.name = after := by
  simp [Met, @eq_comm _ l.name]

/-- The values that a row of labels holds are met one row after the other. -/
theorem met_append_iff {before after : Text} {found more : List Label}
    (hname : ∀ l ∈ found, l.name ≠ []) :
    Met before (found ++ more) after ↔
      ∃ between, Met before found between ∧ Met between more after := by
  constructor
  · rintro (⟨hnone, rfl⟩ | ⟨rfl, l, hone, rfl⟩)
    · obtain ⟨rfl, rfl⟩ := List.append_eq_nil_iff.mp hnone
      exact ⟨after, .inl ⟨rfl, rfl⟩, .inl ⟨rfl, rfl⟩⟩
    · rcases List.append_eq_singleton_iff.mp hone with ⟨rfl, rfl⟩ | ⟨rfl, rfl⟩
      · exact ⟨[], .inl ⟨rfl, rfl⟩, .inr ⟨rfl, l, rfl, rfl⟩⟩
      · exact ⟨l.name, .inr ⟨rfl, l, rfl, rfl⟩, .inl ⟨rfl, rfl⟩⟩
  · rintro ⟨between, ⟨rfl, rfl⟩ | ⟨rfl, l, rfl, rfl⟩, hmore⟩
    · exact hmore
    · -- The setting has a name now, so that no other value of it is met.
      rcases hmore with ⟨rfl, rfl⟩ | ⟨hempty, -⟩
      · exact .inr ⟨rfl, l, rfl, rfl⟩
      · exact absurd hempty (hname l List.mem_cons_self)

variable {read : Text → Except LabelError Label}

/-- One more constraint value is a label, and is met in each setting that it is a value of. -/
theorem add_eq_ok_iff {s s' : Settings} {value : Text} :
    s.add read value = .ok s' ↔ ∃ l, read value = .ok l ∧
      Met s.os (valuesOf (utf8 "os") [l]) s'.os ∧ Met s.cpu (valuesOf (utf8 "cpu") [l]) s'.cpu := by
  have hsettings : utf8 "os" ≠ utf8 "cpu" := by decide
  obtain ⟨os, cpu⟩ := s
  obtain ⟨os', cpu'⟩ := s'
  unfold Settings.add
  cases read value with
  | error e => simp
  | ok l =>
    -- The label is a value of the one setting, of the other one, or of neither.
    by_cases hrepo : l.repo = utf8 "platforms"
    · by_cases hos : l.pkg = utf8 "os"
      · by_cases hmet : os = [] <;> simp [valuesOf, isValueOf, hrepo, hos, hsettings, hmet]
      · by_cases hcpu : l.pkg = utf8 "cpu"
        · by_cases hmet : cpu = [] <;>
            simp [valuesOf, isValueOf, hrepo, hcpu, hsettings.symm, hmet]
        · simp [valuesOf, isValueOf, hrepo, hos, hcpu]
    · simp [valuesOf, isValueOf, hrepo]

/-- The labels that a reader gives of some constraint values. -/
def Labelled (read : Text → Except LabelError Label) : List Text → List Label → Prop :=
  List.Forall₂ fun value l => read value = .ok l

/-- The labels of constraint values have names if the reader gives no others. -/
theorem Labelled.name_ne_nil (hname : ∀ value l, read value = .ok l → l.name ≠ [])
    {values : List Text} {ls : List Label} (h : Labelled read values ls) :
    ∀ l ∈ ls, l.name ≠ [] := by
  induction h with
  | nil => simp
  | cons hread _ ih => exact List.forall_mem_cons.mpr ⟨hname _ _ hread, ih⟩

/-- Constraint values are labels, and each setting is met at most once in them. -/
theorem settings_eq_ok_iff (hname : ∀ value l, read value = .ok l → l.name ≠ [])
    {values : List Text} {s s' : Settings} :
    values.foldlM (Settings.add read) s = .ok s' ↔ ∃ ls, Labelled read values ls ∧
      Met s.os (valuesOf (utf8 "os") ls) s'.os ∧ Met s.cpu (valuesOf (utf8 "cpu") ls) s'.cpu := by
  induction values generalizing s with
  | nil =>
    obtain ⟨os, cpu⟩ := s
    obtain ⟨os', cpu'⟩ := s'
    simp [Labelled, valuesOf, pure, Except.pure]
  | cons value values ih =>
    have hsplit : ∀ setting l ls, valuesOf setting (l :: ls) =
        valuesOf setting [l] ++ valuesOf setting ls := fun setting l ls => by
      rw [valuesOf, ← List.singleton_append, List.filter_append]
      rfl
    have hnamed : ∀ setting l, read value = .ok l → ∀ l' ∈ valuesOf setting [l], l'.name ≠ [] := by
      intro setting l hread l' hmem
      obtain rfl := List.mem_singleton.mp (List.mem_of_mem_filter hmem)
      exact hname value l' hread
    rw [List.foldlM_cons]
    constructor
    · intro h
      cases hadd : s.add read value with
      | error e => simp [hadd, bind, Except.bind] at h
      | ok middle =>
        simp only [hadd, bind, Except.bind] at h
        obtain ⟨l, hread, hos, hcpu⟩ := add_eq_ok_iff.mp hadd
        obtain ⟨ls, hlabels, hmoreOs, hmoreCpu⟩ := ih.mp h
        refine ⟨l :: ls, .cons hread hlabels, ?_, ?_⟩
        · rw [hsplit, met_append_iff (hnamed _ l hread)]
          exact ⟨middle.os, hos, hmoreOs⟩
        · rw [hsplit, met_append_iff (hnamed _ l hread)]
          exact ⟨middle.cpu, hcpu, hmoreCpu⟩
    · rintro ⟨_, hlabels, hos, hcpu⟩
      obtain ⟨l, ls, hread, hmore, rfl⟩ := List.forall₂_cons_left_iff.mp hlabels
      rw [hsplit, met_append_iff (hnamed _ l hread)] at hos hcpu
      obtain ⟨os, hos, hmoreOs⟩ := hos
      obtain ⟨cpu, hcpu, hmoreCpu⟩ := hcpu
      have hadd : s.add read value = .ok ⟨os, cpu⟩ := add_eq_ok_iff.mpr ⟨l, hread, hos, hcpu⟩
      rw [hadd]
      exact ih.mpr ⟨ls, hmore, hmoreOs, hmoreCpu⟩

end Constraint

namespace Platform

open Constraint

variable {read : Text → Except LabelError Label}

/-- Some labels name a platform: exactly one is an operating system and exactly one an
architecture. -/
def NamedBy (p : Platform) (ls : List Label) : Prop :=
  ∃ os cpu, valuesOf (utf8 "os") ls = [os] ∧ valuesOf (utf8 "cpu") ls = [cpu] ∧
    ofNames os.name cpu.name = .ok p

/-- Constraint values give the platform that their labels name. -/
theorem ofConstraintsBy_eq_ok_iff (hname : ∀ value l, read value = .ok l → l.name ≠ [])
    {values : List Text} {p : Platform} :
    ofConstraintsBy read values = .ok p ↔ ∃ ls, Labelled read values ls ∧ p.NamedBy ls := by
  -- A failure of the names is not changed into a platform.
  have hmapError : ∀ {x : Except NameError Platform},
      x.mapError ConstraintError.name = .ok p ↔ x = .ok p := by
    intro x
    cases x <;> simp [Except.mapError]
  constructor
  · intro h
    unfold ofConstraintsBy at h
    split at h
    · simp at h
    · next s hs =>
      split at h
      · simp at h
      · next hmet =>
        obtain ⟨hos, hcpu⟩ := not_or.mp hmet
        obtain ⟨ls, hlabels, ⟨-, hos'⟩ | ⟨-, os, hos', heq⟩, hmore⟩ :=
          (settings_eq_ok_iff hname).mp hs
        · exact absurd hos' hos
        obtain ⟨-, hcpu'⟩ | ⟨-, cpu, hcpu', heq'⟩ := hmore
        · exact absurd hcpu' hcpu
        refine ⟨ls, hlabels, os, cpu, hos', hcpu', ?_⟩
        rw [← heq, ← heq']
        exact hmapError.mp h
  · rintro ⟨ls, hlabels, os, cpu, hos, hcpu, hnames⟩
    have hs : settings read values = .ok ⟨os.name, cpu.name⟩ :=
      (settings_eq_ok_iff hname).mpr
        ⟨ls, hlabels, .inr ⟨rfl, os, hos, rfl⟩, .inr ⟨rfl, cpu, hcpu, rfl⟩⟩
    have hnamed : ∀ setting l, valuesOf setting ls = [l] → l.name ≠ [] := fun setting l hone =>
      hlabels.name_ne_nil hname l (List.mem_of_mem_filter (hone ▸ List.mem_singleton_self l))
    have hmet : ¬ (os.name = [] ∨ cpu.name = []) := not_or.mpr ⟨hnamed _ os hos, hnamed _ cpu hcpu⟩
    simp only [ofConstraintsBy, hs, if_neg hmet]
    exact hmapError.mpr hnames

/-- Labels name a platform in any order. -/
theorem NamedBy.perm {p : Platform} {ls ls' : List Label} (h : p.NamedBy ls)
    (hperm : ls'.Perm ls) : p.NamedBy ls' := by
  obtain ⟨os, cpu, hos, hcpu, hnames⟩ := h
  have hvalues : ∀ setting l, valuesOf setting ls = [l] → valuesOf setting ls' = [l] :=
    fun setting l hone => List.perm_singleton.mp (hone ▸ hperm.filter _)
  exact ⟨os, cpu, hvalues _ os hos, hvalues _ cpu hcpu, hnames⟩

/-- Constraint values give a platform in any order. -/
theorem ofConstraintsBy_perm (hname : ∀ value l, read value = .ok l → l.name ≠ [])
    {values values' : List Text} (hperm : values.Perm values') {p : Platform} :
    ofConstraintsBy read values = .ok p ↔ ofConstraintsBy read values' = .ok p := by
  have hle : ∀ {us us' : List Text}, us'.Perm us → ofConstraintsBy read us = .ok p →
      ofConstraintsBy read us' = .ok p := by
    intro us us' hperm h
    obtain ⟨ls, hlabels, hp⟩ := (ofConstraintsBy_eq_ok_iff hname).mp h
    obtain ⟨ls', hlabels', hperm'⟩ := List.perm_comp_forall₂ hperm hlabels
    exact (ofConstraintsBy_eq_ok_iff hname).mpr ⟨ls', hlabels', hp.perm hperm'⟩
  exact ⟨hle hperm.symm, hle hperm⟩

/-- A value of another setting in front makes no difference. -/
theorem ofConstraintsBy_cons (hname : ∀ value l, read value = .ok l → l.name ≠ [])
    {value : Text} {l : Label} (hread : read value = .ok l)
    (hother : isValueOf (utf8 "os") l = false ∧ isValueOf (utf8 "cpu") l = false)
    {values : List Text} {p : Platform} :
    ofConstraintsBy read (value :: values) = .ok p ↔ ofConstraintsBy read values = .ok p := by
  have hnamed : ∀ ls, p.NamedBy (l :: ls) ↔ p.NamedBy ls := fun ls => by
    simp [NamedBy, valuesOf, hother.1, hother.2]
  rw [ofConstraintsBy_eq_ok_iff hname, ofConstraintsBy_eq_ok_iff hname]
  constructor
  · rintro ⟨_, hlabels, hp⟩
    obtain ⟨l', ls, hread', hmore, rfl⟩ := List.forall₂_cons_left_iff.mp hlabels
    obtain rfl : l = l' := Except.ok.inj (hread.symm.trans hread')
    exact ⟨ls, hmore, (hnamed ls).mp hp⟩
  · rintro ⟨ls, hlabels, hp⟩
    exact ⟨l :: ls, .cons hread hlabels, (hnamed ls).mpr hp⟩

/-- Whatever reads the labels, as long as each has a name: constraint values give a platform if and
only if all of them are labels, exactly one is an operating system, exactly one an architecture, and
the platform is the one of these two names. So the values may stand in any order, and a value of
another setting may stand anywhere among them or be left out. -/
theorem ofConstraintsBy_named (read : Text → Except LabelError Label)
    (hname : ∀ value l, read value = .ok l → l.name ≠ []) (values : List Text) :
    (∀ p, ofConstraintsBy read values = .ok p ↔ ∃ ls, Labelled read values ls ∧
      ∃ os cpu, valuesOf (utf8 "os") ls = [os] ∧ valuesOf (utf8 "cpu") ls = [cpu] ∧
        ofNames os.name cpu.name = .ok p) ∧
    (∀ values', values.Perm values' → ∀ p,
      ofConstraintsBy read values = .ok p ↔ ofConstraintsBy read values' = .ok p) ∧
    ∀ before after value l, values = before ++ after → read value = .ok l →
      isValueOf (utf8 "os") l = false ∧ isValueOf (utf8 "cpu") l = false → ∀ p,
        ofConstraintsBy read (before ++ value :: after) = .ok p ↔
          ofConstraintsBy read values = .ok p := by
  refine ⟨fun p => ofConstraintsBy_eq_ok_iff hname,
    fun values' hperm p => ofConstraintsBy_perm hname hperm, ?_⟩
  rintro before after value l rfl hread hother p
  rw [ofConstraintsBy_perm hname List.perm_middle]
  exact ofConstraintsBy_cons hname hread hother

/-- An operating system and an architecture by their aliases, with a value of another setting
before, between or behind them, and the other way round. -/
theorem ofConstraintsBy_named_aliases :
    let p : Platform := ⟨utf8 "osx", utf8 "aarch64"⟩
    ofConstraints [utf8 "@platforms//cpu:arm64", utf8 "@@platforms//os:macos"] = .ok p ∧
      ofConstraints [utf8 "@platforms//cpu:arm64", utf8 "//config:opt",
        utf8 "@@platforms//os:macos"] = .ok p ∧
      ofConstraints [utf8 "@@platforms//os:macos", utf8 "@platforms//cpu:arm64"] = .ok p := by
  intro p
  obtain ⟨hiff, hperm, hinsert⟩ := ofConstraintsBy_named Label.parse
    (fun _ _ h => Label.name_ne_nil_of_parse h)
    [utf8 "@platforms//cpu:arm64", utf8 "@@platforms//os:macos"]
  let os : Label := ⟨utf8 "platforms", utf8 "os", utf8 "macos"⟩
  let cpu : Label := ⟨utf8 "platforms", utf8 "cpu", utf8 "arm64"⟩
  let opt : Label := ⟨[], utf8 "config", utf8 "opt"⟩
  have hboth : ofConstraints [utf8 "@platforms//cpu:arm64", utf8 "@@platforms//os:macos"] = .ok p :=
    (hiff p).mpr ⟨[cpu, os], .cons (by decide +kernel) (.cons (by decide +kernel) .nil), os, cpu,
      by decide +kernel, by decide +kernel, by decide +kernel⟩
  refine ⟨hboth, ?_, ?_⟩
  · exact (hinsert [utf8 "@platforms//cpu:arm64"] [utf8 "@@platforms//os:macos"]
      (utf8 "//config:opt") opt rfl (by decide +kernel) (by decide +kernel) p).mpr hboth
  · exact (hperm _ (List.Perm.swap _ _ _) p).mp hboth

end Platform

end CallConv

import Mathlib
import CallConv.Proofs.Directive.Printed

/-!
# What a directive chooses

A directive that was read can be asked for a convention on every target and for every marker. A
table chooses by its first entry that applies, so that only entries before that one count: entries
behind it and entries that do not apply may be put in or left out. Where no entry applies, the
marker decides. On every target some entry of a table applies that has both pointer widths among its
shortcuts, or all three operating systems.

The choice of a table depends on `chosen?` and the marker only (`Sound.unplaced_resolve`), apart
from the position in a failure, which is that of the first entry.
-/

namespace CallConv

/-- Whether the shortcut of an entry denotes a platform. -/
def TableEntry.applies (e : TableEntry) (p : Platform) : Bool :=
  (Shortcut.condition? e.shortcut).any (·.holds p)

/-! ## The shortcuts of a target -/

namespace Target

/-- A target is asked whether the shortcut of an entry denotes its platform. -/
theorem matches?_of_isKnown (target : Target) {e : TableEntry}
    (h : Shortcut.isKnown e.shortcut = true) :
    target.matches? e.shortcut = some (e.applies target.platform) := by
  obtain ⟨condition, hcondition⟩ := Option.isSome_iff_exists.mp h
  simp [matches?, TableEntry.applies, hcondition]

/-- A target has a shortcut of its operating system alone. -/
theorem exists_shortcut_os (target : Target) :
    ∃ name ∈ [utf8 "linux", utf8 "win", utf8 "macos"],
      Shortcut.condition? name = some ⟨some target.platform.os, none⟩ := by
  have hos : ∀ os ∈ supportedOs, ∃ name ∈ [utf8 "linux", utf8 "win", utf8 "macos"],
      Shortcut.condition? name = some ⟨some os, none⟩ := by decide
  exact hos _ target.os_mem

/-- A target has a shortcut of its pointer width alone. -/
theorem exists_shortcut_width (target : Target) :
    ∃ name ∈ [utf8 "32", utf8 "64"],
      Shortcut.condition? name = some ⟨none, some target.platform.pointerWidth⟩ := by
  have hwidth : ∀ width ∈ supportedWidths, ∃ name ∈ [utf8 "32", utf8 "64"],
      Shortcut.condition? name = some ⟨none, some width⟩ := by decide
  exact hwidth _ target.width_mem

/-- An entry applies to a target if all pointer widths or all operating systems are among the
shortcuts of the entries. -/
theorem exists_applies (target : Target) {entries : List TableEntry}
    (h : [utf8 "32", utf8 "64"] ⊆ entries.map TableEntry.shortcut ∨
      [utf8 "linux", utf8 "win", utf8 "macos"] ⊆ entries.map TableEntry.shortcut) :
    ∃ e ∈ entries, e.applies target.platform = true := by
  rcases h with hwidths | hsystems
  · obtain ⟨name, hname, hcondition⟩ := target.exists_shortcut_width
    obtain ⟨e, he, rfl⟩ := List.mem_map.mp (hwidths hname)
    exact ⟨e, he, by simp [TableEntry.applies, hcondition, Condition.holds]⟩
  · obtain ⟨name, hname, hcondition⟩ := target.exists_shortcut_os
    obtain ⟨e, he, rfl⟩ := List.mem_map.mp (hsystems hname)
    exact ⟨e, he, by simp [TableEntry.applies, hcondition, Condition.holds]⟩

/-- The target of a platform is that platform. -/
theorem platform_of_ofPlatform {p : Platform} {target : Target} (h : ofPlatform p = .ok target) :
    target.platform = p := by
  unfold ofPlatform at h
  split at h
  · split at h
    · rw [← Except.ok.inj h]
    · simp at h
  · simp at h

end Target

namespace Directive

/-! ## The entry that decides -/

/-- The convention of the first entry that applies to a platform. -/
def chosen? (p : Platform) (entries : List TableEntry) : Option Text :=
  (entries.find? (·.applies p)).map TableEntry.abi

section Chosen

variable {p : Platform} {e : TableEntry} {before after : List TableEntry}

/-- Positions do not count. -/
@[simp]
theorem chosen?_map_unplaced (p : Platform) (entries : List TableEntry) :
    chosen? p (entries.map TableEntry.unplaced) = chosen? p entries := by
  simp only [chosen?, List.find?_map, Option.map_map]
  rfl

/-- An entry that applies decides, if none before it does. -/
theorem chosen?_of_applies (hbefore : ∀ b ∈ before, b.applies p = false)
    (he : e.applies p = true) (after : List TableEntry) :
    chosen? p (before ++ e :: after) = some e.abi := by
  have hnone : before.find? (·.applies p) = none :=
    List.find?_eq_none.mpr fun b hb => by simp [hbefore b hb]
  simp [chosen?, List.find?_append, hnone, he]

/-- Behind an entry that applies no entry counts. -/
theorem chosen?_append (he : e.applies p = true) (before after after' : List TableEntry) :
    chosen? p (before ++ e :: after) = chosen? p (before ++ e :: after') := by
  simp [chosen?, List.find?_append, he]

/-- Entries that do not apply do not count. -/
theorem chosen?_insert {inserted : List TableEntry}
    (hinserted : ∀ e ∈ inserted, e.applies p = false) (before after : List TableEntry) :
    chosen? p (before ++ inserted ++ after) = chosen? p (before ++ after) := by
  have hnone : inserted.find? (·.applies p) = none :=
    List.find?_eq_none.mpr fun e he => by simp [hinserted e he]
  simp [chosen?, List.find?_append, hnone]

/-- Some entry decides if one applies. -/
theorem exists_chosen? {entries : List TableEntry} (he : e ∈ entries)
    (happlies : e.applies p = true) : ∃ abi, chosen? p entries = some abi := by
  have hsome : (entries.find? (·.applies p)).isSome = true :=
    List.find?_isSome.mpr ⟨e, he, happlies⟩
  obtain ⟨found, hfound⟩ := Option.isSome_iff_exists.mp hsome
  exact ⟨found.abi, by rw [chosen?, hfound]; rfl⟩

/-- No entry decides if none applies. -/
theorem chosen?_eq_none {entries : List TableEntry}
    (h : ∀ e ∈ entries, e.applies p = false) : chosen? p entries = none := by
  have hnone : entries.find? (·.applies p) = none :=
    List.find?_eq_none.mpr fun e he => by simp [h e he]
  rw [chosen?, hnone]
  rfl

end Chosen

/-! ## The choice of a table -/

section Table

variable {target : Target} {entries entries' : List TableEntry} {existing : Marker}

/-- The search for an entry finds the first one that applies. -/
theorem firstMatch_eq_find? (h : ∀ e ∈ entries, Shortcut.isKnown e.shortcut = true) :
    firstMatch target entries = .ok (entries.find? (·.applies target.platform)) := by
  induction entries with
  | nil => rfl
  | cons e entries ih =>
    have hasked := target.matches?_of_isKnown (h e List.mem_cons_self)
    have hrest := ih fun e he => h e (List.mem_cons_of_mem _ he)
    cases happlies : e.applies target.platform <;> simp [firstMatch, hasked, happlies, hrest]

/-- A sound table with an entry that applies chooses the convention of the first one. -/
theorem Sound.resolve_of_chosen? (hsound : (table entries).Sound) {abi : Text}
    (h : chosen? target.platform entries = some abi) :
    (table entries).resolve target existing = .ok (choose abi existing) := by
  obtain ⟨e, he, rfl⟩ := Option.map_eq_some_iff.mp h
  simp [resolve, firstMatch_eq_find? fun e he => (hsound.2 e he).1, he]

/-- A sound table without an entry that applies leaves the convention to the marker. -/
theorem Sound.resolve_of_none (hsound : (table entries).Sound) (existing : Marker)
    (h : chosen? target.platform entries = none) :
    (∀ name, existing.name? = some name →
      (table entries).resolve target existing = .ok ⟨name, false⟩) ∧
    (existing.name? = none → ∃ first, entries.head? = some first ∧
      (table entries).resolve target existing = .error (.missing first.location)) := by
  have hnone : firstMatch target entries = .ok none := by
    rw [firstMatch_eq_find? fun e he => (hsound.2 e he).1, Option.map_eq_none_iff.mp h]
  constructor
  · intro name hname
    simp [resolve, hnone, hname]
  · intro hname
    obtain ⟨first, rest, rfl⟩ := List.exists_cons_of_ne_nil hsound.1
    exact ⟨first, rfl, by simp [resolve, hnone, hname]⟩

/-- Sound tables whose first entries that apply agree choose alike, and fail alike but for the
position. -/
theorem Sound.resolve_congr (hsound : (table entries).Sound) (hsound' : (table entries').Sound)
    (h : chosen? target.platform entries' = chosen? target.platform entries) :
    mapBoth ResolveError.unplaced id ((table entries').resolve target existing) =
      mapBoth ResolveError.unplaced id ((table entries).resolve target existing) := by
  cases hchosen : chosen? target.platform entries with
  | some abi =>
    rw [hsound.resolve_of_chosen? hchosen, hsound'.resolve_of_chosen? (h.trans hchosen)]
  | none =>
    obtain ⟨hnamed, hmissing⟩ := hsound.resolve_of_none existing hchosen
    obtain ⟨hnamed', hmissing'⟩ := hsound'.resolve_of_none existing (h.trans hchosen)
    cases hname : existing.name? with
    | some name => rw [hnamed name hname, hnamed' name hname]
    | none =>
      obtain ⟨first, -, hresolve⟩ := hmissing hname
      obtain ⟨first', -, hresolve'⟩ := hmissing' hname
      rw [hresolve, hresolve']
      rfl

end Table

/-- A convention is put in if the marker names no convention, or another one. -/
theorem changed_eq_true_iff {d : Directive} {r : Resolution}
    (h : d.resolve target existing = .ok r) :
    r.changed = true ↔ ∀ name, existing.name? = some name → name ≠ r.abi := by
  obtain ⟨-, hchoose, -⟩ | ⟨-, rfl, hkept⟩ := resolve_cases h
  · rw [hchoose]
    cases existing <;> simp [choose, Marker.name?]
  · simp [hkept, Marker.name?]

/-- What a directive that was read chooses for a platform that shortcuts speak of. It never fails
but for a convention that is missing, and changes a marker if and only if that names no convention
or another one. A single convention is chosen always. A table chooses the convention of the first
entry that applies; otherwise a marker that names a convention keeps it, and the convention of any
other one is missing. So entries behind one that applies make no difference, nor do entries that do
not apply, wherever they stand; and a convention is never missing where both pointer widths or all
three operating systems are among the shortcuts. -/
theorem resolve_parsed (arguments : Text) (d : Directive) (p : Platform) (target : Target)
    (existing : Marker) (hd : parse arguments = .ok d)
    (htarget : Target.ofPlatform p = .ok target) :
    (∀ e, d.resolve target existing = .error e → e.isFatal = false) ∧
    (∀ r, d.resolve target existing = .ok r →
      (r.changed = true ↔ ∀ name, existing.name? = some name → name ≠ r.abi)) ∧
    (∀ abi location, d = .direct abi location →
      ∃ changed, d.resolve target existing = .ok ⟨abi, changed⟩) ∧
    ∀ entries, d = .table entries →
      (∀ before e after, entries = before ++ e :: after →
        (∀ b ∈ before, b.applies p = false) → e.applies p = true →
          ∃ changed, d.resolve target existing = .ok ⟨e.abi, changed⟩) ∧
      ((∀ e ∈ entries, e.applies p = false) →
        (∀ name, existing.name? = some name → d.resolve target existing = .ok ⟨name, false⟩) ∧
        (existing.name? = none → ∃ first, entries.head? = some first ∧
          d.resolve target existing = .error (.missing first.location))) ∧
      (∀ arguments' entries', parse arguments' = .ok (.table entries') →
        (∀ before e after after', entries.map TableEntry.unplaced = before ++ e :: after →
          entries'.map TableEntry.unplaced = before ++ e :: after' → e.applies p = true →
            (table entries').resolve target existing = d.resolve target existing) ∧
        (∀ before inserted after, entries.map TableEntry.unplaced = before ++ after →
          entries'.map TableEntry.unplaced = before ++ inserted ++ after →
          (∀ e ∈ inserted, e.applies p = false) →
            mapBoth ResolveError.unplaced id ((table entries').resolve target existing) =
              mapBoth ResolveError.unplaced id (d.resolve target existing))) ∧
      ([utf8 "32", utf8 "64"] ⊆ entries.map TableEntry.shortcut ∨
        [utf8 "linux", utf8 "win", utf8 "macos"] ⊆ entries.map TableEntry.shortcut →
          ∃ r, d.resolve target existing = .ok r) := by
  obtain rfl := target.platform_of_ofPlatform htarget
  have hsound := sound_of_parse hd
  refine ⟨fun e he => hsound.resolve_error he, fun r hr => changed_eq_true_iff hr, ?_, ?_⟩
  · rintro abi location rfl
    exact ⟨_, rfl⟩
  rintro entries rfl
  refine ⟨?_, ?_, ?_, ?_⟩
  · rintro before e after rfl hbefore he
    exact ⟨_, hsound.resolve_of_chosen? (chosen?_of_applies hbefore he after)⟩
  · exact fun hnone => hsound.resolve_of_none existing (chosen?_eq_none hnone)
  · intro arguments' entries' hd'
    have hsound' := sound_of_parse hd'
    constructor
    · intro before e after after' hentries hentries' he
      -- Entries are compared without their positions, which do not count for the choice.
      have hsame : chosen? target.platform entries' = chosen? target.platform entries := by
        rw [← chosen?_map_unplaced, hentries', ← chosen?_map_unplaced _ entries, hentries]
        exact chosen?_append he before after' after
      obtain ⟨abi, habi⟩ : ∃ abi, chosen? target.platform entries = some abi := by
        rw [← chosen?_map_unplaced, hentries]
        exact exists_chosen? (List.mem_append_right _ List.mem_cons_self) he
      rw [hsound.resolve_of_chosen? habi, hsound'.resolve_of_chosen? (hsame.trans habi)]
    · intro before inserted after hentries hentries' hinserted
      refine hsound.resolve_congr hsound' ?_
      rw [← chosen?_map_unplaced, hentries', ← chosen?_map_unplaced _ entries, hentries]
      exact chosen?_insert hinserted before after
  · intro hcovers
    obtain ⟨e, he, happlies⟩ := target.exists_applies hcovers
    obtain ⟨abi, habi⟩ := exists_chosen? he happlies
    exact ⟨_, hsound.resolve_of_chosen? habi⟩

/-- A table chooses by its second entry on the machine that the tool was built for. One more entry
in front, which does not apply, changes nothing, and without a marker nothing is missing. -/
theorem resolve_parsed_second :
    ∃ entries entries',
      parse (utf8 "win = \"system\", 64 = \"sysv64\", 32 = \"cdecl\"") = .ok (.table entries) ∧
      parse (utf8 "macos = \"C\", win = \"system\", 64 = \"sysv64\", 32 = \"cdecl\"") =
        .ok (.table entries') ∧
      (table entries).resolve Target.linux64 .bare = .ok ⟨utf8 "sysv64", true⟩ ∧
      mapBoth ResolveError.unplaced id ((table entries').resolve Target.linux64 .bare) =
        .ok ⟨utf8 "sysv64", true⟩ := by
  let system : TableEntry := ⟨utf8 "win", utf8 "system", ⟨1, 1, 0⟩⟩
  let wide : TableEntry := ⟨utf8 "64", utf8 "sysv64", ⟨1, 17, 16⟩⟩
  let narrow : TableEntry := ⟨utf8 "32", utf8 "cdecl", ⟨1, 32, 31⟩⟩
  let other : TableEntry := ⟨utf8 "macos", utf8 "C", ⟨1, 1, 0⟩⟩
  let entries := [system, wide, narrow]
  let entries' := [other, ⟨utf8 "win", utf8 "system", ⟨1, 14, 13⟩⟩,
    ⟨utf8 "64", utf8 "sysv64", ⟨1, 30, 29⟩⟩, ⟨utf8 "32", utf8 "cdecl", ⟨1, 45, 44⟩⟩]
  have hd : parse (utf8 "win = \"system\", 64 = \"sysv64\", 32 = \"cdecl\"") =
      .ok (.table entries) := by decide +kernel
  have hd' : parse (utf8 "macos = \"C\", win = \"system\", 64 = \"sysv64\", 32 = \"cdecl\"") =
      .ok (.table entries') := by decide +kernel
  obtain ⟨-, hchanged, -, htable⟩ :=
    resolve_parsed _ _ Target.linux64.platform Target.linux64 .bare hd (by decide +kernel)
  obtain ⟨hfirst, -, hmodified, -⟩ := htable entries rfl
  obtain ⟨changed, hresolve⟩ := hfirst [system] wide [narrow] rfl (by decide +kernel)
    (by decide +kernel)
  obtain rfl : changed = true := (hchanged _ hresolve).mpr (by simp [Marker.name?])
  refine ⟨entries, entries', hd, hd', hresolve, ?_⟩
  rw [(hmodified _ entries' hd').2 [] [other] (entries.map TableEntry.unplaced) rfl
    (by decide +kernel) (by decide +kernel), hresolve]
  rfl

end Directive

end CallConv

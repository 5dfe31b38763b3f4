import Mathlib
import CallConv.Directive.Parse

/-!
# What reading a directive rules out

A directive that was read names conventions that are not empty, and a table has entries, whose
shortcuts are all known. Such a directive can fail to choose a convention only because no entry
applies to the target, and a convention that it puts in has a name.
-/

namespace CallConv

/-- Linux with pointers of 64 bits. -/
def Target.linux64 : Target :=
  ⟨⟨utf8 "linux", utf8 "x86_64"⟩, by decide +kernel, by decide +kernel⟩

namespace Directive

/-- A directive names only conventions that are not empty, under known shortcuts. -/
def Sound : Directive → Prop
  | direct abi _ => abi ≠ []
  | table entries =>
    entries ≠ [] ∧ ∀ e ∈ entries, Shortcut.isKnown e.shortcut = true ∧ e.abi ≠ []

/-- One step after another succeeds if both do. -/
theorem bind_eq_ok_iff {ε α β : Type} {x : Except ε α} {f : α → Except ε β} {b : β} :
    x >>= f = .ok b ↔ ∃ a, x = .ok a ∧ f a = .ok b := by
  cases x with
  | error e => simp [bind, Except.bind]
  | ok a => simp [bind, Except.bind]

/-- The name that is read off a literal is not empty. -/
theorem ne_nil_of_readAbi {t : Token} {abi : Text} (h : readAbi t = .ok abi) : abi ≠ [] := by
  unfold readAbi at h
  split at h
  · simp at h
  · split at h
    · simp at h
    · next hne =>
      obtain rfl := Except.ok.inj h
      exact hne

/-- The shortcut that is read off a token is known. -/
theorem isKnown_of_readShortcut {t : Token} {name : Text} (h : readShortcut t = .ok name) :
    Shortcut.isKnown name = true := by
  unfold readShortcut at h
  split at h
  · simp at h
  · split at h
    · simp at h
    · next hknown =>
      obtain rfl := Except.ok.inj h
      simpa using hknown

/-- The entries that are read make a sound table. -/
theorem sound_of_readEntries {finish : Cursor} {ts : List Token} {entries : List TableEntry}
    (h : readEntries finish ts = .ok entries) : (table entries).Sound := by
  fun_induction readEntries finish ts generalizing entries with
  | case1 shortcut sign literal rest ih =>
    obtain ⟨name, hname, h⟩ := bind_eq_ok_iff.mp h
    obtain ⟨_, -, h⟩ := bind_eq_ok_iff.mp h
    obtain ⟨abi, habi, h⟩ := bind_eq_ok_iff.mp h
    have hentry : Shortcut.isKnown name = true ∧ abi ≠ [] :=
      ⟨isKnown_of_readShortcut hname, ne_nil_of_readAbi habi⟩
    rcases rest with _ | ⟨separator, rest⟩
    · obtain rfl := Except.ok.inj h
      exact ⟨List.cons_ne_nil _ _, by simpa using hentry⟩
    · simp only at h ih
      split at h
      · obtain ⟨more, hmore, h⟩ := bind_eq_ok_iff.mp h
        obtain rfl := Except.ok.inj h
        refine ⟨List.cons_ne_nil _ _, fun e he => ?_⟩
        rcases List.mem_cons.mp he with rfl | he
        · exact hentry
        · exact (ih hmore).2 e he
      · simp at h
  | case2 shortcut sign =>
    obtain ⟨_, -, h⟩ := bind_eq_ok_iff.mp h
    obtain ⟨_, -, h⟩ := bind_eq_ok_iff.mp h
    simp at h
  | case3 shortcut =>
    obtain ⟨_, -, h⟩ := bind_eq_ok_iff.mp h
    simp at h
  | case4 => simp at h

/-- A directive that is read is sound. -/
theorem sound_of_ofTokens {finish : Cursor} {ts : List Token} {directive : Directive}
    (h : ofTokens finish ts = .ok directive) : directive.Sound := by
  unfold ofTokens ofSignificant at h
  split at h
  · simp at h
  · next first rest hts =>
    split at h
    · obtain ⟨abi, habi, h⟩ := bind_eq_ok_iff.mp h
      split at h
      · obtain rfl := Except.ok.inj h
        exact ne_nil_of_readAbi habi
      · simp at h
    · split at h
      · cases hentries : readEntries finish (first :: rest) with
        | error e => simp [hentries, Except.map] at h
        | ok entries =>
          obtain rfl : table entries = directive := by simpa [hentries, Except.map] using h
          exact sound_of_readEntries hentries
      · simp at h

/-- A directive that is read from a text is sound. -/
theorem sound_of_parse {arguments : Text} {directive : Directive}
    (h : parse arguments = .ok directive) : directive.Sound := by
  unfold parse at h
  split at h
  · simp at h
  · exact sound_of_ofTokens h

/-- Known shortcuts can be asked of every target. -/
theorem firstMatch_ne_error {target : Target} {entries : List TableEntry} {e : ResolveError}
    (h : ∀ e ∈ entries, Shortcut.isKnown e.shortcut = true) :
    firstMatch target entries ≠ .error e := by
  induction entries with
  | nil => simp [firstMatch]
  | cons entry entries ih =>
    have hknown : (target.matches? entry.shortcut).isSome = true := by
      rw [Target.matches?, Option.isSome_map]
      exact h entry List.mem_cons_self
    unfold firstMatch
    split
    · next hnone => simp [hnone] at hknown
    · simp
    · exact ih fun e he => h e (List.mem_cons_of_mem entry he)

/-- A sound directive fails to choose a convention only because no entry applies. -/
theorem Sound.resolve_error {directive : Directive} {target : Target} {existing : Marker}
    {e : ResolveError} (hsound : directive.Sound)
    (h : directive.resolve target existing = .error e) : e.isFatal = false := by
  unfold resolve at h
  split at h
  · simp at h
  · next entries =>
    split at h
    · next e' hmatch => exact absurd hmatch (firstMatch_ne_error fun e he => (hsound.2 e he).1)
    · simp at h
    · split at h
      · simp at h
      · obtain rfl := Except.error.inj h
        rfl
      · exact absurd rfl hsound.1

/-- The entry that applies to a target is one of the entries. -/
theorem mem_of_firstMatch {target : Target} {entries : List TableEntry} {entry : TableEntry}
    (h : firstMatch target entries = .ok (some entry)) : entry ∈ entries := by
  induction entries with
  | nil => simp [firstMatch] at h
  | cons first entries ih =>
    unfold firstMatch at h
    split at h
    · simp at h
    · obtain rfl : first = entry := by simpa using h
      exact List.mem_cons_self
    · exact List.mem_cons_of_mem first (ih h)

/-- A convention that a sound directive puts in is not empty. -/
theorem Sound.abi_ne_nil {directive : Directive} {target : Target} {existing : Marker}
    {r : Resolution} (hsound : directive.Sound)
    (h : directive.resolve target existing = .ok r) (hchanged : r.changed = true) : r.abi ≠ [] := by
  unfold resolve at h
  split at h
  · obtain rfl := Except.ok.inj h
    exact hsound
  · split at h
    · simp at h
    · next entry hmatch =>
      obtain rfl := Except.ok.inj h
      exact (hsound.2 entry (mem_of_firstMatch hmatch)).2
    · split at h
      · obtain rfl := Except.ok.inj h
        simp at hchanged
      · simp at h
      · simp at h

/-- A table none of whose entries applies to a target. -/
def Misses (directive : Directive) (target : Target) : Prop :=
  ∃ entries, directive = .table entries ∧ firstMatch target entries = .ok none

/-- A convention is chosen without a look at the marker, or is the one that the marker names. -/
theorem resolve_cases {directive : Directive} {target : Target} {existing : Marker}
    {r : Resolution} (h : directive.resolve target existing = .ok r) :
    ¬ directive.Misses target ∧ r = choose r.abi existing ∧
        (∀ m, directive.resolve target m = .ok (choose r.abi m)) ∨
      directive.Misses target ∧ existing = .named r.abi ∧ r.changed = false := by
  cases directive with
  | direct abi location =>
    obtain rfl := Except.ok.inj h
    exact .inl ⟨fun ⟨_, hmiss, _⟩ => by simp at hmiss, rfl, fun _ => rfl⟩
  | table entries =>
    simp only [resolve] at h
    split at h
    · simp at h
    · next entry hmatch =>
      obtain rfl := Except.ok.inj h
      refine .inl ⟨?_, rfl, fun m => by simp [resolve, hmatch, choose]⟩
      rintro ⟨entries', heq, hnone⟩
      obtain rfl := table.inj heq
      simp [hmatch] at hnone
    · next hmatch =>
      cases existing with
      | named name =>
        obtain rfl := Except.ok.inj h
        exact .inr ⟨⟨entries, rfl, hmatch⟩, rfl, rfl⟩
      | absent => cases entries <;> simp [Marker.name?] at h
      | bare => cases entries <;> simp [Marker.name?] at h

/-- A table that misses the target leaves a declaration that names no convention without one. -/
theorem Sound.resolve_missing {directive : Directive} {target : Target} {existing : Marker}
    (hsound : directive.Sound) (hmiss : directive.Misses target) (hnone : existing.name? = none) :
    ∃ first rest, directive = .table (first :: rest) ∧
      directive.resolve target existing = .error (.missing first.location) := by
  obtain ⟨entries, rfl, hmatch⟩ := hmiss
  obtain ⟨first, rest, rfl⟩ := List.exists_cons_of_ne_nil hsound.1
  exact ⟨first, rest, rfl, by simp [resolve, hmatch, hnone]⟩

end Directive

end CallConv

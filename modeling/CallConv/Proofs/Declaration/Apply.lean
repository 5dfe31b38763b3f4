import Mathlib
import CallConv.Declaration.Apply
import CallConv.Proofs.Declaration.Reset
import CallConv.Proofs.Directive.Sound
import CallConv.Proofs.Text.Quoting

/-!
# What applying a directive leaves

A directive that changes a declaration chose its convention without a look at the marker, so that
it chooses the same one again, and setting it again gives the same text. After a success the marker
names a convention. The exception is a table that misses the target on a marker with an empty
literal, which it takes for a name to keep; and, as for every change of a marker, a stray apostrophe
before a backslash can take the marker away.
-/

namespace CallConv

/-- A marker that names a convention by a name that is not empty. -/
def Marker.Concrete (m : Marker) : Prop := ∃ name, m = .named name ∧ name ≠ []

/-- A marker gives the name that it names a convention by. -/
theorem Marker.name?_eq_some_iff {m : Marker} {name : Text} :
    m.name? = some name ↔ m = .named name := by
  cases m <;> simp [Marker.name?]

namespace Declaration

variable {source : Text} {origin : Cursor} {ts : List Token} {d d' : Declaration}
  {directive : Directive} {target : Target} {r : Resolution}

/-- A directive that is applied chooses a convention, and sets it if the marker does not name it. -/
theorem apply_cases (h : d.apply directive target = .ok (d', r)) :
    directive.resolve target d.marker = .ok r ∧
      (r.changed = false ∧ d' = d ∨ r.changed = true ∧ d.setAbi r.abi = .ok d') := by
  unfold apply at h
  split at h
  · simp at h
  · next found hresolve =>
    split at h
    · next hchanged =>
      split at h
      · simp at h
      · next changed hset =>
        obtain ⟨rfl, rfl⟩ := Prod.mk.inj (Except.ok.inj h)
        exact ⟨hresolve, .inr ⟨hchanged, hset⟩⟩
    · next hchanged =>
      obtain ⟨rfl, rfl⟩ := Prod.mk.inj (Except.ok.inj h)
      exact ⟨hresolve, .inl ⟨by simpa using hchanged, rfl⟩⟩

/-- A convention is not empty where it can be set. -/
theorem ne_nil_of_setAbi {abi : Text} (h : d.setAbi abi = .ok d') : abi ≠ [] := by
  rintro rfl
  simp [setAbi] at h

/-- Applying a directive is idempotent: what comes out is read as a declaration of the same kind
and name, and the same directive on the same target chooses the same convention for it and leaves
all of it as it is. If the convention is valid UTF-8 without a line break, the marker is even seen
to name it, and nothing is set again. -/
theorem apply_again (source : Text) (origin : Cursor) (ts : List Token) (d d' : Declaration)
    (directive : Directive) (target : Target) (r : Resolution)
    (htokens : tokenize source origin = .ok ts) (hassigned : ∀ t ∈ ts, t.kind ≠ .unassigned)
    (hd : classify source origin = .ok d) (happly : d.apply directive target = .ok (d', r)) :
    classify d'.source origin = .ok d' ∧ d'.kind = d.kind ∧ d'.name = d.name ∧
      ∃ changed, d'.apply directive target = .ok (d', ⟨r.abi, changed⟩) ∧
        (r.abi.isUtf8 = true → Byte.newline ∉ r.abi → changed = false) := by
  have hsettled := settled_of_classify htokens hassigned hd
  obtain ⟨rfl, rfl⟩ := of_classify hd
  obtain ⟨hresolve, ⟨hunchanged, rfl⟩ | ⟨hchanged, hset⟩⟩ := apply_cases happly
  · -- Without a change the second time is the first time.
    refine ⟨hd, rfl, rfl, false, ?_, fun _ _ => rfl⟩
    rw [happly, ← hunchanged]
  · have habi := ne_nil_of_setAbi hset
    obtain ⟨d₁, hset₁, hsettled₁, horigin, hkind, hname, hmarker, hagain⟩ := hsettled.setAbi habi
    obtain rfl := Except.ok.inj (hset.symm.trans hset₁)
    refine ⟨horigin ▸ hsettled₁.classify_eq, hkind, hname, ?_⟩
    -- The convention was chosen without a look at the marker.
    have hchoose : directive.resolve target d'.marker =
        .ok (Directive.choose r.abi d'.marker) := by
      obtain ⟨-, -, hresolve⟩ | ⟨-, -, hkept⟩ := Directive.resolve_cases hresolve
      · exact hresolve d'.marker
      · simp [hkept] at hchanged
    have hset' : d'.setAbi (Directive.choose r.abi d'.marker).abi = .ok d' :=
      (hagain r.abi habi).trans hset
    refine ⟨(Directive.choose r.abi d'.marker).changed, ?_, fun hutf8 hnewline => ?_⟩
    · simp only [apply, hchoose, hset']
      split <;> rfl
    · rw [hmarker Cursor.start, Abi.ofLiteral_quoted hutf8 hnewline]
      simp [Directive.choose, Marker.name?]

/-- A keyword alone gets the name that a table chooses, and keeps it the second time. -/
theorem apply_again_bare :
    ∃ d d' directive, classify (utf8 "extern fn f();") Cursor.start = .ok d ∧
      Directive.parse (utf8 "win = \"system\", linux = \"sysv64\"") = .ok directive ∧
      d.apply directive Target.linux64 = .ok (d', ⟨utf8 "sysv64", true⟩) ∧
      d'.source = utf8 "extern \"sysv64\" fn f();" ∧
      d'.apply directive Target.linux64 = .ok (d', ⟨utf8 "sysv64", false⟩) := by
  let keyword : Token := ⟨.identifier, Cursor.start, utf8 "extern"⟩
  let ts : List Token := Lexeme.place Cursor.start
    [⟨.identifier, utf8 "extern"⟩, ⟨.whitespace, utf8 " "⟩, ⟨.identifier, utf8 "fn"⟩,
      ⟨.whitespace, utf8 " "⟩, ⟨.identifier, utf8 "f"⟩, ⟨.parenLeft, utf8 "("⟩,
      ⟨.parenRight, utf8 ")"⟩, ⟨.semicolon, utf8 ";"⟩]
  let d : Declaration :=
    ⟨utf8 "extern fn f();", Cursor.start, .function (utf8 "f") (.bare keyword)⟩
  let d' : Declaration := ⟨utf8 "extern \"sysv64\" fn f();", Cursor.start,
    .function (utf8 "f") (.named keyword ⟨.string, ⟨1, 8, 7⟩, utf8 "\"sysv64\""⟩)⟩
  let directive : Directive := .table [⟨utf8 "win", utf8 "system", Cursor.start⟩,
    ⟨utf8 "linux", utf8 "sysv64", ⟨1, 17, 16⟩⟩]
  have htokens : tokenize (utf8 "extern fn f();") Cursor.start = .ok ts := by decide +kernel
  have hassigned : ∀ t ∈ ts, t.kind ≠ .unassigned := by decide +kernel
  have hd : classify (utf8 "extern fn f();") Cursor.start = .ok d := by decide +kernel
  have happly : d.apply directive Target.linux64 = .ok (d', ⟨utf8 "sysv64", true⟩) := by
    decide +kernel
  obtain ⟨-, -, -, changed, hagain, hkept⟩ :=
    apply_again _ _ ts d d' directive Target.linux64 _ htokens hassigned hd happly
  obtain rfl := hkept (by decide +kernel) (by decide)
  exact ⟨d, d', directive, hd, by decide +kernel, happly, rfl, hagain⟩

/-- After a change the marker is concrete, if the tokens are calm. -/
theorem concrete_of_setAbi {abi : Text} (htokens : tokenize source origin = .ok ts)
    (hcalm : Calm (ts.map Token.lexeme)) (hd : classify source origin = .ok d)
    (h : d.setAbi abi = .ok d') : d'.marker.Concrete := by
  have habi := ne_nil_of_setAbi h
  obtain ⟨d₁, hsplice, -, hmarker⟩ := splice_edit htokens hcalm hd abi
  rw [setAbi_eq_splice htokens hcalm hd habi, hsplice] at h
  obtain rfl := Except.ok.inj h
  exact ⟨_, hmarker Cursor.start, Abi.ofLiteral_quoted_ne_nil habi Cursor.start⟩

/-- Applying a directive that was read either keeps a marker, which names the convention that is
returned, or sets the convention, which is not empty. -/
theorem apply_marker_cases (hsound : directive.Sound)
    (happly : d.apply directive target = .ok (d', r)) :
    r.changed = false ∧ d' = d ∧ d.marker = .named r.abi ∧ (r.abi = [] → directive.Misses target) ∨
      r.changed = true ∧ d.setAbi r.abi = .ok d' ∧ r.abi ≠ [] ∧
        ¬ (directive.Misses target ∧ d.marker = .named []) := by
  obtain ⟨hresolve, ⟨hunchanged, hd'⟩ | ⟨hchanged, hset⟩⟩ := apply_cases happly
  · left
    obtain ⟨-, hr, hchoose⟩ | ⟨hmiss, hnamed, -⟩ := Directive.resolve_cases hresolve
    · -- A convention that needs no change is the one that the marker names. It is not empty, as it
      -- would be set where there is no marker.
      have hname : d.marker.name? = some r.abi := by
        rw [hr] at hunchanged
        simpa [Directive.choose] using hunchanged
      have habi : (Directive.choose r.abi .absent).abi ≠ [] :=
        hsound.abi_ne_nil (hchoose .absent) rfl
      exact ⟨hunchanged, hd', Marker.name?_eq_some_iff.mp hname, fun hnil => absurd hnil habi⟩
    · exact ⟨hunchanged, hd', hnamed, fun _ => hmiss⟩
  · right
    obtain ⟨hhit, -⟩ | ⟨-, -, hkept⟩ := Directive.resolve_cases hresolve
    · exact ⟨hchanged, hset, ne_nil_of_setAbi hset, fun h => hhit h.1⟩
    · simp [hkept] at hchanged

/-- After a directive that was read is applied with success, the marker names a convention by a
name that is not empty, but in two cases: a table misses the target on a marker with an empty
literal, which is then kept and returned as the empty convention; or the tokens have a stray
apostrophe directly before a backslash and the changed text is read with another marker. A table
that misses the target is reported for a declaration that names no convention. -/
theorem apply_concrete (arguments source : Text) (origin : Cursor) (directive : Directive)
    (target : Target) (ts : List Token) (d : Declaration)
    (hparse : Directive.parse arguments = .ok directive)
    (htokens : tokenize source origin = .ok ts) (hd : classify source origin = .ok d) :
    (∀ d' r, d.apply directive target = .ok (d', r) →
        (r.abi = [] ↔ directive.Misses target ∧ d.marker = .named []) ∧
        (r.abi = [] → d' = d ∧ r.changed = false) ∧
        (¬ d'.marker.Concrete ↔
          directive.Misses target ∧ d.marker = .named [] ∨
            r.changed = true ∧ ¬ Calm (ts.map Token.lexeme) ∧
              ∃ d₁, classify ((d.shape.site.edit r.abi).apply source origin) origin = .ok d₁ ∧
                ¬ d₁.marker.Concrete)) ∧
      (directive.Misses target → d.marker.name? = none →
        ∃ first rest, directive = .table (first :: rest) ∧
          d.apply directive target = .error (.resolve (.missing first.location))) := by
  have hsound := Directive.sound_of_parse hparse
  refine ⟨fun d' r happly => ?_, fun hmiss hnone => ?_⟩
  · obtain ⟨hunchanged, rfl, hmarker, hmiss⟩ | ⟨hchanged, hset, habi, hkept⟩ :=
      apply_marker_cases hsound happly
    · have hconcrete : ¬ d'.marker.Concrete ↔ r.abi = [] := by
        simp [Marker.Concrete, hmarker]
      have hempty : r.abi = [] ↔ directive.Misses target ∧ d'.marker = .named [] :=
        ⟨fun h => ⟨hmiss h, h ▸ hmarker⟩, fun h => by simpa [hmarker] using h.2⟩
      refine ⟨hempty, fun _ => ⟨rfl, hunchanged⟩, ?_⟩
      rw [hconcrete, hempty]
      simp [hunchanged]
    · obtain ⟨hsource, -, hclassify⟩ := source_of_setAbi htokens hd hset
      rw [hsource] at hclassify
      refine ⟨⟨fun h => absurd h habi, fun h => absurd h hkept⟩, fun h => absurd h habi,
        fun hlost => .inr ⟨hchanged, fun hcalm => ?_, d', hclassify, hlost⟩, ?_⟩
      · exact hlost (concrete_of_setAbi htokens hcalm hd hset)
      · rintro (h | ⟨-, -, d₁, hd₁, hlost⟩)
        · exact absurd h hkept
        · obtain rfl := Except.ok.inj (hclassify.symm.trans hd₁)
          exact hlost
  · obtain ⟨first, rest, rfl, hmissing⟩ := hsound.resolve_missing hmiss hnone
    exact ⟨first, rest, rfl, by simp [apply, hmissing]⟩

/-- An empty literal is replaced by the name that a table chooses. -/
theorem apply_concrete_chosen :
    ∃ d d' directive r, classify (utf8 "extern \"\" fn f();") Cursor.start = .ok d ∧
      Directive.parse (utf8 "linux = \"C\"") = .ok directive ∧
      d.apply directive Target.linux64 = .ok (d', r) ∧ r.abi = utf8 "C" ∧ d.marker = .named [] ∧
      d'.marker.Concrete := by
  let keyword : Token := ⟨.identifier, Cursor.start, utf8 "extern"⟩
  let ts : List Token := Lexeme.place Cursor.start
    [⟨.identifier, utf8 "extern"⟩, ⟨.whitespace, utf8 " "⟩, ⟨.string, utf8 "\"\""⟩,
      ⟨.whitespace, utf8 " "⟩, ⟨.identifier, utf8 "fn"⟩, ⟨.whitespace, utf8 " "⟩,
      ⟨.identifier, utf8 "f"⟩, ⟨.parenLeft, utf8 "("⟩, ⟨.parenRight, utf8 ")"⟩,
      ⟨.semicolon, utf8 ";"⟩]
  let d : Declaration := ⟨utf8 "extern \"\" fn f();", Cursor.start,
    .function (utf8 "f") (.named keyword ⟨.string, ⟨1, 8, 7⟩, utf8 "\"\""⟩)⟩
  let d' : Declaration := ⟨utf8 "extern \"C\" fn f();", Cursor.start,
    .function (utf8 "f") (.named keyword ⟨.string, ⟨1, 8, 7⟩, utf8 "\"C\""⟩)⟩
  let directive : Directive := .table [⟨utf8 "linux", utf8 "C", Cursor.start⟩]
  have htokens : tokenize (utf8 "extern \"\" fn f();") Cursor.start = .ok ts := by decide +kernel
  have hcalm : Calm (ts.map Token.lexeme) := by decide +kernel
  have hd : classify (utf8 "extern \"\" fn f();") Cursor.start = .ok d := by decide +kernel
  have hparse : Directive.parse (utf8 "linux = \"C\"") = .ok directive := by decide +kernel
  have happly : d.apply directive Target.linux64 = .ok (d', ⟨utf8 "C", true⟩) := by decide +kernel
  obtain ⟨hempty, -, hlost⟩ :=
    (apply_concrete _ _ _ directive Target.linux64 ts d hparse htokens hd).1 d' _ happly
  refine ⟨d, d', directive, _, hd, hparse, happly, rfl, by decide +kernel, ?_⟩
  -- The convention is not empty and the tokens are calm, so neither of the two cases applies.
  by_contra h
  obtain hkept | ⟨-, hstray, -⟩ := hlost.mp h
  · exact absurd (hempty.mpr hkept) (by decide)
  · exact hstray hcalm

/-- A table that misses the target keeps an empty literal, as if it named a convention. -/
theorem apply_keeps_empty :
    ∃ d directive, classify (utf8 "extern \"\" fn f() \x7b\x7d") Cursor.start = .ok d ∧
      Directive.parse (utf8 "win = \"x\"") = .ok directive ∧ directive.Misses Target.linux64 ∧
      d.apply directive Target.linux64 = .ok (d, ⟨[], false⟩) ∧ ¬ d.marker.Concrete := by
  let keyword : Token := ⟨.identifier, Cursor.start, utf8 "extern"⟩
  let d : Declaration := ⟨utf8 "extern \"\" fn f() \x7b\x7d", Cursor.start,
    .function (utf8 "f") (.named keyword ⟨.string, ⟨1, 8, 7⟩, utf8 "\"\""⟩)⟩
  let directive : Directive := .table [⟨utf8 "win", utf8 "x", Cursor.start⟩]
  have hmarker : d.marker = .named [] := by decide +kernel
  refine ⟨d, directive, by decide +kernel, by decide +kernel, ⟨_, rfl, by decide +kernel⟩,
    by decide +kernel, ?_⟩
  simp [Marker.Concrete, hmarker]

end Declaration

end CallConv

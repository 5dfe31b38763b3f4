import Mathlib
import CallConv.Proofs.SourceFile.Group
import CallConv.Proofs.SourceFile.Targets

/-!
# The rounds of a run

The expansion of a file is defined on the tokens that are left. This module follows it by positions.
A round searches from a position on, cuts the text of an item out of the source by the offsets of
its first and its last token, and copies what stands between the item before and the attribute; each
of these ranges is checked. `Attribute.advances_search` says what one search does to the position:
it moves on and stays within the tokens, and the parts of an attribute and its item stand one behind
the other. By this the rounds come to an end (`Progress.run?`), on all tokens.

`Progress.Valid` is what every round keeps: no range is out of bounds, the regions that were dealt
with stand one behind the other, and what was done so far makes up the expansion together with what
the expansion does to the tokens that are left.
-/

namespace CallConv

/-! ## Ranges -/

section Ranges

variable {α : Type} {l : List α} {i j k : Nat}

/-- The elements of a list from one position up to another, if these stand in it in this order. -/
def slice? (l : List α) (start stop : Int) : Option (List α) :=
  if 0 ≤ start ∧ start ≤ stop ∧ stop ≤ l.length then some (l.extract start.toNat stop.toNat)
  else none

/-- Positions in order give a range. -/
theorem slice?_eq_some (hij : i ≤ j) (hj : j ≤ l.length) :
    slice? l i j = some (l.extract i j) := by
  rw [slice?, if_pos (by omega), Int.toNat_natCast, Int.toNat_natCast]

/-- Two ranges that touch make up one. -/
theorem extract_append_extract (l : List α) (hij : i ≤ j) (hjk : j ≤ k) :
    l.extract i j ++ l.extract j k = l.extract i k := by
  rw [List.extract_eq_take_drop, List.extract_eq_take_drop, List.extract_eq_take_drop,
    ← Nat.sub_add_sub_cancel hjk hij, Nat.add_comm, List.take_add, List.drop_drop,
    Nat.add_sub_cancel' hij]

/-- What stands between two parts of a list is a range. -/
theorem extract_of_eq {before middle behind : List α} (h : l = before ++ middle ++ behind)
    (hi : i = before.length) (hj : j = i + middle.length) : l.extract i j = middle := by
  subst h hi hj
  simp [List.extract_eq_take_drop]

/-- What stands behind a part of a list stands at its length. -/
theorem getElem?_of_eq {before behind : List α} {a : α} (h : l = before ++ a :: behind)
    (hi : i = before.length) : l[i]? = some a := by
  subst h hi
  simp

end Ranges

/-- The text of a range of tokens is a range of their text. -/
theorem slice?_join {ts : List Token} {i j : Nat} (hij : i ≤ j) :
    slice? (Token.join ts) (Token.join (ts.take i)).length (Token.join (ts.take j)).length =
      some (Token.join (ts.extract i j)) := by
  have hfront : ts.take j = ts.take i ++ ts.extract i j := by
    rw [List.extract_eq_take_drop, ← List.take_add, Nat.add_sub_cancel' hij]
  have hsplit : Token.join ts =
      Token.join (ts.take i) ++ Token.join (ts.extract i j) ++ Token.join (ts.drop j) := by
    rw [← Token.join_append, ← hfront, ← Token.join_append, List.take_append_drop]
  have hlength : (Token.join (ts.take j)).length =
      (Token.join (ts.take i)).length + (Token.join (ts.extract i j)).length := by
    rw [hfront, Token.join_append, List.length_append]
  rw [slice?_eq_some (by omega) (by rw [hsplit, List.length_append, List.length_append]; omega),
    extract_of_eq hsplit rfl hlength]

/-- The tokens between two positions are what a search from the first to the second passes. -/
theorem before_drop {ts : List Token} {i j : Nat} (hj : j ≤ ts.length) :
    before (ts.drop i) (ts.drop j) = ts.extract i j := by
  have hlength : ts.length - i - (ts.length - j) = j - i := by omega
  rw [before, List.length_drop, List.length_drop, List.extract_eq_take_drop, hlength]

/-- A token of a source begins behind the text of those before it, and ends with its own text. -/
theorem offset_of_getElem? {source : Text} {ts : List Token} {t : Token} {i : Nat}
    (htokens : tokenize source Cursor.start = .ok ts)
    (ht : ts[i]? = some t) :
    t.location.offset = (Token.join (ts.take i)).length ∧
      t.endOffset = (Token.join (ts.take (i + 1))).length := by
  obtain ⟨hi, rfl⟩ := List.getElem?_eq_some_iff.mp ht
  have hsplit : ts = ts.take i ++ ts[i] :: ts.drop (i + 1) := by
    rw [List.getElem_cons_drop, List.take_append_drop]
  have hoffset : (ts[i]).location.offset = (Token.join (ts.take i)).length := by
    rw [location_offset_eq (hsplit ▸ htokens)]
    exact zero_add _
  refine ⟨hoffset, ?_⟩
  rw [Token.endOffset, hoffset, List.take_succ_eq_append_getElem hi, Token.join_append,
    List.length_append]
  simp

/-! ## What a search does to the position -/

namespace Attribute

/-- Where the parts of an attribute and its item stand among the tokens of a file. -/
structure Layout where
  /-- The hash. -/
  hash : Nat
  /-- The opening parenthesis. -/
  opening : Nat
  /-- The bracket that closes the arguments. -/
  closing : Nat
  /-- The first token of the item. -/
  start : Nat
  /-- The end of the item. -/
  finish : Nat

/-- The parts of an attribute that was searched for from a position on stand one behind the other,
within the tokens. -/
structure Layout.Fits (l : Layout) (ts : List Token) (position : Nat) (a : AnnotatedItem) :
    Prop where
  /-- The attribute stands at the position or behind it. -/
  position_le : position ≤ l.hash
  /-- The arguments are opened behind the hash. -/
  hash_lt : l.hash < l.opening
  /-- They are closed behind that. -/
  opening_lt : l.opening < l.closing
  /-- The closing bracket of the attribute stands between the arguments and the item. -/
  closing_lt : l.closing + 1 < l.start
  /-- The item is not empty. -/
  start_lt : l.start < l.finish
  /-- The item ends within the tokens. -/
  finish_le : l.finish ≤ ts.length
  /-- Only trivia stands between the position and the attribute. -/
  trivia : dropTrivia (ts.drop position) = ts.drop l.hash
  /-- The attribute begins with its hash. -/
  hash : ∃ t, ts[l.hash]? = some t ∧ t.kind = .hash ∧ t.location = a.location
  /-- The arguments end where they are closed. -/
  close : ∃ t, ts[l.closing]? = some t ∧ t.location = a.finish
  /-- The arguments stand between their brackets. -/
  arguments : a.arguments = ts.extract (l.opening + 1) l.closing
  /-- The item stands behind the attribute. -/
  item : a.item = ts.extract l.start l.finish

/-- The hash stands before the item. -/
theorem Layout.Fits.hash_lt_start {l : Layout} {ts : List Token} {position : Nat}
    {a : AnnotatedItem} (h : l.Fits ts position a) : l.hash < l.start :=
  calc l.hash < l.opening := h.hash_lt
    _ < l.closing := h.opening_lt
    _ < l.closing + 1 := Nat.lt_succ_self _
    _ < l.start := h.closing_lt

/-- A search from a position moves on within the tokens: to their end, to a later position, or to
the end of an item. -/
inductive Advances (ts : List Token) (position : Nat) : Finding → Prop
  | finished : Advances ts position .finished
  | passed {e? : Option AttributeError} {next : Nat} (hlt : position < next)
      (hle : next ≤ ts.length) : Advances ts position (.passed e? (ts.drop next))
  | found {a : AnnotatedItem} {l : Layout} (hfits : l.Fits ts position a) :
      Advances ts position (.found a (ts.drop l.finish))

/-- What a search leaves are the last of the tokens. -/
theorem rest_eq_drop {ts rest : List Token} {position : Nat}
    (h : (search (ts.drop position)).rest? = some rest) :
    rest = ts.drop (ts.length - rest.length) :=
  List.suffix_iff_eq_drop.mp ((suffix_of_search h).trans (List.drop_suffix position ts))

/-- An attribute that is found is laid out within the tokens. -/
theorem exists_layout {ts rest : List Token} {position : Nat} {a : AnnotatedItem}
    (hposition : position < ts.length) (h : search (ts.drop position) = .found a rest) :
    ∃ l : Layout, l.Fits ts position a ∧ rest = ts.drop l.finish := by
  obtain ⟨s, blanks, hdrop, hspells, hfollowed⟩ := search_spells h
  obtain ⟨last, hlast, -⟩ := hfollowed.last
  have hitem : 0 < a.item.length := List.length_pos_of_ne_nil fun hnil => by simp [hnil] at hlast
  -- The tokens are cut at the parts of the attribute, the last of which is the item.
  generalize hfront : ts.take position ++ (ts.drop position).takeWhile Token.isTrivia = front
  generalize hlead : s.afterHash ++ s.bracket :: s.path ++ s.afterPath = lead
  have hposition_le : position ≤ front.length := by
    rw [← hfront, List.length_append, List.length_take]
    omega
  have hwhole : ts = front ++ dropTrivia (ts.drop position) := by
    rw [← hfront, List.append_assoc, takeWhile_append_dropTrivia, List.take_append_drop]
  have hparts : dropTrivia (ts.drop position) = s.hash :: lead ++ s.paren :: a.arguments ++
      s.close :: s.afterClose ++ s.last :: blanks ++ a.item ++ rest := by
    rw [hdrop, ← hlead]
    simp [Spelling.tokens, Ending.tokens]
  rw [hparts] at hwhole
  obtain ⟨opening, hopening⟩ : ∃ n, n = (front ++ s.hash :: lead).length := ⟨_, rfl⟩
  obtain ⟨closing, hclosing⟩ : ∃ n, n = opening + 1 + a.arguments.length := ⟨_, rfl⟩
  obtain ⟨start, hstart⟩ : ∃ n, n = closing + 1 + s.afterClose.length + 1 + blanks.length :=
    ⟨_, rfl⟩
  have hlength := congrArg List.length hwhole
  simp only [List.length_append, List.length_cons] at hlength hopening
  have horder : front.length < opening ∧ opening < closing ∧ closing + 1 < start ∧
      start < start + a.item.length ∧ start + a.item.length ≤ ts.length := by
    omega
  obtain ⟨hash_lt, opening_lt, closing_lt, start_lt, finish_le⟩ := horder
  refine ⟨⟨front.length, opening, closing, start, start + a.item.length⟩,
    { position_le := hposition_le, hash_lt, opening_lt, closing_lt, start_lt, finish_le
      trivia := ?_
      hash := ⟨s.hash, ?_, hspells.hash, hspells.location⟩
      close := ⟨s.close, ?_, hspells.ends.finish⟩
      arguments := ?_
      item := ?_ }, ?_⟩
  · rw [hparts, hwhole, List.drop_left]
  · exact getElem?_of_eq (by rw [hwhole]; rfl) rfl
  · have hclose : ts = (front ++ s.hash :: lead ++ s.paren :: a.arguments) ++
        s.close :: (s.afterClose ++ s.last :: blanks ++ a.item ++ rest) := by
      simp [hwhole]
    refine getElem?_of_eq hclose ?_
    simp only [List.length_append, List.length_cons]
    omega
  · have harguments : ts = (front ++ s.hash :: lead ++ [s.paren]) ++ a.arguments ++
        (s.close :: s.afterClose ++ s.last :: blanks ++ a.item ++ rest) := by
      simp [hwhole]
    refine (extract_of_eq harguments ?_ hclosing).symm
    simp only [List.length_append, List.length_cons, List.length_nil]
    omega
  · have hbody : ts = (front ++ s.hash :: lead ++ s.paren :: a.arguments ++
        s.close :: s.afterClose ++ s.last :: blanks) ++ a.item ++ rest := by
      simp [hwhole]
    refine (extract_of_eq hbody ?_ rfl).symm
    simp only [List.length_append, List.length_cons]
    omega
  · show rest = ts.drop (start + a.item.length)
    have hfinish : ts.length - rest.length = start + a.item.length := by omega
    rw [← hfinish]
    exact rest_eq_drop (by rw [h]; rfl)

/-- Every search moves on within the tokens. -/
theorem advances_search {ts : List Token} {position : Nat} (hposition : position < ts.length) :
    Advances ts position (search (ts.drop position)) := by
  cases h : search (ts.drop position) with
  | finished => exact .finished
  | passed e? rest =>
    have hrest : (search (ts.drop position)).rest? = some rest := by
      rw [h]
      rfl
    have hlt := length_lt_of_search hrest
    rw [List.length_drop] at hlt
    rw [rest_eq_drop hrest]
    exact .passed (by omega) (Nat.sub_le _ _)
  | found a rest =>
    obtain ⟨l, hfits, rfl⟩ := exists_layout hposition h
    exact .found hfits

end Attribute

/-! ## The rounds -/

/-- An attribute is expanded with the text of its item, from the first token of the item on. -/
theorem AnnotatedItem.expandText_join {a : AnnotatedItem} {t : Token} (h : a.item.head? = some t)
    (target : Target) : a.expandText (Token.join a.item) t.location target = a.expand target := by
  rw [expand, origin, h]
  rfl

/-- The tokens that a round deals with, from the hash of an attribute up to the end of its item. -/
structure Region where
  /-- The hash. -/
  hash : Nat
  /-- The first token of the item. -/
  start : Nat
  /-- The end of the item. -/
  stop : Nat
  /-- The attribute and its item. -/
  annotated : AnnotatedItem

/-- A region holds an attribute and its item as they stand among the tokens. -/
def Region.Holds (ts : List Token) (r : Region) : Prop :=
  ∃ position l, Attribute.Layout.Fits l ts position r.annotated ∧
    r.hash = l.hash ∧ r.start = l.start ∧ r.stop = l.finish

/-- How far a run has come. -/
structure Progress where
  /-- The token from which the search goes on. -/
  position : Nat
  /-- The offset up to which the source has been copied. -/
  copied : Int
  /-- What has been written. -/
  output : Text
  /-- What the rounds dealt with, in order. -/
  regions : List Region
  /-- The items that were expanded, in order. -/
  items : List ExpandedItem
  /-- The failures, in order. -/
  errors : List ExpandError

namespace Progress

/-- Before the first round. -/
def start : Progress := ⟨0, 0, [], [], [], []⟩

variable (source : Text) (target : Target) (ts : List Token)

/-- What a round does with a region; none if one of the ranges that it takes is out of bounds. -/
def deal? (s : Progress) (r : Region) : Option Progress := do
  let first ← ts[r.start]?
  let last ← ts[r.stop - 1]?
  let item ← slice? source first.location.offset last.endOffset
  match r.annotated.expandText item first.location target with
  | .error e =>
    some { s with position := r.stop, regions := s.regions ++ [r], errors := s.errors ++ [e] }
  | .ok (i, text) =>
    let kept ← slice? source s.copied r.annotated.location.offset
    some { s with
      position := r.stop
      copied := last.endOffset
      output := s.output ++ kept ++ text
      regions := s.regions ++ [r]
      items := s.items ++ [i] }

/-- One round: the search goes on, and an attribute that it finds is dealt with. -/
def round? (s : Progress) : Option Progress :=
  match Attribute.search (ts.drop s.position) with
  | .finished => some { s with position := ts.length }
  | .passed e? rest =>
    some { s with
      position := ts.length - rest.length
      errors := s.errors ++ (e?.map ExpandError.attr).toList }
  | .found a rest =>
    let stop := ts.length - rest.length
    let hash := ts.length - (dropTrivia (ts.drop s.position)).length
    deal? source target ts s ⟨hash, stop - a.item.length, stop, a⟩

variable {source target ts} {s s' : Progress}

/-- A region is left at its end. -/
theorem position_of_deal? {r : Region} (h : deal? source target ts s r = some s') :
    s'.position = r.stop := by
  simp only [deal?, Option.bind_eq_bind, Option.bind_eq_some_iff] at h
  obtain ⟨first, -, last, -, item, -, h⟩ := h
  split at h
  · obtain rfl := Option.some.inj h
    rfl
  · obtain ⟨kept, -, h⟩ := Option.bind_eq_some_iff.mp h
    obtain rfl := Option.some.inj h
    rfl

/-- A round deals with an attribute where it is laid out. -/
theorem round?_found {a : AnnotatedItem} {l : Attribute.Layout} (hfits : l.Fits ts s.position a)
    (hsearch : Attribute.search (ts.drop s.position) = .found a (ts.drop l.finish)) :
    round? source target ts s = deal? source target ts s ⟨l.hash, l.start, l.finish, a⟩ := by
  have hstart := hfits.start_lt
  have hfinish := hfits.finish_le
  have hhash : l.hash ≤ ts.length := by
    have := hfits.hash_lt_start
    omega
  have hlength : a.item.length = l.finish - l.start := by
    rw [hfits.item, List.extract_eq_take_drop, List.length_take_of_le]
    rw [List.length_drop]
    omega
  simp only [round?, hsearch, hfits.trivia, hlength, List.length_drop]
  rw [Nat.sub_sub_self hfinish, Nat.sub_sub_self hhash, Nat.sub_sub_self hstart.le]

/-- Every round moves on, whatever the tokens are. -/
theorem position_lt_of_round? (hposition : s.position < ts.length)
    (h : round? source target ts s = some s') : s.position < s'.position := by
  generalize hfinding : Attribute.search (ts.drop s.position) = finding
  have hadvances := Attribute.advances_search hposition
  rw [hfinding] at hadvances
  cases hadvances with
  | finished =>
    rw [round?, hfinding] at h
    obtain rfl := Option.some.inj h
    exact hposition
  | passed hlt hle =>
    simp only [round?, hfinding, List.length_drop, Nat.sub_sub_self hle] at h
    obtain rfl := Option.some.inj h
    exact hlt
  | @found a l hfits =>
    rw [round?_found hfits hfinding] at h
    calc s.position ≤ l.hash := hfits.position_le
      _ < l.start := hfits.hash_lt_start
      _ < l.finish := hfits.start_lt
      _ = s'.position := (position_of_deal? h).symm

variable (source target ts) in
/-- The rounds from some progress on, as long as there are tokens left. -/
def run? (s : Progress) : Option Progress :=
  if _hposition : s.position < ts.length then
    match _h : round? source target ts s with
    | none => none
    | some s' => run? s'
  else some s
termination_by ts.length - s.position
decreasing_by
  have := position_lt_of_round? _hposition _h
  omega

/-- The rounds go on with what one round makes of the progress. -/
theorem run?_of_lt (hposition : s.position < ts.length)
    (h : round? source target ts s = some s') :
    run? source target ts s = run? source target ts s' := by
  rw [run?, dif_pos hposition]
  split
  · next hnone => simp [h] at hnone
  · next s'' hsome =>
    obtain rfl := Option.some.inj (h.symm.trans hsome)
    rfl

/-- The rounds are over at the end of the tokens. -/
theorem run?_of_le (hposition : ts.length ≤ s.position) : run? source target ts s = some s := by
  rw [run?, dif_neg (Nat.not_lt.mpr hposition)]

/-! ## What the rounds keep -/

variable (ts) in
/-- The regions up to a position stand one behind the other and are those of the attributes so
far. -/
structure InOrder (position : Nat) (regions : List Region) : Prop where
  /-- The position lies within the tokens. -/
  position_le : position ≤ ts.length
  /-- The regions do not overlap, and stand from left to right. -/
  pairwise : regions.Pairwise fun r r' => r.stop ≤ r'.hash
  /-- Each region holds its attribute. -/
  holds : ∀ r ∈ regions, r.Holds ts
  /-- No region reaches beyond the position. -/
  stop_le : ∀ r ∈ regions, r.stop ≤ position
  /-- The attributes of the other tokens are those behind the position. -/
  annotated : regions.map Region.annotated ++ Attribute.annotated (ts.drop position) =
    Attribute.annotated ts

variable (target ts) in
/-- What every round keeps: the regions are in order, the source is copied up to a token, and what
has been done makes up the expansion of the tokens together with that of the tokens that are
left. -/
structure Valid (s : Progress) (k : Nat) : Prop where
  /-- The regions are in order. -/
  inOrder : InOrder ts s.position s.regions
  /-- The search has passed what is copied. -/
  le_position : k ≤ s.position
  /-- The source is copied up to a token. -/
  copied : s.copied = (Token.join (ts.take k)).length
  /-- The items are those of the tokens that the search has passed. -/
  items : s.items ++ (expandTokens target (ts.drop s.position)).items =
    (expandTokens target ts).items
  /-- So are the failures. -/
  errors : s.errors ++ (expandTokens target (ts.drop s.position)).errors =
    (expandTokens target ts).errors
  /-- Without a failure the output is what is written, what is not copied yet, and the rest. -/
  output : (expandTokens target ts).errors = [] →
    s.output ++ Token.join (ts.extract k s.position) ++
      (expandTokens target (ts.drop s.position)).output = (expandTokens target ts).output

/-- Nothing has been done before the first round. -/
theorem valid_start : Valid target ts start 0 := by
  refine ⟨⟨?_, ?_, ?_, ?_, ?_⟩, ?_, ?_, ?_, ?_, ?_⟩ <;> simp [start]

section Steps

variable {k next : Nat} {e? : Option AttributeError} {a : AnnotatedItem} {l : Attribute.Layout}

/-- The regions stay in order where the search passes over tokens. -/
theorem InOrder.passed {regions : List Region} {position : Nat}
    (h : InOrder ts position regions) (hlt : position < next) (hle : next ≤ ts.length)
    (hsearch : Attribute.search (ts.drop position) = .passed e? (ts.drop next)) :
    InOrder ts next regions := by
  have hannotated := h.annotated
  rw [Attribute.annotated_eq, hsearch] at hannotated
  exact ⟨hle, h.pairwise, h.holds, fun r hr => (h.stop_le r hr).trans hlt.le, hannotated⟩

/-- The region of an attribute that is found stands behind all others. -/
theorem InOrder.found {regions : List Region} {position : Nat}
    (h : InOrder ts position regions) (hfits : l.Fits ts position a)
    (hsearch : Attribute.search (ts.drop position) = .found a (ts.drop l.finish)) :
    InOrder ts l.finish (regions ++ [⟨l.hash, l.start, l.finish, a⟩]) := by
  have hhash (r) (hr : r ∈ regions) : r.stop ≤ l.hash := (h.stop_le r hr).trans hfits.position_le
  have hfinish : l.hash ≤ l.finish := (hfits.hash_lt_start.trans hfits.start_lt).le
  have hannotated := h.annotated
  rw [Attribute.annotated_eq, hsearch] at hannotated
  refine ⟨hfits.finish_le, ?_, ?_, ?_, ?_⟩
  · refine List.pairwise_append.mpr ⟨h.pairwise, List.pairwise_singleton _ _, ?_⟩
    rintro r hr _ (_ | ⟨_, ⟨⟩⟩)
    exact hhash r hr
  · refine List.forall_mem_append.mpr ⟨h.holds, ?_⟩
    rintro _ (_ | ⟨_, ⟨⟩⟩)
    exact ⟨position, l, hfits, rfl, rfl, rfl⟩
  · refine List.forall_mem_append.mpr ⟨fun r hr => (hhash r hr).trans hfinish, ?_⟩
    rintro _ (_ | ⟨_, ⟨⟩⟩)
    exact le_rfl
  · rw [List.map_append, List.append_assoc]
    exact hannotated

/-- Progress stays valid where the search is over. -/
theorem Valid.finished (h : Valid target ts s k)
    (hsearch : Attribute.search (ts.drop s.position) = .finished) :
    Valid target ts { s with position := ts.length } k := by
  have hle := h.inOrder.position_le
  have hexpand := expandTokens_eq target (ts.drop s.position)
  have hannotated := h.inOrder.annotated
  rw [Attribute.annotated_eq, hsearch] at hannotated
  rw [hsearch] at hexpand
  have hextract : ts.extract s.position ts.length = ts.drop s.position := by
    rw [drop_eq_extract_append ts hle, List.drop_length, List.append_nil]
  refine ⟨⟨le_rfl, h.inOrder.pairwise, h.inOrder.holds,
    fun r hr => (h.inOrder.stop_le r hr).trans hle, ?_⟩, h.le_position.trans hle, h.copied, ?_, ?_,
    fun hnil => ?_⟩
  · rw [List.drop_length, Attribute.annotated_nil]
    exact hannotated
  · rw [← h.items, hexpand, List.drop_length, expandTokens_nil]
  · rw [← h.errors, hexpand, List.drop_length, expandTokens_nil]
  · rw [← h.output hnil, hexpand, List.drop_length, expandTokens_nil,
      ← extract_append_extract ts h.le_position hle, hextract, Token.join_append, List.append_nil,
      List.append_assoc]

/-- Progress stays valid where the search passes over tokens. -/
theorem Valid.passed (h : Valid target ts s k) (hlt : s.position < next) (hle : next ≤ ts.length)
    (hsearch : Attribute.search (ts.drop s.position) = .passed e? (ts.drop next)) :
    Valid target ts { s with
      position := next
      errors := s.errors ++ (e?.map ExpandError.attr).toList } k := by
  have hexpand := expandTokens_eq target (ts.drop s.position)
  rw [hsearch] at hexpand
  refine ⟨h.inOrder.passed hlt hle hsearch, h.le_position.trans hlt.le, h.copied, ?_, ?_,
    fun hnil => ?_⟩
  · rw [← h.items, hexpand]
    cases e? <;> rfl
  · rw [← h.errors, hexpand]
    cases e? with
    | none => simp [Expansion.prepend]
    | some e => simp [Expansion.fail]
  · cases e? with
    | none =>
      rw [← h.output hnil, hexpand, ← extract_append_extract ts h.le_position hlt.le,
        Token.join_append]
      simp only [Expansion.prepend, before_drop hle, List.append_assoc]
    | some e =>
      have herrors := h.errors
      simp [hnil, hexpand, Expansion.fail] at herrors

/-- Progress stays valid where an attribute cannot be expanded. -/
theorem Valid.failed (h : Valid target ts s k) (hfits : l.Fits ts s.position a)
    (hsearch : Attribute.search (ts.drop s.position) = .found a (ts.drop l.finish))
    {e : ExpandError} (he : a.expand target = .error e) :
    Valid target ts { s with
      position := l.finish
      regions := s.regions ++ [⟨l.hash, l.start, l.finish, a⟩]
      errors := s.errors ++ [e] } k := by
  have hexpand := expandTokens_eq target (ts.drop s.position)
  simp only [hsearch, he] at hexpand
  have hfinish : s.position ≤ l.finish :=
    hfits.position_le.trans (hfits.hash_lt_start.trans hfits.start_lt).le
  refine ⟨h.inOrder.found hfits hsearch, h.le_position.trans hfinish, h.copied, ?_, ?_,
    fun hnil => ?_⟩
  · rw [← h.items, hexpand]
    rfl
  · rw [← h.errors, hexpand, Expansion.fail, List.append_assoc]
    rfl
  · have herrors := h.errors
    simp [hnil, hexpand, Expansion.fail] at herrors

/-- Progress stays valid where an item is written with its new text. -/
theorem Valid.expanded (h : Valid target ts s k) (hfits : l.Fits ts s.position a)
    (hsearch : Attribute.search (ts.drop s.position) = .found a (ts.drop l.finish))
    {i : ExpandedItem} {text : Text} (hi : a.expand target = .ok (i, text)) :
    Valid target ts
      { position := l.finish
        copied := (Token.join (ts.take l.finish)).length
        output := s.output ++ Token.join (ts.extract k l.hash) ++ text
        regions := s.regions ++ [⟨l.hash, l.start, l.finish, a⟩]
        items := s.items ++ [i]
        errors := s.errors } l.finish := by
  have hexpand := expandTokens_eq target (ts.drop s.position)
  simp only [hsearch, hi] at hexpand
  -- The trivia in front of the attribute is kept, and ends at the hash.
  have htrivia : (ts.drop s.position).takeWhile Token.isTrivia = ts.extract s.position l.hash := by
    have hsplit := takeWhile_append_dropTrivia (ts.drop s.position)
    rw [hfits.trivia, drop_eq_extract_append ts hfits.position_le] at hsplit
    rw [drop_eq_extract_append ts hfits.position_le]
    exact List.append_cancel_right hsplit
  refine ⟨h.inOrder.found hfits hsearch, le_rfl, rfl, ?_, ?_, fun hnil => ?_⟩
  · rw [← h.items, hexpand, Expansion.add, Expansion.prepend, List.append_assoc]
    rfl
  · rw [← h.errors, hexpand]
    rfl
  · have hempty : ts.extract l.finish l.finish = [] := by simp [List.extract_eq_take_drop]
    rw [← h.output hnil, hexpand, ← extract_append_extract ts h.le_position hfits.position_le,
      hempty]
    simp only [Expansion.add, Expansion.prepend, htrivia, Token.join_append, Token.join_nil,
      List.append_assoc, List.nil_append]

end Steps

/-! ## The ranges of a round -/

section Ranges

variable {k : Nat} {a : AnnotatedItem} {l : Attribute.Layout}

/-- The text of an item is a range of the source, from the offset of its first token up to the end
of its last one. -/
theorem exists_item (htokens : tokenize source Cursor.start = .ok ts)
    (hfits : l.Fits ts s.position a) :
    ∃ first last, ts[l.start]? = some first ∧ ts[l.finish - 1]? = some last ∧
      slice? source first.location.offset last.endOffset = some (Token.join a.item) ∧
      a.item.head? = some first ∧
      last.endOffset = (Token.join (ts.take l.finish)).length := by
  have hstart := hfits.start_lt
  have hfinish := hfits.finish_le
  have hfirst : ts[l.start]? = some ts[l.start] := List.getElem?_eq_getElem _
  have hlast : ts[l.finish - 1]? = some ts[l.finish - 1] := List.getElem?_eq_getElem _
  have hend := (offset_of_getElem? htokens hlast).2
  rw [Nat.sub_add_cancel (by omega)] at hend
  refine ⟨_, _, hfirst, hlast, ?_, ?_, hend⟩
  · rw [hend, (offset_of_getElem? htokens hfirst).1, ← join_of_tokenize htokens, hfits.item]
    exact slice?_join hstart.le
  · rw [hfits.item, extract_eq_cons (by omega) hstart, List.head?_cons]

/-- The text from where the source is copied to up to an attribute is a range of the source. -/
theorem slice?_kept (htokens : tokenize source Cursor.start = .ok ts)
    (hfits : l.Fits ts s.position a) (h : Valid target ts s k) :
    slice? source s.copied a.location.offset = some (Token.join (ts.extract k l.hash)) := by
  obtain ⟨hash, hhash, -, hlocation⟩ := hfits.hash
  rw [h.copied, ← hlocation, (offset_of_getElem? htokens hhash).1, ← join_of_tokenize htokens]
  exact slice?_join (h.le_position.trans hfits.position_le)

/-- No range of a region is out of bounds, and dealing with it keeps the progress valid. -/
theorem Valid.exists_deal (htokens : tokenize source Cursor.start = .ok ts)
    (h : Valid target ts s k) (hfits : l.Fits ts s.position a)
    (hsearch : Attribute.search (ts.drop s.position) = .found a (ts.drop l.finish)) :
    ∃ s' k', deal? source target ts s ⟨l.hash, l.start, l.finish, a⟩ = some s' ∧
      Valid target ts s' k' := by
  obtain ⟨first, last, hfirst, hlast, hitem, hhead, hend⟩ := exists_item htokens hfits
  have hkept := slice?_kept htokens hfits h
  cases hexpand : a.expand target with
  | error e =>
    refine ⟨_, k, ?_, h.failed hfits hsearch hexpand⟩
    simp only [deal?, hfirst, hlast, hitem, Option.bind_eq_bind, Option.bind_some,
      a.expandText_join hhead, hexpand]
  | ok result =>
    obtain ⟨i, text⟩ := result
    rw [hend] at hitem
    refine ⟨_, l.finish, ?_, h.expanded hfits hsearch hexpand⟩
    simp only [deal?, hfirst, hlast, hitem, Option.bind_eq_bind, Option.bind_some,
      a.expandText_join hhead, hexpand, hkept, hend]

/-- A round keeps the progress through the tokens of a source valid, and moves on. -/
theorem Valid.exists_round (htokens : tokenize source Cursor.start = .ok ts)
    (h : Valid target ts s k) (hposition : s.position < ts.length) :
    ∃ s' k', round? source target ts s = some s' ∧ s.position < s'.position ∧
      Valid target ts s' k' := by
  suffices hround : ∃ s' k', round? source target ts s = some s' ∧ Valid target ts s' k' by
    obtain ⟨s', k', hsome, hvalid⟩ := hround
    exact ⟨s', k', hsome, position_lt_of_round? hposition hsome, hvalid⟩
  generalize hfinding : Attribute.search (ts.drop s.position) = finding
  have hadvances := Attribute.advances_search hposition
  rw [hfinding] at hadvances
  cases hadvances with
  | finished => exact ⟨_, k, by rw [round?, hfinding], h.finished hfinding⟩
  | @passed e? next hlt hle =>
    refine ⟨_, k, ?_, h.passed hlt hle hfinding⟩
    simp only [round?, hfinding, List.length_drop, Nat.sub_sub_self hle]
  | found hfits =>
    rw [round?_found hfits hfinding]
    exact h.exists_deal htokens hfits hfinding

/-- The rounds come to the end of the tokens of a source, and keep the progress valid. -/
theorem Valid.exists_run (htokens : tokenize source Cursor.start = .ok ts)
    (h : Valid target ts s k) :
    ∃ s' k', run? source target ts s = some s' ∧ s'.position = ts.length ∧
      Valid target ts s' k' := by
  -- Every round leaves fewer tokens.
  induction hleft : ts.length - s.position using Nat.strong_induction_on generalizing s k with
  | _ n ih =>
    rcases Nat.lt_or_ge s.position ts.length with hposition | hposition
    · obtain ⟨s₁, k₁, hround, hlt, hvalid⟩ := h.exists_round htokens hposition
      rw [run?_of_lt hposition hround]
      exact ih _ (by omega) hvalid rfl
    · exact ⟨s, k, run?_of_le hposition, h.inOrder.position_le.antisymm hposition, h⟩

end Ranges

end Progress

/-- The search for attributes moves on within the tokens from every position, whatever the tokens
are. So the rounds of a run come to an end; on the tokens of a source no range that they take is out
of bounds, nor is what is copied at the end. The regions that they deal with stand one behind the
other, hold all attributes with their items, and what the rounds leave is the expansion of the
source. -/
theorem search_rounds :
    (∀ (ts : List Token) (position : Nat), position < ts.length →
        Attribute.Advances ts position (Attribute.search (ts.drop position))) ∧
      ∀ (source : Text) (target : Target) (ts : List Token),
        tokenize source Cursor.start = .ok ts →
        ∃ s rest, Progress.run? source target ts Progress.start = some s ∧
          slice? source s.copied source.length = some rest ∧
          s.position = ts.length ∧
          (s.regions.Pairwise fun r r' => r.stop ≤ r'.hash) ∧
          (∀ r ∈ s.regions, r.Holds ts) ∧
          s.regions.map Region.annotated = annotatedItems source ∧
          s.items = (expandSource source target).items ∧
          s.errors = (expandSource source target).errors ∧
          (s.errors = [] → s.output ++ rest = (expandSource source target).output) := by
  refine ⟨fun ts position hposition => Attribute.advances_search hposition,
    fun source target ts htokens => ?_⟩
  have hstart : Progress.Valid target ts Progress.start 0 := Progress.valid_start
  obtain ⟨s, k, hrun, hposition, hvalid⟩ := hstart.exists_run htokens
  have hk : k ≤ ts.length := hposition ▸ hvalid.le_position
  have hrest := @slice?_join ts k ts.length hk
  rw [← hvalid.copied, List.take_length, join_of_tokenize htokens] at hrest
  have hannotated := hvalid.inOrder.annotated
  have hitems := hvalid.items
  have herrors := hvalid.errors
  have houtput := hvalid.output
  simp only [hposition, List.drop_length, expandTokens_nil, Attribute.annotated_nil,
    List.append_nil] at hannotated hitems herrors houtput
  refine ⟨s, _, hrun, hrest, hposition, hvalid.inOrder.pairwise, hvalid.inOrder.holds, ?_, ?_, ?_,
    ?_⟩
  · rw [hannotated, annotatedItems, htokens]
  · rw [hitems, expandSource, htokens]
  · rw [herrors, expandSource, htokens]
  · rw [herrors, expandSource, htokens]
    exact houtput

/-- A file with an attribute and its item, and an attribute that breaks off in its arguments. -/
def brokenOff : Text := utf8 "#[abi(\"C\")] fn f();#[abi(1"

/-- The tokens of this file. -/
def brokenOffTokens : List Token := (tokenize brokenOff Cursor.start).toOption.getD []

/-- There is one region, and the search goes from the broken attribute to the end. -/
theorem search_rounds_broken_off :
    Attribute.Advances brokenOffTokens 14 (Attribute.search (brokenOffTokens.drop 14)) ∧
      ∃ s rest, Progress.run? brokenOff Target.linux64 brokenOffTokens Progress.start = some s ∧
        slice? brokenOff s.copied brokenOff.length = some rest ∧
        s.regions.map (fun r => (r.hash, r.start, r.stop)) = [(0, 8, 14)] ∧
        s.errors = [.attr (.malformed ⟨1, 20, 19⟩)] := by
  have htokens : tokenize brokenOff Cursor.start = .ok brokenOffTokens := by decide +kernel
  refine ⟨search_rounds.1 brokenOffTokens 14 (by decide +kernel), ?_⟩
  obtain ⟨s, rest, hrun, hrest, -, -, -, -, -, herrors, -⟩ :=
    search_rounds.2 brokenOff Target.linux64 brokenOffTokens htokens
  refine ⟨s, rest, hrun, hrest, ?_, ?_⟩
  · have hregions : (Progress.run? brokenOff Target.linux64 brokenOffTokens Progress.start).map
        (fun s => s.regions.map fun r => (r.hash, r.start, r.stop)) = some [(0, 8, 14)] := by
      decide +kernel
    rw [hrun] at hregions
    exact Option.some.inj hregions
  · rw [herrors]
    decide +kernel

end CallConv

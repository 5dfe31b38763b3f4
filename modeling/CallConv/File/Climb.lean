import CallConv.File.Path

/-!
# Going up from a path

The directory of a path is a shorter path, up to the root or to `.`, of which the directory is the
same again. So it can be asked of a path and of the directories above it which one comes first
(`nearest?`). A path is shorter when it is cleaned, since every component takes up its bytes and the
slash before it.
-/

namespace CallConv

namespace Path

/-- The number of bytes that some components take up with a slash before each. -/
def weight : List Text → Nat
  | [] => 0
  | c :: cs => c.length + 1 + weight cs

@[simp]
theorem weight_nil : weight [] = 0 := rfl

@[simp]
theorem weight_cons (c : Text) (cs : List Text) : weight (c :: cs) = c.length + 1 + weight cs := rfl

theorem weight_append (cs ds : List Text) : weight (cs ++ ds) = weight cs + weight ds := by
  induction cs with
  | nil => simp
  | cons c cs ih => simp only [List.cons_append, weight_cons, ih, Nat.add_assoc]

theorem weight_reverse (cs : List Text) : weight cs.reverse = weight cs := by
  induction cs with
  | nil => rfl
  | cons c cs ih =>
    rw [List.reverse_cons, weight_append, ih, weight_cons, weight_cons, weight_nil, Nat.add_zero,
      Nat.add_comm]

theorem weight_filter_le (p : Text → Bool) (cs : List Text) :
    weight (cs.filter p) ≤ weight cs := by
  induction cs with
  | nil => exact Nat.le_refl _
  | cons c cs ih =>
    rw [List.filter_cons]
    split
    · simp only [weight_cons]
      omega
    · simp only [weight_cons]
      omega

/-- The pieces of a text take up its bytes. -/
theorem weight_splitAt (t : Text) : weight (t.splitAt Byte.slash) = t.length + 1 := by
  induction t with
  | nil => rfl
  | cons b t ih =>
    unfold Text.splitAt
    split
    · simp only [weight_cons, ih, List.length_cons, List.length_nil]
      omega
    · split
      · next h => simp [h] at ih
      · next h =>
        simp only [h, weight_cons] at ih
        simp only [weight_cons, List.length_cons]
        omega

/-- There is always one piece. -/
theorem splitAt_ne_nil (t : Text) : t.splitAt Byte.slash ≠ [] := by
  intro h
  have hweight := weight_splitAt t
  simp [h] at hweight

/-- The components of a path take up its bytes at most, the first slash of an absolute one
included. -/
theorem weight_components_le (p : Text) :
    weight (components p) + (if isAbsolute p then 1 else 0) ≤ p.length + 1 := by
  rcases p with _ | ⟨b, t⟩
  · decide
  · have ht := weight_filter_le (fun c => c ≠ [] ∧ c ≠ current) (Text.splitAt Byte.slash t)
    have hbt := weight_filter_le (fun c => c ≠ [] ∧ c ≠ current) (Text.splitAt Byte.slash (b :: t))
    rw [weight_splitAt] at ht hbt
    by_cases hb : b = Byte.slash
    · -- What stands before the first slash is empty and no component.
      have hcomponents : components (b :: t) = components t := by
        simp [components, Text.splitAt, hb]
      have habsolute : isAbsolute (b :: t) = true := by simp [isAbsolute, hb]
      rw [hcomponents, habsolute]
      exact Nat.succ_le_succ ht
    · have habsolute : isAbsolute (b :: t) = false := by simp [isAbsolute, hb]
      rw [habsolute]
      exact hbt

/-- One more component adds its bytes at most. -/
theorem weight_push_le (absolute : Bool) (stack : List Text) (c : Text) :
    weight (push absolute stack c) ≤ c.length + 1 + weight stack := by
  unfold push
  split
  · next hc =>
    subst hc
    split
    · cases absolute <;> decide
    · split
      · simp only [weight_cons]
        omega
      · simp only [weight_cons]
        omega
  · exact Nat.le_of_eq (weight_cons c stack)

theorem weight_foldl_push_le (absolute : Bool) (cs stack : List Text) :
    weight (cs.foldl (push absolute) stack) ≤ weight cs + weight stack := by
  induction cs generalizing stack with
  | nil => simp
  | cons c cs ih =>
    have hrest := ih (push absolute stack c)
    have hpush := weight_push_le absolute stack c
    rw [List.foldl_cons, weight_cons]
    omega

/-- The text of some components is as long as what they take up, but for the first slash. -/
theorem length_join (c : Text) (cs : List Text) :
    (Text.join [Byte.slash] (c :: cs)).length + 1 = weight (c :: cs) := by
  induction cs generalizing c with
  | nil => simp [Text.join]
  | cons d cs ih =>
    have hrest := ih d
    rw [Text.join, weight_cons, List.length_append, List.length_append, List.length_singleton]
    omega

/-- A path is no longer when it is cleaned, if it is not empty. -/
theorem length_clean_le (p : Text) : (clean p).length ≤ max 1 p.length := by
  have hcomponents := weight_components_le p
  have hclean := weight_foldl_push_le (isAbsolute p) (components p) []
  rw [← weight_reverse, weight_nil] at hclean
  change weight (cleanComponents p) ≤ _ at hclean
  unfold clean ofComponents
  rcases h : cleanComponents p with _ | ⟨c, cs⟩
  · split
    · exact Nat.le_max_left _ _
    · exact Nat.le_max_left _ _
  · have hjoin := length_join c cs
    rw [h] at hclean
    split
    · next habsolute =>
      rw [if_pos habsolute] at hcomponents
      rw [List.length_cons]
      omega
    · rw [if_neg (List.cons_ne_nil c cs)]
      omega

/-- How far a path is from those whose directory is the same again. -/
def rank (p : Text) : Nat := if p = current then 0 else max 1 p.length

theorem rank_clean_le (p : Text) : rank (clean p) ≤ p.length := by
  have hlength := length_clean_le p
  rcases p with _ | ⟨b, t⟩
  · exact Nat.le_refl 0
  · unfold rank
    split
    · exact Nat.zero_le _
    · rw [List.length_cons] at hlength ⊢
      omega

theorem le_rank {p : Text} (h : p ≠ current) : p.length ≤ rank p := by
  rw [rank, if_neg h]
  exact Nat.le_max_right _ _

/-- A slash cuts a path into what stands before it and what stands behind it. -/
theorem splitAt_append (p q : Text) :
    Text.splitAt Byte.slash (p ++ Byte.slash :: q) =
      Text.splitAt Byte.slash p ++ Text.splitAt Byte.slash q := by
  induction p with
  | nil => rfl
  | cons b p ih =>
    simp only [List.cons_append, Text.splitAt, ih]
    split
    · rfl
    · cases hpieces : Text.splitAt Byte.slash p with
      | nil => exact absurd hpieces (splitAt_ne_nil p)
      | cons piece pieces => rfl

theorem components_append (p q : Text) :
    components (p ++ Byte.slash :: q) = components p ++ components q := by
  rw [components, splitAt_append, List.filter_append]
  rfl

theorem isAbsolute_append {p : Text} (h : p ≠ []) (q : Text) :
    isAbsolute (p ++ q) = isAbsolute p := by
  obtain ⟨b, t, rfl⟩ := List.exists_cons_of_ne_nil h
  rfl

/-- A slash at the end of a path is left out. -/
theorem clean_append_slash {p : Text} (h : p ≠ []) : clean (p ++ [Byte.slash]) = clean p := by
  have hcomponents : components (p ++ [Byte.slash]) = components p := by
    rw [components_append]
    exact List.append_nil _
  rw [clean, cleanComponents, hcomponents, isAbsolute_append h]
  rfl

/-- The part of a path up to its last slash is shorter, unless the path is empty or ends there. -/
theorem untilLastSlash_cases (p : Text) :
    (untilLastSlash p).length < p.length ∨
      untilLastSlash p = p ∧ (p = [] ∨ ∃ q, p = q ++ [Byte.slash]) := by
  rcases List.eq_nil_or_concat p with rfl | ⟨q, b, rfl⟩
  · exact .inr ⟨rfl, .inl rfl⟩
  · unfold untilLastSlash
    rw [List.concat_eq_append, List.reverse_append, List.reverse_singleton, List.singleton_append,
      List.dropWhile_cons]
    by_cases hb : b = Byte.slash
    · subst hb
      exact .inr ⟨by simp, .inr ⟨q, rfl⟩⟩
    · left
      rw [if_pos (by simpa using hb), List.length_reverse, List.length_append,
        List.length_singleton]
      have hle := (List.dropWhile_suffix (· != Byte.slash) (l := q.reverse)).length_le
      rw [List.length_reverse] at hle
      omega

/-- Going up comes nearer to an end, or stays where it is. -/
theorem rank_directory_lt {p : Text} (h : directory p ≠ p) : rank (directory p) < rank p := by
  have hdirectory : rank (directory p) ≤ (untilLastSlash p).length := rank_clean_le _
  rcases untilLastSlash_cases p with hlt | ⟨hsame, rfl | ⟨q, rfl⟩⟩
  · have hne : p ≠ current := fun hp => h (by subst hp; rfl)
    have hrank := le_rank hne
    omega
  · decide
  · rcases q with _ | ⟨b, t⟩
    · exact absurd rfl h
    · -- The slash at the end is left out, and nothing else.
      have hne : b :: t ++ [Byte.slash] ≠ current := by
        intro hp
        have hlength := congrArg List.length hp
        rw [List.length_append, List.length_cons] at hlength
        exact absurd hlength (by show t.length + 1 + 1 ≠ 1; omega)
      have hrank := le_rank hne
      have hclean : directory (b :: t ++ [Byte.slash]) = clean (b :: t) := by
        rw [directory, hsame, clean_append_slash (List.cons_ne_nil b t)]
      have hle := rank_clean_le (b :: t)
      rw [hclean]
      rw [List.length_append, List.length_singleton] at hrank
      omega

/-- The first one of a path and the directories above it for which `has` holds, if there is one. -/
def nearest? (has : Text → Bool) (p : Text) : Option Text :=
  if has p then some p
  else if _h : directory p = p then none
  else nearest? has (directory p)
termination_by rank p
decreasing_by exact rank_directory_lt _h

end Path

end CallConv

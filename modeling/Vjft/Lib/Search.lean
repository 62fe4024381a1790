import Mathlib.Data.List.Infix

/-!
# Searching a text for a pattern

`find` gives the first place at which a pattern starts. A pattern that cannot overlap itself and
does not stand inside of a piece is found right behind that piece.
-/

namespace Search

variable {α : Type*} [DecidableEq α]

/-- The first place at which the pattern starts. -/
def find (pat : List α) : List α → Option ℕ
  | [] => if pat <+: [] then some 0 else none
  | x :: xs => if pat <+: x :: xs then some 0 else (find pat xs).map (· + 1)

/-- No end of the pattern, other than all of it, is a beginning of it. -/
def IsUnbordered (pat : List α) : Prop :=
  ∀ u, u <+: pat → u <:+ pat → u = [] ∨ u = pat

omit [DecidableEq α] in
lemma isUnbordered_pair {a b : α} (h : a ≠ b) : IsUnbordered [a, b] := by
  intro u hstart hsuffix
  match u with
  | [] => exact .inl rfl
  | [c] =>
    obtain ⟨t, ht⟩ := hstart
    obtain ⟨t', ht'⟩ := hsuffix
    have ha : c = a := by simp_all
    have hb : c = b := by
      have hlast := congrArg List.getLast? ht'
      simpa using hlast
    exact absurd (ha.symm.trans hb) h
  | c :: d :: us =>
    right
    apply hstart.eq_of_length_le
    simp

variable {pat : List α}

lemma find_eq_none_iff {xs : List α} : find pat xs = none ↔ ¬ pat <:+: xs := by
  induction xs with
  | nil => simp [find]
  | cons x xs ih =>
    rw [find, List.infix_cons_iff]
    split_ifs with h
    · simp [h]
    · simp [h, ih]

/-- The pattern stands where it is found. -/
lemma prefix_drop_of_find {xs : List α} {i : ℕ} (h : find pat xs = some i) :
    pat <+: xs.drop i := by
  induction xs generalizing i with
  | nil =>
    rw [find] at h
    split_ifs at h with hpat
    simpa using hpat
  | cons x xs ih =>
    rw [find] at h
    split_ifs at h with hpat
    · cases h
      exact hpat
    · obtain ⟨j, hj, rfl⟩ := Option.map_eq_some_iff.1 h
      exact ih hj

/-- The text in front of the found place does not contain the pattern. -/
lemma not_infix_take_of_find (hpat : pat ≠ []) {xs : List α} {i : ℕ}
    (h : find pat xs = some i) : ¬ pat <:+: xs.take i := by
  induction xs generalizing i with
  | nil => simpa using hpat
  | cons x xs ih =>
    rw [find] at h
    split_ifs at h with hx
    · cases h
      simpa using hpat
    · obtain ⟨j, hj, rfl⟩ := Option.map_eq_some_iff.1 h
      rw [List.take_succ_cons, List.infix_cons_iff, not_or]
      constructor
      · intro hstart
        have htake : x :: xs.take j <+: x :: xs := by
          simpa using List.take_prefix j xs
        exact hx (hstart.trans htake)
      · exact ih hj

lemma length_add_le_of_find {xs : List α} {i : ℕ} (hpat : pat ≠ []) (h : find pat xs = some i) :
    i + pat.length ≤ xs.length := by
  have hle := (prefix_drop_of_find h).length_le
  have hpos := List.length_pos_iff.2 hpat
  rw [List.length_drop] at hle
  omega

omit [DecidableEq α] in
/-- Where a piece without the pattern starts, the pattern does not start, even if it follows. -/
lemma IsUnbordered.not_prefix_append (hpat : IsUnbordered pat) {xs : List α} (hxs : xs ≠ [])
    (h : ¬ pat <:+: xs) (rest : List α) : ¬ pat <+: xs ++ (pat ++ rest) := by
  intro hstart
  rcases le_total pat.length xs.length with hle | hle
  · exact h (List.prefix_of_prefix_length_le hstart (List.prefix_append _ _) hle).isInfix
  · obtain ⟨u, rfl⟩ := List.prefix_of_prefix_length_le (List.prefix_append _ _) hstart hle
    -- what sticks out of the piece would be both an end and a beginning of the pattern
    have hu_rest : u <+: (xs ++ u) ++ rest := (List.prefix_append_right_inj xs).1 hstart
    have hu : u <+: xs ++ u := by
      apply List.prefix_of_prefix_length_le hu_rest (List.prefix_append _ rest)
      simp
    rcases hpat u hu (List.suffix_append xs u) with rfl | hall
    · simp at h
    · exact hxs (List.self_eq_append_left.1 hall)

/-- The pattern is found right behind a piece that does not contain it. -/
lemma IsUnbordered.find_append (hpat : IsUnbordered pat) {xs : List α} (h : ¬ pat <:+: xs)
    (rest : List α) : find pat (xs ++ (pat ++ rest)) = some xs.length := by
  induction xs with
  | nil =>
    rw [List.nil_append]
    match hp : pat ++ rest with
    | [] =>
      have hnil : pat = [] := (List.append_eq_nil_iff.1 hp).1
      simp [find, hnil]
    | x :: xs =>
      rw [find, if_pos]
      · rfl
      · exact ⟨rest, hp⟩
  | cons x xs ih =>
    have hxs : ¬ pat <:+: xs := fun hin => h (List.infix_cons hin)
    rw [List.cons_append, find, if_neg, ih hxs]
    · rfl
    · exact hpat.not_prefix_append (by simp) h rest

/-! ### Searching from a position on -/

/-- The first place from `pos` on at which the pattern starts. -/
def findFrom (pat s : List α) (pos : ℕ) : Option ℕ := (find pat (s.drop pos)).map (pos + ·)

/-- At most `n` letters from `pos` on. -/
def substr (s : List α) (pos n : ℕ) : List α := (s.drop pos).take n

omit [DecidableEq α] in
lemma substr_append (before xs rest : List α) :
    substr (before ++ (xs ++ rest)) before.length xs.length = xs := by
  simp [substr]

lemma findFrom_bounds {s : List α} {pos i : ℕ} (hpat : pat ≠ []) (h : findFrom pat s pos = some i) :
    pos ≤ i ∧ i + pat.length ≤ s.length := by
  obtain ⟨j, hj, rfl⟩ := Option.map_eq_some_iff.1 h
  have hle := length_add_le_of_find hpat hj
  have hpos := List.length_pos_iff.2 hpat
  rw [List.length_drop] at hle
  omega

/-- What stands between the position and the found place does not contain the pattern. -/
lemma not_infix_substr_of_findFrom {s : List α} {pos i : ℕ} (hpat : pat ≠ [])
    (h : findFrom pat s pos = some i) : ¬ pat <:+: substr s pos (i - pos) := by
  obtain ⟨j, hj, rfl⟩ := Option.map_eq_some_iff.1 h
  rw [substr, Nat.add_sub_cancel_left]
  exact not_infix_take_of_find hpat hj

lemma findFrom_eq_none {s : List α} {pos : ℕ} (h : ¬ pat <:+: s.drop pos) :
    findFrom pat s pos = none := by
  rw [findFrom, find_eq_none_iff.2 h, Option.map_none]

lemma IsUnbordered.findFrom_append (hpat : IsUnbordered pat) (before : List α) {xs : List α}
    (h : ¬ pat <:+: xs) (rest : List α) :
    findFrom pat (before ++ (xs ++ (pat ++ rest))) before.length
      = some (before.length + xs.length) := by
  rw [findFrom, List.drop_left, hpat.find_append h, Option.map_some]

end Search

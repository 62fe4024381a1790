import Mathlib.Data.List.DropRight
import Mathlib.Tactic.Common

/-!
# Text buffers

A text buffer is a list of symbols with a cursor between two of them, or at one of the ends. Its
operations move the cursor, put symbols in front of it or take one away.
-/

/-- A list with a position from `0` to its length. -/
@[ext] structure TextBuffer (α : Type*) where
  chars : List α
  cursor : ℕ
  cursor_le : cursor ≤ chars.length

namespace TextBuffer

variable {α : Type*}

/-- The symbols in front of the cursor. -/
def before (b : TextBuffer α) : List α := b.chars.take b.cursor

/-- The symbols from the cursor on. -/
def behind (b : TextBuffer α) : List α := b.chars.drop b.cursor

lemma length_before (b : TextBuffer α) : b.before.length = b.cursor := by
  simp [before, b.cursor_le]

lemma length_behind (b : TextBuffer α) : b.behind.length = b.chars.length - b.cursor := by
  simp [behind]

/-- The empty buffer. -/
def clear : TextBuffer α := ⟨[], 0, le_rfl⟩

/-- Insert at the cursor and step past the inserted symbols. -/
def insert (b : TextBuffer α) (ds : List α) : TextBuffer α where
  chars := b.before ++ ds ++ b.behind
  cursor := b.cursor + ds.length
  cursor_le := by
    have h := b.cursor_le
    simp only [List.length_append, length_before, length_behind]
    omega

/-- Delete the symbol in front of the cursor, if there is one. -/
def deleteBefore (b : TextBuffer α) : TextBuffer α where
  chars := b.chars.take (b.cursor - 1) ++ b.behind
  cursor := b.cursor - 1
  cursor_le := by
    have h := b.cursor_le
    simp only [List.length_append, List.length_take, length_behind]
    omega

/-- One step towards the end, unless the cursor is there already. -/
def forward (b : TextBuffer α) : TextBuffer α where
  chars := b.chars
  cursor := min (b.cursor + 1) b.chars.length
  cursor_le := min_le_right _ _

/-- One step towards the start, unless the cursor is there already. -/
def backward (b : TextBuffer α) : TextBuffer α where
  chars := b.chars
  cursor := b.cursor - 1
  cursor_le := (Nat.sub_le _ _).trans b.cursor_le

/-- Step over the longest run of symbols with the property `p` that starts at the cursor. -/
def skipForward (b : TextBuffer α) (p : α → Prop) [DecidablePred p] : TextBuffer α where
  chars := b.chars
  cursor := b.cursor + (b.behind.takeWhile p).length
  cursor_le := by
    have h := b.cursor_le
    have hrun := (List.takeWhile_sublist p (l := b.behind)).length_le
    rw [length_behind] at hrun
    omega

/-- Step back over the longest run of symbols with the property `p` that ends at the cursor. -/
def skipBackward (b : TextBuffer α) (p : α → Prop) [DecidablePred p] : TextBuffer α where
  chars := b.chars
  cursor := b.cursor - (b.before.rtakeWhile p).length
  cursor_le := (Nat.sub_le _ _).trans b.cursor_le

/-! ### What is put into a list

If the list ends in front of the place, it is put at the end. -/

lemma take_insert (cs ds : List α) (i : ℕ) :
    (cs.take i ++ ds ++ cs.drop i).take (i + ds.length) = cs.take i ++ ds := by
  rcases le_total i cs.length with h | h
  · exact List.take_left' (by simp [h])
  · rw [List.drop_of_length_le h, List.append_nil, List.take_of_length_le]
    simp only [List.length_append, List.length_take]
    omega

lemma drop_insert (cs ds : List α) (i : ℕ) :
    (cs.take i ++ ds ++ cs.drop i).drop (i + ds.length) = cs.drop i := by
  rcases le_total i cs.length with h | h
  · exact List.drop_left' (by simp [h])
  · rw [List.drop_of_length_le h, List.append_nil, List.drop_of_length_le]
    simp only [List.length_append, List.length_take]
    omega

section Words

variable (space : α → Prop) [DecidablePred space]

/-- Step over a run of white space and then over a run of other symbols. -/
def forwardWord (b : TextBuffer α) : TextBuffer α :=
  (b.skipForward space).skipForward fun c => ¬ space c

/-- Step back over a run of white space and then over a run of other symbols. -/
def backwardWord (b : TextBuffer α) : TextBuffer α :=
  (b.skipBackward space).skipBackward fun c => ¬ space c

end Words

/-- Go to the next occurrence of `a` at or after the cursor, or to the end. -/
def toNext [DecidableEq α] (b : TextBuffer α) (a : α) : TextBuffer α := b.skipForward (· ≠ a)

/-- Go back behind the last occurrence of `a` in front of the cursor, or to the start. -/
def toPrevious [DecidableEq α] (b : TextBuffer α) (a : α) : TextBuffer α := b.skipBackward (· ≠ a)

lemma before_skipBackward (b : TextBuffer α) (p : α → Prop) [DecidablePred p] :
    (b.skipBackward p).before = b.before.rdropWhile p := by
  have hsplit : b.before.rdropWhile p ++ b.before.rtakeWhile p = b.before :=
    List.rdropWhile_append_rtakeWhile
  have hlen := congrArg List.length hsplit
  rw [List.length_append, length_before] at hlen
  have hcursor : b.cursor - (b.before.rtakeWhile p).length = (b.before.rdropWhile p).length := by
    omega
  have hprefix : b.before.rdropWhile p <+: b.chars :=
    (List.rdropWhile_prefix _ _).trans (List.take_prefix _ _)
  exact (congrArg b.chars.take hcursor).trans (List.prefix_iff_eq_take.mp hprefix).symm

section Previous

variable [DecidableEq α] {b : TextBuffer α} {a : α}

/-- Going back does not go forth. -/
lemma cursor_toPrevious_le : (b.toPrevious a).cursor ≤ b.cursor := Nat.sub_le _ _

lemma cursor_toPrevious_of_notMem (h : a ∉ b.before) : (b.toPrevious a).cursor = 0 := by
  have hall : ∀ x ∈ b.before, x ≠ a := fun x hx hxa => h (hxa ▸ hx)
  have hbefore := before_skipBackward b (· ≠ a)
  rw [List.rdropWhile_eq_nil_iff.mpr (by simpa using hall)] at hbefore
  exact (length_before _).symm.trans (congrArg List.length hbefore)

lemma getLast?_before_toPrevious (h : a ∈ b.before) :
    (b.toPrevious a).before.getLast? = some a := by
  have hbefore : (b.toPrevious a).before = b.before.rdropWhile (· ≠ a) :=
    before_skipBackward b (· ≠ a)
  have hne : b.before.rdropWhile (· ≠ a) ≠ [] := by
    intro hnil
    simpa using List.rdropWhile_eq_nil_iff.mp hnil a h
  have hlast := List.rdropWhile_last_not _ _ hne
  rw [hbefore, List.getLast?_eq_some_getLast hne]
  simpa using hlast

end Previous

/-! ### Steps of the runs -/

section Runs

variable (p : α → Prop) [DecidablePred p]

/-- The run that starts at `i` ends there or goes on from `i + 1`. -/
lemma takeWhile_drop (cs : List α) {i : ℕ} (h : i < cs.length) :
    ((cs.drop i).takeWhile p).length =
      if p cs[i] then ((cs.drop (i + 1)).takeWhile p).length + 1 else 0 := by
  rw [List.drop_eq_getElem_cons h, List.takeWhile_cons]
  by_cases hp : p cs[i] <;> simp [hp]

/-- The run that ends before `i + 1` is empty or goes on before `i`. -/
lemma rtakeWhile_take (cs : List α) {i : ℕ} (h : i < cs.length) :
    ((cs.take (i + 1)).rtakeWhile p).length =
      if p cs[i] then ((cs.take i).rtakeWhile p).length + 1 else 0 := by
  rw [← List.take_append_getElem h, List.rtakeWhile_concat]
  by_cases hp : p cs[i] <;> simp [hp]

end Runs

end TextBuffer

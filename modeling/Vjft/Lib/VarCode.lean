import Mathlib.Data.List.Basic
import Mathlib.Order.Monotone.Basic
import Mathlib.Tactic.Common

/-!
# Variable-length codes

A code assigns a non-empty word over `α` to every symbol of `γ`. A list of symbols is encoded by
concatenation, and its `i`-th boundary is the length of the encoding of its first `i` symbols.

The results relate positions in the encoded text to indices into the list of symbols: boundaries
are strictly increasing, and cutting the text at a boundary cuts the list at its index.
-/

/-- A code with non-empty words. -/
structure VarCode (γ α : Type*) where
  word : γ → List α
  word_ne_nil : ∀ c, word c ≠ []

namespace VarCode

variable {γ α : Type*} (K : VarCode γ α)

/-- The concatenation of the code words. -/
def encode (cs : List γ) : List α := cs.flatMap K.word

/-- The position in the encoded text at which symbol `i` starts. -/
def offset (cs : List γ) (i : ℕ) : ℕ := (K.encode (cs.take i)).length

@[simp] lemma encode_nil : K.encode [] = [] := rfl

@[simp] lemma encode_cons (c : γ) (cs : List γ) : K.encode (c :: cs) = K.word c ++ K.encode cs := by
  simp [encode]

lemma encode_singleton (c : γ) : K.encode [c] = K.word c := List.flatMap_singleton ..

@[simp] lemma encode_append (cs ds : List γ) :
    K.encode (cs ++ ds) = K.encode cs ++ K.encode ds := by
  simp [encode]

lemma word_length_pos (c : γ) : 0 < (K.word c).length :=
  List.length_pos_iff.mpr (K.word_ne_nil c)

@[simp] lemma encode_eq_nil_iff (cs : List γ) : K.encode cs = [] ↔ cs = [] := by
  cases cs with
  | nil => simp
  | cons c cs => simp [K.word_ne_nil c]

lemma length_le_encode (cs : List γ) : cs.length ≤ (K.encode cs).length := by
  induction cs with
  | nil => simp
  | cons c cs ih =>
    have hc := K.word_length_pos c
    simp only [encode_cons, List.length_append, List.length_cons]
    omega

/-! ### Boundaries -/

@[simp] lemma offset_zero (cs : List γ) : K.offset cs 0 = 0 := by simp [offset]

lemma offset_of_length_le {cs : List γ} {i : ℕ} (h : cs.length ≤ i) :
    K.offset cs i = (K.encode cs).length := by
  rw [offset, List.take_of_length_le h]

@[simp] lemma offset_length (cs : List γ) : K.offset cs cs.length = (K.encode cs).length :=
  K.offset_of_length_le le_rfl

lemma offset_succ {cs : List γ} {i : ℕ} (h : i < cs.length) :
    K.offset cs (i + 1) = K.offset cs i + (K.word cs[i]).length := by
  have ht : cs.take (i + 1) = cs.take i ++ [cs[i]] := (List.take_append_getElem h).symm
  rw [offset, ht, encode_append, List.length_append, offset]
  simp

lemma encode_eq_take_append_drop (cs : List γ) (i : ℕ) :
    K.encode cs = K.encode (cs.take i) ++ K.encode (cs.drop i) := by
  rw [← encode_append, List.take_append_drop]

lemma offset_le (cs : List γ) (i : ℕ) : K.offset cs i ≤ (K.encode cs).length := by
  conv_rhs => rw [K.encode_eq_take_append_drop cs i]
  simp [offset]

lemma take_offset (cs : List γ) (i : ℕ) :
    (K.encode cs).take (K.offset cs i) = K.encode (cs.take i) := by
  conv_lhs => rw [K.encode_eq_take_append_drop cs i]
  simp [offset]

lemma drop_offset (cs : List γ) (i : ℕ) :
    (K.encode cs).drop (K.offset cs i) = K.encode (cs.drop i) := by
  conv_lhs => rw [K.encode_eq_take_append_drop cs i]
  simp [offset]

/-- Boundaries of the rest of a list, counted from the boundary where the rest starts. -/
lemma offset_add_offset_drop (cs : List γ) (i j : ℕ) :
    K.offset cs i + K.offset (cs.drop i) j = K.offset cs (i + j) := by
  rw [offset, offset, offset, List.take_add, encode_append, List.length_append]

/-- What stands between two boundaries. -/
lemma take_drop_offset (cs : List γ) {i j : ℕ} (h : i ≤ j) :
    ((K.encode cs).drop (K.offset cs i)).take (K.offset cs j - K.offset cs i) =
      K.encode ((cs.drop i).take (j - i)) := by
  have hj : K.offset cs j - K.offset cs i = K.offset (cs.drop i) (j - i) := by
    have hadd := K.offset_add_offset_drop cs i (j - i)
    rw [Nat.add_sub_cancel' h] at hadd
    omega
  rw [drop_offset, hj, take_offset]

lemma le_offset {cs : List γ} {i : ℕ} (h : i ≤ cs.length) : i ≤ K.offset cs i := by
  calc i = (cs.take i).length := by simp [h]
    _ ≤ K.offset cs i := K.length_le_encode _

lemma offset_lt_succ {cs : List γ} {i : ℕ} (h : i < cs.length) :
    K.offset cs i < K.offset cs (i + 1) := by
  have hc := K.word_length_pos cs[i]
  rw [K.offset_succ h]
  omega

lemma offset_mono (cs : List γ) : Monotone (K.offset cs) := by
  apply monotone_nat_of_le_succ
  intro i
  rcases lt_or_ge i cs.length with h | h
  · exact (K.offset_lt_succ h).le
  · rw [K.offset_of_length_le h, K.offset_of_length_le (by omega)]

lemma offset_lt {cs : List γ} {i j : ℕ} (hij : i < j) (hi : i < cs.length) :
    K.offset cs i < K.offset cs j :=
  (K.offset_lt_succ hi).trans_le (K.offset_mono cs hij)

lemma offset_lt_length {cs : List γ} {i : ℕ} (h : i < cs.length) :
    K.offset cs i < (K.encode cs).length := by
  simpa using K.offset_lt h h

/-- The letters of symbol `i` stand from its boundary on. -/
lemma getElem?_offset_add {cs : List γ} {i : ℕ} (h : i < cs.length) {j : ℕ}
    (hj : j < (K.word cs[i]).length) :
    (K.encode cs)[K.offset cs i + j]? = (K.word cs[i])[j]? := by
  rw [← List.getElem?_drop, K.drop_offset, List.drop_eq_getElem_cons h, encode_cons,
    List.getElem?_append_left hj]

/-- Every letter stands in one of the code words. -/
lemma exists_eq_offset_add {cs : List γ} {n : ℕ} (h : n < (K.encode cs).length) :
    ∃ i, ∃ hi : i < cs.length, ∃ j < (K.word cs[i]).length, n = K.offset cs i + j := by
  induction cs generalizing n with
  | nil => exact absurd h (Nat.not_lt_zero n)
  | cons c cs ih =>
    rcases lt_or_ge n (K.word c).length with hn | hn
    · exact ⟨0, Nat.succ_pos _, n, hn, (Nat.zero_add n).symm⟩
    · rw [encode_cons, List.length_append] at h
      obtain ⟨i, hi, j, hj, hn'⟩ := ih (n := n - (K.word c).length) (by omega)
      refine ⟨i + 1, Nat.succ_lt_succ hi, j, hj, ?_⟩
      rw [offset, List.take_succ_cons, encode_cons, List.length_append, ← offset]
      omega

/-! ### Codes in which no word begins another -/

/-- No code word is a proper or improper beginning of another one. -/
def IsPrefixFree : Prop :=
  ∀ c d xs ys, K.word c ++ xs = K.word d ++ ys → c = d

variable {K}

/-- A text that begins another one encodes the beginning of its symbols. -/
lemma IsPrefixFree.isPrefix (h : K.IsPrefixFree) {cs ds : List γ}
    (hp : K.encode ds <+: K.encode cs) : ds <+: cs := by
  induction ds generalizing cs with
  | nil => exact List.nil_prefix
  | cons d ds ih =>
    obtain ⟨rest, hrest⟩ := hp
    rw [encode_cons, List.append_assoc] at hrest
    cases cs with
    | nil => exact absurd (List.append_eq_nil_iff.mp hrest).1 (K.word_ne_nil d)
    | cons c cs =>
      rw [encode_cons] at hrest
      obtain rfl := h d c _ _ hrest
      have hds := ih ⟨rest, List.append_cancel_left hrest⟩
      exact (List.prefix_cons_inj d).mpr hds

/-- A text can be cut at its boundaries only. -/
lemma IsPrefixFree.exists_take_eq_iff (h : K.IsPrefixFree) {cs : List γ} {n : ℕ}
    (hn : n ≤ (K.encode cs).length) :
    (∃ ds, (K.encode cs).take n = K.encode ds) ↔ ∃ i ≤ cs.length, K.offset cs i = n := by
  constructor
  · rintro ⟨ds, hds⟩
    have hp : ds <+: cs := h.isPrefix (hds ▸ List.take_prefix n _)
    refine ⟨ds.length, hp.length_le, ?_⟩
    rw [offset, ← List.prefix_iff_eq_take.mp hp, ← hds, List.length_take_of_le hn]
  · rintro ⟨i, -, rfl⟩
    exact ⟨_, K.take_offset cs i⟩

end VarCode

import Mathlib.Algebra.Order.Group.Nat
import Mathlib.Data.List.Basic
import Mathlib.Data.Nat.Init

/-!
# Lists in pieces of one size

`chunksOf n l` cuts a list into pieces of `n` entries, the last of which may be shorter. Padding the
pieces to the full size appends to the whole list what the last one lacks.
-/

namespace Chunks

variable {α : Type*}

/-- The pieces of `n` entries of a list. -/
def chunksOf (n : ℕ) (l : List α) : List (List α) := go l.length l
where
  go : ℕ → List α → List (List α)
  | 0, _ => []
  | k + 1, l => if l.isEmpty then [] else l.take n :: go k (l.drop n)

/-- The number of entries that a list of `m` entries lacks to a multiple of `n`. -/
def lack (n m : ℕ) : ℕ := (n - m % n) % n

lemma lack_eq_zero_iff {n m : ℕ} (hn : 0 < n) : lack n m = 0 ↔ n ∣ m := by
  have hm := Nat.mod_lt m hn
  rw [lack, Nat.dvd_iff_mod_eq_zero]
  rcases Nat.eq_zero_or_pos (m % n) with h | h
  · simp [h]
  · rw [Nat.mod_eq_of_lt (by omega)]
    omega

/-! ### The pieces of a list -/

@[simp] lemma chunksOf_nil (n : ℕ) : chunksOf n ([] : List α) = [] := rfl

lemma chunksOf.go_congr {n : ℕ} (hn : 0 < n) {k k' : ℕ} {l : List α} (h : l.length ≤ k)
    (h' : l.length ≤ k') : go n k l = go n k' l := by
  induction k generalizing k' l with
  | zero =>
    obtain rfl := List.length_eq_zero_iff.1 (Nat.le_zero.1 h)
    cases k' <;> rfl
  | succ k ih =>
    cases k' with
    | zero =>
      obtain rfl := List.length_eq_zero_iff.1 (Nat.le_zero.1 h')
      rfl
    | succ k' =>
      have hk : (l.drop n).length ≤ k := by rw [List.length_drop]; omega
      have hk' : (l.drop n).length ≤ k' := by rw [List.length_drop]; omega
      rw [go, go, ih hk hk']

/-- The first piece and the pieces of the rest. -/
lemma chunksOf_eq_cons {n : ℕ} (hn : 0 < n) {l : List α} (hl : l ≠ []) :
    chunksOf n l = l.take n :: chunksOf n (l.drop n) := by
  obtain ⟨a, l, rfl⟩ := List.exists_cons_of_ne_nil hl
  have hlen : ((a :: l).drop n).length ≤ l.length := by
    rw [List.length_drop, List.length_cons]
    omega
  rw [chunksOf, List.length_cons, chunksOf.go, chunksOf.go_congr hn hlen le_rfl]
  rfl

/-- Induction along the pieces: drop the first one. -/
lemma dropInduction {n : ℕ} (hn : 0 < n) {motive : List α → Prop} (nil : motive [])
    (step : ∀ l, l ≠ [] → motive (l.drop n) → motive l) (l : List α) : motive l := by
  induction hk : l.length using Nat.strong_induction_on generalizing l with
  | _ k ih =>
    by_cases hl : l = []
    · exact hl ▸ nil
    · have hpos := List.length_pos_iff.2 hl
      exact step l hl (ih _ (by rw [List.length_drop]; omega) _ rfl)

variable {n : ℕ}

lemma flatten_chunksOf (hn : 0 < n) (l : List α) : (chunksOf n l).flatten = l := by
  induction l using dropInduction hn with
  | nil => rfl
  | step l hl ih => rw [chunksOf_eq_cons hn hl, List.flatten_cons, ih, List.take_append_drop]

lemma length_le_of_mem_chunksOf (hn : 0 < n) {l c : List α} (hc : c ∈ chunksOf n l) :
    c.length ≤ n := by
  induction l using dropInduction hn with
  | nil => simp at hc
  | step l hl ih =>
    rw [chunksOf_eq_cons hn hl, List.mem_cons] at hc
    rcases hc with rfl | hc
    · exact List.length_take_le _ _
    · exact ih hc

lemma length_chunksOf (hn : 0 < n) (l : List α) :
    (chunksOf n l).length = if l.length % n ≠ 0 then l.length / n + 1 else l.length / n := by
  induction l using dropInduction hn with
  | nil => simp
  | step l hl ih =>
    have hpos := List.length_pos_iff.2 hl
    rw [chunksOf_eq_cons hn hl, List.length_cons, ih, List.length_drop]
    rcases Nat.lt_or_ge l.length n with h | h
    · rw [Nat.sub_eq_zero_of_le h.le, Nat.mod_eq_of_lt h, Nat.div_eq_of_lt h]
      simp [hpos.ne']
    · rw [Nat.mod_eq_sub_mod h, Nat.div_eq_sub_div hn h]
      split_ifs <;> rfl

/-- All pieces are full when the size divides the length. -/
lemma forall_length_eq_iff (hn : 0 < n) (l : List α) :
    (∀ c ∈ chunksOf n l, c.length = n) ↔ n ∣ l.length := by
  induction l using dropInduction hn with
  | nil => simp
  | step l hl ih =>
    have hpos := List.length_pos_iff.2 hl
    rw [chunksOf_eq_cons hn hl, List.forall_mem_cons, ih, List.length_take, List.length_drop]
    constructor
    · rintro ⟨hle, hdvd⟩
      rw [← Nat.sub_add_cancel (show n ≤ l.length by omega)]
      exact Nat.dvd_add hdvd (Nat.dvd_refl n)
    · intro hdvd
      exact ⟨min_eq_left (Nat.le_of_dvd hpos hdvd), Nat.dvd_sub hdvd (Nat.dvd_refl n)⟩

/-! ### Padding -/

lemma length_rightpad_of_le {l : List α} (a : α) (h : l.length ≤ n) :
    (l.rightpad n a).length = n := by
  rw [List.length_rightpad, max_eq_left h]

lemma rightpad_of_length_eq {l : List α} (a : α) (h : l.length = n) : l.rightpad n a = l := by
  simp [List.rightpad, h]

lemma take_rightpad {l : List α} (a : α) {m : ℕ} (h : l.length ≤ n) (hm : l.length ≤ m) :
    ((l.rightpad m a).rightpad n a).take n = l.rightpad n a := by
  rw [List.rightpad, List.rightpad, List.rightpad, List.append_assoc, ← List.replicate_add,
    List.take_append, List.take_of_length_le h, List.take_replicate]
  simp only [List.length_append, List.length_replicate]
  congr 2
  omega

/-- The last piece, made full, has at its end what the list lacks. -/
lemma flatten_map_rightpad_chunksOf (hn : 0 < n) (a : α) (l : List α) :
    ((chunksOf n l).map (List.rightpad n a)).flatten = l ++ List.replicate (lack n l.length) a := by
  induction l using dropInduction hn with
  | nil => simp [lack]
  | step l hl ih =>
    have hpos := List.length_pos_iff.2 hl
    rw [chunksOf_eq_cons hn hl, List.map_cons, List.flatten_cons, ih, List.length_drop]
    rcases Nat.lt_or_ge l.length n with h | h
    · have hlack : lack n l.length = n - l.length := by
        rw [lack, Nat.mod_eq_of_lt h, Nat.mod_eq_of_lt (by omega)]
      rw [hlack, List.take_of_length_le h.le, List.drop_of_length_le h.le,
        Nat.sub_eq_zero_of_le h.le]
      simp [lack, List.rightpad]
    · rw [rightpad_of_length_eq a (by simp [h]), ← List.append_assoc, List.take_append_drop,
        lack, lack, ← Nat.mod_eq_sub_mod h]

end Chunks

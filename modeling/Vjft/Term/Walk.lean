import Vjft.Memory
import Vjft.Term.Utf8
import Mathlib.Data.List.GetD

/-!
# UTF-8 strings in memory (`term/utf8.c`)

The functions of `Vjft.Term.Utf8` that walk over a string, here over a block of memory with any
bytes: they go on by the length that a byte announces, and never look at the bytes in between. A
read outside of the block stops the model.
-/

namespace Vjft.Term

/-- A string as it stands in memory. -/
def CStr.toMemory (str : CStr) : Bytes := str ++ [0]

namespace InMemory

/-- Every round advances `pos`, so that it is outside of the block after a round per byte. -/
def utf8Strlen (str : Bytes) : Except Stop ℕ := loop str.length 0 0
where
  loop : ℕ → ℕ → ℕ → Except Stop ℕ
  | 0, _, _ => .error .outOfBounds
  | n + 1, pos, length => do
    let b ← readByte str pos
    if b = 0 then pure length else loop n (pos + utf8CharLength b) (length + 1)

def utf8ByteOffset (str : Bytes) (cursorPos : ℤ) : Except Stop ℕ := loop cursorPos.toNat 0
where
  loop : ℕ → ℕ → Except Stop ℕ
  | 0, byteOffset => pure byteOffset
  | n + 1, byteOffset => do
    let b ← readByte str byteOffset
    if b = 0 then pure byteOffset else loop n (byteOffset + utf8CharLength b)

def utf8CharIndex (str : Bytes) (byteOffset : ℤ) : Except Stop ℕ := loop byteOffset.toNat 0 0
where
  loop : ℕ → ℕ → ℕ → Except Stop ℕ
  | 0, _, charIndex => pure charIndex
  | n + 1, currentOffset, charIndex =>
    if (currentOffset : ℤ) < byteOffset then do
      let b ← readByte str currentOffset
      if b ≠ 0 then loop n (currentOffset + utf8CharLength b) (charIndex + 1) else pure charIndex
    else pure charIndex

end InMemory

/-! ### Texts whose characters are complete -/

/-- The bytes behind a character that still lacks `k` of its bytes: it gets them, and every
character that follows has all the bytes that its first byte announces. -/
def Completes : ℕ → CStr → Prop
  | k, [] => k = 0
  | 0, b :: str => Completes (utf8CharLength b - 1) str
  | k + 1, _ :: str => Completes k str

instance instDecidableCompletes : ∀ (k : ℕ) (str : CStr), Decidable (Completes k str)
  | k, [] => inferInstanceAs (Decidable (k = 0))
  | 0, b :: str => instDecidableCompletes (utf8CharLength b - 1) str
  | k + 1, _ :: str => instDecidableCompletes k str

lemma completes_iff {k : ℕ} {str : CStr} :
    Completes k str ↔ k ≤ str.length ∧ Completes 0 (str.drop k) := by
  induction k generalizing str with
  | zero => simp
  | succ k ih =>
    cases str with
    | nil => simp [Completes]
    | cons b str =>
      rw [Completes, ih, List.length_cons, List.drop_succ_cons]
      apply and_congr_left
      intro _
      omega

/-- The character at `pos` has all its bytes, and so have those behind it. -/
lemma completes_drop_iff {str : CStr} {pos : ℕ} (h : pos < str.length) :
    Completes 0 (str.drop pos) ↔ pos + utf8CharLength (byteAt str pos) ≤ str.length ∧
      Completes 0 (str.drop (pos + utf8CharLength (byteAt str pos))) := by
  have hlen := one_le_utf8CharLength (byteAt str pos)
  have hb : byteAt str pos = str[pos] := by rw [byteAt, List.getD_eq_getElem _ _ h]
  rw [List.drop_eq_getElem_cons h, Completes, ← hb, completes_iff, List.length_drop,
    List.drop_drop]
  have hpos : pos + 1 + (utf8CharLength (byteAt str pos) - 1) =
      pos + utf8CharLength (byteAt str pos) := by omega
  rw [hpos]
  apply and_congr_left
  intro _
  omega

lemma completes_encode (cs : List CodePoint) : Completes 0 (utf8.encode cs) := by
  induction cs with
  | nil => rfl
  | cons c cs ih =>
    obtain ⟨a, t, hw, ha, -⟩ := Utf8.word_eq_cons c
    rw [utf8.encode_cons, hw, List.cons_append, Completes, utf8CharLength_of_isLead ha,
      Nat.add_sub_cancel, completes_iff, List.length_append, List.drop_left]
    exact ⟨Nat.le_add_right _ _, ih⟩

/-! ### Reading a string -/

namespace InMemory

variable {str : CStr} {pos : ℕ}

lemma readByte_toMemory (h : pos ≤ str.length) :
    readByte str.toMemory pos = .ok (byteAt str pos) := by
  rw [readByte, CStr.toMemory]
  rcases h.lt_or_eq with hlt | rfl
  · rw [List.getElem?_append_left hlt, List.getElem?_eq_getElem hlt, orStop_some, byteAt,
      List.getD_eq_getElem _ _ hlt]
  · rw [List.getElem?_concat_length, orStop_some, byteAt_of_length_le le_rfl]

lemma readByte_toMemory_of_lt (h : str.length < pos) :
    readByte str.toMemory pos = .error .outOfBounds := by
  rw [readByte, CStr.toMemory, List.getElem?_eq_none]
  · rfl
  · rw [List.length_append]
    exact h

/-- A byte other than NUL is followed by the place at which the walkers go on. -/
lemma completes_next (hstr : Completes 0 (str.drop pos))
    (hb : byteAt str pos ≠ 0) :
    pos + utf8CharLength (byteAt str pos) ≤ str.length ∧
      Completes 0 (str.drop (pos + utf8CharLength (byteAt str pos))) := by
  have hlt : pos < str.length := by
    by_contra hge
    exact hb (byteAt_of_length_le (not_lt.mp hge))
  exact (completes_drop_iff hlt).mp hstr

lemma utf8Strlen_of_completes (hstr : Completes 0 str) :
    utf8Strlen str.toMemory = .ok (Term.utf8Strlen str) := by
  have key : ∀ n m pos length, pos ≤ str.length → Completes 0 (str.drop pos) →
      str.length < pos + n → str.length ≤ pos + m →
      utf8Strlen.loop str.toMemory n pos length = .ok (Term.utf8Strlen.loop str m pos length) := by
    intro n
    induction n with
    | zero =>
      intro m pos length hpos _ hn _
      omega
    | succ n ih =>
      intro m pos length hpos hstr hn hm
      rw [utf8Strlen.loop, readByte_toMemory hpos, ok_bind]
      by_cases hb : byteAt str pos = 0
      · rw [if_pos hb]
        cases m with
        | zero => rfl
        | succ m =>
          rw [Term.utf8Strlen.loop, if_pos hb]
          rfl
      · obtain ⟨hnext, hrest⟩ := completes_next hstr hb
        have hlen := one_le_utf8CharLength (byteAt str pos)
        cases m with
        | zero => omega
        | succ m =>
          rw [if_neg hb, Term.utf8Strlen.loop, if_neg hb]
          exact ih m _ _ hnext hrest (by omega) (by omega)
  apply key _ _ 0 0 (Nat.zero_le _) hstr
  · rw [CStr.toMemory, List.length_append]
    exact Nat.lt_of_lt_of_le (Nat.lt_succ_self _) (Nat.le_add_left _ _)
  · exact Nat.le_add_left _ _

/-- The walk reads outside of a string with a character that is cut off. -/
lemma completes_of_utf8Strlen (hnul : 0 ∉ str)
    (h : utf8Strlen str.toMemory ≠ .error .outOfBounds) : Completes 0 str := by
  have key : ∀ n pos length, pos ≤ str.length →
      utf8Strlen.loop str.toMemory n pos length ≠ .error .outOfBounds →
      Completes 0 (str.drop pos) := by
    intro n
    induction n with
    | zero =>
      intro pos length _ h
      exact absurd rfl h
    | succ n ih =>
      intro pos length hpos h
      rcases hpos.lt_or_eq with hlt | rfl
      · have hb : byteAt str pos ≠ 0 := by
          rw [byteAt, List.getD_eq_getElem _ _ hlt]
          intro h0
          exact hnul (h0 ▸ List.getElem_mem hlt)
        rw [utf8Strlen.loop, readByte_toMemory hpos, ok_bind, if_neg hb] at h
        rw [completes_drop_iff hlt]
        by_cases hnext : pos + utf8CharLength (byteAt str pos) ≤ str.length
        · exact ⟨hnext, ih _ _ hnext h⟩
        · -- the next byte is read behind the terminator
          exfalso
          cases n with
          | zero => exact h rfl
          | succ n =>
            rw [utf8Strlen.loop, readByte_toMemory_of_lt (not_le.mp hnext)] at h
            exact h rfl
      · rw [List.drop_length]
        rfl
  exact key _ 0 0 (Nat.zero_le _) h

lemma utf8ByteOffset_of_completes (hstr : Completes 0 str) (cursorPos : ℤ) :
    utf8ByteOffset str.toMemory cursorPos = .ok (Term.utf8ByteOffset str cursorPos) := by
  have key : ∀ n pos, pos ≤ str.length → Completes 0 (str.drop pos) →
      utf8ByteOffset.loop str.toMemory n pos = .ok (Term.utf8ByteOffset.loop str n pos) := by
    intro n
    induction n with
    | zero =>
      intro pos _ _
      rfl
    | succ n ih =>
      intro pos hpos hstr
      rw [utf8ByteOffset.loop, readByte_toMemory hpos, ok_bind, Term.utf8ByteOffset.loop]
      split_ifs with hb
      · rfl
      · obtain ⟨hnext, hrest⟩ := completes_next hstr hb
        exact ih _ hnext hrest
  exact key _ 0 (Nat.zero_le _) hstr

lemma utf8CharIndex_of_completes (hstr : Completes 0 str) (byteOffset : ℤ) :
    utf8CharIndex str.toMemory byteOffset = .ok (Term.utf8CharIndex str byteOffset.toNat) := by
  have key : ∀ n pos charIndex, pos ≤ str.length → Completes 0 (str.drop pos) →
      utf8CharIndex.loop str.toMemory byteOffset n pos charIndex =
        .ok (Term.utf8CharIndex.loop str byteOffset.toNat n pos charIndex) := by
    intro n
    induction n with
    | zero =>
      intro pos charIndex _ _
      rfl
    | succ n ih =>
      intro pos charIndex hpos hstr
      rw [utf8CharIndex.loop, Term.utf8CharIndex.loop]
      by_cases hlt : (pos : ℤ) < byteOffset
      · rw [if_pos hlt, readByte_toMemory hpos, ok_bind]
        by_cases hb : byteAt str pos ≠ 0
        · obtain ⟨hnext, hrest⟩ := completes_next hstr hb
          rw [if_pos hb, if_pos ⟨by omega, hb⟩]
          exact ih _ _ hnext hrest
        · rw [if_neg hb, if_neg (fun h => hb h.2)]
          rfl
      · rw [if_neg hlt, if_neg (fun h => hlt (by omega))]
        rfl
  exact key _ 0 0 (Nat.zero_le _) hstr

end InMemory

end Vjft.Term

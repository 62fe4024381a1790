import Vjft.Lib.Utf8
import Mathlib.Data.Int.Basic

/-!
# UTF-8 strings in C (`term/utf8.c`)

A NUL-terminated string is the list of its bytes before the terminator, and reading at the length
of the list reads the terminator. Reading past the terminator is undefined in C; the total
functions below read a zero byte there, and no statement about well-formed text depends on it.
-/

namespace Vjft.Term

/-- The bytes of a C string before its terminator. -/
abbrev CStr := List UInt8

/-- `str[i]` -/
def byteAt (str : CStr) (i : ℕ) : UInt8 := str.getD i 0

def utf8CharLength (byte : UInt8) : ℕ :=
  if byte ≤ 0x7F then 1
  else if byte &&& 0xE0 = 0xC0 then 2
  else if byte &&& 0xF0 = 0xE0 then 3
  else if byte &&& 0xF8 = 0xF0 then 4
  else 1

/-- The loop stops at the terminator; every round advances `pos`, so a round per byte is enough. -/
def utf8Strlen (str : CStr) : ℕ := loop str.length 0 0
where
  loop : ℕ → ℕ → ℕ → ℕ
  | 0, _, length => length
  | n + 1, pos, length =>
    if byteAt str pos = 0 then length
    else loop n (pos + utf8CharLength (byteAt str pos)) (length + 1)

def utf8NextChar (str : CStr) (pos : ℕ) : ℕ :=
  if byteAt str pos = 0 then pos else pos + utf8CharLength (byteAt str pos)

def utf8PrevChar (str : CStr) (pos : ℕ) : ℕ :=
  if pos = 0 then 0 else loop pos
where
  /-- `do pos--; while (pos > 0 && (str[pos] & 0xC0) == 0x80)` -/
  loop : ℕ → ℕ
  | 0 => 0
  | pos + 1 => if 0 < pos ∧ byteAt str pos &&& 0xC0 = 0x80 then loop pos else pos

/-- A negative `cursorPos` makes no round of the loop. -/
def utf8ByteOffset (str : CStr) (cursorPos : ℤ) : ℕ := loop cursorPos.toNat 0
where
  loop : ℕ → ℕ → ℕ
  | 0, byteOffset => byteOffset
  | n + 1, byteOffset =>
    if byteAt str byteOffset = 0 then byteOffset
    else loop n (byteOffset + utf8CharLength (byteAt str byteOffset))

def utf8CharIndex (str : CStr) (byteOffset : ℕ) : ℕ := loop byteOffset 0 0
where
  loop : ℕ → ℕ → ℕ → ℕ
  | 0, _, charIndex => charIndex
  | n + 1, currentOffset, charIndex =>
    if currentOffset < byteOffset ∧ byteAt str currentOffset ≠ 0 then
      loop n (currentOffset + utf8CharLength (byteAt str currentOffset)) (charIndex + 1)
    else charIndex

/-- `isspace` in the C locale. -/
def isspace (b : UInt8) : Bool := b == 0x20 || (0x09 ≤ b && b ≤ 0x0D)

/-! ### Lead and continuation bytes -/

/-- A property of bytes that holds of the 256 values holds of every byte. -/
lemma forall_byte {P : UInt8 → Prop} (h : ∀ n < 256, P (UInt8.ofNat n)) (b : UInt8) : P b := by
  have hb := h b.toNat b.toNat_lt
  rwa [UInt8.ofNat_toNat] at hb

/-- A function that tells the length of a character by the ranges of its first byte. -/
lemma eq_of_isLead {f : UInt8 → ℕ} (key : ∀ b : UInt8,
      (b.toNat < 0x80 → f b = 1) ∧
      (0xC0 ≤ b.toNat ∧ b.toNat < 0xE0 → f b = 2) ∧
      (0xE0 ≤ b.toNat ∧ b.toNat < 0xF0 → f b = 3) ∧
      (0xF0 ≤ b.toNat ∧ b.toNat < 0xF8 → f b = 4)) {a : UInt8} {n : ℕ} (h : Utf8.IsLead a n) :
    f a = n + 1 := by
  match n, h with
  | 0, h => exact (key a).1 h
  | 1, h => exact (key a).2.1 h
  | 2, h => exact (key a).2.2.1 h
  | 3, h => exact (key a).2.2.2 h

lemma utf8CharLength_of_isLead {a : UInt8} {n : ℕ} (h : Utf8.IsLead a n) :
    utf8CharLength a = n + 1 := eq_of_isLead (forall_byte (by decide +kernel)) h

/-- The test of `utf8_prev_char` recognises exactly the continuation bytes. -/
lemma and_eq_iff_isContinuation (b : UInt8) : b &&& 0xC0 = 0x80 ↔ Utf8.IsContinuation b := by
  have key : ∀ b : UInt8, b &&& 0xC0 = 0x80 ↔ 0x80 ≤ b.toNat ∧ b.toNat < 0xC0 :=
    forall_byte (by decide +kernel)
  exact key b

lemma isspace_iff (b : UInt8) :
    isspace b = true ↔ b.toNat = 0x20 ∨ (0x09 ≤ b.toNat ∧ b.toNat ≤ 0x0D) := by
  revert b
  exact forall_byte (by decide +kernel)

/-! ### Well-formed text -/

section Encoded

variable (cs : List CodePoint)

lemma byteAt_of_length_le {str : CStr} {i : ℕ} (h : str.length ≤ i) : byteAt str i = 0 := by
  rw [byteAt, List.getD_eq_getElem?_getD, List.getElem?_eq_none h, Option.getD_none]

variable {cs}

/-- Inside a code word the text holds the bytes of the word. -/
lemma byteAt_offset_add {i : ℕ} (h : i < cs.length) {j : ℕ} (hj : j < (utf8.word cs[i]).length) :
    byteAt (utf8.encode cs) (utf8.offset cs i + j) = (utf8.word cs[i])[j] := by
  rw [byteAt, List.getD_eq_getElem?_getD, utf8.getElem?_offset_add h hj,
    List.getElem?_eq_getElem hj, Option.getD_some]

lemma byteAt_offset {i : ℕ} (h : i < cs.length) :
    byteAt (utf8.encode cs) (utf8.offset cs i) =
      (utf8.word cs[i]).get ⟨0, utf8.word_length_pos _⟩ :=
  byteAt_offset_add h (utf8.word_length_pos _)

lemma byteAt_offset_ne_zero {i : ℕ} (h : i < cs.length) :
    byteAt (utf8.encode cs) (utf8.offset cs i) ≠ 0 := by
  rw [byteAt_offset h]
  exact Utf8.ne_zero_of_mem_word (List.getElem_mem _)

lemma byteAt_offset_eq_zero {i : ℕ} (h : cs.length ≤ i) :
    byteAt (utf8.encode cs) (utf8.offset cs i) = 0 := by
  rw [utf8.offset_of_length_le h]
  exact byteAt_of_length_le le_rfl

/-- At a boundary the announced length leads to the next boundary. -/
lemma offset_add_utf8CharLength {i : ℕ} (h : i < cs.length) :
    utf8.offset cs i + utf8CharLength (byteAt (utf8.encode cs) (utf8.offset cs i))
      = utf8.offset cs (i + 1) := by
  obtain ⟨a, t, hw, ha, -⟩ := Utf8.word_eq_cons cs[i]
  have hb : byteAt (utf8.encode cs) (utf8.offset cs i) = a := by
    rw [byteAt_offset h]
    simp [hw]
  rw [hb, utf8CharLength_of_isLead ha, utf8.offset_succ h, hw, List.length_cons]

@[simp] lemma utf8Strlen_nil : utf8Strlen [] = 0 := rfl

lemma utf8Strlen_encode : utf8Strlen (utf8.encode cs) = cs.length := by
  -- from boundary `i` the remaining rounds count the remaining code points
  have key : ∀ n i, i ≤ cs.length → cs.length - i ≤ n →
      utf8Strlen.loop (utf8.encode cs) n (utf8.offset cs i) i = cs.length := by
    intro n
    induction n with
    | zero =>
      intro i hi hn
      rw [utf8Strlen.loop]
      omega
    | succ n ih =>
      intro i hi hn
      rw [utf8Strlen.loop]
      rcases hi.lt_or_eq with h | rfl
      · rw [if_neg (byteAt_offset_ne_zero h), offset_add_utf8CharLength h]
        exact ih (i + 1) h (by omega)
      · rw [if_pos (byteAt_offset_eq_zero le_rfl)]
  have h := key (utf8.encode cs).length 0 (Nat.zero_le _) (by simpa using utf8.length_le_encode cs)
  simpa [utf8Strlen] using h

lemma utf8ByteOffset_encode (p : ℤ) :
    utf8ByteOffset (utf8.encode cs) p = utf8.offset cs p.toNat := by
  have key : ∀ n i, utf8ByteOffset.loop (utf8.encode cs) n (utf8.offset cs i)
      = utf8.offset cs (i + n) := by
    intro n
    induction n with
    | zero => intro i; rfl
    | succ n ih =>
      intro i
      rw [utf8ByteOffset.loop]
      rcases lt_or_ge i cs.length with h | h
      · rw [if_neg (byteAt_offset_ne_zero h), offset_add_utf8CharLength h, ih]
        congr 1
        omega
      · rw [if_pos (byteAt_offset_eq_zero h), utf8.offset_of_length_le h,
          utf8.offset_of_length_le (by omega)]
  simpa [utf8ByteOffset] using key p.toNat 0

/-- The index found for an offset is the first one whose character starts there or behind. -/
lemma utf8CharIndex_eq {b i : ℕ} (hi : i ≤ cs.length) (hlt : ∀ j < i, utf8.offset cs j < b)
    (hle : b ≤ utf8.offset cs i) : utf8CharIndex (utf8.encode cs) b = i := by
  have key : ∀ n j, j ≤ i → i - j ≤ n →
      utf8CharIndex.loop (utf8.encode cs) b n (utf8.offset cs j) j = i := by
    intro n
    induction n with
    | zero =>
      intro j hj hn
      rw [utf8CharIndex.loop]
      omega
    | succ n ih =>
      intro j hj hn
      rw [utf8CharIndex.loop]
      rcases hj.lt_or_eq with h | rfl
      · have hin : j < cs.length := h.trans_le hi
        rw [if_pos ⟨hlt j h, byteAt_offset_ne_zero hin⟩, offset_add_utf8CharLength hin]
        exact ih (j + 1) h (by omega)
      · rw [if_neg (fun h => absurd h.1 (not_lt.mpr hle))]
  have hround : i ≤ b := by
    cases i with
    | zero => exact Nat.zero_le b
    | succ i => exact (utf8.le_offset (Nat.le_of_succ_le hi)).trans_lt (hlt i (Nat.lt_succ_self i))
  have h := key b 0 (Nat.zero_le _) (by omega)
  rwa [utf8.offset_zero] at h

lemma utf8CharIndex_offset {i : ℕ} (hi : i ≤ cs.length) :
    utf8CharIndex (utf8.encode cs) (utf8.offset cs i) = i :=
  utf8CharIndex_eq hi (fun _ hj => utf8.offset_lt hj (hj.trans_le hi)) le_rfl

lemma utf8NextChar_offset {i : ℕ} (h : i < cs.length) :
    utf8NextChar (utf8.encode cs) (utf8.offset cs i) = utf8.offset cs (i + 1) := by
  rw [utf8NextChar, if_neg (byteAt_offset_ne_zero h), offset_add_utf8CharLength h]

lemma utf8PrevChar_offset_succ {i : ℕ} (h : i < cs.length) :
    utf8PrevChar (utf8.encode cs) (utf8.offset cs (i + 1)) = utf8.offset cs i := by
  obtain ⟨a, t, hw, ha, ht⟩ := Utf8.word_eq_cons cs[i]
  -- the loop runs down over the continuation bytes and stops at the lead byte
  have key : ∀ j, j ≤ t.length →
      utf8PrevChar.loop (utf8.encode cs) (utf8.offset cs i + j + 1) = utf8.offset cs i := by
    intro j
    induction j with
    | zero =>
      intro _
      have hb : byteAt (utf8.encode cs) (utf8.offset cs i) = a := by
        rw [byteAt_offset h]
        simp [hw]
      rw [utf8PrevChar.loop, if_neg]
      rintro ⟨-, hc⟩
      rw [hb, and_eq_iff_isContinuation] at hc
      exact ha.not_isContinuation hc
    | succ j ih =>
      intro hj
      have hb : byteAt (utf8.encode cs) (utf8.offset cs i + (j + 1)) = t[j] := by
        rw [byteAt_offset_add h (by simp [hw]; omega)]
        simp [hw]
      rw [utf8PrevChar.loop, if_pos]
      · exact ih (by omega)
      · refine ⟨by omega, ?_⟩
        rw [hb, and_eq_iff_isContinuation]
        exact ht _ (List.getElem_mem _)
  have hlen : utf8.offset cs (i + 1) = utf8.offset cs i + t.length + 1 := by
    rw [utf8.offset_succ h, hw, List.length_cons]
    omega
  rw [utf8PrevChar, if_neg (by omega), hlen]
  exact key t.length le_rfl

/-! ### White space and newlines -/

/-- The code points that `isspace` accepts in the C locale. -/
def IsSpace (c : CodePoint) : Prop := c.toNat = 0x20 ∨ (0x09 ≤ c.toNat ∧ c.toNat ≤ 0x0D)

instance : DecidablePred IsSpace := fun c =>
  inferInstanceAs (Decidable (c.toNat = 0x20 ∨ (0x09 ≤ c.toNat ∧ c.toNat ≤ 0x0D)))

/-- Any byte of a code word tells whether its code point is white space. -/
lemma isspace_iff_of_mem {c : CodePoint} {b : UInt8} (hb : b ∈ utf8.word c) :
    isspace b = true ↔ IsSpace c := by
  rw [isspace_iff, IsSpace]
  rcases lt_or_ge b.toNat 0x80 with h | h
  · rw [(Utf8.word_eq_singleton_of_mem hb h).2]
  · have hc : 0x80 ≤ c.toNat := by
      by_contra hc
      rw [Utf8.word_of_lt c (by omega)] at hb
      obtain rfl := List.mem_singleton.mp hb
      simp at h
      omega
    omega

/-- The newline. -/
def newline : CodePoint := ⟨'\n', by decide⟩

lemma eq_ten_iff_of_mem {c : CodePoint} {b : UInt8} (hb : b ∈ utf8.word c) :
    b = 0x0A ↔ c = newline := by
  constructor
  · rintro rfl
    exact CodePoint.ext (Utf8.word_eq_singleton_of_mem hb (by decide)).2
  · rintro rfl
    rw [Utf8.word_of_lt newline (by decide)] at hb
    exact List.mem_singleton.mp hb

lemma isspace_byteAt_offset {i : ℕ} (h : i < cs.length) :
    isspace (byteAt (utf8.encode cs) (utf8.offset cs i)) = true ↔ IsSpace cs[i] := by
  rw [byteAt_offset h]
  exact isspace_iff_of_mem (List.getElem_mem _)

/-- The byte before a boundary tells whether the code point before it is white space. -/
lemma isspace_byteAt_pred_offset {i : ℕ} (h : i < cs.length) :
    isspace (byteAt (utf8.encode cs) (utf8.offset cs (i + 1) - 1)) = true ↔ IsSpace cs[i] := by
  have hlen := utf8.word_length_pos cs[i]
  have hpos : utf8.offset cs (i + 1) - 1 = utf8.offset cs i + ((utf8.word cs[i]).length - 1) := by
    rw [utf8.offset_succ h]
    omega
  rw [hpos, byteAt_offset_add h (by omega)]
  exact isspace_iff_of_mem (List.getElem_mem _)

lemma byteAt_offset_eq_ten {i : ℕ} (h : i < cs.length) :
    byteAt (utf8.encode cs) (utf8.offset cs i) = 0x0A ↔ cs[i] = newline := by
  rw [byteAt_offset h]
  exact eq_ten_iff_of_mem (List.getElem_mem _)

end Encoded

/-! ### Walking over any bytes -/

lemma one_le_utf8CharLength (b : UInt8) : 1 ≤ utf8CharLength b := by
  unfold utf8CharLength
  split_ifs <;> omega

namespace utf8ByteOffset

variable {str : CStr}

lemma loop_of_byteAt_eq_zero {i : ℕ} (h : byteAt str i = 0) (n : ℕ) : loop str n i = i := by
  cases n with
  | zero => rfl
  | succ n => rw [loop, if_pos h]

lemma loop_add (str : CStr) (m n i : ℕ) : loop str (m + n) i = loop str n (loop str m i) := by
  induction m generalizing i with
  | zero => rw [Nat.zero_add, loop]
  | succ m ih =>
    rw [Nat.add_right_comm, loop, loop]
    split_ifs with h
    · rw [loop_of_byteAt_eq_zero h]
    · exact ih _

lemma le_loop (str : CStr) (n i : ℕ) : i ≤ loop str n i := by
  induction n generalizing i with
  | zero => exact le_rfl
  | succ n ih =>
    rw [loop]
    split_ifs with h
    · exact le_rfl
    · exact (Nat.le_add_right _ _).trans (ih _)

/-- A walk depends on the bytes before its end only: over another text with the same bytes it gets
to the same place, in as many steps unless it had been stopped there by a NUL. -/
lemma exists_loop_eq {str' : CStr} (n i : ℕ)
    (h : ∀ x < loop str n i, byteAt str' x = byteAt str x) :
    ∃ j ≤ n, loop str' j i = loop str n i ∧ (j = n ∨ byteAt str (loop str n i) = 0) := by
  induction n generalizing i with
  | zero => exact ⟨0, le_rfl, rfl, .inl rfl⟩
  | succ n ih =>
    rw [loop] at h ⊢
    split_ifs at h ⊢ with hb
    · exact ⟨0, Nat.zero_le _, rfl, .inr hb⟩
    · obtain ⟨j, hj, hloop, hend⟩ := ih _ h
      have hlt : i < loop str n (i + utf8CharLength (byteAt str i)) :=
        (Nat.lt_add_of_pos_right (one_le_utf8CharLength _)).trans_le (le_loop _ _ _)
      refine ⟨j + 1, by omega, ?_, hend.imp (congrArg (· + 1)) id⟩
      rw [loop, h i hlt, if_neg hb, hloop]

/-- The walk over well-formed characters in the middle of a text. -/
lemma loop_encode (pre post : CStr) (ds : List CodePoint) {j : ℕ} (hj : j ≤ ds.length) :
    loop (pre ++ utf8.encode ds ++ post) j pre.length = pre.length + utf8.offset ds j := by
  induction j with
  | zero => simp [loop]
  | succ j ih =>
    have hlt : j < ds.length := hj
    have hin := utf8.offset_lt_length hlt
    have hb : byteAt (pre ++ utf8.encode ds ++ post) (pre.length + utf8.offset ds j) =
        byteAt (utf8.encode ds) (utf8.offset ds j) := by
      rw [byteAt, byteAt, List.getD_eq_getElem?_getD, List.getD_eq_getElem?_getD,
        List.append_assoc, List.getElem?_append_right (by omega), Nat.add_sub_cancel_left,
        List.getElem?_append_left hin]
    rw [loop_add, ih hlt.le, loop, loop, hb, if_neg (byteAt_offset_ne_zero hlt), Nat.add_assoc,
      offset_add_utf8CharLength hlt]

end utf8ByteOffset

lemma utf8Strlen.le_loop (str : CStr) (r i len : ℕ) : len ≤ utf8Strlen.loop str r i len := by
  induction r generalizing i len with
  | zero => exact le_rfl
  | succ r ih =>
    rw [utf8Strlen.loop]
    split_ifs
    · exact le_rfl
    · exact (Nat.le_succ _).trans (ih _ _)

/-- The number of characters is the number of steps that meet no NUL. -/
lemma byteAt_loop_ne_zero_iff {str : CStr} (n : ℕ) :
    byteAt str (utf8ByteOffset.loop str n 0) ≠ 0 ↔ n < utf8Strlen str := by
  -- from any position on, as long as there are rounds left for the bytes that follow
  have key : ∀ r i len, str.length ≤ i + r → ∀ n,
      byteAt str (utf8ByteOffset.loop str n i) ≠ 0 ↔
        n + len < utf8Strlen.loop str r i len := by
    intro r
    induction r with
    | zero =>
      intro i len hr n
      have hz : byteAt str i = 0 := byteAt_of_length_le hr
      rw [utf8ByteOffset.loop_of_byteAt_eq_zero hz, utf8Strlen.loop]
      simp [hz]
    | succ r ih =>
      intro i len hr n
      rw [utf8Strlen.loop]
      split_ifs with hb
      · rw [utf8ByteOffset.loop_of_byteAt_eq_zero hb]
        simp [hb]
      · have hlen := one_le_utf8CharLength (byteAt str i)
        cases n with
        | zero =>
          have h' := utf8Strlen.le_loop str r (i + utf8CharLength (byteAt str i)) (len + 1)
          simp only [utf8ByteOffset.loop, ne_eq, hb, not_false_eq_true, true_iff]
          omega
        | succ n =>
          rw [utf8ByteOffset.loop, if_neg hb, ih _ (len + 1) (by omega)]
          omega
  simpa [utf8Strlen] using key str.length 0 0 (by simp) n

end Vjft.Term

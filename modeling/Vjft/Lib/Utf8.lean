import Vjft.Lib.VarCode
import Mathlib.Data.List.Basic
import Mathlib.Data.List.GetD

/-!
# UTF-8 as a variable-length code

The code points that may stand in a NUL-terminated string are the Unicode scalar values other than
`U+0000`. Their UTF-8 code words consist of a lead byte, whose range announces the length of the
word, and of continuation bytes.
-/

/-- A Unicode scalar value other than NUL. -/
def CodePoint : Type := {c : Char // c.toNat ≠ 0}

instance : DecidableEq CodePoint := inferInstanceAs (DecidableEq {c : Char // c.toNat ≠ 0})

/-- The code point of a character; the replacement character stands for NUL. -/
def CodePoint.ofChar (c : Char) : CodePoint :=
  if h : c.toNat ≠ 0 then ⟨c, h⟩ else ⟨'\uFFFD', by decide⟩

/-- The scalar value as a number. -/
def CodePoint.toNat (c : CodePoint) : ℕ := c.1.toNat

/-- The scalar value as a word of the machine. -/
def CodePoint.val (c : CodePoint) : UInt32 := c.1.val

@[simp] lemma CodePoint.toNat_val (c : CodePoint) : c.val.toNat = c.toNat := rfl

lemma CodePoint.toNat_ne_zero (c : CodePoint) : c.toNat ≠ 0 := c.2

lemma CodePoint.toNat_lt (c : CodePoint) : c.toNat < 0x110000 := by
  have h := c.1.valid
  simp only [UInt32.isValidChar, Nat.isValidChar] at h
  simp only [CodePoint.toNat, Char.toNat]
  omega

lemma CodePoint.val_ne_zero (c : CodePoint) : c.val ≠ 0 := by
  intro h
  exact c.toNat_ne_zero (congrArg UInt32.toNat h)

@[ext] lemma CodePoint.ext {c d : CodePoint} (h : c.toNat = d.toNat) : c = d :=
  Subtype.ext (Char.ext (UInt32.toNat_inj.mp h))

/-- The UTF-8 code. -/
def utf8 : VarCode CodePoint UInt8 where
  word c := String.utf8EncodeChar c.1
  word_ne_nil _ := String.utf8EncodeChar_ne_nil

namespace Utf8

/-- The bytes that only continue a code word. -/
def IsContinuation (b : UInt8) : Prop := 0x80 ≤ b.toNat ∧ b.toNat < 0xC0

/-- The lead byte of a code word with `n` continuation bytes. -/
def IsLead (a : UInt8) : ℕ → Prop
  | 0 => a.toNat < 0x80
  | 1 => 0xC0 ≤ a.toNat ∧ a.toNat < 0xE0
  | 2 => 0xE0 ≤ a.toNat ∧ a.toNat < 0xF0
  | 3 => 0xF0 ≤ a.toNat ∧ a.toNat < 0xF8
  | _ => False

private lemma toNat_ofNat_lt {n : ℕ} (h : n < 256) : (UInt8.ofNat n).toNat = n := by
  simp [Nat.mod_eq_of_lt h]

/-- A code word is a lead byte and the continuation bytes it announces. -/
lemma word_eq_cons (c : CodePoint) :
    ∃ a t, utf8.word c = a :: t ∧ IsLead a t.length ∧ ∀ b ∈ t, IsContinuation b := by
  have hlt := c.toNat_lt
  change ∃ a t, String.utf8EncodeChar c.1 = a :: t ∧ _
  have hv : c.1.val.toNat = c.toNat := rfl
  unfold String.utf8EncodeChar
  simp only [hv]
  split_ifs with h1 h2 h3
  · refine ⟨_, _, rfl, ?_, by simp⟩
    change (UInt8.ofNat c.toNat).toNat < 0x80
    rw [toNat_ofNat_lt (by omega)]
    omega
  · refine ⟨_, _, rfl, ?_, ?_⟩
    · change 0xC0 ≤ UInt8.toNat _ ∧ UInt8.toNat _ < 0xE0
      rw [toNat_ofNat_lt (by omega)]
      omega
    · simp only [List.mem_cons, List.not_mem_nil, or_false, forall_eq, IsContinuation]
      rw [toNat_ofNat_lt (by omega)]
      omega
  · refine ⟨_, _, rfl, ?_, ?_⟩
    · change 0xE0 ≤ UInt8.toNat _ ∧ UInt8.toNat _ < 0xF0
      rw [toNat_ofNat_lt (by omega)]
      omega
    · simp only [List.mem_cons, List.not_mem_nil, or_false, forall_eq_or_imp, forall_eq,
        IsContinuation]
      rw [toNat_ofNat_lt (by omega), toNat_ofNat_lt (by omega)]
      omega
  · refine ⟨_, _, rfl, ?_, ?_⟩
    · change 0xF0 ≤ UInt8.toNat _ ∧ UInt8.toNat _ < 0xF8
      rw [toNat_ofNat_lt (by omega)]
      omega
    · simp only [List.mem_cons, List.not_mem_nil, or_false, forall_eq_or_imp, forall_eq,
        IsContinuation]
      rw [toNat_ofNat_lt (by omega), toNat_ofNat_lt (by omega), toNat_ofNat_lt (by omega)]
      omega

/-- A code point below `U+0080` is its own code word. -/
lemma word_of_lt (c : CodePoint) (h : c.toNat < 0x80) : utf8.word c = [UInt8.ofNat c.toNat] := by
  have hv : c.1.val.toNat = c.toNat := rfl
  change String.utf8EncodeChar c.1 = _
  unfold String.utf8EncodeChar
  simp only [hv]
  rw [if_pos (by omega)]

/-- The bytes of a code point from `U+0080` on are all at least `0x80`. -/
lemma le_of_mem_word {c : CodePoint} (h : 0x80 ≤ c.toNat) {b : UInt8} (hb : b ∈ utf8.word c) :
    0x80 ≤ b.toNat := by
  obtain ⟨a, t, hw, ha, ht⟩ := word_eq_cons c
  rw [hw] at hb
  rcases List.mem_cons.mp hb with rfl | hb
  · match t, ha, hw with
    | [], _, hw =>
      -- a single byte would encode a code point below `U+0080`
      have hv : c.1.val.toNat = c.toNat := rfl
      change String.utf8EncodeChar c.1 = _ at hw
      unfold String.utf8EncodeChar at hw
      simp only [hv] at hw
      rw [if_neg (by omega)] at hw
      split_ifs at hw <;> simp at hw
    | [_], ha, _ => exact le_trans (by omega) ha.1
    | [_, _], ha, _ => exact le_trans (by omega) ha.1
    | [_, _, _], ha, _ => exact le_trans (by omega) ha.1
  · exact (ht b hb).1

/-- A byte below `0x80` is the whole code word it stands in. -/
lemma word_eq_singleton_of_mem {c : CodePoint} {b : UInt8} (hb : b ∈ utf8.word c)
    (h : b.toNat < 0x80) : utf8.word c = [b] ∧ c.toNat = b.toNat := by
  have hc : c.toNat < 0x80 := by
    by_contra hc
    have := le_of_mem_word (by omega) hb
    omega
  rw [word_of_lt c hc] at hb ⊢
  obtain rfl := List.mem_singleton.mp hb
  exact ⟨rfl, (toNat_ofNat_lt (by omega)).symm⟩

/-- One byte is enough for the code points below `U+0080` only. -/
lemma dropLast_word_eq_nil_iff (c : CodePoint) : (utf8.word c).dropLast = [] ↔ c.toNat < 0x80 := by
  constructor
  · intro hnil
    obtain ⟨a, t, hw, ha, -⟩ := word_eq_cons c
    rw [hw] at hnil
    cases t with
    | nil =>
      have hmem : a ∈ utf8.word c := by simp [hw]
      exact (word_eq_singleton_of_mem hmem ha).2.trans_lt ha
    | cons b t => simp at hnil
  · intro hlt
    rw [word_of_lt c hlt]
    rfl

lemma ne_zero_of_mem_word {c : CodePoint} {b : UInt8} (hb : b ∈ utf8.word c) : b ≠ 0 := by
  rintro rfl
  obtain ⟨-, hc⟩ := word_eq_singleton_of_mem hb (by decide)
  exact c.toNat_ne_zero (by simpa using hc)

/-- UTF-8 is prefix-free. -/
lemma isPrefixFree : utf8.IsPrefixFree := by
  intro c d xs ys h
  have hb := congrArg (fun l : List UInt8 => l.toByteArray.utf8DecodeChar? 0) h
  simp only [utf8, List.toByteArray_append, ByteArray.utf8DecodeChar?_utf8EncodeChar_append,
    Option.some.injEq] at hb
  exact Subtype.ext hb

/-! ### Cutting a text -/

lemma IsLead.not_isContinuation {a : UInt8} {n : ℕ} (h : IsLead a n) : ¬ IsContinuation a := by
  rintro ⟨h1, h2⟩
  match n, h with
  | 0, h => exact absurd h1 (not_le.mpr h)
  | 1, h => exact absurd h.1 (by omega)
  | 2, h => exact absurd h.1 (by omega)
  | 3, h => exact absurd h.1 (by omega)

lemma not_isContinuation_zero : ¬ IsContinuation 0 := fun h => absurd h.1 (by decide)

/-- The continuation bytes are those that stand at no boundary. -/
lemma isContinuation_iff {cs : List CodePoint} {n : ℕ} (hn : n < (utf8.encode cs).length) :
    IsContinuation (utf8.encode cs)[n] ↔ ¬ ∃ i ≤ cs.length, utf8.offset cs i = n := by
  obtain ⟨i, hi, j, hj, rfl⟩ := utf8.exists_eq_offset_add hn
  obtain ⟨a, t, hw, ha, ht⟩ := word_eq_cons cs[i]
  have hbyte : (utf8.encode cs)[utf8.offset cs i + j] = (utf8.word cs[i])[j] := by
    have h := utf8.getElem?_offset_add hi hj
    rw [List.getElem?_eq_getElem hn, List.getElem?_eq_getElem hj] at h
    exact Option.some.inj h
  simp only [hbyte, hw]
  cases j with
  | zero => exact iff_of_false ha.not_isContinuation (not_not.mpr ⟨i, hi.le, rfl⟩)
  | succ j =>
    refine iff_of_true (ht _ (List.getElem_mem _)) ?_
    rintro ⟨k, -, hk⟩
    have hnext := utf8.offset_succ hi
    rcases lt_trichotomy k i with h | rfl | h
    · have hmono := utf8.offset_mono cs h.le
      omega
    · omega
    · have hmono : utf8.offset cs (i + 1) ≤ utf8.offset cs k := utf8.offset_mono cs h
      omega

/-- What is left of a text after some bytes is a text unless the next byte continues a character. -/
lemma exists_take_eq_iff {cs : List CodePoint} {n : ℕ} :
    (∃ ds, (utf8.encode cs).take n = utf8.encode ds) ↔
      ¬ IsContinuation ((utf8.encode cs).getD n 0) := by
  rcases lt_or_ge n (utf8.encode cs).length with hn | hn
  · rw [isPrefixFree.exists_take_eq_iff hn.le, List.getD_eq_getElem _ _ hn, isContinuation_iff hn,
      not_not]
  · rw [List.take_of_length_le hn, List.getD_eq_default _ _ hn]
    exact iff_of_true ⟨cs, rfl⟩ not_isContinuation_zero

/-- In front of a byte that continues no character a text can be taken apart. -/
lemma exists_append_eq_iff {xs ys : List UInt8} (h : ¬ IsContinuation (ys.headD 0)) :
    (∃ cs, xs ++ ys = utf8.encode cs) ↔
      (∃ cs, xs = utf8.encode cs) ∧ ∃ ds, ys = utf8.encode ds := by
  constructor
  · rintro ⟨cs, hcs⟩
    have hhead : (utf8.encode cs).getD xs.length 0 = ys.headD 0 := by
      rw [← hcs, List.getD_append_right _ _ _ _ le_rfl, Nat.sub_self]
      cases ys <;> rfl
    obtain ⟨ds, hds⟩ := exists_take_eq_iff.mpr (hhead ▸ h)
    rw [← hcs, List.take_left] at hds
    have hp : utf8.encode ds <+: utf8.encode cs := ⟨ys, by rw [← hds, hcs]⟩
    obtain ⟨es, rfl⟩ := isPrefixFree.isPrefix hp
    rw [hds, VarCode.encode_append] at hcs
    exact ⟨⟨ds, hds⟩, es, List.append_cancel_left hcs⟩
  · rintro ⟨⟨cs, rfl⟩, ds, rfl⟩
    exact ⟨cs ++ ds, (utf8.encode_append cs ds).symm⟩

/-- A text starts with no continuation byte. -/
lemma not_isContinuation_headD (cs : List CodePoint) :
    ¬ IsContinuation ((utf8.encode cs).headD 0) := by
  cases cs with
  | nil => exact not_isContinuation_zero
  | cons c cs =>
    obtain ⟨a, t, hw, ha, -⟩ := word_eq_cons c
    rw [VarCode.encode_cons, hw]
    exact ha.not_isContinuation

lemma exists_append_encode_iff {xs : List UInt8} (ds : List CodePoint) :
    (∃ cs, xs ++ utf8.encode ds = utf8.encode cs) ↔ ∃ cs, xs = utf8.encode cs := by
  rw [exists_append_eq_iff (not_isContinuation_headD ds)]
  exact and_iff_left ⟨ds, rfl⟩

/-- What is put into a text between two characters is a text if the result is one. -/
lemma exists_encode_append_iff {xs : List UInt8} (cs ds : List CodePoint) :
    (∃ es, utf8.encode cs ++ xs ++ utf8.encode ds = utf8.encode es) ↔
      ∃ es, xs = utf8.encode es := by
  rw [exists_append_encode_iff]
  constructor
  · rintro ⟨es, hes⟩
    obtain ⟨fs, rfl⟩ := isPrefixFree.isPrefix ⟨xs, hes⟩
    rw [VarCode.encode_append] at hes
    exact ⟨fs, List.append_cancel_left hes⟩
  · rintro ⟨es, rfl⟩
    exact ⟨cs ++ es, (utf8.encode_append cs es).symm⟩

end Utf8

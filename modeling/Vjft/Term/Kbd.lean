import Vjft.Term.KeyMap
import Vjft.Term.Utf8

/-!
# Reading the keyboard (`term/kbd.c`)

A call of `read_utf8_char_or_esc_seq` reads byte after byte until the bytes so far are those of a
keystroke. Nothing marks where a keystroke ends, so that each must be told by its own bytes.
-/

namespace Vjft.Term

/-! ### The reader -/

/-- `isalpha` in the C locale. -/
def isalpha (b : UInt8) : Bool := (0x41 ≤ b && b ≤ 0x5A) || (0x61 ≤ b && b ≤ 0x7A)

/-- `expected_len` in `is_utf8_complete` -/
def expectedLen (c : UInt8) : ℕ :=
  if c &&& 0x80 = 0 then 1
  else if c &&& 0xE0 = 0xC0 then 2
  else if c &&& 0xF0 = 0xE0 then 3
  else if c &&& 0xF8 = 0xF0 then 4
  else 0

def isUtf8Complete (buffer : Bytes) (len : ℕ) : Bool :=
  if len = 0 then false else expectedLen (byteAt buffer 0) == len

/-- `ESC` -/
def esc : UInt8 := 0x1B

/-- The second byte of a CSI or SS3 sequence: `'['` or `'O'`. -/
def isCsiOrSs3 (b : UInt8) : Bool := b == 0x5B || b == 0x4F

/-- The loop breaks after the last byte of `buf`; `more` tells that `select` finds more bytes. -/
def breaks (buf : Bytes) (more : Bool) : Bool :=
  if byteAt buf 0 = esc then
    if buf.length = 1 then !more
    else if buf.length = 2 ∧ isCsiOrSs3 (byteAt buf 1) then false
    else if buf.length = 2 ∧ (byteAt buf 1 = 0xD0 ∨ byteAt buf 1 = 0xD1) then false
    else if buf.length > 2 ∧ isCsiOrSs3 (byteAt buf 1) then
      isalpha (byteAt buf (buf.length - 1)) || byteAt buf (buf.length - 1) == 0x7E
    else true
  else isUtf8Complete buf buf.length

/-- The result of a call, the bytes in `buf`, and the bytes that are left to be read. -/
structure Token where
  len : ℕ
  buf : Bytes
  rest : Bytes
  deriving DecidableEq

/-- A call with the bytes that are there to be read; no further ones come while it waits. -/
def readUtf8CharOrEscSeq (bufSize : ℕ) (input : Bytes) : Token := loop (bufSize - 1) [] input
where
  loop : ℕ → Bytes → Bytes → Token
  | 0, buf, input => ⟨buf.length, buf, input⟩
  | _ + 1, buf, [] => ⟨0, buf, []⟩
  | n + 1, buf, b :: input =>
    if breaks (buf ++ [b]) (!input.isEmpty) then ⟨buf.length + 1, buf ++ [b], input⟩
    else loop n (buf ++ [b]) input

/-- Repeated calls: the results with their bytes, and what is left over. -/
def readTokens (bufSize : ℕ) : ℕ → Bytes → List (ℕ × Bytes) × Bytes
  | 0, input => ([], input)
  | n + 1, input =>
    let token := readUtf8CharOrEscSeq bufSize input
    let (tokens, rest) := readTokens bufSize n token.rest
    ((token.len, token.buf) :: tokens, rest)

lemma readUtf8CharOrEscSeq.loop_len (n : ℕ) (buf input : Bytes) :
    (loop n buf input).len = 0 ∨ (loop n buf input).len = (loop n buf input).buf.length := by
  induction n generalizing buf input with
  | zero => exact .inr rfl
  | succ n ih =>
    cases input with
    | nil => exact .inl rfl
    | cons b input =>
      rw [loop]
      split_ifs
      · right
        rw [List.length_append, List.length_singleton]
      · exact ih _ _

/-! ### Frames -/

/-- Bytes that the reader takes as one token, whatever comes behind them. -/
structure IsFrame (k : Bytes) : Prop where
  ne_nil : k ≠ []
  goes_on : ∀ i < k.length, 0 < i → breaks (k.take i) true = false
  ends : ∀ more, breaks k more = true

instance (k : Bytes) : Decidable (IsFrame k) :=
  decidable_of_iff (k ≠ [] ∧ (∀ i < k.length, 0 < i → breaks (k.take i) true = false) ∧
      ∀ more, breaks k more = true)
    ⟨fun h => ⟨h.1, h.2.1, h.2.2⟩, fun h => ⟨h.ne_nil, h.goes_on, h.ends⟩⟩

/-- A frame is read from wherever the reader stands in it. -/
lemma readUtf8CharOrEscSeq.loop_append {k : Bytes} (hk : IsFrame k) (rest : Bytes) :
    ∀ left taken n, taken ++ left = k → left ≠ [] → left.length ≤ n →
      loop n taken (left ++ rest) = ⟨k.length, k, rest⟩ := by
  intro left
  induction left with
  | nil =>
    intro taken n _ hne
    exact absurd rfl hne
  | cons b left ih =>
    intro taken n htaken _ hn
    obtain ⟨n, rfl⟩ : ∃ m, n = m + 1 := Nat.exists_eq_add_one.mpr (Nat.lt_of_lt_of_le (by simp) hn)
    have hbuf : taken ++ [b] ++ left = k := by
      rw [← htaken, List.append_assoc, List.singleton_append]
    rw [List.cons_append, loop]
    by_cases hleft : left = []
    · subst hleft
      rw [List.append_nil] at hbuf
      rw [hbuf, if_pos (hk.ends _), ← hbuf, List.length_append]
      rfl
    · have hmore : (!(left ++ rest).isEmpty) = true := by simp [hleft]
      have htake : k.take (taken.length + 1) = taken ++ [b] := by
        rw [← hbuf, List.take_left' (by simp)]
      have hgo : breaks (taken ++ [b]) true = false := by
        rw [← htake]
        apply hk.goes_on _ _ (Nat.succ_pos _)
        rw [← hbuf]
        have := List.length_pos_iff.mpr hleft
        simp
        omega
      rw [hmore, hgo, if_neg Bool.false_ne_true]
      exact ih _ _ hbuf hleft (Nat.le_of_succ_le_succ hn)

lemma readUtf8CharOrEscSeq_append {k : Bytes} (hk : IsFrame k) {bufSize : ℕ}
    (hlen : k.length < bufSize) (rest : Bytes) :
    readUtf8CharOrEscSeq bufSize (k ++ rest) = ⟨k.length, k, rest⟩ :=
  readUtf8CharOrEscSeq.loop_append hk rest k [] _ rfl hk.ne_nil (by omega)

lemma readTokens_flatten {bufSize : ℕ} {ks : List Bytes}
    (hks : ∀ k ∈ ks, IsFrame k ∧ k.length < bufSize) :
    readTokens bufSize ks.length ks.flatten = (ks.map fun k => (k.length, k), []) := by
  induction ks with
  | nil => rfl
  | cons k ks ih =>
    obtain ⟨hk, hks⟩ := List.forall_mem_cons.mp hks
    rw [List.length_cons, List.flatten_cons, readTokens, readUtf8CharOrEscSeq_append hk.1 hk.2]
    dsimp only
    rw [ih hks]
    rfl

/-! ### Characters -/

lemma expectedLen_of_isLead {a : UInt8} {n : ℕ} (h : Utf8.IsLead a n) : expectedLen a = n + 1 :=
  eq_of_isLead (forall_byte (by decide +kernel)) h

/-- Outside of escape sequences the first byte tells how many there are. -/
lemma breaks_of_isLead {a : UInt8} {n : ℕ} (ha : Utf8.IsLead a n) (hesc : a ≠ esc) (t : Bytes)
    (more : Bool) : breaks (a :: t) more = decide (n = t.length) := by
  have hlen : (a :: t).length ≠ 0 := Nat.succ_ne_zero _
  have hbyte : byteAt (a :: t) 0 = a := rfl
  rw [breaks, hbyte, if_neg hesc, isUtf8Complete, if_neg hlen, hbyte, expectedLen_of_isLead ha,
    beq_eq_decide]
  exact decide_eq_decide.mpr Nat.add_right_cancel_iff

lemma isFrame_of_isLead {a : UInt8} {t : Bytes} (ha : Utf8.IsLead a t.length) (hesc : a ≠ esc) :
    IsFrame (a :: t) := by
  constructor
  · exact List.cons_ne_nil _ _
  · intro i hi h0
    obtain ⟨i, rfl⟩ := Nat.exists_eq_add_one.mpr h0
    rw [List.take_succ_cons, breaks_of_isLead ha hesc, decide_eq_false_iff_not, List.length_take]
    rw [List.length_cons] at hi
    omega
  · intro more
    rw [breaks_of_isLead ha hesc, decide_eq_true rfl]

lemma isFrame_word (c : CodePoint) (hesc : c.toNat ≠ 0x1B) : IsFrame (utf8.word c) := by
  obtain ⟨a, t, hw, ha, -⟩ := Utf8.word_eq_cons c
  have ha' : a ≠ esc := by
    rintro rfl
    have hmem : esc ∈ utf8.word c := by
      rw [hw]
      exact List.mem_cons_self
    exact hesc (Utf8.word_eq_singleton_of_mem hmem (by decide)).2
  rw [hw]
  exact isFrame_of_isLead ha ha'

/-- NUL is a character here, too. -/
lemma isFrame_utf8EncodeChar (c : Char) (hesc : c ≠ '\x1b') :
    IsFrame (String.utf8EncodeChar c) := by
  by_cases hnul : c.toNat = 0
  · obtain rfl : c = '\x00' := Char.toNat_inj.mp hnul
    decide
  · have hne : c.toNat ≠ 0x1B := by
      intro h
      exact hesc (Char.toNat_inj.mp h)
    exact isFrame_word ⟨c, hnul⟩ hne

/-! ### Escape sequences -/

/-- The sequences of the key map that start with ESC and go on, other than the introducers of the
CSI and SS3 sequences. -/
def escSeqs : List Bytes :=
  (keyMap.map fun e => literal e.str).filter fun k =>
    byteAt k 0 == esc && k != [esc] && k != [esc, 0x5B] && k != [esc, 0x4F]

lemma isFrame_escSeqs : ∀ k ∈ escSeqs, IsFrame k ∧ k.length ≤ 7 := by
  decide +kernel

/-- The bytes of a keystroke: a character other than ESC, or an escape sequence. -/
inductive Keystroke : Bytes → Prop
  | char (c : Char) : c ≠ '\x1b' → Keystroke (String.utf8EncodeChar c)
  | escSeq (k : Bytes) : k ∈ escSeqs → Keystroke k

/-- The reader takes the keystrokes apart again. -/
theorem readTokens_keystrokes {bufSize : ℕ} (hsize : 8 ≤ bufSize) {ks : List Bytes}
    (hks : ∀ k ∈ ks, Keystroke k) :
    readTokens bufSize ks.length ks.flatten = (ks.map fun k => (k.length, k), []) := by
  apply readTokens_flatten
  intro k hk
  cases hks k hk with
  | char c hc =>
    have hlen := (String.length_utf8EncodeChar c).trans_le c.utf8Size_le_four
    exact ⟨isFrame_utf8EncodeChar c hc, by omega⟩
  | escSeq _ hk =>
    obtain ⟨hframe, hlen⟩ := isFrame_escSeqs k hk
    exact ⟨hframe, by omega⟩

/-- Two keystrokes in the buffer of the program: Shift+F5 and a Cyrillic letter. -/
theorem readTokens_keystrokes_two :
    readTokens 40 2 (literal "\x1b[15;2~ж") =
      ([(7, literal "\x1b[15;2~"), (2, literal "ж")], []) := by
  have hks : ∀ k ∈ [literal "\x1b[15;2~", literal "ж"], Keystroke k := by
    rw [List.forall_mem_cons, List.forall_mem_singleton]
    exact ⟨.escSeq _ (by decide +kernel), .char 'ж' (by decide)⟩
  exact readTokens_keystrokes (by decide) hks

/-! ### Bytes that start no character -/

/-- The byte is neither a continuation byte nor one of the bytes that occur nowhere. -/
def StartsChar (a : UInt8) : Prop := a.toNat < 0x80 ∨ 0xC0 ≤ a.toNat ∧ a.toNat < 0xF8

instance (a : UInt8) : Decidable (StartsChar a) := inferInstanceAs (Decidable (_ ∨ _))

lemma StartsChar.exists_isLead {a : UInt8} (h : StartsChar a) :
    ∃ n < 4, Utf8.IsLead a n ∧ utf8CharLength a = n + 1 := by
  have hlead : ∃ n < 4, Utf8.IsLead a n := by
    rcases h with h | ⟨h1, h2⟩
    · exact ⟨0, by decide, h⟩
    · by_cases h3 : a.toNat < 0xE0
      · exact ⟨1, by decide, h1, h3⟩
      · by_cases h4 : a.toNat < 0xF0
        · exact ⟨2, by decide, not_lt.mp h3, h4⟩
        · exact ⟨3, by decide, not_lt.mp h4, h2⟩
  obtain ⟨n, hn, hlead⟩ := hlead
  exact ⟨n, hn, hlead, utf8CharLength_of_isLead hlead⟩

/-- `is_utf8_complete` waits for no number of bytes, `utf8_char_length` takes one. -/
lemma expectedLen_of_not_startsChar : ∀ a : UInt8, ¬ StartsChar a →
    expectedLen a = 0 ∧ utf8CharLength a = 1 ∧ a ≠ esc :=
  forall_byte (by decide +kernel)

lemma breaks_of_not_startsChar {a : UInt8} (ha : ¬ StartsChar a) (t : Bytes) (more : Bool) :
    breaks (a :: t) more = false := by
  obtain ⟨hexpected, -, hesc⟩ := expectedLen_of_not_startsChar a ha
  have hlen : (a :: t).length ≠ 0 := Nat.succ_ne_zero _
  have hbyte : byteAt (a :: t) 0 = a := rfl
  rw [breaks, hbyte, if_neg hesc, isUtf8Complete, if_neg hlen, hbyte, hexpected]
  rfl

/-- A byte that starts no character is never complete, so that the buffer is filled or the input
runs dry. -/
lemma readUtf8CharOrEscSeq.loop_of_not_startsChar {a : UInt8} (ha : ¬ StartsChar a) (n : ℕ)
    (t input : Bytes) : (loop n (a :: t) input).len = 0 ∨
      (loop n (a :: t) input).len = t.length + 1 + n := by
  induction n generalizing t input with
  | zero => exact .inr rfl
  | succ n ih =>
    cases input with
    | nil => exact .inl rfl
    | cons b input =>
      rw [loop, List.cons_append, breaks_of_not_startsChar ha, if_neg Bool.false_ne_true]
      rcases ih (t ++ [b]) input with h | h
      · exact .inl h
      · right
        rw [h, List.length_append, List.length_singleton]
        omega

/-- Outside of escape sequences a call reads as many bytes as a character has that starts with the
first one, unless no character starts with it. This is so for the calls in a row on any stream. -/
theorem readTokens_len_iff {bufSize : ℕ} (hsize : 5 ≤ bufSize) (n : ℕ) (stream : Bytes)
    {a : UInt8} {t : Bytes} (hrest : (readTokens bufSize n stream).2 = a :: t) (hesc : a ≠ esc)
    (havailable : utf8CharLength a ≤ (a :: t).length) :
    (readUtf8CharOrEscSeq bufSize (readTokens bufSize n stream).2).len = utf8CharLength a ↔
      StartsChar a := by
  rw [hrest]
  constructor
  · intro hlen
    by_contra ha
    obtain ⟨m, hm⟩ : ∃ m, bufSize - 1 = m + 1 := ⟨bufSize - 2, by omega⟩
    rw [(expectedLen_of_not_startsChar a ha).2.1, readUtf8CharOrEscSeq, hm,
      readUtf8CharOrEscSeq.loop, List.nil_append, breaks_of_not_startsChar ha,
      if_neg Bool.false_ne_true] at hlen
    rcases readUtf8CharOrEscSeq.loop_of_not_startsChar ha m [] t with h | h
    · omega
    · rw [List.length_nil] at h
      omega
  · intro ha
    obtain ⟨k, hk4, hk, hlen⟩ := ha.exists_isLead
    rw [hlen, List.length_cons, Nat.add_le_add_iff_right] at havailable
    have htake : (t.take k).length = k := List.length_take_of_le havailable
    have hframe : IsFrame (a :: t.take k) := isFrame_of_isLead (htake.symm ▸ hk) hesc
    have hsplit : a :: t = (a :: t.take k) ++ t.drop k := by
      rw [List.cons_append, List.take_append_drop]
    rw [hlen, hsplit, readUtf8CharOrEscSeq_append hframe, List.length_cons, htake]
    rw [List.length_cons, htake]
    omega

/-- A Cyrillic letter behind an `a`. -/
theorem readTokens_len_letter :
    (readUtf8CharOrEscSeq 40 (readTokens 40 1 [0x61, 0xD0, 0xB6]).2).len = 2 := by
  have hrest : (readTokens 40 1 [0x61, 0xD0, 0xB6]).2 = [0xD0, 0xB6] := by
    decide
  exact (readTokens_len_iff (by decide) 1 _ hrest (by decide) (by decide)).mpr (by decide)

/-- A continuation byte takes the 38 letters behind it along. -/
theorem readTokens_len_continuation :
    readUtf8CharOrEscSeq 40 ([0x80] ++ List.replicate 38 0x61 ++ [0x62]) =
      ⟨39, [0x80] ++ List.replicate 38 0x61, [0x62]⟩ ∧ utf8CharLength 0x80 = 1 := by
  decide +kernel

end Vjft.Term

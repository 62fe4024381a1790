import Vjft.Term.Iface

/-!
# Encoding characters in UTF-8 (`term/iface.c`)

`char32_to_utf8` takes any code point up to `U+10FFFF`, surrogates included. What it writes is read
back by the functions that walk over a text.
-/

namespace Vjft.Term

open InMemory (utf8Decode readByte_toMemory)

/-- `(char)x` -/
def toChar (x : UInt32) : UInt8 := x.toUInt8

/-- The bytes that are written to `out`; the result of the function is their number. -/
def char32ToUtf8 (c : UInt32) : Bytes :=
  if c ≤ 0x7F then [toChar c]
  else if c ≤ 0x7FF then
    [toChar ((0xC0 : UInt32) ||| (c >>> 6 &&& 0x1F)), toChar (0x80 ||| (c &&& 0x3F))]
  else if c ≤ 0xFFFF then
    [toChar ((0xE0 : UInt32) ||| (c >>> 12 &&& 0x0F)),
      toChar ((0x80 : UInt32) ||| (c >>> 6 &&& 0x3F)), toChar (0x80 ||| (c &&& 0x3F))]
  else if c ≤ 0x10FFFF then
    [toChar ((0xF0 : UInt32) ||| (c >>> 18 &&& 0x07)),
      toChar ((0x80 : UInt32) ||| (c >>> 12 &&& 0x3F)),
      toChar ((0x80 : UInt32) ||| (c >>> 6 &&& 0x3F)), toChar (0x80 ||| (c &&& 0x3F))]
  else []

/-- What the loop of `calc_display_size` finds at a character: the length that the first byte
announces, the result of `utf8_decode`, and the code point. -/
structure WalkStep where
  charLen : ℕ
  decodedLen : ℕ
  codepoint : Sym
  deriving DecidableEq

/-- The characters that the loop of `calc_display_size` meets in front of the terminator, and where
it ends. -/
def walk (text : Bytes) : Except Stop (List WalkStep × ℕ) := do
  let length ← InMemory.utf8Strlen text
  loop (length + 1) 0 []
where
  loop : ℕ → ℕ → List WalkStep → Except Stop (List WalkStep × ℕ)
  | 0, bytePos, steps => pure (steps, bytePos)
  | n + 1, bytePos, steps => do
    let byte ← readByte text bytePos
    let charLen := utf8CharLength byte
    let decoded ← utf8Decode text bytePos charLen
    let codepoint := (decoded.map Prod.snd).getD 0
    let step := ⟨charLen, (decoded.map Prod.fst).getD 0, codepoint⟩
    if codepoint = 0 then pure (steps, bytePos)
    else loop n (bytePos + charLen) (steps ++ [step])

/-! ### The bytes of a code point -/

/-- A mark and the lowest `k` bits of a number. -/
lemma toChar_or_and (x : UInt32) {mark mask : UInt32} {m k : ℕ} (hmask : mask.toNat = 2 ^ k - 1)
    (hmark : mark.toNat = m) (hdvd : 2 ^ k ∣ m) :
    toChar (mark ||| (x &&& mask)) = UInt8.ofNat (x.toNat % 2 ^ k + m) := by
  have hor : (mark ||| (x &&& mask)).toNat = m + x.toNat % 2 ^ k := by
    rw [UInt32.toNat_or, UInt32.toNat_and, hmask, hmark, Nat.and_two_pow_sub_one_eq_mod,
      or_eq_add hdvd (Nat.mod_lt _ (Nat.two_pow_pos k))]
  rw [toChar, ← UInt8.toNat_inj, UInt32.toNat_toUInt8, hor, UInt8.toNat_ofNat', Nat.add_comm]

lemma toNat_shiftRight (x : UInt32) {s : UInt32} {k : ℕ} (hs : s.toNat = k) (hk : k < 32) :
    (x >>> s).toNat = x.toNat / 2 ^ k := by
  rw [UInt32.toNat_shiftRight, hs, Nat.mod_eq_of_lt hk, Nat.shiftRight_eq_div_pow]

/-- A byte with bits of a code point from bit `j` on. -/
lemma toChar_shift (x : UInt32) {mark mask s : UInt32} {m j k : ℕ} (hs : s.toNat = j)
    (hj : j < 32) (hmask : mask.toNat = 2 ^ k - 1) (hmark : mark.toNat = m) (hdvd : 2 ^ k ∣ m) :
    toChar (mark ||| (x >>> s &&& mask)) = UInt8.ofNat (x.toNat / 2 ^ j % 2 ^ k + m) := by
  rw [toChar_or_and (x >>> s) hmask hmark hdvd, toNat_shiftRight x hs hj]

/-- The four forms of a code word, with the parts of the code point in its bytes. -/
lemma char32ToUtf8_cases {c : UInt32} (h : c ≤ 0x10FFFF) :
    (∃ x < 0x80, char32ToUtf8 c = [UInt8.ofNat x] ∧ c.toNat = x) ∨
    (∃ x < 0x20, ∃ y < 0x40, char32ToUtf8 c = [UInt8.ofNat (x + 0xC0), UInt8.ofNat (y + 0x80)] ∧
      c.toNat = x * 2 ^ 6 + y) ∨
    (∃ x < 0x10, ∃ y < 0x40, ∃ z < 0x40,
      char32ToUtf8 c = [UInt8.ofNat (x + 0xE0), UInt8.ofNat (y + 0x80), UInt8.ofNat (z + 0x80)] ∧
      c.toNat = (x * 2 ^ 6 + y) * 2 ^ 6 + z) ∨
    (∃ x < 0x08, ∃ y < 0x40, ∃ z < 0x40, ∃ t < 0x40,
      char32ToUtf8 c = [UInt8.ofNat (x + 0xF0), UInt8.ofNat (y + 0x80), UInt8.ofNat (z + 0x80),
        UInt8.ofNat (t + 0x80)] ∧
      c.toNat = ((x * 2 ^ 6 + y) * 2 ^ 6 + z) * 2 ^ 6 + t) := by
  have hlow : toChar (0x80 ||| (c &&& 0x3F)) = UInt8.ofNat (c.toNat % 2 ^ 6 + 0x80) :=
    toChar_or_and c rfl rfl (by decide)
  have hmid : toChar ((0x80 : UInt32) ||| (c >>> 6 &&& 0x3F)) =
      UInt8.ofNat (c.toNat / 2 ^ 6 % 2 ^ 6 + 0x80) :=
    toChar_shift c rfl (by decide) rfl rfl (by decide)
  have hhigh : toChar ((0x80 : UInt32) ||| (c >>> 12 &&& 0x3F)) =
      UInt8.ofNat (c.toNat / 2 ^ 12 % 2 ^ 6 + 0x80) :=
    toChar_shift c rfl (by decide) rfl rfl (by decide)
  rw [UInt32.le_iff_toNat_le] at h
  simp only [char32ToUtf8, UInt32.le_iff_toNat_le]
  have h127 : (0x7F : UInt32).toNat = 0x7F := rfl
  have h2047 : (0x7FF : UInt32).toNat = 0x7FF := rfl
  have h65535 : (0xFFFF : UInt32).toNat = 0xFFFF := rfl
  have hmax : (0x10FFFF : UInt32).toNat = 0x10FFFF := rfl
  rw [h127, h2047, h65535, hmax]
  rw [hmax] at h
  split_ifs with h1 h2 h3
  · left
    refine ⟨c.toNat, by omega, ?_, rfl⟩
    rw [toChar, UInt8.ofNat_uInt32ToNat]
  · right; left
    refine ⟨c.toNat / 2 ^ 6, by omega, c.toNat % 2 ^ 6, by omega, ?_, by omega⟩
    have hlead : toChar ((0xC0 : UInt32) ||| (c >>> 6 &&& 0x1F)) =
        UInt8.ofNat (c.toNat / 2 ^ 6 % 2 ^ 5 + 0xC0) :=
      toChar_shift c rfl (by decide) rfl rfl (by decide)
    rw [hlow, hlead, Nat.mod_eq_of_lt (b := 2 ^ 5) (by omega)]
  · right; right; left
    refine ⟨c.toNat / 2 ^ 12, by omega, c.toNat / 2 ^ 6 % 2 ^ 6, by omega, c.toNat % 2 ^ 6,
      by omega, ?_, by omega⟩
    have hlead : toChar ((0xE0 : UInt32) ||| (c >>> 12 &&& 0x0F)) =
        UInt8.ofNat (c.toNat / 2 ^ 12 % 2 ^ 4 + 0xE0) :=
      toChar_shift c rfl (by decide) rfl rfl (by decide)
    rw [hlow, hmid, hlead, Nat.mod_eq_of_lt (b := 2 ^ 4) (by omega)]
  · right; right; right
    refine ⟨c.toNat / 2 ^ 18, by omega, c.toNat / 2 ^ 12 % 2 ^ 6, by omega,
      c.toNat / 2 ^ 6 % 2 ^ 6, by omega, c.toNat % 2 ^ 6, by omega, ?_, by omega⟩
    have hlead : toChar ((0xF0 : UInt32) ||| (c >>> 18 &&& 0x07)) =
        UInt8.ofNat (c.toNat / 2 ^ 18 % 2 ^ 3 + 0xF0) :=
      toChar_shift c rfl (by decide) rfl rfl (by decide)
    rw [hlow, hmid, hhigh, hlead, Nat.mod_eq_of_lt (b := 2 ^ 3) (by omega)]

lemma isLead_ofNat {x : ℕ} :
    (x < 0x80 → Utf8.IsLead (UInt8.ofNat x) 0) ∧
    (x < 0x20 → Utf8.IsLead (UInt8.ofNat (x + 0xC0)) 1) ∧
    (x < 0x10 → Utf8.IsLead (UInt8.ofNat (x + 0xE0)) 2) ∧
    (x < 0x08 → Utf8.IsLead (UInt8.ofNat (x + 0xF0)) 3) := by
  simp only [Utf8.IsLead, UInt8.toNat_ofNat']
  omega

lemma ofNat_ne_zero {n : ℕ} (hpos : 0 < n) (hlt : n < 2 ^ 8) : UInt8.ofNat n ≠ 0 := by
  rw [← UInt8.toNat_inj.ne, UInt8.toNat_ofNat_of_lt' hlt, UInt8.toNat_zero]
  omega

/-- A code word begins with a byte that announces its length, and is decoded to its code point. -/
lemma char32ToUtf8_spec {c : UInt32} (hc0 : c ≠ 0) (h : c ≤ 0x10FFFF) :
    ∃ a t, char32ToUtf8 c = a :: t ∧ utf8CharLength a = t.length + 1 ∧ a ≠ 0 ∧
      ∀ (str : Bytes) (pos : ℕ),
        (∀ j (hj : j < (a :: t).length), readByte str (pos + j) = .ok (a :: t)[j]) →
        utf8Decode str pos (t.length + 1) = .ok (some (t.length + 1, c)) := by
  have hpos : 0 < c.toNat := Nat.pos_of_ne_zero fun h0 => hc0 (UInt32.toNat_inj.mp h0)
  rcases char32ToUtf8_cases h with ⟨x, hx, hw, hc⟩ | ⟨x, hx, y, hy, hw, hc⟩ |
    ⟨x, hx, y, hy, z, hz, hw, hc⟩ | ⟨x, hx, y, hy, z, hz, t, ht, hw, hc⟩
  · refine ⟨_, _, hw, utf8CharLength_of_isLead (isLead_ofNat.1 hx),
      ofNat_ne_zero (by omega) (by omega), ?_⟩
    intro str pos hread
    exact InMemory.utf8Decode_one hx (hread 0 (by simp)) hc
  · refine ⟨_, _, hw, utf8CharLength_of_isLead (isLead_ofNat.2.1 hx),
      ofNat_ne_zero (by omega) (by omega), ?_⟩
    intro str pos hread
    exact InMemory.utf8Decode_two hx hy (hread 0 (by simp)) (hread 1 (by simp)) hc
  · refine ⟨_, _, hw, utf8CharLength_of_isLead (isLead_ofNat.2.2.1 hx),
      ofNat_ne_zero (by omega) (by omega), ?_⟩
    intro str pos hread
    exact InMemory.utf8Decode_three hx hy hz (hread 0 (by simp)) (hread 1 (by simp))
      (hread 2 (by simp)) hc
  · refine ⟨_, _, hw, utf8CharLength_of_isLead (isLead_ofNat.2.2.2 hx),
      ofNat_ne_zero (by omega) (by omega), ?_⟩
    intro str pos hread
    exact InMemory.utf8Decode_four hx hy hz ht (hread 0 (by simp)) (hread 1 (by simp))
      (hread 2 (by simp)) (hread 3 (by simp)) hc

/-! ### Walking over a text -/

lemma walk.loop_succ {text : Bytes} {n bytePos len : ℕ} {steps : List WalkStep} {byte : UInt8}
    {c : Sym} (hbyte : readByte text bytePos = .ok byte)
    (hdecode : utf8Decode text bytePos (utf8CharLength byte) = .ok (some (len, c))) :
    loop text (n + 1) bytePos steps =
      if c = 0 then .ok (steps, bytePos)
      else loop text n (bytePos + utf8CharLength byte)
        (steps ++ [⟨utf8CharLength byte, len, c⟩]) := by
  simp only [loop, hbyte, ok_bind, hdecode]
  rfl

/-- The loop of `calc_display_size` ends where the walk does. -/
lemma exists_calcDisplaySize_loop_eq {text : Bytes} {n bytePos bytePos' : ℕ}
    {steps steps' : List WalkStep} (h : walk.loop text n bytePos steps = .ok (steps', bytePos'))
    {w p : ℤ} {curPos : ℕ} {m : Measure} (hm : m.bytePos = bytePos) :
    ∃ m', calcDisplaySize.loop text w p n curPos m = .ok m' ∧ m'.bytePos = bytePos' := by
  induction n generalizing bytePos steps curPos m with
  | zero =>
    cases h
    exact ⟨m, rfl, hm⟩
  | succ n ih =>
    simp only [walk.loop, bind_eq_ok_iff] at h
    obtain ⟨byte, hbyte, decoded, hdecode, h⟩ := h
    have hcode : codepointAt text m.bytePos (utf8CharLength byte) =
        .ok ((decoded.map Prod.snd).getD 0) := by
      rw [codepointAt, hm, hdecode]
      rfl
    rw [calcDisplaySize.loop_succ (hm ▸ hbyte) hcode]
    split_ifs at h ⊢ with h0
    · cases h
      exact ⟨_, rfl, by simpa using hm⟩
    · exact ih h (by rw [hm])

/-! ### Texts -/

/-- The code points that `char32_to_utf8` encodes in a C string. -/
abbrev Char32 := {c : UInt32 // c ≠ 0 ∧ c ≤ 0x10FFFF}

/-- The code of `char32_to_utf8`. -/
def char32 : VarCode Char32 UInt8 where
  word c := char32ToUtf8 c.val
  word_ne_nil c := by
    obtain ⟨a, t, hw, -⟩ := char32ToUtf8_spec c.property.1 c.property.2
    rw [hw]
    exact List.cons_ne_nil a t

section Encoded

variable {cs : List Char32} {i : ℕ}

/-- What a walk finds at a character: the byte, and the character that is decoded from there. -/
lemma char32_at (h : i < cs.length) :
    ∃ byte, readByte (CStr.toMemory (char32.encode cs)) (char32.offset cs i) = .ok byte ∧
      byte ≠ 0 ∧ utf8CharLength byte = (char32.word cs[i]).length ∧
      utf8Decode (CStr.toMemory (char32.encode cs)) (char32.offset cs i)
        (char32.word cs[i]).length = .ok (some ((char32.word cs[i]).length, cs[i].val)) := by
  obtain ⟨a, t, hw, hlen, hne, hdecode⟩ :=
    char32ToUtf8_spec cs[i].property.1 cs[i].property.2
  have hword : char32.word cs[i] = a :: t := hw
  have hread : ∀ j (hj : j < (a :: t).length),
      readByte (CStr.toMemory (char32.encode cs)) (char32.offset cs i + j) = .ok (a :: t)[j] := by
    intro j hj
    rw [← hword] at hj
    have hin : char32.offset cs i + j < (char32.encode cs).length := by
      have hle := char32.offset_le cs (i + 1)
      rw [char32.offset_succ h] at hle
      omega
    have hget := char32.getElem?_offset_add h hj
    rw [readByte, CStr.toMemory, List.getElem?_append_left hin, hget,
      List.getElem?_eq_getElem hj, orStop_some]
    simp only [hword]
  refine ⟨a, hread 0 (Nat.succ_pos _), hne, ?_, ?_⟩
  · rw [hword, hlen, List.length_cons]
  · rw [hword]
    exact hdecode _ _ hread

lemma char32_at_length (cs : List Char32) :
    readByte (CStr.toMemory (char32.encode cs)) (char32.offset cs cs.length) = .ok 0 := by
  rw [char32.offset_length, readByte_toMemory le_rfl, byteAt_of_length_le le_rfl]

lemma utf8Strlen_char32 (cs : List Char32) :
    InMemory.utf8Strlen (CStr.toMemory (char32.encode cs)) = .ok cs.length := by
  have key : ∀ n i, i ≤ cs.length → cs.length < i + n →
      InMemory.utf8Strlen.loop (CStr.toMemory (char32.encode cs)) n (char32.offset cs i) i =
        .ok cs.length := by
    intro n
    induction n with
    | zero =>
      intro i hi hn
      omega
    | succ n ih =>
      intro i hi hn
      rw [InMemory.utf8Strlen.loop]
      rcases hi.lt_or_eq with h | rfl
      · obtain ⟨byte, hbyte, hne, hlen, -⟩ := char32_at h
        rw [hbyte, ok_bind, if_neg hne, hlen, ← char32.offset_succ h]
        exact ih (i + 1) h (by omega)
      · rw [char32_at_length, ok_bind, if_pos rfl]
        rfl
  have hle := char32.length_le_encode cs
  have hstart := key (CStr.toMemory (char32.encode cs)).length 0 (Nat.zero_le _)
    (by simp only [CStr.toMemory, List.length_append, List.length_singleton]; omega)
  rwa [char32.offset_zero] at hstart

/-- The step at an encoded character. -/
def stepOf (c : Char32) : WalkStep :=
  ⟨(char32.word c).length, (char32.word c).length, c.val⟩

/-- From a boundary on the loop meets the characters that are left, and stops at the terminator. -/
lemma walk_loop_char32 (cs : List Char32) :
    ∀ n i, i ≤ cs.length → cs.length < i + n →
      walk.loop (CStr.toMemory (char32.encode cs)) n (char32.offset cs i)
        ((cs.take i).map stepOf) = .ok (cs.map stepOf, (char32.encode cs).length) := by
  intro n
  induction n with
  | zero =>
    intro i hi hn
    omega
  | succ n ih =>
    intro i hi hn
    rcases hi.lt_or_eq with h | rfl
    · obtain ⟨byte, hbyte, -, hlen, hdecode⟩ := char32_at h
      have hnext : (cs.take i).map stepOf ++ [stepOf cs[i]] = (cs.take (i + 1)).map stepOf := by
        rw [← List.take_append_getElem h, List.map_append, List.map_singleton]
      rw [walk.loop_succ hbyte (hlen ▸ hdecode), if_neg cs[i].property.1, hlen,
        ← char32.offset_succ h]
      exact hnext ▸ ih (i + 1) h (by omega)
    · have hdecode : utf8Decode (CStr.toMemory (char32.encode cs)) (char32.offset cs cs.length)
          (utf8CharLength 0) = .ok (some (1, 0)) := by
        rw [char32.offset_length]
        exact InMemory.utf8Decode_of_byteAt_eq_zero le_rfl (byteAt_of_length_le le_rfl)
      rw [walk.loop_succ (char32_at_length cs) hdecode, if_pos rfl, char32.offset_length,
        List.take_length]

lemma walk_char32 (cs : List Char32) :
    walk (CStr.toMemory (char32.encode cs)) = .ok (cs.map stepOf, (char32.encode cs).length) := by
  have hloop := walk_loop_char32 cs (cs.length + 1) 0 (Nat.zero_le _) (by omega)
  rw [char32.offset_zero, List.take_zero] at hloop
  rw [walk, utf8Strlen_char32, ok_bind]
  exact hloop

/-- Encoded code points are walked over one by one up to the terminator, each with the length that
it was encoded in, and what was decoded is encoded as the same bytes again. -/
theorem walk_encode (cs : List Char32) :
    ∃ steps, walk (CStr.toMemory (char32.encode cs)) = .ok (steps, (char32.encode cs).length) ∧
      steps.map WalkStep.codepoint = cs.map Subtype.val ∧
      InMemory.utf8Strlen (CStr.toMemory (char32.encode cs)) = .ok cs.length ∧
      (∀ step ∈ steps, step.charLen = (char32ToUtf8 step.codepoint).length ∧
        step.decodedLen = (char32ToUtf8 step.codepoint).length) ∧
      (steps.flatMap fun step => char32ToUtf8 step.codepoint) = char32.encode cs ∧
      ∀ w p, ∃ m, calcDisplaySize.loop (CStr.toMemory (char32.encode cs)) w p (cs.length + 1) 0
        ⟨0, 1, 0, 0, none⟩ = .ok m ∧ m.bytePos = (char32.encode cs).length := by
  refine ⟨_, walk_char32 cs, ?_, utf8Strlen_char32 cs, ?_, ?_, ?_⟩
  · rw [List.map_map]
    rfl
  · intro step hstep
    obtain ⟨c, -, rfl⟩ := List.mem_map.mp hstep
    exact ⟨rfl, rfl⟩
  · rw [List.flatMap_map]
    rfl
  · intro w p
    have hloop := walk_loop_char32 cs (cs.length + 1) 0 (Nat.zero_le _) (by omega)
    rw [char32.offset_zero] at hloop
    exact exists_calcDisplaySize_loop_eq hloop rfl

end Encoded

end Vjft.Term

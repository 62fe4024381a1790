import Vjft.Term.Walk

/-!
# Decoding UTF-8 characters (`term/utf8.c`)

`utf8_decode` takes a character apart by the bits of its bytes. On a code word it gives back the
code point.
-/

namespace Vjft.Term

namespace InMemory

/-- The length and the code point of the character at `pos`; `none` stands for the result 0, which
leaves `*codepoint` as it was. -/
def utf8Decode (str : Bytes) (pos len : ℕ) : Except Stop (Option (ℕ × UInt32)) :=
  if len = 0 then pure none
  else do
    let b0 ← readByte str pos
    if b0 < 0x80 then pure (some (1, b0.toUInt32))
    else if b0 &&& 0xE0 = 0xC0 then
      if len < 2 then pure none
      else do
        let b1 ← readByte str (pos + 1)
        pure (some (2, (b0 &&& 0x1F).toUInt32 <<< 6 ||| (b1 &&& 0x3F).toUInt32))
    else if b0 &&& 0xF0 = 0xE0 then
      if len < 3 then pure none
      else do
        let b1 ← readByte str (pos + 1)
        let b2 ← readByte str (pos + 2)
        pure (some (3, (b0 &&& 0x0F).toUInt32 <<< 12 ||| (b1 &&& 0x3F).toUInt32 <<< 6 |||
          (b2 &&& 0x3F).toUInt32))
    else if b0 &&& 0xF8 = 0xF0 then
      if len < 4 then pure none
      else do
        let b1 ← readByte str (pos + 1)
        let b2 ← readByte str (pos + 2)
        let b3 ← readByte str (pos + 3)
        pure (some (4, (b0 &&& 0x07).toUInt32 <<< 18 ||| (b1 &&& 0x3F).toUInt32 <<< 12 |||
          (b2 &&& 0x3F).toUInt32 <<< 6 ||| (b3 &&& 0x3F).toUInt32))
    else pure none

variable {str : CStr} {pos : ℕ}

/-- Decoding reads no more bytes than it is given, and one at most at the terminator. -/
lemma exists_utf8Decode_eq {len : ℕ} (hlen : pos + len ≤ str.length + 1) :
    ∃ decoded, utf8Decode str.toMemory pos len = .ok decoded := by
  have hread : ∀ i, i < len → ∃ b, readByte str.toMemory (pos + i) = .ok b := by
    intro i hi
    exact ⟨_, readByte_toMemory (by omega)⟩
  rw [utf8Decode]
  by_cases h0 : len = 0
  · exact ⟨_, if_pos h0⟩
  · obtain ⟨b0, hb0⟩ := hread 0 (by omega)
    rw [if_neg h0, show readByte str.toMemory pos = _ from hb0, ok_bind]
    split_ifs with h1 h2 hlen2 h3 hlen3 h4 hlen4
    · exact ⟨_, rfl⟩
    · exact ⟨_, rfl⟩
    · obtain ⟨b1, hb1⟩ := hread 1 (by omega)
      rw [hb1]
      exact ⟨_, rfl⟩
    · exact ⟨_, rfl⟩
    · obtain ⟨b1, hb1⟩ := hread 1 (by omega)
      obtain ⟨b2, hb2⟩ := hread 2 (by omega)
      rw [hb1, ok_bind, hb2]
      exact ⟨_, rfl⟩
    · exact ⟨_, rfl⟩
    · obtain ⟨b1, hb1⟩ := hread 1 (by omega)
      obtain ⟨b2, hb2⟩ := hread 2 (by omega)
      obtain ⟨b3, hb3⟩ := hread 3 (by omega)
      rw [hb1, ok_bind, hb2, ok_bind, hb3]
      exact ⟨_, rfl⟩
    · exact ⟨_, rfl⟩

/-- What the loops over a text find at the terminator. -/
lemma utf8Decode_of_byteAt_eq_zero (hpos : pos ≤ str.length) (hb : byteAt str pos = 0) :
    utf8Decode str.toMemory pos 1 = .ok (some (1, 0)) := by
  rw [utf8Decode, if_neg (by omega), readByte_toMemory hpos, ok_bind, hb]
  rfl

end InMemory

/-! ### The bits of a code point -/

lemma or_eq_add {n b k : ℕ} (hn : 2 ^ k ∣ n) (hb : b < 2 ^ k) : n ||| b = n + b := by
  obtain ⟨a, rfl⟩ := hn
  exact (Nat.two_pow_add_eq_or_of_lt hb a).symm

/-- The bits of a byte at their place in a code point. -/
lemma toNat_shiftLeft_byte (b : UInt8) (k : ℕ) (hk : k ≤ 24) :
    (b.toUInt32 <<< UInt32.ofNat k).toNat = b.toNat * 2 ^ k := by
  have hlt : b.toNat * 2 ^ k < 2 ^ 32 := by
    calc b.toNat * 2 ^ k < 2 ^ 8 * 2 ^ k :=
          Nat.mul_lt_mul_of_pos_right b.toNat_lt (Nat.two_pow_pos k)
      _ ≤ 2 ^ 8 * 2 ^ 24 := Nat.mul_le_mul_left _ (Nat.pow_le_pow_right (by omega) hk)
      _ = 2 ^ 32 := rfl
  have hmod : k % 2 ^ 32 % 32 = k := by omega
  rw [UInt32.toNat_shiftLeft, UInt8.toNat_toUInt32, UInt32.toNat_ofNat', Nat.shiftLeft_eq, hmod,
    Nat.mod_eq_of_lt hlt]

section Bits

variable {x y z t : UInt8}

lemma toNat_bits_two (hy : y.toNat < 2 ^ 6) :
    (x.toUInt32 <<< 6 ||| y.toUInt32).toNat = x.toNat * 2 ^ 6 + y.toNat := by
  have hx : (x.toUInt32 <<< 6).toNat = x.toNat * 2 ^ 6 := toNat_shiftLeft_byte x 6 (by omega)
  rw [UInt32.toNat_or, hx, UInt8.toNat_toUInt32, or_eq_add (Nat.dvd_mul_left _ _) hy]

lemma toNat_bits_three (hy : y.toNat < 2 ^ 6) (hz : z.toNat < 2 ^ 6) :
    (x.toUInt32 <<< 12 ||| y.toUInt32 <<< 6 ||| z.toUInt32).toNat =
      (x.toNat * 2 ^ 6 + y.toNat) * 2 ^ 6 + z.toNat := by
  have hx : (x.toUInt32 <<< 12).toNat = x.toNat * 2 ^ 12 := toNat_shiftLeft_byte x 12 (by omega)
  have hy' : (y.toUInt32 <<< 6).toNat = y.toNat * 2 ^ 6 := toNat_shiftLeft_byte y 6 (by omega)
  have hxy : x.toNat * 2 ^ 12 ||| y.toNat * 2 ^ 6 = x.toNat * 2 ^ 12 + y.toNat * 2 ^ 6 :=
    or_eq_add (Nat.dvd_mul_left _ _) (by omega)
  rw [UInt32.toNat_or, UInt32.toNat_or, hx, hy', UInt8.toNat_toUInt32, hxy,
    or_eq_add (k := 6) (by omega) hz]
  omega

lemma toNat_bits_four (hy : y.toNat < 2 ^ 6) (hz : z.toNat < 2 ^ 6) (ht : t.toNat < 2 ^ 6) :
    (x.toUInt32 <<< 18 ||| y.toUInt32 <<< 12 ||| z.toUInt32 <<< 6 ||| t.toUInt32).toNat =
      ((x.toNat * 2 ^ 6 + y.toNat) * 2 ^ 6 + z.toNat) * 2 ^ 6 + t.toNat := by
  have hx : (x.toUInt32 <<< 18).toNat = x.toNat * 2 ^ 18 := toNat_shiftLeft_byte x 18 (by omega)
  have hy' : (y.toUInt32 <<< 12).toNat = y.toNat * 2 ^ 12 := toNat_shiftLeft_byte y 12 (by omega)
  have hz' : (z.toUInt32 <<< 6).toNat = z.toNat * 2 ^ 6 := toNat_shiftLeft_byte z 6 (by omega)
  have hxy : x.toNat * 2 ^ 18 ||| y.toNat * 2 ^ 12 = x.toNat * 2 ^ 18 + y.toNat * 2 ^ 12 :=
    or_eq_add (Nat.dvd_mul_left _ _) (by omega)
  have hxyz : (x.toNat * 2 ^ 18 + y.toNat * 2 ^ 12) ||| z.toNat * 2 ^ 6 =
      x.toNat * 2 ^ 18 + y.toNat * 2 ^ 12 + z.toNat * 2 ^ 6 :=
    or_eq_add (k := 12) (by omega) (by omega)
  rw [UInt32.toNat_or, UInt32.toNat_or, UInt32.toNat_or, hx, hy', hz', UInt8.toNat_toUInt32, hxy,
    hxyz, or_eq_add (k := 6) (by omega) ht]
  omega

end Bits

/-- What a lead byte with two or more bytes tells, and its part of the code point. -/
lemma lead_bits (n : ℕ) :
    (n < 0x80 → UInt8.ofNat n < 0x80) ∧
    (n < 0x20 → ¬ UInt8.ofNat (n + 0xC0) < 0x80 ∧ UInt8.ofNat (n + 0xC0) &&& 0xE0 = 0xC0 ∧
      (UInt8.ofNat (n + 0xC0) &&& 0x1F).toNat = n) ∧
    (n < 0x10 → ¬ UInt8.ofNat (n + 0xE0) < 0x80 ∧ ¬ UInt8.ofNat (n + 0xE0) &&& 0xE0 = 0xC0 ∧
      UInt8.ofNat (n + 0xE0) &&& 0xF0 = 0xE0 ∧ (UInt8.ofNat (n + 0xE0) &&& 0x0F).toNat = n) ∧
    (n < 0x08 → ¬ UInt8.ofNat (n + 0xF0) < 0x80 ∧ ¬ UInt8.ofNat (n + 0xF0) &&& 0xE0 = 0xC0 ∧
      ¬ UInt8.ofNat (n + 0xF0) &&& 0xF0 = 0xE0 ∧ UInt8.ofNat (n + 0xF0) &&& 0xF8 = 0xF0 ∧
      (UInt8.ofNat (n + 0xF0) &&& 0x07).toNat = n) := by
  refine ⟨?_, ?_, ?_, ?_⟩
  · revert n
    decide +kernel
  · revert n
    decide +kernel
  · revert n
    decide +kernel
  · revert n
    decide +kernel

/-- The part of a continuation byte. -/
lemma toNat_continuation {n : ℕ} (h : n < 0x40) :
    (UInt8.ofNat (n + 0x80) &&& 0x3F).toNat = n := by
  revert n
  decide +kernel

/-! ### Decoding a code word -/

namespace InMemory

section Word

variable {str : Bytes} {pos x y z t : ℕ} {v : UInt32}

lemma utf8Decode_one (hx : x < 0x80) (h0 : readByte str pos = .ok (UInt8.ofNat x))
    (hv : v.toNat = x) : utf8Decode str pos 1 = .ok (some (1, v)) := by
  have hcode : (UInt8.ofNat x).toUInt32 = v := by
    rw [← UInt32.toNat_inj, UInt8.toNat_toUInt32, UInt8.toNat_ofNat', hv]
    omega
  rw [utf8Decode, if_neg Nat.one_ne_zero, h0, ok_bind, if_pos ((lead_bits x).1 hx), hcode]
  rfl

lemma utf8Decode_two (hx : x < 0x20) (hy : y < 0x40)
    (h0 : readByte str pos = .ok (UInt8.ofNat (x + 0xC0)))
    (h1 : readByte str (pos + 1) = .ok (UInt8.ofNat (y + 0x80)))
    (hv : v.toNat = x * 2 ^ 6 + y) : utf8Decode str pos 2 = .ok (some (2, v)) := by
  obtain ⟨hlow, hlead, hbits⟩ := (lead_bits x).2.1 hx
  have hcode : ((UInt8.ofNat (x + 0xC0) &&& 0x1F).toUInt32 <<< 6 |||
      (UInt8.ofNat (y + 0x80) &&& 0x3F).toUInt32) = v := by
    have hy' := toNat_continuation hy
    rw [← UInt32.toNat_inj, toNat_bits_two (hy'.trans_lt hy), hbits, hy', hv]
  rw [utf8Decode, if_neg (Nat.succ_ne_zero 1), h0, ok_bind, if_neg hlow, if_pos hlead,
    if_neg (Nat.lt_irrefl 2), h1, ok_bind, hcode]
  rfl

lemma utf8Decode_three (hx : x < 0x10) (hy : y < 0x40) (hz : z < 0x40)
    (h0 : readByte str pos = .ok (UInt8.ofNat (x + 0xE0)))
    (h1 : readByte str (pos + 1) = .ok (UInt8.ofNat (y + 0x80)))
    (h2 : readByte str (pos + 2) = .ok (UInt8.ofNat (z + 0x80)))
    (hv : v.toNat = (x * 2 ^ 6 + y) * 2 ^ 6 + z) :
    utf8Decode str pos 3 = .ok (some (3, v)) := by
  obtain ⟨hlow, hlead2, hlead, hbits⟩ := (lead_bits x).2.2.1 hx
  have hcode : ((UInt8.ofNat (x + 0xE0) &&& 0x0F).toUInt32 <<< 12 |||
      (UInt8.ofNat (y + 0x80) &&& 0x3F).toUInt32 <<< 6 |||
      (UInt8.ofNat (z + 0x80) &&& 0x3F).toUInt32) = v := by
    have hy' := toNat_continuation hy
    have hz' := toNat_continuation hz
    rw [← UInt32.toNat_inj, toNat_bits_three (hy'.trans_lt hy) (hz'.trans_lt hz), hbits, hy', hz',
      hv]
  rw [utf8Decode, if_neg (Nat.succ_ne_zero 2), h0, ok_bind, if_neg hlow, if_neg hlead2,
    if_pos hlead, if_neg (Nat.lt_irrefl 3), h1, ok_bind, h2, ok_bind, hcode]
  rfl

lemma utf8Decode_four (hx : x < 0x08) (hy : y < 0x40) (hz : z < 0x40) (ht : t < 0x40)
    (h0 : readByte str pos = .ok (UInt8.ofNat (x + 0xF0)))
    (h1 : readByte str (pos + 1) = .ok (UInt8.ofNat (y + 0x80)))
    (h2 : readByte str (pos + 2) = .ok (UInt8.ofNat (z + 0x80)))
    (h3 : readByte str (pos + 3) = .ok (UInt8.ofNat (t + 0x80)))
    (hv : v.toNat = ((x * 2 ^ 6 + y) * 2 ^ 6 + z) * 2 ^ 6 + t) :
    utf8Decode str pos 4 = .ok (some (4, v)) := by
  obtain ⟨hlow, hlead2, hlead3, hlead, hbits⟩ := (lead_bits x).2.2.2 hx
  have hcode : ((UInt8.ofNat (x + 0xF0) &&& 0x07).toUInt32 <<< 18 |||
      (UInt8.ofNat (y + 0x80) &&& 0x3F).toUInt32 <<< 12 |||
      (UInt8.ofNat (z + 0x80) &&& 0x3F).toUInt32 <<< 6 |||
      (UInt8.ofNat (t + 0x80) &&& 0x3F).toUInt32) = v := by
    have hy' := toNat_continuation hy
    have hz' := toNat_continuation hz
    have ht' := toNat_continuation ht
    rw [← UInt32.toNat_inj, toNat_bits_four (hy'.trans_lt hy) (hz'.trans_lt hz) (ht'.trans_lt ht),
      hbits, hy', hz', ht', hv]
  rw [utf8Decode, if_neg (Nat.succ_ne_zero 3), h0, ok_bind, if_neg hlow, if_neg hlead2,
    if_neg hlead3, if_pos hlead, if_neg (Nat.lt_irrefl 4), h1, ok_bind, h2, ok_bind, h3, ok_bind,
    hcode]
  rfl

end Word

/-- Decoding the bytes of a character gives its code point. -/
lemma utf8Decode_word (c : CodePoint) {str : Bytes} {pos : ℕ}
    (h : ∀ j (hj : j < (utf8.word c).length), readByte str (pos + j) = .ok (utf8.word c)[j]) :
    utf8Decode str pos (utf8.word c).length =
      .ok (some ((utf8.word c).length, c.val)) := by
  have hv : c.1.val.toNat = c.toNat := rfl
  have hlt := c.toNat_lt
  have hcode := c.toNat_val
  generalize hw : utf8.word c = w at h ⊢
  change String.utf8EncodeChar c.1 = w at hw
  unfold String.utf8EncodeChar at hw
  simp only [hv] at hw
  split_ifs at hw with h1 h2 h3
  · subst hw
    apply utf8Decode_one _ (h 0 (by simp))
    · exact hcode
    · omega
  · subst hw
    apply utf8Decode_two _ _ (h 0 (by simp)) (h 1 (by simp)) <;> omega
  · subst hw
    apply utf8Decode_three _ _ _ (h 0 (by simp)) (h 1 (by simp)) (h 2 (by simp)) <;> omega
  · subst hw
    apply utf8Decode_four _ _ _ _ (h 0 (by simp)) (h 1 (by simp)) (h 2 (by simp))
      (h 3 (by simp)) <;> omega

section Encoded

variable {cs : List CodePoint} {i : ℕ}

lemma length_word_eq (h : i < cs.length) :
    (utf8.word cs[i]).length = utf8CharLength (byteAt (utf8.encode cs) (utf8.offset cs i)) := by
  have hnext := offset_add_utf8CharLength h
  rw [utf8.offset_succ h] at hnext
  omega

/-- What the loops over a text find at a character. -/
lemma utf8Decode_encode (h : i < cs.length) :
    utf8Decode (CStr.toMemory (utf8.encode cs)) (utf8.offset cs i)
        (utf8CharLength (byteAt (utf8.encode cs) (utf8.offset cs i))) =
      .ok (some (utf8CharLength (byteAt (utf8.encode cs) (utf8.offset cs i)), cs[i].val)) := by
  rw [← length_word_eq h]
  apply utf8Decode_word
  intro j hj
  have hin : utf8.offset cs i + j ≤ (utf8.encode cs).length := by
    have hle := utf8.offset_le cs (i + 1)
    rw [utf8.offset_succ h] at hle
    omega
  rw [readByte_toMemory hin, byteAt_offset_add h hj]

end Encoded

end InMemory

end Vjft.Term

import Vjft.Memory
import Vjft.Term.Hex
import Mathlib.Data.List.Induction

/-!
# The buffer of `int_to_hex` (`term/event.c`)

`int_to_hex` writes the digits of a number from the end of a block of nine bytes on and moves them
to its front. What stands there in the end is the string that `intToHex` tells.
-/

namespace Vjft.Term

/-- `block[i] = b` -/
def writeByte (block : Bytes) (i : ℕ) (b : UInt8) : Except Stop Bytes := do
  require (i < block.length) .outOfBounds
  pure (block.set i b)

namespace InMemory

/-- The block that is returned, given the nine bytes that `malloc` found for it, if it did. -/
def intToHex (memory : Option Bytes) (value : ℤ) : Except Stop Bytes := do
  let hex ← orStop memory .null
  let p := hex.length - 1
  let hex ← writeByte hex p 0
  let (hex, p) ← digits 8 (value % 2 ^ 32).toNat hex p
  if p ≠ 0 then slide hex.length hex p 0 else pure hex
where
  /-- `do ... while (num)`; eight rounds exhaust an `unsigned int`. -/
  digits : ℕ → ℕ → Bytes → ℕ → Except Stop (Bytes × ℕ)
  | 0, _, _, _ => .error .outOfBounds
  | n + 1, num, hex, p => do
    let digit := num &&& 0xF
    require (0 < p) .outOfBounds
    let p := p - 1
    let hex ← writeByte hex p (hexDigit digit)
    let num := num >>> 4
    if num ≠ 0 then digits n num hex p else pure (hex, p)
  /-- `while (*p) *start++ = *p++; *start = '\0';` -/
  slide : ℕ → Bytes → ℕ → ℕ → Except Stop Bytes
  | 0, _, _, _ => .error .outOfBounds
  | n + 1, hex, p, start => do
    let b ← readByte hex p
    if b ≠ 0 then do
      let hex ← writeByte hex start b
      slide n hex (p + 1) (start + 1)
    else writeByte hex start 0

end InMemory

/-! ### Digits -/

/-- The value of the digits `ds`, the first one being the highest. -/
def hexNum (ds : List ℕ) : ℕ := ds.foldl (fun num d => num * 16 + d) 0

@[simp] lemma hexNum_concat (ds : List ℕ) (d : ℕ) : hexNum (ds ++ [d]) = hexNum ds * 16 + d := by
  simp [hexNum]

lemma hexNum_concat_mod (ds : List ℕ) {d : ℕ} (hd : d < 16) : hexNum (ds ++ [d]) % 16 = d := by
  rw [hexNum_concat, Nat.mul_add_mod_self_right, Nat.mod_eq_of_lt hd]

lemma hexNum_concat_div (ds : List ℕ) {d : ℕ} (hd : d < 16) :
    hexNum (ds ++ [d]) / 16 = hexNum ds := by
  rw [hexNum_concat]
  omega

/-- At least one digit, and no zero in front of another one. -/
structure IsNumeral (ds : List ℕ) : Prop where
  lt : ∀ d ∈ ds, d < 16
  ne_nil : ds ≠ []
  eq_zero : ds.head? = some 0 → ds = [0]

lemma hexNum_lt {ds : List ℕ} (h : ∀ d ∈ ds, d < 16) : hexNum ds < 16 ^ ds.length := by
  induction ds using List.reverseRecOn with
  | nil => simp [hexNum]
  | append_singleton ds d ih =>
    have hds := ih fun d hd => h d (List.mem_append_left _ hd)
    have hd := h d List.mem_concat_self
    rw [hexNum_concat, List.length_append, List.length_singleton, pow_succ]
    omega

/-- A numeral of more than one digit is not that of zero. -/
lemma hexNum_pos {ds : List ℕ} (hne : ds ≠ []) (hhead : ds.head? ≠ some 0) : 0 < hexNum ds := by
  induction ds using List.reverseRecOn with
  | nil => exact absurd rfl hne
  | append_singleton ds d ih =>
    rw [hexNum_concat]
    cases ds with
    | nil =>
      have hd : d ≠ 0 := fun h0 => hhead (by simp [h0])
      omega
    | cons c ds =>
      have := ih (List.cons_ne_nil c ds) (by simpa using hhead)
      omega

lemma IsNumeral.of_concat {ds : List ℕ} {d : ℕ} (h : IsNumeral (ds ++ [d])) (hne : ds ≠ []) :
    IsNumeral ds ∧ 0 < hexNum ds := by
  have hhead : ds.head? ≠ some 0 := by
    intro h0
    have hzero := h.eq_zero (by rw [List.head?_append, h0]; rfl)
    have hlen := congrArg List.length hzero
    rw [List.length_append, List.length_singleton, List.length_singleton] at hlen
    exact hne (List.length_eq_zero_iff.mp (by omega))
  exact ⟨⟨fun d hd => h.lt d (List.mem_append_left _ hd), hne, fun h0 => absurd h0 hhead⟩,
    hexNum_pos hne hhead⟩

lemma IsNumeral.concat {ds : List ℕ} {d : ℕ} (h : IsNumeral ds) (hd : d < 16)
    (hpos : 0 < hexNum ds) : IsNumeral (ds ++ [d]) := by
  refine ⟨?_, by simp, ?_⟩
  · intro c hc
    rcases List.mem_append.mp hc with hc | hc
    · exact h.lt c hc
    · exact List.mem_singleton.mp hc ▸ hd
  · intro h0
    have hhead : ds.head? = some 0 := by
      cases ds with
      | nil => exact absurd rfl h.ne_nil
      | cons c ds => exact h0
    rw [h.eq_zero hhead] at hpos
    exact absurd hpos (by decide)

lemma and_fifteen (num : ℕ) : num &&& 0xF = num % 16 := Nat.and_two_pow_sub_one_eq_mod num 4

lemma shiftRight_four (num : ℕ) : num >>> 4 = num / 16 := Nat.shiftRight_eq_div_pow num 4

/-- The digits of a number are those of its numeral. -/
lemma intToHex_loop_hexNum {n : ℕ} {ds : List ℕ} (h : IsNumeral ds) (hlen : ds.length ≤ n)
    (hex : CStr) : intToHex.loop n (hexNum ds) hex = ds.map hexDigit ++ hex := by
  induction ds using List.reverseRecOn generalizing n hex with
  | nil => exact absurd rfl h.ne_nil
  | append_singleton ds d ih =>
    have hd := h.lt d List.mem_concat_self
    rw [List.length_append, List.length_singleton] at hlen
    cases n with
    | zero => omega
    | succ n =>
      rw [intToHex.loop, and_fifteen, shiftRight_four, hexNum_concat_mod ds hd,
        hexNum_concat_div ds hd]
      by_cases hne : ds = []
      · subst hne
        rw [if_pos (show hexNum [] = 0 from rfl)]
        rfl
      · obtain ⟨hds, hpos⟩ := h.of_concat hne
        rw [if_neg hpos.ne', ih hds (by omega), List.map_append, List.append_assoc]
        rfl

/-- Every number has a numeral. -/
lemma exists_isNumeral (n : ℕ) {num : ℕ} (h : num < 16 ^ (n + 1)) :
    ∃ ds, IsNumeral ds ∧ ds.length ≤ n + 1 ∧ hexNum ds = num := by
  induction n generalizing num with
  | zero => exact ⟨[num], ⟨by simpa using h, by simp, by simp⟩, le_rfl, by simp [hexNum]⟩
  | succ n ih =>
    by_cases hsmall : num < 16
    · exact ⟨[num], ⟨by simpa using hsmall, by simp, by simp⟩, by simp, by simp [hexNum]⟩
    · have hdiv : num / 16 < 16 ^ (n + 1) := by
        rw [Nat.div_lt_iff_lt_mul (by omega), ← pow_succ]
        exact h
      obtain ⟨ds, hds, hlen, hnum⟩ := ih hdiv
      refine ⟨ds ++ [num % 16], hds.concat (Nat.mod_lt _ (by omega)) ?_, ?_, ?_⟩
      · rw [hnum]
        omega
      · rw [List.length_append, List.length_singleton]
        omega
      · rw [hexNum_concat, hnum]
        omega

/-! ### The block -/

namespace InMemory

lemma writeByte_middle (front tail : Bytes) (x b : UInt8) :
    writeByte (front ++ x :: tail) front.length b = .ok (front ++ b :: tail) := by
  rw [writeByte, require_of_pos (by simp), ok_bind, List.set_append_right _ _ le_rfl,
    Nat.sub_self, List.set_cons_zero]
  rfl

/-- The digits are written in front of `tail`, the last one first. -/
lemma digits_hexNum {n : ℕ} {ds : List ℕ} (h : IsNumeral ds) (hlen : ds.length ≤ n)
    {front : Bytes} (hfront : ds.length ≤ front.length) (tail : Bytes) :
    intToHex.digits n (hexNum ds) (front ++ tail) front.length =
      .ok (front.take (front.length - ds.length) ++ ds.map hexDigit ++ tail,
        front.length - ds.length) := by
  induction ds using List.reverseRecOn generalizing n front tail with
  | nil => exact absurd rfl h.ne_nil
  | append_singleton ds d ih =>
    have hd := h.lt d List.mem_concat_self
    rw [List.length_append, List.length_singleton] at hlen hfront
    obtain rfl | ⟨front, x, rfl⟩ := List.eq_nil_or_concat' front
    · exact absurd hfront (by simp)
    rw [List.length_append, List.length_singleton] at hfront ⊢
    cases n with
    | zero => omega
    | succ n =>
      rw [intToHex.digits, and_fifteen, shiftRight_four, hexNum_concat_mod ds hd,
        hexNum_concat_div ds hd, require_of_pos (Nat.succ_pos _), ok_bind, Nat.add_sub_cancel,
        List.append_assoc, List.singleton_append]
      dsimp only
      rw [writeByte_middle, ok_bind]
      have hsub : front.length + 1 - (ds.length + 1) = front.length - ds.length := by omega
      have htake : (front ++ [x]).take (front.length - ds.length) =
          front.take (front.length - ds.length) :=
        List.take_append_of_le_length (Nat.sub_le _ _)
      rw [List.length_append, List.length_singleton, hsub, htake, List.map_append,
        List.map_singleton]
      by_cases hne : ds = []
      · subst hne
        rw [if_neg (fun h0 => h0 rfl)]
        simp
        rfl
      · obtain ⟨hds, hpos⟩ := h.of_concat hne
        rw [if_pos hpos.ne', ih hds (by omega) (by omega)]
        simp

lemma readByte_of_drop {mem t : Bytes} {p : ℕ} {b : UInt8} (h : mem.drop p = b :: t) :
    readByte mem p = .ok b := by
  have hget : (mem.drop p)[0]? = some b := by rw [h, List.getElem?_cons_zero]
  rw [List.getElem?_drop, Nat.add_zero] at hget
  rw [readByte, hget, orStop_some]

lemma writeByte_of_lt {block : Bytes} {i : ℕ} (h : i < block.length) (b : UInt8) :
    writeByte block i b = .ok (block.set i b) := by
  rw [writeByte, require_of_pos h, ok_bind]
  rfl

lemma take_succ_set {block : Bytes} {i : ℕ} (h : i < block.length) (b : UInt8) :
    (block.set i b).take (i + 1) = block.take i ++ [b] := by
  have hlen : (block.take i).length = i := List.length_take_of_le h.le
  rw [List.set_eq_take_append_cons_drop, if_pos h, List.take_append, hlen,
    List.take_of_length_le (by omega), Nat.add_sub_cancel_left, List.take_succ_cons,
    List.take_zero]

/-- The string at `p` is moved to `start`, and what is in front of that stays. Writing stays behind
reading. -/
lemma slide_eq {n p start : ℕ} {hex s tail : Bytes} (hs : 0 ∉ s) (hn : s.length < n)
    (hstart : start < p) (hp : hex.drop p = s ++ 0 :: tail) :
    ∃ tail', intToHex.slide n hex p start = .ok (hex.take start ++ s ++ 0 :: tail') := by
  induction s generalizing n p start hex with
  | nil =>
    have hlen := congrArg List.length hp
    rw [List.length_drop, List.nil_append, List.length_cons] at hlen
    have hin : start < hex.length := by omega
    cases n with
    | zero => exact absurd hn (Nat.not_lt_zero _)
    | succ n =>
      rw [intToHex.slide, readByte_of_drop hp, ok_bind, if_neg (fun h0 => h0 rfl),
        writeByte_of_lt hin, List.set_eq_take_append_cons_drop, if_pos hin, List.append_nil]
      exact ⟨_, rfl⟩
  | cons b s ih =>
    have hlen := congrArg List.length hp
    rw [List.length_drop, List.length_append, List.length_cons, List.length_cons] at hlen
    have hin : start < hex.length := by omega
    rw [List.mem_cons, not_or] at hs
    cases n with
    | zero => exact absurd hn (Nat.not_lt_zero _)
    | succ n =>
      have hrest : (hex.set start b).drop (p + 1) = s ++ 0 :: tail := by
        rw [List.drop_set_of_lt (show start < p + 1 by omega), ← List.drop_drop, hp]
        rfl
      obtain ⟨tail', hslide⟩ := ih hs.2 (Nat.lt_of_succ_lt_succ hn)
        (Nat.succ_lt_succ hstart) hrest
      refine ⟨tail', ?_⟩
      rw [intToHex.slide, readByte_of_drop hp, ok_bind, if_pos (Ne.symm hs.1),
        writeByte_of_lt hin, ok_bind, hslide, take_succ_set hin]
      simp

lemma zero_notMem_map_hexDigit {ds : List ℕ} (h : ∀ d ∈ ds, d < 16) : 0 ∉ ds.map hexDigit := by
  have key : ∀ d < 16, hexDigit d ≠ 0 := by decide +kernel
  intro hmem
  obtain ⟨d, hd, h0⟩ := List.mem_map.mp hmem
  exact key d (h d hd) h0

/-- All writes are inside of the block, and the string that is left in it is that of the digits. -/
lemma intToHex_hexNum {memory : Bytes} (hmemory : memory.length = 9) {ds : List ℕ}
    (h : IsNumeral ds) (hlen : ds.length ≤ 8) {v : ℤ} (hv : (v % 2 ^ 32).toNat = hexNum ds) :
    ∃ hex, intToHex (some memory) v = .ok hex ∧ cString hex = .ok (ds.map hexDigit) := by
  obtain rfl | ⟨front, x, rfl⟩ := List.eq_nil_or_concat' memory
  · exact absurd hmemory (by decide)
  rw [List.length_append, List.length_singleton] at hmemory
  have hfront : front.length = 8 := by omega
  have hnul := zero_notMem_map_hexDigit h.lt
  rw [intToHex, orStop_some, ok_bind]
  dsimp only
  rw [List.length_append, List.length_singleton, Nat.add_sub_cancel, writeByte_middle, ok_bind,
    hv, digits_hexNum h hlen (by omega), ok_bind]
  dsimp only
  rw [List.append_assoc]
  have htake : (front.take (front.length - ds.length)).length = front.length - ds.length :=
    List.length_take_of_le (Nat.sub_le _ _)
  by_cases hp : front.length - ds.length = 0
  · rw [if_neg (not_not.mpr hp), hp, List.take_zero, List.nil_append]
    exact ⟨_, rfl, cString_eq_ok_iff.mpr ⟨hnul, [], rfl⟩⟩
  · have hdrop : (front.take (front.length - ds.length) ++ (ds.map hexDigit ++ [0])).drop
        (front.length - ds.length) = ds.map hexDigit ++ 0 :: [] := by
      rw [List.drop_append, htake, Nat.sub_self, List.drop_zero,
        List.drop_of_length_le htake.le, List.nil_append]
    have hrounds : (ds.map hexDigit).length <
        (front.take (front.length - ds.length) ++ (ds.map hexDigit ++ [0])).length := by
      simp only [List.length_append, List.length_singleton]
      omega
    obtain ⟨tail', hslide⟩ := slide_eq hnul hrounds (Nat.pos_of_ne_zero hp) hdrop
    rw [if_pos hp, hslide, List.take_zero, List.nil_append]
    exact ⟨_, rfl, cString_eq_ok_iff.mpr ⟨hnul, tail', rfl⟩⟩

end InMemory

/-! ### Storing positions -/

/-- An upper-case hexadecimal digit. -/
def IsUpperHexDigit (c : UInt8) : Prop := (0x30 ≤ c ∧ c ≤ 0x39) ∨ (0x41 ≤ c ∧ c ≤ 0x46)

instance (c : UInt8) : Decidable (IsUpperHexDigit c) := inferInstanceAs (Decidable (_ ∨ _))

/-- One to eight upper-case hexadecimal digits without a superfluous zero in front. -/
structure IsHex (s : CStr) : Prop where
  isUpperHexDigit : ∀ c ∈ s, IsUpperHexDigit c
  ne_nil : s ≠ []
  length_le : s.length ≤ 8
  eq_zero : s.head? = some 0x30 → s = [0x30]

lemma isUpperHexDigit_iff (c : UInt8) : IsUpperHexDigit c ↔ ∃ d < 16, hexDigit d = c := by
  revert c
  exact forall_byte (by decide +kernel)

/-- Only the digit 0 is written as a zero. -/
lemma head?_map_hexDigit_iff {ds : List ℕ} (h : ∀ d ∈ ds, d < 16) :
    (ds.map hexDigit).head? = some 0x30 ↔ ds.head? = some 0 := by
  have key : ∀ d < 16, hexDigit d = 0x30 ↔ d = 0 := by decide +kernel
  cases ds with
  | nil => simp
  | cons d ds =>
    rw [List.map_cons, List.head?_cons, List.head?_cons, Option.some_inj, Option.some_inj]
    exact key d (h d List.mem_cons_self)

lemma exists_map_hexDigit_eq {s : CStr} (h : ∀ c ∈ s, IsUpperHexDigit c) :
    ∃ ds : List ℕ, (∀ d ∈ ds, d < 16) ∧ ds.map hexDigit = s := by
  induction s with
  | nil => exact ⟨[], by simp, rfl⟩
  | cons c s ih =>
    obtain ⟨d, hd, rfl⟩ := (isUpperHexDigit_iff c).mp (h c List.mem_cons_self)
    obtain ⟨ds, hds, rfl⟩ := ih fun c hc => h c (List.mem_cons_of_mem _ hc)
    exact ⟨d :: ds, by simpa using ⟨hd, hds⟩, rfl⟩

/-- The strings of hexadecimal digits are those of the numerals. -/
lemma isHex_iff {s : CStr} :
    IsHex s ↔ ∃ ds, IsNumeral ds ∧ ds.length ≤ 8 ∧ ds.map hexDigit = s := by
  constructor
  · rintro ⟨hdigit, hne, hlen, hzero⟩
    obtain ⟨ds, hds, rfl⟩ := exists_map_hexDigit_eq hdigit
    rw [List.length_map] at hlen
    rw [Ne, List.map_eq_nil_iff] at hne
    refine ⟨ds, ⟨hds, hne, ?_⟩, hlen, rfl⟩
    intro h0
    have hone := congrArg List.length (hzero ((head?_map_hexDigit_iff hds).mpr h0))
    rw [List.length_map] at hone
    obtain ⟨d, rfl⟩ := List.length_eq_one_iff.mp hone
    rw [Option.some_inj.mp h0]
  · rintro ⟨ds, h, hlen, rfl⟩
    refine ⟨?_, ?_, ?_, ?_⟩
    · intro c hc
      obtain ⟨d, hd, rfl⟩ := List.mem_map.mp hc
      exact (isUpperHexDigit_iff _).mpr ⟨d, h.lt d hd, rfl⟩
    · rw [Ne, List.map_eq_nil_iff]
      exact h.ne_nil
    · rwa [List.length_map]
    · intro h0
      rw [h.eq_zero ((head?_map_hexDigit_iff h.lt).mp h0)]
      rfl

lemma hexToInt_loop_map (ds : List ℕ) (h : ∀ d ∈ ds, d < 16) (x : ℕ) :
    hexToInt.loop (ds.map hexDigit) (toInt x) =
      toInt (ds.foldl (fun num d => num * 16 + d) x : ℕ) := by
  induction ds generalizing x with
  | nil => rfl
  | cons d ds ih =>
    rw [List.map_cons, hexToInt_loop_cons x d (h d List.mem_cons_self), List.foldl_cons]
    exact ih (fun d hd => h d (List.mem_cons_of_mem _ hd)) _

lemma hexToInt_map {ds : List ℕ} (h : ∀ d ∈ ds, d < 16) :
    hexToInt (some (ds.map hexDigit)) = toInt (hexNum ds) := by
  have hloop := hexToInt_loop_map ds h 0
  rwa [Nat.cast_zero, toInt_zero] at hloop

/-- The string for a number, in the block and as it is read there. -/
lemma intToHex_spec (v : ℤ) :
    ∃ ds, IsNumeral ds ∧ ds.length ≤ 8 ∧ (v % 2 ^ 32).toNat = hexNum ds ∧
      intToHex v = ds.map hexDigit := by
  have hlt : (v % 2 ^ 32).toNat < 16 ^ (7 + 1) := by omega
  obtain ⟨ds, hds, hlen, hnum⟩ := exists_isNumeral 7 hlt
  refine ⟨ds, hds, hlen, hnum.symm, ?_⟩
  rw [intToHex, ← hnum, intToHex_loop_hexNum hds hlen, List.append_nil]

/-- `int_to_hex` and `hex_to_int` undo each other, and `int_to_hex` writes inside of its block. -/
theorem hexToInt_inMemory :
    (∀ v, IsInt v → ∀ memory : Bytes, memory.length = 9 →
      ∃ hex, InMemory.intToHex (some memory) v = .ok hex ∧ cString hex = .ok (intToHex v) ∧
        IsHex (intToHex v) ∧ hexToInt (some (intToHex v)) = v) ∧
    ∀ s, IsHex s → ∀ memory : Bytes, memory.length = 9 →
      ∃ hex, InMemory.intToHex (some memory) (hexToInt (some s)) = .ok hex ∧
        cString hex = .ok s := by
  constructor
  · intro v hv memory hmemory
    obtain ⟨ds, hds, hlen, hnum, hspec⟩ := intToHex_spec v
    obtain ⟨hex, hhex, hs⟩ := InMemory.intToHex_hexNum hmemory hds hlen hnum
    refine ⟨hex, hhex, hspec ▸ hs, ?_, hexToInt_intToHex hv⟩
    exact isHex_iff.mpr ⟨ds, hds, hlen, hspec.symm⟩
  · intro s hs memory hmemory
    obtain ⟨ds, hds, hlen, rfl⟩ := isHex_iff.mp hs
    apply InMemory.intToHex_hexNum hmemory hds hlen
    have hlt : hexNum ds < 2 ^ 32 := by
      calc hexNum ds < 16 ^ ds.length := hexNum_lt hds.lt
        _ ≤ 16 ^ 8 := Nat.pow_le_pow_right (by omega) hlen
        _ = 2 ^ 32 := by norm_num
    have hmod : toInt (hexNum ds) % 2 ^ 32 = (hexNum ds : ℤ) := by
      have hbmod := @Int.bmod_emod (hexNum ds) (2 ^ 32)
      rw [Nat.cast_pow, Nat.cast_ofNat] at hbmod
      rw [toInt, hbmod]
      omega
    rw [hexToInt_map hds.lt, hmod, Int.toNat_natCast]

end Vjft.Term

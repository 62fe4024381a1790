import Vjft.Term.Utf8
import Mathlib.Data.Int.Basic
import Mathlib.Algebra.Order.Ring.Int
import Mathlib.Tactic.Ring

/-!
# Positions written as hexadecimal strings (`int_to_hex`, `hex_to_int` of `term/event.c`)

A command that moves the cursor far keeps the old position in the `seq` of its `Action`, as an
upper-case hexadecimal string of the 32-bit pattern of the position.
-/

namespace Vjft.Term

/-- The value an `int` holds after an operation with the exact result `x`. -/
def toInt (x : ℤ) : ℤ := Int.bmod x (2 ^ 32)

/-- The values of an `int`. -/
def IsInt (x : ℤ) : Prop := -2 ^ 31 ≤ x ∧ x < 2 ^ 31

instance (x : ℤ) : Decidable (IsInt x) := inferInstanceAs (Decidable (_ ∧ _))

/-- `(digit < 10) ? '0' + digit : 'A' + digit - 10` -/
def hexDigit (digit : ℕ) : UInt8 :=
  if digit < 10 then UInt8.ofNat (0x30 + digit) else UInt8.ofNat (0x41 + digit - 10)

/-- The digits are written from the last one on; eight rounds exhaust an `unsigned int`. -/
def intToHex (value : ℤ) : CStr := loop 8 (value % 2 ^ 32).toNat []
where
  loop : ℕ → ℕ → CStr → CStr
  | 0, _, hex => hex
  | n + 1, num, hex =>
    let digit := num &&& 0xF
    if num >>> 4 = 0 then hexDigit digit :: hex
    else loop n (num >>> 4) (hexDigit digit :: hex)

/-- The value of a hexadecimal digit of either case. -/
def hexValue (c : UInt8) : Option ℤ :=
  if 0x30 ≤ c ∧ c ≤ 0x39 then some (c.toNat - 0x30)
  else if 0x61 ≤ c ∧ c ≤ 0x66 then some (c.toNat - 0x61 + 10)
  else if 0x41 ≤ c ∧ c ≤ 0x46 then some (c.toNat - 0x41 + 10)
  else none

/-- A `NULL` string and a string with a character that is no digit give `0`. -/
def hexToInt : Option CStr → ℤ
  | none => 0
  | some hex => loop hex 0
where
  loop : CStr → ℤ → ℤ
  | [], result => result
  | c :: p, result =>
    match hexValue c with
    | some v => loop p (toInt (toInt (result * 16) + v))
    | none => 0

/-! ### Reading back what was written -/

lemma hexValue_hexDigit {d : ℕ} (h : d < 16) : hexValue (hexDigit d) = some (d : ℤ) := by
  have key : ∀ d < 16, hexValue (hexDigit d) = some (d : ℤ) := by decide +kernel
  exact key d h

lemma toInt_of_isInt {x : ℤ} (h : IsInt x) : toInt x = x := by
  obtain ⟨h1, h2⟩ := h
  exact Int.bmod_eq_of_le (by omega) (by omega)

@[simp] lemma toInt_zero : toInt 0 = 0 := by simp [toInt]

lemma toInt_emod (x : ℤ) : toInt (x % 2 ^ 32) = toInt x := by
  have h := Int.emod_bmod x (2 ^ 32)
  rwa [Nat.cast_pow, Nat.cast_ofNat] at h

/-- A round of `hex_to_int` appends a digit to the number read so far. -/
lemma toInt_append_digit (x d : ℤ) : toInt (toInt (toInt x * 16) + d) = toInt (x * 16 + d) := by
  simp only [toInt, Int.bmod_add_bmod, Int.bmod_mul_bmod]

lemma hexToInt_loop_cons (x d : ℕ) (hd : d < 16) (hex : CStr) :
    hexToInt.loop (hexDigit d :: hex) (toInt x) = hexToInt.loop hex (toInt (x * 16 + d : ℕ)) := by
  rw [hexToInt.loop, hexValue_hexDigit hd]
  simp only []
  rw [toInt_append_digit]
  push_cast
  rfl

/-- Reading the digits written for `num` in front of `hex` reaches `hex` with `num` read. -/
lemma hexToInt_loop_intToHex_loop (n num : ℕ) (hex : CStr) (h : num < 16 ^ (n + 1)) :
    hexToInt.loop (intToHex.loop (n + 1) num hex) (toInt (0 : ℕ))
      = hexToInt.loop hex (toInt num) := by
  have hand : ∀ num, num &&& 0xF = num % 16 := fun num => Nat.and_two_pow_sub_one_eq_mod num 4
  have hshift : ∀ num, num >>> 4 = num / 16 := fun num => Nat.shiftRight_eq_div_pow num 4
  induction n generalizing num hex with
  | zero =>
    have h0 : num / 16 = 0 := by omega
    rw [intToHex.loop, hand, hshift, if_pos h0, hexToInt_loop_cons _ _ (Nat.mod_lt _ (by omega))]
    congr 2
    omega
  | succ n ih =>
    rw [intToHex.loop, hand, hshift]
    split_ifs with h0
    · rw [hexToInt_loop_cons _ _ (Nat.mod_lt _ (by omega))]
      congr 2
      omega
    · have hlt : num / 16 < 16 ^ (n + 1) := by
        rw [Nat.div_lt_iff_lt_mul (by omega)]
        calc num < 16 ^ (n + 1 + 1) := h
          _ = 16 ^ (n + 1) * 16 := pow_succ _ _
      rw [ih (num / 16) _ hlt, hexToInt_loop_cons _ _ (Nat.mod_lt _ (by omega))]
      congr 2
      omega

/-- A position survives being stored in an `Action`. -/
lemma hexToInt_intToHex {v : ℤ} (h : IsInt v) : hexToInt (some (intToHex v)) = v := by
  have hlt : (v % 2 ^ 32).toNat < 16 ^ (7 + 1) := by omega
  calc hexToInt (some (intToHex v))
      = hexToInt.loop (intToHex.loop (7 + 1) (v % 2 ^ 32).toNat []) (toInt (0 : ℕ)) := by
        rw [hexToInt, intToHex, Nat.cast_zero, toInt_zero]
    _ = toInt ((v % 2 ^ 32).toNat : ℤ) := by
        rw [hexToInt_loop_intToHex_loop 7 _ [] hlt, hexToInt.loop]
    _ = toInt (v % 2 ^ 32) := by rw [Int.toNat_of_nonneg (by omega)]
    _ = v := by rw [toInt_emod, toInt_of_isInt h]

end Vjft.Term

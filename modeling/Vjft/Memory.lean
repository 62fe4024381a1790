import Mathlib.Algebra.Order.Group.Nat
import Mathlib.Data.List.Basic
import Mathlib.Data.Nat.Init

/-!
# Bytes in memory

A block of memory is the list of its bytes. A function reads at offsets into the block, and a read
outside of it stops the model, since C and C++ leave its result open.
-/

namespace Vjft

abbrev Bytes := List UInt8

/-! ### Reading from memory -/

/-- The ways in which a function does not return its result. -/
inductive Stop
  /-- `return NULL` -/
  | null
  /-- `exit(-1)` -/
  | exit
  /-- `throw std::runtime_error` -/
  | runtimeError
  /-- `std::length_error`, from a `resize` to more than a vector can hold. -/
  | lengthError
  /-- A read outside the memory that the function may read; C and C++ leave the result open. -/
  | outOfBounds
  deriving DecidableEq, Repr

/-- Go on if `p` holds. -/
def require (p : Prop) [Decidable p] (stop : Stop) : Except Stop Unit :=
  if p then .ok () else .error stop

/-- Go on with the value, if there is one. -/
def orStop {α : Type*} (x : Option α) (stop : Stop) : Except Stop α :=
  match x with
  | some a => .ok a
  | none => .error stop

/-- `mem[i]` -/
def readByte (mem : Bytes) (i : ℕ) : Except Stop UInt8 := orStop mem[i]? .outOfBounds

/-- The `n` bytes from `offset` on. -/
def slice (mem : Bytes) (offset n : ℕ) : Except Stop Bytes :=
  if offset + n ≤ mem.length then .ok ((mem.drop offset).take n) else .error .outOfBounds

/-- `lo | hi << 8` -/
def u16 (lo hi : UInt8) : ℕ := lo.toNat + hi.toNat * 2 ^ 8

/-- A number of two bytes, the least significant byte first. -/
def readU16 (mem : Bytes) (offset : ℕ) : Except Stop ℕ := do
  let lo ← readByte mem offset
  let hi ← readByte mem (offset + 1)
  pure (u16 lo hi)

/-- The bytes in front of the first NUL. -/
def cString (mem : Bytes) : Except Stop Bytes :=
  if 0 ∈ mem then .ok (mem.takeWhile (· ≠ 0)) else .error .outOfBounds

@[simp] lemma require_of_pos {p : Prop} [Decidable p] {stop : Stop} (h : p) :
    require p stop = .ok () := if_pos h

lemma require_of_neg {p : Prop} [Decidable p] {stop : Stop} (h : ¬ p) :
    require p stop = .error stop := if_neg h

@[simp] lemma orStop_some {α : Type*} (a : α) (stop : Stop) : orStop (some a) stop = .ok a := rfl

@[simp] lemma ok_bind {α β : Type} (a : α) (f : α → Except Stop β) :
    ((.ok a : Except Stop α) >>= f) = f a := rfl

@[simp] lemma error_bind {α β : Type} (stop : Stop) (f : α → Except Stop β) :
    ((.error stop : Except Stop α) >>= f) = .error stop := rfl

lemma bind_eq_ok_iff {α β : Type} {x : Except Stop α} {f : α → Except Stop β} {b : β} :
    (x >>= f) = .ok b ↔ ∃ a, x = .ok a ∧ f a = .ok b := by
  cases x with
  | error stop => simp
  | ok a => simp

lemma bind_eq_error_iff {α β : Type} {x : Except Stop α} {f : α → Except Stop β} {stop : Stop} :
    (x >>= f) = .error stop ↔ x = .error stop ∨ ∃ a, x = .ok a ∧ f a = .error stop := by
  cases x with
  | error stop => simp
  | ok a => simp

/-- A function that checks `p` does not stop there if `p` holds. -/
lemma require_bind_ne_error_iff {α : Type} {p : Prop} [Decidable p] {stop : Stop}
    {f : Unit → Except Stop α} :
    (require p stop >>= f) ≠ .error stop ↔ p ∧ f () ≠ .error stop := by
  by_cases h : p
  · simp [h]
  · rw [require_of_neg h, error_bind]
    simp [h]

lemma require_eq_ok_iff {p : Prop} [Decidable p] {stop : Stop} {u : Unit} :
    require p stop = .ok u ↔ p := by
  rw [require]
  split_ifs with h
  · simp [h]
  · simp [h]

lemma orStop_eq_ok_iff {α : Type*} {x : Option α} {stop : Stop} {a : α} :
    orStop x stop = .ok a ↔ x = some a := by
  cases x with
  | none => simp [orStop]
  | some b => simp

/-- The bytes at a place behind a known prefix. -/
lemma slice_of_prefix (before : Bytes) {mem x : Bytes} {offset n : ℕ} (h : before ++ x <+: mem)
    (hoffset : offset = before.length) (hn : n = x.length) : slice mem offset n = .ok x := by
  obtain ⟨after, rfl⟩ := h
  subst hoffset hn
  simp [slice]

lemma readByte_of_prefix (before : Bytes) {mem : Bytes} {b : UInt8} {i : ℕ}
    (h : before ++ [b] <+: mem) (hi : i = before.length) : readByte mem i = .ok b := by
  obtain ⟨after, rfl⟩ := h
  subst hi
  simp [readByte]

lemma exists_readByte_eq {mem : Bytes} {i : ℕ} (h : i < mem.length) :
    ∃ b, readByte mem i = .ok b :=
  ⟨mem[i], by rw [readByte, List.getElem?_eq_getElem h, orStop_some]⟩

lemma readByte_eq_error {mem : Bytes} {i : ℕ} {stop : Stop} (h : readByte mem i = .error stop) :
    stop = .outOfBounds := by
  rw [readByte] at h
  cases hi : mem[i]? with
  | none =>
    rw [hi] at h
    exact (Except.error.inj h).symm
  | some b =>
    rw [hi] at h
    cases h

lemma exists_slice_eq {mem : Bytes} {offset n : ℕ} (h : offset + n ≤ mem.length) :
    ∃ x, slice mem offset n = .ok x := ⟨_, if_pos h⟩

lemma slice_eq_error {mem : Bytes} {offset n : ℕ} {stop : Stop}
    (h : slice mem offset n = .error stop) : stop = .outOfBounds := by
  rw [slice] at h
  split_ifs at h
  exact (Except.error.inj h).symm

/-- A byte that was read goes on from the bytes in front of it. -/
lemma take_succ_of_readByte {mem : Bytes} {i : ℕ} {b : UInt8} (h : readByte mem i = .ok b) :
    mem.take (i + 1) = mem.take i ++ [b] := by
  rw [readByte, orStop_eq_ok_iff] at h
  rw [List.take_add_one, h]
  rfl

/-- A slice that was read goes on from the bytes in front of it. -/
lemma take_add_of_slice {mem x : Bytes} {offset n : ℕ} (h : slice mem offset n = .ok x) :
    mem.take (offset + n) = mem.take offset ++ x ∧ x.length = n ∧ offset + n ≤ mem.length := by
  rw [slice] at h
  split_ifs at h with hle
  cases h
  refine ⟨List.take_add, ?_, hle⟩
  rw [List.length_take, List.length_drop]
  omega

lemma takeWhile_terminated {s : Bytes} (h : 0 ∉ s) (rest : Bytes) :
    (s ++ 0 :: rest).takeWhile (· ≠ 0) = s := by
  have hs : ∀ b ∈ s, decide (b ≠ 0) = true := by
    intro b hb
    apply decide_eq_true
    intro h0
    exact h (h0 ▸ hb)
  rw [List.takeWhile_append_of_pos hs, List.takeWhile_cons_of_neg (by simp), List.append_nil]

lemma cString_eq_ok_iff {mem s : Bytes} :
    cString mem = .ok s ↔ 0 ∉ s ∧ ∃ rest, mem = s ++ 0 :: rest := by
  constructor
  · intro h
    by_cases h0 : 0 ∈ mem
    · obtain ⟨t, rest, rfl, ht⟩ := List.eq_append_cons_of_mem h0
      rw [cString, if_pos h0, takeWhile_terminated ht, Except.ok.injEq] at h
      exact h ▸ ⟨ht, rest, rfl⟩
    · simp [cString, h0] at h
  · rintro ⟨h0, rest, rfl⟩
    rw [cString, if_pos (by simp), takeWhile_terminated h0]

/-- What `strlen` counts is the whole of a message when the message has no NUL and the first byte
behind it is one. -/
lemma cString_append_eq_left_iff {msg rest : Bytes} :
    cString (msg ++ rest) = .ok msg ↔ 0 ∉ msg ∧ rest.head? = some 0 := by
  rw [cString_eq_ok_iff]
  apply and_congr_right
  intro _
  simp only [List.append_cancel_left_eq]
  cases rest <;> simp

/-! ### Two-byte numbers -/

/-- The low 16 bits of a number, the least significant byte first. -/
def le16 (n : ℕ) : Bytes := [UInt8.ofNat n, UInt8.ofNat (n / 2 ^ 8)]

@[simp] lemma length_le16 (n : ℕ) : (le16 n).length = 2 := rfl

lemma u16_ofNat {n : ℕ} (h : n < 2 ^ 16) : u16 (UInt8.ofNat n) (UInt8.ofNat (n / 2 ^ 8)) = n := by
  simp only [u16, UInt8.toNat_ofNat']
  omega

lemma u16_lt (lo hi : UInt8) : u16 lo hi < 2 ^ 16 := by
  have hlo := lo.toNat_lt
  have hhi := hi.toNat_lt
  rw [u16]
  omega

lemma le16_u16 (lo hi : UInt8) : le16 (u16 lo hi) = [lo, hi] := by
  have hlo := lo.toNat_lt
  have hlow : UInt8.ofNat (u16 lo hi) = lo := by
    rw [← UInt8.toNat_inj, UInt8.toNat_ofNat', u16]
    omega
  have hhigh : UInt8.ofNat (u16 lo hi / 2 ^ 8) = hi := by
    have hhi := hi.toNat_lt
    rw [← UInt8.toNat_inj, UInt8.toNat_ofNat', u16]
    omega
  rw [le16, hlow, hhigh]

lemma readU16_of_prefix (before : Bytes) {mem : Bytes} {offset n : ℕ} (h : before ++ le16 n <+: mem)
    (hoffset : offset = before.length) (hn : n < 2 ^ 16) : readU16 mem offset = .ok n := by
  obtain ⟨after, rfl⟩ := h
  have hlo : readByte (before ++ le16 n ++ after) offset = .ok (UInt8.ofNat n) :=
    readByte_of_prefix before ⟨UInt8.ofNat (n / 2 ^ 8) :: after, by simp [le16]⟩ hoffset
  have hhi : readByte (before ++ le16 n ++ after) (offset + 1)
      = .ok (UInt8.ofNat (n / 2 ^ 8)) :=
    readByte_of_prefix (before ++ [UInt8.ofNat n]) ⟨after, by simp [le16]⟩
      (by simp [hoffset])
  rw [readU16, hlo, ok_bind, hhi, ok_bind, u16_ofNat hn]
  rfl

lemma exists_readU16_eq {mem : Bytes} {offset : ℕ} (h : offset + 2 ≤ mem.length) :
    ∃ n, readU16 mem offset = .ok n := by
  obtain ⟨lo, hlo⟩ := exists_readByte_eq (show offset < mem.length by omega)
  obtain ⟨hi, hhi⟩ := exists_readByte_eq (show offset + 1 < mem.length by omega)
  refine ⟨u16 lo hi, ?_⟩
  rw [readU16, hlo, ok_bind, hhi]
  rfl

lemma readU16_eq_error {mem : Bytes} {offset : ℕ} {stop : Stop}
    (h : readU16 mem offset = .error stop) : stop = .outOfBounds := by
  rw [readU16, bind_eq_error_iff] at h
  rcases h with h | ⟨lo, -, h⟩
  · exact readByte_eq_error h
  · rw [bind_eq_error_iff] at h
    rcases h with h | ⟨hi, -, h⟩
    · exact readByte_eq_error h
    · cases h

lemma take_add_two_of_readU16 {mem : Bytes} {offset n : ℕ} (h : readU16 mem offset = .ok n) :
    mem.take (offset + 2) = mem.take offset ++ le16 n ∧ n < 2 ^ 16 := by
  simp only [readU16, bind_eq_ok_iff] at h
  obtain ⟨lo, hlo, hi, hhi, h⟩ := h
  cases h
  refine ⟨?_, u16_lt lo hi⟩
  rw [take_succ_of_readByte hhi, take_succ_of_readByte hlo, le16_u16, List.append_assoc]
  rfl

end Vjft

import Vjft.Srv.Crypt
import Vjft.Term.Crypt
import Mathlib.Algebra.Order.Floor.Div

/-!
# Splitting into chunks (`split_buffer` of `term/crypt.c`, `split_vec` of `srv/Utils.cpp`)

Both clients encrypt an envelope in chunks of one size. The terminal client fills the last chunk up
with zeros, the other one leaves it short.
-/

namespace Vjft

open Srv (splitVec)
open Term (splitBuffer)

/-- `*num_chunks` -/
def numChunks (buffer : Bytes) (chunkSize : ℕ) : ℕ :=
  let numChunks := buffer.length / chunkSize
  if buffer.length % chunkSize ≠ 0 then numChunks + 1 else numChunks

/-- `split_buffer` with its calls of `malloc`: `memory i` tells whether the one with number `i` gets
a block. The first one is for the array of the chunks, and `none` stands for `NULL`. -/
def splitBufferIn (memory : ℕ → Bool) (buffer : Bytes) (chunkSize : ℕ) : Option (List Bytes) :=
  if chunkSize = 0 then none
  else if memory 0 then loop (numChunks buffer chunkSize) 1 0
  else none
where
  loop : ℕ → ℕ → ℕ → Option (List Bytes)
  | 0, _, _ => some []
  | k + 1, i, offset =>
    if memory i then
      let bytesToCopy :=
        if offset + chunkSize > buffer.length then buffer.length - offset else chunkSize
      let copied := (buffer.drop offset).take bytesToCopy
      let chunk := if bytesToCopy < chunkSize then
        copied ++ List.replicate (chunkSize - bytesToCopy) 0 else copied
      (loop k (i + 1) (offset + bytesToCopy)).map (chunk :: ·)
    else none

/-- The last chunk, if there is one, is filled up with zeros. -/
def padLast (n : ℕ) : List Bytes → List Bytes
  | [] => []
  | [chunk] => [chunk.rightpad n 0]
  | chunk :: next :: chunks => chunk :: padLast n (next :: chunks)

/-! ### Allocations -/

lemma ite_append_replicate (copied : Bytes) (m chunkSize : ℕ) :
    (if m < chunkSize then copied ++ List.replicate (chunkSize - m) 0 else copied) =
      copied ++ List.replicate (chunkSize - m) 0 := by
  split_ifs with hlt
  · rfl
  · rw [Nat.sub_eq_zero_of_le (not_lt.mp hlt), List.replicate_zero, List.append_nil]

/-- The chunks are those of `splitBuffer` if every call of `malloc` gets its block. -/
lemma splitBufferIn.loop_eq (memory : ℕ → Bool) (buffer : Bytes) (chunkSize k i offset : ℕ) :
    loop memory buffer chunkSize k i offset =
      if ∀ j < k, memory (i + j) = true then some (splitBuffer.loop buffer chunkSize k offset)
      else none := by
  induction k generalizing i offset with
  | zero => simp [loop, splitBuffer.loop]
  | succ k ih =>
    have hmemory : (∀ j < k + 1, memory (i + j) = true) ↔
        memory i = true ∧ ∀ j < k, memory (i + 1 + j) = true := by
      rw [Nat.forall_lt_succ_left, Nat.add_zero]
      simp only [Nat.add_assoc, Nat.add_comm 1]
    rw [loop, splitBuffer.loop]
    dsimp only
    generalize (if buffer.length < offset + chunkSize then buffer.length - offset
      else chunkSize) = bytesToCopy
    rw [ite_append_replicate, ih, if_congr hmemory rfl rfl]
    by_cases h0 : memory i = true
    · rw [if_pos h0]
      by_cases hrest : ∀ j < k, memory (i + 1 + j) = true
      · rw [if_pos hrest, if_pos ⟨h0, hrest⟩]
        rfl
      · rw [if_neg hrest, if_neg fun h => hrest h.2]
        rfl
    · rw [if_neg h0, if_neg fun h => h0 h.1]

lemma splitBufferIn_eq (memory : ℕ → Bool) (buffer : Bytes) {chunkSize : ℕ}
    (hsize : 0 < chunkSize) :
    splitBufferIn memory buffer chunkSize =
      if ∀ i ≤ numChunks buffer chunkSize, memory i = true then splitBuffer buffer chunkSize
      else none := by
  have hmemory : (∀ i ≤ numChunks buffer chunkSize, memory i = true) ↔
      memory 0 = true ∧ ∀ j < numChunks buffer chunkSize, memory (1 + j) = true := by
    simp only [← Nat.lt_succ_iff, Nat.succ_eq_add_one, Nat.add_comm 1]
    exact Nat.forall_lt_succ_left
  have hsplit : splitBuffer buffer chunkSize =
      some (splitBuffer.loop buffer chunkSize (numChunks buffer chunkSize) 0) := by
    rw [splitBuffer, if_neg hsize.ne']
    rfl
  rw [splitBufferIn, if_neg hsize.ne', splitBufferIn.loop_eq, hsplit, if_congr hmemory rfl rfl]
  by_cases h0 : memory 0 = true
  · simp [h0]
  · simp [h0]

/-! ### Chunks -/

lemma padLast_cons {n : ℕ} {chunk : Bytes} {chunks : List Bytes} (h : chunks ≠ []) :
    padLast n (chunk :: chunks) = chunk :: padLast n chunks := by
  cases chunks with
  | nil => exact absurd rfl h
  | cons next chunks => rfl

/-- The chunks in front of the last one are full already. -/
lemma padLast_chunksOf {n : ℕ} (hn : 0 < n) (b : Bytes) :
    padLast n (Chunks.chunksOf n b) = (Chunks.chunksOf n b).map (List.rightpad n 0) := by
  induction b using Chunks.dropInduction hn with
  | nil => rfl
  | step b hb ih =>
    rw [Chunks.chunksOf_eq_cons hn hb, List.map_cons]
    by_cases hrest : b.drop n = []
    · rw [hrest, Chunks.chunksOf_nil]
      rfl
    · have hlen : (b.take n).length = n := by
        have hpos := List.length_pos_iff.mpr hrest
        rw [List.length_drop] at hpos
        exact List.length_take_of_le (by omega)
      have hne : Chunks.chunksOf n (b.drop n) ≠ [] := by
        rw [Chunks.chunksOf_eq_cons hn hrest]
        exact List.cons_ne_nil _ _
      rw [padLast_cons hne, ih, Chunks.rightpad_of_length_eq 0 hlen]

lemma numChunks_eq_ceilDiv (b : Bytes) {n : ℕ} (hn : 0 < n) : numChunks b n = b.length ⌈/⌉ n := by
  have hdiv := Nat.div_add_mod b.length n
  have hmod := Nat.mod_lt b.length hn
  have hsum : b.length + n - 1 = b.length % n + n - 1 + n * (b.length / n) := by omega
  rw [Nat.ceilDiv_eq_add_pred_div, hsum, Nat.add_mul_div_left _ _ hn, numChunks]
  by_cases h0 : b.length % n = 0
  · have hzero : (b.length % n + n - 1) / n = 0 := Nat.div_eq_of_lt (by omega)
    rw [if_neg (not_not.mpr h0), hzero, Nat.zero_add]
  · have hone : (b.length % n + n - 1) / n = 1 := Nat.div_eq_of_lt_le (by omega) (by omega)
    rw [if_pos h0, hone, Nat.add_comm]

/-- `split_buffer`, unless it runs out of memory, makes the chunks of `split_vec` with the last one
filled up. -/
theorem splitBufferIn_splitVec (memory : ℕ → Bool) (b : Bytes) {n : ℕ} (hn : 0 < n) :
    splitBufferIn memory b n =
        (if ∀ i ≤ numChunks b n, memory i = true then some (padLast n (splitVec b n)) else none) ∧
      numChunks b n = b.length ⌈/⌉ n ∧
      (padLast n (splitVec b n)).length = b.length ⌈/⌉ n ∧
      (∀ chunk ∈ padLast n (splitVec b n), chunk.length = n) ∧
      (splitVec b n).flatten = b ∧
      (padLast n (splitVec b n)).flatten.take b.length = b := by
  have hvec : splitVec b n = Chunks.chunksOf n b := Srv.splitVec_eq_chunksOf hn
  have hpad := padLast_chunksOf hn b
  rw [hvec, hpad]
  refine ⟨?_, numChunks_eq_ceilDiv b hn, ?_, ?_, Chunks.flatten_chunksOf hn b, ?_⟩
  · rw [splitBufferIn_eq memory b hn, Term.splitBuffer_eq hn]
  · rw [List.length_map, Chunks.length_chunksOf hn, ← numChunks_eq_ceilDiv b hn]
    rfl
  · intro chunk hchunk
    obtain ⟨c, hc, rfl⟩ := List.mem_map.mp hchunk
    exact Chunks.length_rightpad_of_le 0 (Chunks.length_le_of_mem_chunksOf hn hc)
  · rw [Chunks.flatten_map_rightpad_chunksOf hn, List.take_left]

/-- Three bytes make a full chunk of two bytes and one that is filled up. -/
theorem splitBufferIn_splitVec_three :
    splitBufferIn (fun _ => true) [1, 2, 3] 2 = some [[1, 2], [3, 0]] := by
  have h := (splitBufferIn_splitVec (fun _ => true) [1, 2, 3] Nat.two_pos).1
  rw [h]
  decide

end Vjft

import Mathlib.Data.List.Count
import Mathlib.Data.List.Nodup
import Vjft.Term.Crypt

/-!
# The chunks that `decipher` frees

`decipher` of the terminal client keeps the decrypted chunks in an array of pointers and frees them
on the way out. The chunk that the `i`-th call of `decrypt_chunk` gives is called `i` here, and an
entry of the array that was not assigned is `none`. A result of `decrypt_chunk` is `NULL`, which is
`none`, or the length of the chunk.
-/

namespace Vjft.Term

/-- What became of the decrypted chunks. -/
structure ChunkBlocks where
  decryptedChunks : ℕ → Option ℕ
  /-- The chunks that `decrypt_chunk` gave. -/
  produced : List ℕ
  /-- The entries given to `free`. -/
  freed : List (Option ℕ)
  /-- The entries copied from. -/
  copied : List (Option ℕ)

namespace ChunkBlocks

/-- The entries of a new array are not assigned. -/
def start : ChunkBlocks := ⟨fun _ => none, [], [], []⟩

def produce (b : ChunkBlocks) (decChunk : ℕ) : ChunkBlocks :=
  { b with produced := b.produced ++ [decChunk] }

/-- `decrypted_chunks[i] = dec_chunk` -/
def assign (b : ChunkBlocks) (i decChunk : ℕ) : ChunkBlocks :=
  { b with decryptedChunks := Function.update b.decryptedChunks i (some decChunk) }

/-- `free(decrypted_chunks[j])` -/
def free (b : ChunkBlocks) (j : ℕ) : ChunkBlocks :=
  { b with freed := b.freed ++ [b.decryptedChunks j] }

/-- `memcpy(env + j * CHUNK_SIZE, decrypted_chunks[j], CHUNK_SIZE)` -/
def copy (b : ChunkBlocks) (j : ℕ) : ChunkBlocks :=
  { b with copied := b.copied ++ [b.decryptedChunks j] }

/-- The clean-up loop over the first `n` entries. -/
def freeChunks (b : ChunkBlocks) (n : ℕ) : ChunkBlocks := (List.range n).foldl free b

/-- The loop that merges the first `n` chunks and frees them. -/
def mergeChunks (b : ChunkBlocks) (n : ℕ) : ChunkBlocks :=
  (List.range n).foldl (fun b j => (b.copy j).free j) b

/-- The loop over `k` chunks from the `i`-th on. It may return `NULL` after a clean-up, which is
`.error`. -/
def decryptLoop (results : ℕ → Option ℕ) :
    (k i : ℕ) → ChunkBlocks → Except ChunkBlocks ChunkBlocks
  | 0, _, b => .ok b
  | k + 1, i, b =>
    match results i with
    | none => .error (b.freeChunks i)
    | some decChunkLen =>
      let b := b.produce i
      -- the entry of this chunk is not assigned yet
      if decChunkLen ≠ CHUNK_SIZE then .error (b.freeChunks (i + 1))
      else decryptLoop results k (i + 1) (b.assign i i)

/-- The blocks when `decipher` has merged the chunks or has returned `NULL` before; behind that no
entry is used. `malloc` may fail for the array and for `env`. -/
def decipherBlocks (arrayAllocated envAllocated : Bool) (packSize : ℕ) (results : ℕ → Option ℕ) :
    ChunkBlocks :=
  if arrayAllocated then
    match decryptLoop results packSize 0 start with
    | .error b => b
    | .ok b => if envAllocated then b.mergeChunks packSize else b.freeChunks packSize
  else start

/-- Every chunk is freed once, and only entries that hold a chunk are freed or copied from. -/
structure Tidy (b : ChunkBlocks) : Prop where
  freed_once : ∀ chunk ∈ b.produced, b.freed.count (some chunk) = 1
  freed_held : ∀ entry ∈ b.freed, ∃ chunk ∈ b.produced, entry = some chunk
  copied_held : ∀ entry ∈ b.copied, ∃ chunk ∈ b.produced, entry = some chunk

/-! ### The clean-up loops -/

lemma freeChunks_succ (b : ChunkBlocks) (n : ℕ) :
    b.freeChunks (n + 1) = (b.freeChunks n).free n := by
  rw [freeChunks, List.range_succ, List.foldl_append]
  rfl

lemma mergeChunks_succ (b : ChunkBlocks) (n : ℕ) :
    b.mergeChunks (n + 1) = ((b.mergeChunks n).copy n).free n := by
  rw [mergeChunks, List.range_succ, List.foldl_append]
  rfl

lemma freeChunks_eq (b : ChunkBlocks) (n : ℕ) :
    b.freeChunks n = { b with freed := b.freed ++ (List.range n).map b.decryptedChunks } := by
  induction n with
  | zero => simp [freeChunks]
  | succ n ih => rw [freeChunks_succ, ih, free, List.range_succ, List.map_append, List.append_assoc,
      List.map_singleton]

lemma mergeChunks_eq (b : ChunkBlocks) (n : ℕ) :
    b.mergeChunks n = { b with
      freed := b.freed ++ (List.range n).map b.decryptedChunks
      copied := b.copied ++ (List.range n).map b.decryptedChunks } := by
  induction n with
  | zero => simp [mergeChunks]
  | succ n ih => rw [mergeChunks_succ, ih, copy, free, List.range_succ, List.map_append,
      List.append_assoc, List.append_assoc, List.map_singleton]

/-! ### The chunk loop -/

/-- The first `i` chunks are in the array, and none was freed. -/
def held (i : ℕ) : ChunkBlocks :=
  ⟨fun j => if j < i then some j else none, List.range i, [], []⟩

@[simp] lemma held_zero : held 0 = start := by simp [held, start]

lemma assign_held (i : ℕ) : ((held i).produce i).assign i i = held (i + 1) := by
  simp only [held, produce, assign, List.range_succ, mk.injEq, and_self, and_true]
  funext j
  rw [Function.update_apply]
  split_ifs with hji hlt hlt hlt hlt
  · rw [hji]
  · omega
  · rfl
  · omega
  · omega
  · rfl

lemma map_held {i n : ℕ} (h : n ≤ i) :
    (List.range n).map (held i).decryptedChunks = (List.range n).map some := by
  apply List.map_congr_left
  intro j hj
  exact if_pos ((List.mem_range.1 hj).trans_le h)

/-- The entries whose chunks were produced are those freed. -/
lemma tidy_of_freed {b : ChunkBlocks} {n : ℕ} (hproduced : b.produced = List.range n)
    (hfreed : b.freed = (List.range n).map some) (hcopied : b.copied ⊆ b.freed) : b.Tidy := by
  have hheld : ∀ entry ∈ b.freed, ∃ chunk ∈ b.produced, entry = some chunk := by
    intro entry hentry
    rw [hfreed, List.mem_map] at hentry
    obtain ⟨chunk, hchunk, rfl⟩ := hentry
    exact ⟨chunk, hproduced ▸ hchunk, rfl⟩
  refine ⟨?_, hheld, fun entry hentry => hheld entry (hcopied hentry)⟩
  intro chunk hchunk
  rw [hproduced] at hchunk
  rw [hfreed, List.count_map_of_injective _ _ (fun _ _ => Option.some.inj),
    List.count_eq_one_of_mem List.nodup_range hchunk]

lemma tidy_start : start.Tidy := tidy_of_freed (n := 0) rfl rfl (List.nil_subset _)

lemma tidy_freeChunks_held (i : ℕ) : ((held i).freeChunks i).Tidy := by
  rw [freeChunks_eq, map_held le_rfl]
  exact tidy_of_freed rfl rfl (List.nil_subset _)

lemma tidy_mergeChunks_held (i : ℕ) : ((held i).mergeChunks i).Tidy := by
  rw [mergeChunks_eq, map_held le_rfl]
  exact tidy_of_freed rfl rfl (List.Subset.refl _)

/-- The clean-up after a chunk of another length frees an entry that was not assigned. -/
lemma not_tidy_freeChunks_succ (i : ℕ) :
    ¬ (((held i).produce i).freeChunks (i + 1)).Tidy := by
  intro h
  have hfreed : none ∈ (((held i).produce i).freeChunks (i + 1)).freed := by
    rw [freeChunks_eq, List.range_succ, List.map_append]
    simp [produce, held]
  obtain ⟨chunk, -, hnone⟩ := h.freed_held none hfreed
  cases hnone

/-- The chunks from the `i`-th to before the `n`-th on have the length of a chunk up to one that
cannot be decrypted. -/
def FailsClean (results : ℕ → Option ℕ) (n i : ℕ) : Prop :=
  ∀ m, i ≤ m → m < n → (∀ j, i ≤ j → j < m → results j = some CHUNK_SIZE) →
    ∀ decChunkLen, results m = some decChunkLen → decChunkLen = CHUNK_SIZE

lemma failsClean_self (results : ℕ → Option ℕ) (i : ℕ) : FailsClean results i i := by
  intro m hle hlt
  omega

variable {results : ℕ → Option ℕ} {n i : ℕ}

lemma failsClean_of_none (h : results i = none) : FailsClean results n i := by
  intro m hle _ hbefore decChunkLen hm
  rcases hle.eq_or_lt with rfl | hlt
  · rw [h] at hm
    cases hm
  · have hi := hbefore i le_rfl hlt
    rw [h] at hi
    cases hi

lemma failsClean_iff_succ (h : results i = some CHUNK_SIZE) :
    FailsClean results n i ↔ FailsClean results n (i + 1) := by
  constructor
  · intro hclean m hle hlt hbefore
    apply hclean m (by omega) hlt
    intro j hij hjm
    rcases hij.eq_or_lt with rfl | hij
    · exact h
    · exact hbefore j hij hjm
  · intro hclean m hle hlt hbefore decChunkLen hm
    rcases hle.eq_or_lt with rfl | hle
    · rw [h] at hm
      exact (Option.some.inj hm).symm
    · exact hclean m hle hlt (fun j hij hjm => hbefore j (by omega) hjm) decChunkLen hm

/-- The loop keeps all chunks, or it stops after a clean-up, which is tidy unless a chunk had
another length. -/
lemma decryptLoop_held (results : ℕ → Option ℕ) (k i : ℕ) :
    (decryptLoop results k i (held i) = .ok (held (i + k)) ∧ FailsClean results (i + k) i) ∨
      ∃ b, decryptLoop results k i (held i) = .error b ∧
        (b.Tidy ↔ FailsClean results (i + k) i) := by
  induction k generalizing i with
  | zero => exact .inl ⟨rfl, failsClean_self results i⟩
  | succ k ih =>
    cases hresult : results i with
    | none =>
      right
      refine ⟨(held i).freeChunks i, by simp [decryptLoop, hresult], ?_⟩
      exact iff_of_true (tidy_freeChunks_held i) (failsClean_of_none hresult)
    | some decChunkLen =>
      by_cases hlen : decChunkLen = CHUNK_SIZE
      · have hloop : decryptLoop results (k + 1) i (held i)
            = decryptLoop results k (i + 1) (held (i + 1)) := by
          simp [decryptLoop, hresult, hlen, assign_held]
        rw [hloop, failsClean_iff_succ (hlen ▸ hresult), show i + (k + 1) = i + 1 + k by omega]
        exact ih (i + 1)
      · right
        refine ⟨((held i).produce i).freeChunks (i + 1), by simp [decryptLoop, hresult, hlen], ?_⟩
        apply iff_of_false (not_tidy_freeChunks_succ i)
        intro hclean
        exact hlen (hclean i le_rfl (by omega) (fun j hij hji => by omega) decChunkLen hresult)

end ChunkBlocks

/-! ### The loop of the codec -/

/-- What `decrypt_chunk` gives for the `i`-th chunk of a pack. -/
def chunkResult (ssl : OpenSSL) (privateKey : ssl.PKey) (pack : Bytes) (i : ℕ) : Option ℕ :=
  (decryptChunk ssl ((pack.drop (2 + i * ENC_CHUNK_SIZE)).take ENC_CHUNK_SIZE) privateKey).map
    List.length

/-- `decryptChunks` has all chunks exactly when the loop over its results comes to its end. -/
lemma exists_decryptChunks_iff {ssl : OpenSSL} (privateKey : ssl.PKey) {pack : Bytes} (k i : ℕ)
    (h : 2 + (i + k) * ENC_CHUNK_SIZE ≤ pack.length) (b : ChunkBlocks) :
    (∃ decryptedChunks, decryptChunks ssl privateKey pack k i = .ok decryptedChunks) ↔
      ∃ b', ChunkBlocks.decryptLoop (chunkResult ssl privateKey pack) k i b = .ok b' := by
  induction k generalizing i b with
  | zero => exact iff_of_true ⟨[], rfl⟩ ⟨b, rfl⟩
  | succ k ih =>
    have hslice : slice pack (2 + i * ENC_CHUNK_SIZE) ENC_CHUNK_SIZE
        = .ok ((pack.drop (2 + i * ENC_CHUNK_SIZE)).take ENC_CHUNK_SIZE) := by
      apply if_pos
      rw [ENC_CHUNK_SIZE] at h ⊢
      omega
    rw [decryptChunks, hslice, ok_bind, ChunkBlocks.decryptLoop, chunkResult]
    cases hdec : decryptChunk ssl ((pack.drop (2 + i * ENC_CHUNK_SIZE)).take ENC_CHUNK_SIZE)
      privateKey with
    | none => simp [orStop]
    | some decChunk =>
      by_cases hlen : decChunk.length = CHUNK_SIZE
      · rw [orStop_some, ok_bind, require_of_pos hlen, ok_bind, Option.map_some]
        simp only [hlen, ne_eq, not_true_eq_false, if_false, bind_eq_ok_iff]
        rw [← ih (i + 1) (by rwa [Nat.add_right_comm, Nat.add_assoc])]
        constructor
        · rintro ⟨_, decryptedChunks, hok, -⟩
          exact ⟨decryptedChunks, hok⟩
        · rintro ⟨decryptedChunks, hok⟩
          exact ⟨_, decryptedChunks, hok, rfl⟩
      · simp [hlen, require_of_neg]

/-! ### What is freed -/

namespace ChunkBlocks

/-- The chunks are freed as they should be, unless one has another length. -/
lemma tidy_iff_forall (arrayAllocated envAllocated : Bool) (packSize : ℕ)
    (results : ℕ → Option ℕ) :
    (decipherBlocks arrayAllocated envAllocated packSize results).Tidy ↔
      (arrayAllocated = true → ∀ i < packSize, (∀ j < i, results j = some CHUNK_SIZE) →
        ∀ decChunkLen, results i = some decChunkLen → decChunkLen = CHUNK_SIZE) := by
  cases arrayAllocated with
  | false => simp [decipherBlocks, tidy_start]
  | true =>
    have hcond : (∀ i < packSize, (∀ j < i, results j = some CHUNK_SIZE) →
        ∀ decChunkLen, results i = some decChunkLen → decChunkLen = CHUNK_SIZE) ↔
          FailsClean results packSize 0 := by
      simp [FailsClean]
    rw [hcond, eq_self, true_imp_iff]
    have hloop := decryptLoop_held results packSize 0
    rw [held_zero, Nat.zero_add] at hloop
    rcases hloop with ⟨hok, hclean⟩ | ⟨b, herror, htidy⟩
    · apply iff_of_true _ hclean
      cases envAllocated with
      | false => simpa [decipherBlocks, hok] using tidy_freeChunks_held packSize
      | true => simpa [decipherBlocks, hok] using tidy_mergeChunks_held packSize
    · simpa [decipherBlocks, herror] using htidy

/-- `decipher` frees each chunk once, and only chunks that it holds, exactly when the first chunk
that is not decrypted to 255 bytes is one that cannot be decrypted (or when nothing is decrypted,
because the array is not allocated). With the results for the chunks of a pack, the loop comes to
its end exactly when that of the codec does. -/
theorem tidy_decipherBlocks_iff (arrayAllocated envAllocated : Bool) (packSize : ℕ)
    (results : ℕ → Option ℕ) :
    ((decipherBlocks arrayAllocated envAllocated packSize results).Tidy ↔
      (arrayAllocated = true → ∀ i < packSize, (∀ j < i, results j = some CHUNK_SIZE) →
        ∀ decChunkLen, results i = some decChunkLen → decChunkLen = CHUNK_SIZE)) ∧
    ∀ (ssl : OpenSSL) (privateKey : ssl.PKey) (pack : Bytes),
      results = chunkResult ssl privateKey pack → 2 + packSize * ENC_CHUNK_SIZE ≤ pack.length →
        ((∃ decryptedChunks, decryptChunks ssl privateKey pack packSize 0 = .ok decryptedChunks) ↔
          ∃ b, decryptLoop results packSize 0 start = .ok b) := by
  refine ⟨tidy_iff_forall arrayAllocated envAllocated packSize results, ?_⟩
  intro ssl privateKey pack hresults hlen
  rw [hresults]
  exact exists_decryptChunks_iff privateKey packSize 0 (by rwa [Nat.zero_add]) start

/-- A pack of one chunk that is decrypted to no bytes: the entry given to `free` was not assigned,
and the chunk is not freed. -/
theorem not_tidy_decipherBlocks_empty :
    ¬ (decipherBlocks true true 1 (fun _ => some 0)).Tidy := by
  intro h
  have hfreed := h.freed_once 0 (by decide)
  revert hfreed
  decide

end ChunkBlocks

end Vjft.Term

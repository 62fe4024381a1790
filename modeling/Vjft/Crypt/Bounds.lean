import Vjft.Srv.Client
import Vjft.Term.Crypt

/-!
# Reads of `decipher` outside of its buffers

A pack comes from somebody else, and so do the envelope that its chunks decrypt to and the sizes in
the envelope. The two functions look at these in different ways: the server programs do not compare
the sizes with the envelope, and the terminal client does not compare the number of chunks with the
pack.
-/

namespace Vjft

/-! ### What a pack announces -/

/-- The number of chunks that the first two bytes announce. -/
def announced (pack : Bytes) : ℕ := u16 (pack.getD 0 0) (pack.getD 1 0)

/-- The place of the `i`-th encrypted chunk. -/
def chunkStart (i : ℕ) : ℕ := 2 + i * ENC_CHUNK_SIZE

/-- The `i`-th encrypted chunk. -/
def chunkAt (pack : Bytes) (i : ℕ) : Bytes := (pack.drop (chunkStart i)).take ENC_CHUNK_SIZE

lemma chunkStart_mono : Monotone chunkStart := by
  intro i j hij
  exact Nat.add_le_add_left (Nat.mul_le_mul_right _ hij) 2

lemma readU16_zero_eq (pack : Bytes) (h : 2 ≤ pack.length) :
    readU16 pack 0 = .ok (announced pack) := by
  match pack, h with
  | lo :: hi :: _, _ => rfl

variable {ssl : OpenSSL} {privateKey publicKey : ssl.PKey} {pack : Bytes}

/-! ### The server programs -/

namespace Srv.Crypt

/-- The chunk that `decipher` appends to the envelope for an encrypted one. -/
def decrypted (ssl : OpenSSL) (privateKey : ssl.PKey) (chunk : Bytes) : Bytes :=
  resize ((Decrypt ssl chunk privateKey).getD []) CHUNK_SIZE

/-- The chunks of a pack as one envelope. -/
def envelopeOf (ssl : OpenSSL) (privateKey : ssl.PKey) (pack : Bytes) : Bytes :=
  ((List.range (announced pack)).map fun i => decrypted ssl privateKey (chunkAt pack i)).flatten

lemma readChunks_eq (k : ℕ) (it : Bytes) :
    readChunks k it =
      if k * ENC_CHUNK_SIZE ≤ it.length then
        .ok ((List.range k).map fun i => (it.drop (i * ENC_CHUNK_SIZE)).take ENC_CHUNK_SIZE)
      else .error .runtimeError := by
  induction k generalizing it with
  | zero => rw [Nat.zero_mul, if_pos (Nat.zero_le _)]; rfl
  | succ k ih =>
    have hsplit : (k + 1) * ENC_CHUNK_SIZE ≤ it.length ↔
        ENC_CHUNK_SIZE ≤ it.length ∧ k * ENC_CHUNK_SIZE ≤ (it.drop ENC_CHUNK_SIZE).length := by
      rw [Nat.succ_mul, List.length_drop]
      omega
    rw [readChunks, ih]
    by_cases hone : ENC_CHUNK_SIZE ≤ it.length
    · rw [require_of_pos hone, ok_bind]
      by_cases hrest : k * ENC_CHUNK_SIZE ≤ (it.drop ENC_CHUNK_SIZE).length
      · have hmap : ((List.range k).map fun i =>
            ((it.drop ENC_CHUNK_SIZE).drop (i * ENC_CHUNK_SIZE)).take ENC_CHUNK_SIZE) =
            (List.range k).map ((fun i => (it.drop (i * ENC_CHUNK_SIZE)).take ENC_CHUNK_SIZE) ∘
              Nat.succ) := by
          apply List.map_congr_left
          intro i _
          rw [List.drop_drop, Function.comp_apply, Nat.succ_mul, Nat.add_comm]
        rw [if_pos hrest, if_pos (hsplit.2 ⟨hone, hrest⟩), ok_bind, hmap, List.range_succ_eq_map,
          List.map_cons, List.map_map, Nat.zero_mul, List.drop_zero]
        rfl
      · rw [if_neg hrest, if_neg fun h => hrest (hsplit.1 h).2]
        rfl
    · rw [require_of_neg hone, if_neg fun h => hone (hsplit.1 h).1]
      rfl

lemma decryptChunks_eq_none_iff {encChunks : List Bytes} :
    decryptChunks ssl privateKey encChunks = none ↔
      ∃ chunk ∈ encChunks, ssl.decrypt privateKey chunk = none := by
  induction encChunks with
  | nil => simp [decryptChunks]
  | cons chunk encChunks ih =>
    cases hd : ssl.decrypt privateKey chunk with
    | none => simp [decryptChunks, Decrypt, hd]
    | some d => simp [decryptChunks, Decrypt, hd, ih]

lemma decryptChunks_eq_some {encChunks chunks : List Bytes}
    (h : decryptChunks ssl privateKey encChunks = some chunks) :
    chunks = encChunks.map (decrypted ssl privateKey) := by
  induction encChunks generalizing chunks with
  | nil =>
    cases h
    rfl
  | cons chunk encChunks ih =>
    rw [decryptChunks] at h
    cases hd : Decrypt ssl chunk privateKey with
    | none => simp [hd] at h
    | some d =>
      simp only [hd, Option.map_eq_some_iff] at h
      obtain ⟨chunks', hchunks', rfl⟩ := h
      rw [List.map_cons, ← ih hchunks', decrypted, hd, Option.getD_some]

lemma parseEnvelope_eq_error {envelope : Bytes} {stop : Stop}
    (h : parseEnvelope envelope = .error stop) : stop = .outOfBounds := by
  simp only [parseEnvelope, bind_eq_error_iff] at h
  rcases h with h | ⟨_, -, h | ⟨_, -, h | ⟨_, -, h | ⟨_, -, h | ⟨_, -, h⟩⟩⟩⟩⟩
  · exact readByte_eq_error h
  · exact readU16_eq_error h
  · exact slice_eq_error h
  · exact slice_eq_error h
  · exact slice_eq_error h
  · cases h

/-- The fields are read inside of exactly the envelopes that begin with a whole one. -/
lemma parseEnvelope_ne_outOfBounds_iff {envelope : Bytes} :
    parseEnvelope envelope ≠ .error .outOfBounds ↔ ∃ e : Envelope, e.bytes <+: envelope := by
  constructor
  · intro h
    cases hparse : parseEnvelope envelope with
    | error stop =>
      rw [hparse, parseEnvelope_eq_error hparse] at h
      exact absurd rfl h
    | ok f =>
      obtain ⟨e, he, -⟩ := parseEnvelope_eq_ok_iff.1 hparse
      exact ⟨e, he⟩
  · rintro ⟨e, he⟩ h
    rw [parseEnvelope_eq_ok_iff.2 ⟨e, he, rfl⟩] at h
    cases h

/-- What `decipher` does with a pack, whatever its chunks decrypt to. -/
lemma decipher_ne_outOfBounds_iff (publicKey : ssl.PKey) (h : 2 ≤ pack.length) :
    decipher ssl privateKey publicKey pack ≠ .error .outOfBounds ↔
      pack.length < chunkStart (announced pack) ∨
        (∃ i < announced pack, ssl.decrypt privateKey (chunkAt pack i) = none) ∨
        ∃ e : Envelope, e.bytes <+: envelopeOf ssl privateKey pack := by
  have hchunk : ∀ i, ((pack.drop 2).drop (i * ENC_CHUNK_SIZE)).take ENC_CHUNK_SIZE =
      chunkAt pack i := by
    intro i
    rw [List.drop_drop]
    rfl
  rw [decipher, readU16_zero_eq pack h, ok_bind, readChunks_eq, List.length_drop]
  simp only [hchunk]
  by_cases hlen : announced pack * ENC_CHUNK_SIZE ≤ pack.length - 2
  · have hnot : ¬ pack.length < chunkStart (announced pack) := by
      rw [chunkStart]
      omega
    rw [if_pos hlen, ok_bind, or_iff_right hnot]
    cases hdec : decryptChunks ssl privateKey
        ((List.range (announced pack)).map (chunkAt pack)) with
    | none =>
      have hfail : ∃ i < announced pack, ssl.decrypt privateKey (chunkAt pack i) = none := by
        simpa using decryptChunks_eq_none_iff.1 hdec
      simp only [hfail, true_or, iff_true]
      intro h
      cases h
    | some chunks =>
      have hfail : ¬ ∃ i < announced pack, ssl.decrypt privateKey (chunkAt pack i) = none := by
        intro hfail
        have hnone : decryptChunks ssl privateKey
            ((List.range (announced pack)).map (chunkAt pack)) = none := by
          rw [decryptChunks_eq_none_iff]
          simpa using hfail
        rw [hnone] at hdec
        cases hdec
      have henv : chunks.flatten = envelopeOf ssl privateKey pack := by
        rw [decryptChunks_eq_some hdec, List.map_map]
        rfl
      rw [or_iff_right hfail, ← parseEnvelope_ne_outOfBounds_iff]
      dsimp only
      rw [henv]
      cases parseEnvelope (envelopeOf ssl privateKey pack) with
      | error stop => simp
      | ok f => simp [pure, Except.pure]
  · have hshort : pack.length < chunkStart (announced pack) := by
      rw [chunkStart]
      omega
    simp only [if_neg hlen, hshort, true_or, iff_true]
    intro h
    cases h

/-- A body that a client has received is deciphered without a read outside of the vectors when the
pack is too short for its chunks, when one of them is not decrypted, or when they decrypt to a whole
envelope. -/
theorem decipher_received_ne_outOfBounds_iff {body : Bytes} (publicKey : ssl.PKey)
    (hmin : MIN_PACK_SIZE ≤ body.length) (hbody : Client.receivedMsg body = .ok (some pack)) :
    decipher ssl privateKey publicKey pack ≠ .error .outOfBounds ↔
      pack.length < chunkStart (announced pack) ∨
        (∃ i < announced pack, ssl.decrypt privateKey (chunkAt pack i) = none) ∨
        ∃ e : Envelope, e.bytes <+: envelopeOf ssl privateKey pack := by
  have hlen := Client.length_of_receivedMsg hbody
  apply decipher_ne_outOfBounds_iff
  simp only [MIN_PACK_SIZE, SYNC_MARKER_SIZE] at hmin hlen
  omega

theorem decipher_received_four_chunks :
    decipher .plain () () (4 :: 0 :: List.replicate 1536 0) ≠ .error .outOfBounds := by
  have hbody := Client.receivedMsg_append (4 :: 0 :: List.replicate 1536 0)
  refine (@decipher_received_ne_outOfBounds_iff .plain () _ _ () ?_ hbody).2 (.inl ?_)
  · rw [← Client.length_of_receivedMsg hbody, List.length_cons, List.length_cons,
      List.length_replicate]
    decide
  · rw [List.length_cons, List.length_cons, List.length_replicate]
    decide

/-- There is no first byte in an envelope without chunks. -/
lemma decipher_no_chunks (rest : Bytes) :
    decipher ssl privateKey publicKey (0 :: 0 :: rest) = .error .outOfBounds := by
  have hannounced : announced (0 :: 0 :: rest) = 0 := by simp [announced, u16]
  rw [decipher, readU16_zero_eq _ (Nat.le_add_left 2 _), ok_bind, hannounced]
  rfl

/-- The body of zeros announces no chunks. -/
theorem decipher_received_zeros :
    let pack : Bytes := 0 :: 0 :: List.replicate 1536 0
    let body := pack ++ List.replicate SYNC_MARKER_SIZE 0
    MIN_PACK_SIZE ≤ body.length ∧ body.length ≤ MAX_PACK_SIZE ∧
      Client.receivedMsg body = .ok (some pack) ∧
      decipher .plain () () pack = .error .outOfBounds := by
  have hbody := Client.receivedMsg_append (0 :: 0 :: List.replicate 1536 0)
  have hlen := Client.length_of_receivedMsg hbody
  rw [List.length_cons, List.length_cons, List.length_replicate] at hlen
  exact ⟨hlen ▸ by decide, hlen ▸ by decide, hbody, decipher_no_chunks _⟩

end Srv.Crypt

/-! ### The terminal client -/

namespace Term

/-- The chunk is decrypted to as many bytes as a chunk has. -/
def Opens (ssl : OpenSSL) (privateKey : ssl.PKey) (chunk : Bytes) : Prop :=
  ∃ decChunk, decryptChunk ssl chunk privateKey = some decChunk ∧ decChunk.length = CHUNK_SIZE

/-- The chunks of a pack as one block. -/
def envOf (ssl : OpenSSL) (privateKey : ssl.PKey) (pack : Bytes) : Bytes :=
  ((List.range (announced pack)).map fun i =>
    (decryptChunk ssl (chunkAt pack i) privateKey).getD []).flatten

lemma slice_chunkStart {i : ℕ} (h : chunkStart (i + 1) ≤ pack.length) :
    slice pack (2 + i * ENC_CHUNK_SIZE) ENC_CHUNK_SIZE = .ok (chunkAt pack i) := by
  apply if_pos
  rw [chunkStart, Nat.succ_mul] at h
  omega

/-- Among the chunks from the `i`-th on there is one that the pack has and that does not open. -/
def Refuses (ssl : OpenSSL) (privateKey : ssl.PKey) (pack : Bytes) (k i : ℕ) : Prop :=
  ∃ j, i ≤ j ∧ j < i + k ∧ chunkStart (j + 1) ≤ pack.length ∧
    ¬ Opens ssl privateKey (chunkAt pack j)

lemma refuses_succ_of_opens {k i : ℕ} (h : Opens ssl privateKey (chunkAt pack i)) :
    Refuses ssl privateKey pack (k + 1) i ↔ Refuses ssl privateKey pack k (i + 1) := by
  constructor
  · rintro ⟨j, hij, hj, hlen, hopens⟩
    have hne : i ≠ j := by
      rintro rfl
      exact hopens h
    exact ⟨j, by omega, by omega, hlen, hopens⟩
  · rintro ⟨j, hij, hj, hlen, hopens⟩
    exact ⟨j, by omega, by omega, hlen, hopens⟩

open Classical in
/-- The loop stops at the first chunk that does not open, or that the pack does not have. -/
lemma decryptChunks_eq_ite {k i : ℕ} (h : chunkStart i ≤ pack.length) :
    decryptChunks ssl privateKey pack k i =
      if Refuses ssl privateKey pack k i then .error .null
      else if chunkStart (i + k) ≤ pack.length then
        .ok ((List.range' i k).map fun j =>
          (decryptChunk ssl (chunkAt pack j) privateKey).getD [])
      else .error .outOfBounds := by
  induction k generalizing i with
  | zero =>
    have hnot : ¬ Refuses ssl privateKey pack 0 i := by
      rintro ⟨j, hij, hj, -⟩
      omega
    rw [if_neg hnot, Nat.add_zero, if_pos h]
    rfl
  | succ k ih =>
    rw [decryptChunks]
    by_cases hone : chunkStart (i + 1) ≤ pack.length
    · rw [slice_chunkStart hone, ok_bind]
      by_cases hopens : Opens ssl privateKey (chunkAt pack i)
      · obtain ⟨decChunk, hdec, hlen⟩ := id hopens
        rw [hdec, orStop_some, ok_bind, require_of_pos hlen, ok_bind, ih hone,
          Nat.add_right_comm i 1 k, Nat.add_assoc i k 1]
        simp only [refuses_succ_of_opens hopens]
        split_ifs
        · rfl
        · rw [List.range'_succ, List.map_cons, hdec]
          rfl
        · rfl
      · rw [if_pos ⟨i, le_rfl, by omega, hone, hopens⟩]
        cases hdec : decryptChunk ssl (chunkAt pack i) privateKey with
        | none => rfl
        | some decChunk =>
          rw [orStop_some, ok_bind, require_of_neg fun hlen => hopens ⟨decChunk, hdec, hlen⟩]
          rfl
    · have hnot : ¬ Refuses ssl privateKey pack (k + 1) i := by
        rintro ⟨j, hij, -, hlen, -⟩
        exact hone ((chunkStart_mono (Nat.succ_le_succ hij)).trans hlen)
      have hend : ¬ chunkStart (i + (k + 1)) ≤ pack.length := by
        intro hle
        exact hone ((chunkStart_mono (by omega)).trans hle)
      have hslice : slice pack (2 + i * ENC_CHUNK_SIZE) ENC_CHUNK_SIZE = .error .outOfBounds := by
        apply if_neg
        rw [chunkStart, Nat.succ_mul] at hone
        omega
      rw [if_neg hnot, if_neg hend, hslice]
      rfl

/-- When all checks pass the block begins with an envelope. -/
lemma exists_envelope_of_parseEnv {env behind : Bytes} (h : parseEnv env behind ≠ .error .null) :
    ∃ e : Envelope, e.bytes <+: env ∧ e.random ≠ [] := by
  rw [parseEnv, require_bind_ne_error_iff] at h
  obtain ⟨hone, h⟩ := h
  obtain ⟨b, hb⟩ := exists_readByte_eq hone
  rw [hb, ok_bind, require_bind_ne_error_iff] at h
  obtain ⟨hne, h⟩ := h
  rw [require_bind_ne_error_iff] at h
  obtain ⟨-, h⟩ := h
  rw [require_bind_ne_error_iff] at h
  obtain ⟨htwo, h⟩ := h
  obtain ⟨n, hn⟩ := exists_readU16_eq htwo
  rw [hn, ok_bind, require_bind_ne_error_iff] at h
  obtain ⟨hthree, h⟩ := h
  obtain ⟨crc, hcrc⟩ := exists_slice_eq hthree
  rw [hcrc, ok_bind, require_bind_ne_error_iff] at h
  obtain ⟨hfour, h⟩ := h
  obtain ⟨sign, hsign⟩ := exists_slice_eq hfour
  rw [hsign, ok_bind, require_bind_ne_error_iff] at h
  obtain ⟨hfive, -⟩ := h
  obtain ⟨msg, hmsg⟩ := exists_slice_eq hfive
  obtain ⟨e, he, -, hlen⟩ := Envelope.exists_of_reads hb hn hcrc hsign hmsg
  refine ⟨e, he, ?_⟩
  intro hnil
  rw [hnil] at hlen
  exact hne (UInt8.toNat_inj.1 hlen.symm)

/-- `printf` is the only read outside of the block. -/
lemma parseEnv_ne_outOfBounds_iff {env : Bytes} :
    parseEnv env [] ≠ .error .outOfBounds ↔
      ∀ e : Envelope, e.bytes <+: env → e.random ≠ [] → 0 ∈ env.drop e.msgOffset := by
  constructor
  · intro h e he hrandom
    rw [parseEnv_eq he hrandom, List.append_nil] at h
    by_contra hnul
    rw [if_neg hnul] at h
    exact h rfl
  · intro h herror
    have hne : parseEnv env [] ≠ .error .null := by
      rw [herror]
      intro hnull
      cases hnull
    obtain ⟨e, he, hrandom⟩ := exists_envelope_of_parseEnv hne
    rw [parseEnv_eq he hrandom, List.append_nil, if_pos (h e he hrandom)] at herror
    cases herror

lemma checkFields_ne_outOfBounds {publicKey : ssl.PKey} {f : Fields} :
    checkFields ssl publicKey f ≠ .error .outOfBounds := by
  rw [checkFields]
  cases calcCrc ssl f.msg with
  | none =>
    intro h
    cases h
  | some crc =>
    rw [orStop_some, ok_bind, require, require]
    split_ifs <;> intro h <;> cases h

/-- `decipher` reads inside of a pack of two bytes or more, and inside of the block, when it stops
at a chunk of the pack that does not open, or when the pack has all chunks and `printf` finds a NUL
in the block. -/
lemma decipher_ne_outOfBounds_iff (publicKey : ssl.PKey) (inLen : ℕ) (h : 2 ≤ pack.length) :
    decipher ssl privateKey publicKey [] pack inLen ≠ .error .outOfBounds ↔
      Refuses ssl privateKey pack (announced pack) 0 ∨
        chunkStart (announced pack) ≤ pack.length ∧
          ∀ e : Envelope, e.bytes <+: envOf ssl privateKey pack → e.random ≠ [] →
            0 ∈ (envOf ssl privateKey pack).drop e.msgOffset := by
  have hstart : chunkStart 0 ≤ pack.length := h
  rw [decipher, readU16_zero_eq pack h, ok_bind, decryptChunks_eq_ite hstart, Nat.zero_add,
    ← List.range_eq_range']
  by_cases hrefuses : Refuses ssl privateKey pack (announced pack) 0
  · rw [if_pos hrefuses, error_bind]
    simp [hrefuses]
  · rw [if_neg hrefuses, or_iff_right hrefuses]
    by_cases hlen : chunkStart (announced pack) ≤ pack.length
    · rw [if_pos hlen, ok_bind, and_iff_right hlen, ← parseEnv_ne_outOfBounds_iff]
      change parseEnv (envOf ssl privateKey pack) [] >>= _ ≠ _ ↔ _
      cases parseEnv (envOf ssl privateKey pack) [] with
      | error stop => simp
      | ok f => simpa using checkFields_ne_outOfBounds
    · rw [if_neg hlen]
      simp [hlen]

/-- `decipher` of `in_len` bytes reads inside of them and of the merged chunks exactly when there
are two bytes, and it stops at a chunk inside of the pack that does not open, or the pack has all
chunks and `printf` finds a NUL behind the place of the message. -/
theorem decipher_inside_iff (publicKey : ssl.PKey) (pack : Bytes) :
    decipher ssl privateKey publicKey [] pack pack.length ≠ .error .outOfBounds ↔
      2 ≤ pack.length ∧
        (Refuses ssl privateKey pack (announced pack) 0 ∨
          chunkStart (announced pack) ≤ pack.length ∧
            ∀ e : Envelope, e.bytes <+: envOf ssl privateKey pack → e.random ≠ [] →
              0 ∈ (envOf ssl privateKey pack).drop e.msgOffset) := by
  by_cases h : 2 ≤ pack.length
  · rw [and_iff_right h]
    exact decipher_ne_outOfBounds_iff publicKey pack.length h
  · simp only [h, false_and, iff_false, not_not]
    match pack, h with
    | [], _ => rfl
    | [_], _ => rfl
    | _ :: _ :: _, h => exact absurd (Nat.le_add_left 2 _) h

lemma decipher_announced_chunk (inLen : ℕ) :
    decipher ssl privateKey publicKey [] [1, 0] inLen = .error .outOfBounds := by
  have hannounced : announced [1, 0] = 1 := by decide
  have hslice : slice [1, 0] (2 + 0 * ENC_CHUNK_SIZE) ENC_CHUNK_SIZE = .error .outOfBounds :=
    if_neg (by decide)
  rw [decipher, readU16_zero_eq _ le_rfl, ok_bind, hannounced, decryptChunks, hslice]
  rfl

/-- A pack of two bytes that announces a chunk. -/
theorem decipher_one_chunk : decipher .plain () () [] [1, 0] 2 = .error .outOfBounds :=
  decipher_announced_chunk 2

end Term

end Vjft

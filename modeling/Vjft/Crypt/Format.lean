import Vjft.Crypt.OpenSSL
import Mathlib.Data.List.Forall2

/-!
# The packet format

Both programs document one format. An envelope holds the number of random bytes, the random bytes,
the size of the message in two bytes, its hash, its signature and the message. It is cut into
chunks, each chunk is encrypted, and a pack is the number of chunks in two bytes and the encrypted
chunks.

The format is stated here without either program: `Envelope.bytes` says which bytes an envelope is,
and `IsPack` which bytes carry a list of chunks. What the programs write and read is in
`Vjft.Srv.Crypt` and `Vjft.Term.Crypt`.
-/

namespace Vjft

/-! ### Envelopes -/

/-- The fields that a receiver takes from an envelope. -/
structure Fields where
  crc : Bytes
  sign : Bytes
  msg : Bytes
  deriving DecidableEq, Repr

/-- The number of bytes of an envelope with `rndSize` random bytes and a message of `msgSize`. -/
def envSize (rndSize msgSize : ℕ) : ℕ := 1 + rndSize + 2 + HASH_SIZE + SIG_SIZE + msgSize

structure Envelope extends Fields where
  random : Bytes
  random_lt : random.length < 2 ^ 8
  crc_length : crc.length = HASH_SIZE
  sign_length : sign.length = SIG_SIZE
  msg_lt : msg.length < 2 ^ 16

namespace Envelope

def bytes (e : Envelope) : Bytes :=
  [UInt8.ofNat e.random.length] ++ e.random ++ le16 e.msg.length ++ e.crc ++ e.sign ++ e.msg

/-- The place of the message. -/
def msgOffset (e : Envelope) : ℕ := 1 + e.random.length + 2 + HASH_SIZE + SIG_SIZE

lemma length_bytes (e : Envelope) : e.bytes.length = envSize e.random.length e.msg.length := by
  simp only [bytes, envSize, List.length_append, List.length_singleton, length_le16,
    e.crc_length, e.sign_length]

lemma drop_msgOffset (e : Envelope) (after : Bytes) :
    (e.bytes ++ after).drop e.msgOffset = e.msg ++ after := by
  rw [bytes, List.append_assoc]
  refine List.drop_left' ?_
  simp only [msgOffset, List.length_append, List.length_singleton, length_le16, e.crc_length,
    e.sign_length]

@[simp] lemma toNat_randomLen (e : Envelope) :
    (UInt8.ofNat e.random.length).toNat = e.random.length := by
  have hlt := e.random_lt
  rw [UInt8.toNat_ofNat']
  omega

section Reads

variable {e : Envelope} {env : Bytes} (h : e.bytes <+: env)
include h

lemma msgOffset_add_le : e.msgOffset + e.msg.length ≤ env.length :=
  e.length_bytes.symm.trans_le h.length_le

lemma readByte_randomLen : readByte env 0 = .ok (UInt8.ofNat e.random.length) :=
  readByte_of_prefix []
    (.trans ⟨e.random ++ le16 e.msg.length ++ e.crc ++ e.sign ++ e.msg, by simp [bytes]⟩ h) rfl

lemma readU16_msgSize : readU16 env (1 + e.random.length) = .ok e.msg.length :=
  readU16_of_prefix ([UInt8.ofNat e.random.length] ++ e.random)
    (.trans ⟨e.crc ++ e.sign ++ e.msg, by simp [bytes]⟩ h) (by simp [Nat.add_comm]) e.msg_lt

lemma slice_crc : slice env (1 + e.random.length + 2) HASH_SIZE = .ok e.crc :=
  slice_of_prefix ([UInt8.ofNat e.random.length] ++ e.random ++ le16 e.msg.length)
    (.trans ⟨e.sign ++ e.msg, by simp [bytes]⟩ h) (by simp; omega) e.crc_length.symm

lemma slice_sign : slice env (1 + e.random.length + 2 + HASH_SIZE) SIG_SIZE = .ok e.sign :=
  slice_of_prefix
    ([UInt8.ofNat e.random.length] ++ e.random ++ le16 e.msg.length ++ e.crc)
    (.trans ⟨e.msg, by simp [bytes]⟩ h) (by simp [e.crc_length]; omega) e.sign_length.symm

lemma slice_msg : slice env e.msgOffset e.msg.length = .ok e.msg :=
  slice_of_prefix
    ([UInt8.ofNat e.random.length] ++ e.random ++ le16 e.msg.length ++ e.crc ++ e.sign)
    (.trans ⟨[], by simp [bytes]⟩ h)
    (by simp [msgOffset, e.crc_length, e.sign_length]; omega) rfl

end Reads

/-- Memory from which all fields can be read begins with an envelope. -/
lemma exists_of_reads {env crc sign msg : Bytes} {b : UInt8} {n : ℕ}
    (hrandom : readByte env 0 = .ok b) (hsize : readU16 env (1 + b.toNat) = .ok n)
    (hcrc : slice env (1 + b.toNat + 2) HASH_SIZE = .ok crc)
    (hsign : slice env (1 + b.toNat + 2 + HASH_SIZE) SIG_SIZE = .ok sign)
    (hmsg : slice env (1 + b.toNat + 2 + HASH_SIZE + SIG_SIZE) n = .ok msg) :
    ∃ e : Envelope, e.bytes <+: env ∧ e.toFields = ⟨crc, sign, msg⟩ ∧
      e.random.length = b.toNat := by
  have hone := take_succ_of_readByte hrandom
  obtain ⟨htwo, hn⟩ := take_add_two_of_readU16 hsize
  obtain ⟨hthree, hcrclen, -⟩ := take_add_of_slice hcrc
  obtain ⟨hfour, hsignlen, -⟩ := take_add_of_slice hsign
  obtain ⟨hfive, hmsglen, hle⟩ := take_add_of_slice hmsg
  have hlen : ((env.drop 1).take b.toNat).length = b.toNat := by
    rw [List.length_take, List.length_drop]
    omega
  let e : Envelope :=
    { crc := crc, sign := sign, msg := msg, random := (env.drop 1).take b.toNat
      random_lt := hlen.trans_lt b.toNat_lt, crc_length := hcrclen, sign_length := hsignlen
      msg_lt := hmsglen.trans_lt hn }
  refine ⟨e, ?_, rfl, hlen⟩
  have hbytes : e.bytes = env.take (1 + b.toNat + 2 + HASH_SIZE + SIG_SIZE + n) := by
    have hfirst : env.take 1 = [b] := hone
    rw [hfive, hfour, hthree, htwo, List.take_add, hfirst]
    simp only [bytes, e, hlen, hmsglen, UInt8.ofNat_toNat]
  rw [hbytes]
  exact List.take_prefix _ _

end Envelope

/-! ### Packs -/

/-- The bytes that carry the chunks to the owner of the private key. -/
def IsPack (ssl : OpenSSL) (privateKey : ssl.PKey) (chunks : List Bytes) (pack : Bytes) : Prop :=
  ∃ encChunks, List.Forall₂ (ssl.Sealed privateKey) chunks encChunks ∧
    pack = le16 encChunks.length ++ encChunks.flatten

variable {ssl : OpenSSL} {privateKey : ssl.PKey}

lemma OpenSSL.length_of_sealed {chunks encChunks : List Bytes}
    (h : List.Forall₂ (ssl.Sealed privateKey) chunks encChunks) :
    ∀ enc ∈ encChunks, enc.length = ENC_CHUNK_SIZE := by
  induction h with
  | nil => simp
  | cons hsealed _ ih => exact List.forall_mem_cons.2 ⟨hsealed.1, ih⟩

lemma IsPack.readU16_eq {chunks : List Bytes} {pack : Bytes} (h : IsPack ssl privateKey chunks pack)
    (hlen : chunks.length < 2 ^ 16) : readU16 pack 0 = .ok chunks.length := by
  obtain ⟨encChunks, hall, rfl⟩ := h
  rw [hall.length_eq] at hlen ⊢
  exact readU16_of_prefix [] (List.prefix_append _ _) rfl hlen

lemma IsPack.length_eq {chunks : List Bytes} {pack : Bytes}
    (h : IsPack ssl privateKey chunks pack) : pack.length = 2 + chunks.length * ENC_CHUNK_SIZE := by
  obtain ⟨encChunks, hall, rfl⟩ := h
  rw [List.length_append, length_le16, hall.length_eq]
  congr 1
  have henc := OpenSSL.length_of_sealed hall
  induction encChunks generalizing chunks with
  | nil => simp
  | cons enc encChunks ih =>
    cases hall with
    | cons _ hrest =>
      obtain ⟨hlen, henc⟩ := List.forall_mem_cons.1 henc
      rw [List.flatten_cons, List.length_append, hlen, ih hrest henc, List.length_cons,
        Nat.succ_mul, Nat.add_comm]

/-! ### The chunks of an envelope -/

namespace Envelope

/-- The chunks of an envelope, the last of which may be short. -/
def chunks (e : Envelope) : List Bytes := Chunks.chunksOf CHUNK_SIZE e.bytes

/-- The chunks of an envelope, with the last one filled up. -/
def fullChunks (e : Envelope) : List Bytes := e.chunks.map (List.rightpad CHUNK_SIZE 0)

variable (e : Envelope)

/-- The chunks of an envelope can be counted in two bytes. -/
lemma length_chunks_lt : e.chunks.length < 2 ^ 16 := by
  have hrandom := e.random_lt
  have hmsg := e.msg_lt
  have hlen : e.bytes.length / CHUNK_SIZE + 1 < 2 ^ 16 := by
    rw [e.length_bytes, envSize]
    simp only [CHUNK_SIZE, HASH_SIZE, SIG_SIZE]
    omega
  rw [chunks, Chunks.length_chunksOf (by decide)]
  split_ifs <;> omega

lemma length_fullChunks_lt : e.fullChunks.length < 2 ^ 16 := by
  rw [fullChunks, List.length_map]
  exact e.length_chunks_lt

lemma length_le_of_mem_chunks : ∀ chunk ∈ e.chunks, chunk.length ≤ CHUNK_SIZE := by
  intro chunk
  exact Chunks.length_le_of_mem_chunksOf (by decide)

lemma length_of_mem_fullChunks : ∀ chunk ∈ e.fullChunks, chunk.length = CHUNK_SIZE := by
  intro chunk hchunk
  obtain ⟨c, hc, rfl⟩ := List.mem_map.1 hchunk
  exact Chunks.length_rightpad_of_le 0 (e.length_le_of_mem_chunks c hc)

lemma flatten_chunks : e.chunks.flatten = e.bytes := Chunks.flatten_chunksOf (by decide) _

lemma flatten_fullChunks : e.fullChunks.flatten =
    e.bytes ++ List.replicate (Chunks.lack CHUNK_SIZE e.bytes.length) 0 :=
  Chunks.flatten_map_rightpad_chunksOf (by decide) 0 _

lemma forall_length_chunks_iff :
    (∀ chunk ∈ e.chunks, chunk.length = CHUNK_SIZE) ↔
      CHUNK_SIZE ∣ envSize e.random.length e.msg.length := by
  rw [chunks, Chunks.forall_length_eq_iff (by decide), e.length_bytes]

/-- Full chunks do not change when they are filled up. -/
lemma map_rightpad_fullChunks :
    e.fullChunks.map (List.rightpad CHUNK_SIZE 0) = e.fullChunks := by
  conv_rhs => rw [← List.map_id e.fullChunks]
  apply List.map_congr_left
  intro chunk hchunk
  exact Chunks.rightpad_of_length_eq 0 (e.length_of_mem_fullChunks chunk hchunk)

end Envelope

end Vjft

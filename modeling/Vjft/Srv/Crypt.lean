import Vjft.Crypt.Format

/-!
# The codec of the server programs (`srv/Crypt.cpp`, `split_vec` of `srv/Utils.cpp`)

`std::rand` after `std::srand` is a stream `rand` of numbers, and the padding of the encryption
draws the stream `seed`. A vector of the standard library is the list of its bytes; reading outside
of it is undefined.
-/

namespace Vjft.Srv

/-- The loop runs at most once for each byte. -/
def splitVec (input : Bytes) (size : ℕ) : List Bytes := loop input.length 0
where
  loop : ℕ → ℕ → List Bytes
  | 0, _ => []
  | k + 1, i =>
    if i < input.length then
      (input.drop i).take (min size (input.length - i)) :: loop k (i + size)
    else []

namespace Crypt

/-- The hash is written to an array of zeros, which stays as it is when a call fails. -/
def calcCRC (ssl : OpenSSL) (message : Bytes) : Bytes :=
  ((ssl.digest message).getD []).rightpad HASH_SIZE 0

def verifyChecksum (ssl : OpenSSL) (message checksum : Bytes) : Bool :=
  calcCRC ssl message == checksum

/-- The signature is written to an array of zeros, when its announced size is that of the array. -/
def sign (ssl : OpenSSL) (message : Bytes) (privateKey : ssl.PKey) : Option Bytes :=
  match ssl.sign privateKey message with
  | none => none
  | some signature =>
    if signature.size ≠ SIG_SIZE then none else some (signature.data.rightpad SIG_SIZE 0)

/-- The returned vector keeps the size that was announced. -/
def Encrypt (ssl : OpenSSL) (seed packed : Bytes) (publicKey : ssl.PKey) : Option Bytes :=
  (ssl.encrypt publicKey seed packed).map fun encrypted => encrypted.data.rightpad encrypted.size 0

/-- The returned vector keeps the size that was announced, whatever the length of the plaintext. -/
def Decrypt (ssl : OpenSSL) (encryptedChunk : Bytes) (privateKey : ssl.PKey) : Option Bytes :=
  (ssl.decrypt privateKey encryptedChunk).map fun out => out.data.rightpad out.size 0

def VerifySignature (ssl : OpenSSL) (message signature : Bytes) (publicKey : ssl.PKey) : Bool :=
  ssl.verify publicKey message signature

/-! ### `encipher` -/

def randomLen (rand : ℕ → ℕ) : ℕ := rand 0 % 256

def random (rand : ℕ → ℕ) : Bytes :=
  (List.range (randomLen rand)).map fun i => UInt8.ofNat (rand (i + 1) % 256)

/-- The loop that encrypts the chunks, from the `i`-th on. -/
def encryptChunks (ssl : OpenSSL) (publicKey : ssl.PKey) (seed : ℕ → Bytes) :
    ℕ → List Bytes → Option (List Bytes)
  | _, [] => some []
  | i, chunk :: chunks =>
    match Encrypt ssl (seed i) chunk publicKey with
    | none => none
    | some encChunk => (encryptChunks ssl publicKey seed (i + 1) chunks).map (encChunk :: ·)

def encipher (ssl : OpenSSL) (privateKey publicKey : ssl.PKey) (rand : ℕ → ℕ) (seed : ℕ → Bytes)
    (msg : Bytes) : Except Stop Bytes := do
  let random := random rand
  let msgCrc := calcCRC ssl msg
  let msgSign ← orStop (sign ssl msg privateKey) .runtimeError
  let envelope :=
    [UInt8.ofNat random.length] ++ random ++ le16 msg.length ++ msgCrc ++ msgSign ++ msg
  let chunks := splitVec envelope CHUNK_SIZE
  let encChunks ← orStop (encryptChunks ssl publicKey seed 0 chunks) .runtimeError
  pure (le16 encChunks.length ++ encChunks.flatten)

/-! ### `decipher` -/

/-- The loop that cuts `enc_chunks` off, with the rest of the pack as the iterator `it`. -/
def readChunks : ℕ → Bytes → Except Stop (List Bytes)
  | 0, _ => pure []
  | k + 1, it => do
    require (ENC_CHUNK_SIZE ≤ it.length) .runtimeError
    let encChunks ← readChunks k (it.drop ENC_CHUNK_SIZE)
    pure (it.take ENC_CHUNK_SIZE :: encChunks)

/-- `std::vector::resize` -/
def resize (v : Bytes) (n : ℕ) : Bytes := (v.rightpad n 0).take n

/-- A decrypted chunk is resized to `CHUNK_SIZE`. -/
def decryptChunks (ssl : OpenSSL) (privateKey : ssl.PKey) : List Bytes → Option (List Bytes)
  | [] => some []
  | chunk :: encChunks =>
    match Decrypt ssl chunk privateKey with
    | none => none
    | some decChunk =>
      (decryptChunks ssl privateKey encChunks).map (resize decChunk CHUNK_SIZE :: ·)

/-- The part of `decipher` that extracts the fields. -/
def parseEnvelope (envelope : Bytes) : Except Stop Fields := do
  let randomLen ← readByte envelope 0
  let offset := randomLen.toNat + 1
  let msgSize ← readU16 envelope offset
  let offset := offset + 2
  let msgCrc ← slice envelope offset HASH_SIZE
  let offset := offset + HASH_SIZE
  let msgSign ← slice envelope offset SIG_SIZE
  let offset := offset + SIG_SIZE
  let msg ← slice envelope offset msgSize
  pure { crc := msgCrc, sign := msgSign, msg := msg }

/-- The part of `decipher` that checks the signature and the checksum. -/
def checkFields (ssl : OpenSSL) (publicKey : ssl.PKey) (f : Fields) : Bytes :=
  if !VerifySignature ssl f.msg f.sign publicKey then []
  else if !verifyChecksum ssl f.msg f.crc then []
  else f.msg

/-- A failure that is not an exception gives the empty string. -/
def decipher (ssl : OpenSSL) (privateKey publicKey : ssl.PKey) (pack : Bytes) :
    Except Stop Bytes := do
  let envelopeChunkSize ← readU16 pack 0
  let encChunks ← readChunks envelopeChunkSize (pack.drop 2)
  match decryptChunks ssl privateKey encChunks with
  | none => pure []
  | some chunks =>
    let f ← parseEnvelope chunks.flatten
    pure (checkFields ssl publicKey f)

end Crypt

/-! ### What the functions write -/

lemma splitVec.loop_eq {input : Bytes} {size : ℕ} (hsize : 0 < size) {k i : ℕ}
    (h : input.length ≤ i + k) :
    loop input size k i = Chunks.chunksOf size (input.drop i) := by
  induction k generalizing i with
  | zero => rw [loop, List.drop_of_length_le (by omega), Chunks.chunksOf_nil]
  | succ k ih =>
    rw [loop]
    split_ifs with hi
    · have hne : input.drop i ≠ [] := by simpa using hi
      have htake :
          (input.drop i).take (min size (input.length - i)) = (input.drop i).take size := by
        rw [← List.length_drop, ← List.take_eq_take_min]
      rw [Chunks.chunksOf_eq_cons hsize hne, htake, ih (by omega), List.drop_drop]
    · rw [List.drop_of_length_le (by omega), Chunks.chunksOf_nil]

lemma splitVec_eq_chunksOf {input : Bytes} {size : ℕ} (hsize : 0 < size) :
    splitVec input size = Chunks.chunksOf size input :=
  splitVec.loop_eq hsize (by omega)

namespace Crypt

variable {ssl : OpenSSL}

lemma length_calcCRC {msg : Bytes} (h : ssl.Hashes msg) : (calcCRC ssl msg).length = HASH_SIZE := by
  obtain ⟨hash, hdigest, hlen⟩ := h
  rw [calcCRC, hdigest, Option.getD_some, Chunks.length_rightpad_of_le 0 hlen.le]

lemma randomLen_lt (rand : ℕ → ℕ) : randomLen rand < 2 ^ 8 := Nat.mod_lt _ (by decide)

lemma length_random (rand : ℕ → ℕ) : (random rand).length = randomLen rand := by
  rw [random, List.length_map, List.length_range]

lemma exists_sign_eq {privateKey publicKey : ssl.PKey} {msg : Bytes}
    (h : ssl.Signs privateKey publicKey msg) :
    ∃ s, sign ssl msg privateKey = some s ∧ s.length = SIG_SIZE ∧
      ssl.verify publicKey msg s = true := by
  obtain ⟨s, hs, hsize, hlen, hverify⟩ := h
  refine ⟨s.data, ?_, hlen, hverify⟩
  simp only [sign, hs, hsize, ne_eq, not_true_eq_false, if_false,
    Chunks.rightpad_of_length_eq 0 hlen]

lemma exists_encryptChunks_eq {publicKey privateKey : ssl.PKey}
    (hkeys : ssl.KeyPair publicKey privateKey) (seed : ℕ → Bytes) (i : ℕ) {chunks : List Bytes}
    (h : ∀ chunk ∈ chunks, chunk.length ≤ CHUNK_SIZE) :
    ∃ encChunks, encryptChunks ssl publicKey seed i chunks = some encChunks ∧
      List.Forall₂ (ssl.Sealed privateKey) chunks encChunks := by
  induction chunks generalizing i with
  | nil => exact ⟨[], rfl, .nil⟩
  | cons chunk chunks ih =>
    obtain ⟨hchunk, hchunks⟩ := List.forall_mem_cons.1 h
    obtain ⟨enc, henc, hsize, hsealed⟩ := hkeys (seed i) chunk hchunk
    obtain ⟨encChunks, hencChunks, hall⟩ := ih (i + 1) hchunks
    refine ⟨enc.data :: encChunks, ?_, .cons hsealed hall⟩
    have hpad : enc.data.rightpad enc.size 0 = enc.data :=
      Chunks.rightpad_of_length_eq 0 (hsealed.1.trans hsize.symm)
    simp only [encryptChunks, Encrypt, henc, hencChunks, hpad, Option.map_some]

lemma length_of_sign_eq {privateKey : ssl.PKey} {msg s : Bytes}
    (h : sign ssl msg privateKey = some s) : s.length = SIG_SIZE := by
  rw [sign] at h
  split at h
  · cases h
  · next signature _ =>
    split_ifs at h with hsize
    cases h
    rw [not_not] at hsize
    exact Chunks.length_rightpad_of_le 0 (hsize ▸ signature.data_le)

/-- A message of any length is cut into chunks, encrypted and packed, if it can be signed. -/
lemma exists_isPack_encipher {senderPrivate receiverPublic receiverPrivate : ssl.PKey}
    {msg s : Bytes} (hkeys : ssl.KeyPair receiverPublic receiverPrivate)
    (hsign : sign ssl msg senderPrivate = some s) (rand : ℕ → ℕ) (seed : ℕ → Bytes) :
    ∃ pack, encipher ssl senderPrivate receiverPublic rand seed msg = .ok pack ∧
      IsPack ssl receiverPrivate
        (Chunks.chunksOf CHUNK_SIZE
          ([UInt8.ofNat (random rand).length] ++ random rand ++ le16 msg.length ++
            calcCRC ssl msg ++ s ++ msg)) pack := by
  obtain ⟨encChunks, henc, hall⟩ := exists_encryptChunks_eq hkeys seed 0
    fun _ => Chunks.length_le_of_mem_chunksOf (n := CHUNK_SIZE) (by decide)
  refine ⟨_, ?_, ⟨encChunks, hall, rfl⟩⟩
  simp only [encipher, hsign, orStop_some, ok_bind,
    splitVec_eq_chunksOf (by decide : 0 < CHUNK_SIZE), henc]
  rfl

/-- `encipher` packs the chunks of an envelope, and does not fill the last one up. -/
lemma exists_encipher_eq {senderPrivate senderPublic receiverPublic receiverPrivate : ssl.PKey}
    {msg : Bytes} (hkeys : ssl.KeyPair receiverPublic receiverPrivate)
    (hsign : ssl.Signs senderPrivate senderPublic msg) (hhash : ssl.Hashes msg)
    (hmsg : msg.length ≤ 65535) (rand : ℕ → ℕ) (seed : ℕ → Bytes) :
    ∃ (e : Envelope) (pack : Bytes),
      encipher ssl senderPrivate receiverPublic rand seed msg = .ok pack ∧
      IsPack ssl receiverPrivate e.chunks pack ∧
      e.random = random rand ∧ e.msg = msg ∧ e.crc = calcCRC ssl msg ∧
      ssl.verify senderPublic msg e.sign = true := by
  obtain ⟨s, hs, hslen, hverify⟩ := exists_sign_eq hsign
  let e : Envelope :=
    { random := random rand, crc := calcCRC ssl msg, sign := s, msg := msg
      random_lt := (length_random rand).trans_lt (randomLen_lt rand)
      crc_length := length_calcCRC hhash, sign_length := hslen
      msg_lt := Nat.lt_of_le_of_lt hmsg (by decide) }
  obtain ⟨pack, hpack, hchunks⟩ := exists_isPack_encipher hkeys hs rand seed
  exact ⟨e, pack, hpack, hchunks, rfl, rfl, rfl, hverify⟩

/-! ### What the functions read -/

lemma readChunks_flatten {encChunks : List Bytes}
    (h : ∀ enc ∈ encChunks, enc.length = ENC_CHUNK_SIZE) :
    readChunks encChunks.length encChunks.flatten = .ok encChunks := by
  induction encChunks with
  | nil => rfl
  | cons enc encChunks ih =>
    obtain ⟨henc, hencChunks⟩ := List.forall_mem_cons.1 h
    have hle : ENC_CHUNK_SIZE ≤ (enc :: encChunks).flatten.length := by simp [henc]
    rw [List.length_cons, readChunks, require_of_pos hle, ok_bind, List.flatten_cons,
      ← henc, List.drop_left, List.take_left, ih hencChunks]
    rfl

lemma resize_decrypted {d : Output} {n : ℕ} (h : d.data.length ≤ n) :
    resize (d.data.rightpad d.size 0) n = d.data.rightpad n 0 :=
  Chunks.take_rightpad 0 h d.data_le

/-- A decrypted chunk comes back filled up with zeros. -/
lemma decryptChunks_eq {privateKey : ssl.PKey} {chunks encChunks : List Bytes}
    (h : List.Forall₂ (ssl.Sealed privateKey) chunks encChunks)
    (hlen : ∀ chunk ∈ chunks, chunk.length ≤ CHUNK_SIZE) :
    decryptChunks ssl privateKey encChunks = some (chunks.map (List.rightpad CHUNK_SIZE 0)) := by
  induction h with
  | nil => rfl
  | cons hsealed _ ih =>
    obtain ⟨hchunk, hchunks⟩ := List.forall_mem_cons.1 hlen
    obtain ⟨-, d, hd, rfl⟩ := hsealed
    simp only [decryptChunks, Decrypt, hd, ih hchunks, Option.map_some, resize_decrypted hchunk,
      List.map_cons]

/-- The fields are read from exactly the vectors that begin with an envelope. -/
lemma parseEnvelope_eq_ok_iff {envelope : Bytes} {f : Fields} :
    parseEnvelope envelope = .ok f ↔ ∃ e : Envelope, e.bytes <+: envelope ∧ e.toFields = f := by
  constructor
  · intro h
    simp only [parseEnvelope, bind_eq_ok_iff] at h
    obtain ⟨b, hb, n, hn, crc, hcrc, sign, hsign, msg, hmsg, hf⟩ := h
    cases hf
    rw [Nat.add_comm b.toNat 1] at hn hcrc hsign hmsg
    obtain ⟨e, he, hf, -⟩ := Envelope.exists_of_reads hb hn hcrc hsign hmsg
    exact ⟨e, he, hf⟩
  · rintro ⟨e, he, rfl⟩
    have hoffset : e.random.length + 1 = 1 + e.random.length := Nat.add_comm _ _
    simp only [parseEnvelope, e.readByte_randomLen he, ok_bind, e.toNat_randomLen, hoffset,
      e.readU16_msgSize he, e.slice_crc he, e.slice_sign he]
    rw [← Envelope.msgOffset, e.slice_msg he]
    rfl

lemma checkFields_eq {publicKey : ssl.PKey} {f : Fields} (hcrc : f.crc = calcCRC ssl f.msg)
    (hsign : ssl.verify publicKey f.msg f.sign = true) : checkFields ssl publicKey f = f.msg := by
  simp [checkFields, VerifySignature, verifyChecksum, hsign, hcrc]

/-- `decipher` reads the envelope at the start of the chunks, filled up with zeros. -/
lemma decipher_eq {privateKey publicKey : ssl.PKey} {chunks : List Bytes} {pack : Bytes}
    {e : Envelope} (hpack : IsPack ssl privateKey chunks pack) (hcount : chunks.length < 2 ^ 16)
    (hlen : ∀ chunk ∈ chunks, chunk.length ≤ CHUNK_SIZE)
    (he : e.bytes <+: (chunks.map (List.rightpad CHUNK_SIZE 0)).flatten) :
    decipher ssl privateKey publicKey pack = .ok (checkFields ssl publicKey e.toFields) := by
  have hsize := hpack.readU16_eq hcount
  obtain ⟨encChunks, hall, rfl⟩ := hpack
  rw [hall.length_eq] at hsize
  have hread : readChunks encChunks.length
      ((le16 encChunks.length ++ encChunks.flatten).drop 2) = .ok encChunks := by
    rw [List.drop_left' (length_le16 _), readChunks_flatten (OpenSSL.length_of_sealed hall)]
  have hparse := parseEnvelope_eq_ok_iff.2 ⟨e, he, rfl⟩
  simp only [decipher, hsize, ok_bind, hread, decryptChunks_eq hall hlen, hparse]
  rfl

/-! ### The round trip -/

/-- What the sender enciphers for the receiver, the receiver deciphers. -/
theorem decipher_encipher {senderPrivate senderPublic receiverPublic receiverPrivate : ssl.PKey}
    {msg : Bytes} (hkeys : ssl.KeyPair receiverPublic receiverPrivate)
    (hsign : ssl.Signs senderPrivate senderPublic msg) (hhash : ssl.Hashes msg)
    (hmsg : msg.length ≤ 65535) (rand : ℕ → ℕ) (seed : ℕ → Bytes) :
    (encipher ssl senderPrivate receiverPublic rand seed msg >>=
      decipher ssl receiverPrivate senderPublic) = .ok msg := by
  obtain ⟨e, pack, hpack, hchunks, -, rfl, hcrc, hverify⟩ :=
    exists_encipher_eq hkeys hsign hhash hmsg rand seed
  have hprefix : e.bytes <+: (e.chunks.map (List.rightpad CHUNK_SIZE 0)).flatten :=
    ⟨_, e.flatten_fullChunks.symm⟩
  rw [hpack, ok_bind, decipher_eq hchunks e.length_chunks_lt e.length_le_of_mem_chunks hprefix,
    checkFields_eq hcrc hverify]

theorem decipher_encipher_hi :
    (encipher .plain () () id (fun _ => []) [0x48, 0x69] >>= decipher .plain () ())
      = .ok [0x48, 0x69] :=
  decipher_encipher (OpenSSL.plain_keyPair () ()) (OpenSSL.plain_signs () () _)
    (OpenSSL.plain_hashes _) (by decide) id fun _ => []

end Crypt

end Vjft.Srv

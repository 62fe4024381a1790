import Vjft.Crypt.Format
import Mathlib.Algebra.Group.Int.Defs

/-!
# The codec of the terminal client (`term/crypt.c`)

`rand` after `srand` is a stream of numbers, and the padding of the encryption draws the stream
`seed`. A pointer is the list of the bytes that can be read from it on. The block `env` of
`decipher` is followed in memory by the bytes `behind`, which `printf` reads when the message has no
NUL. The host stores the least significant byte of a number first.
-/

namespace Vjft.Term

/-- `-1` is `none`. -/
def calcCrc (ssl : OpenSSL) (msg : Bytes) : Option Bytes :=
  match ssl.digest msg with
  | none => none
  | some hash => if hash.length ≠ HASH_SIZE then none else some hash

/-- The length of what is signed is `strlen(msg)`; `-1` is `none`. -/
def calcSign (ssl : OpenSSL) (msg : Bytes) (key : ssl.PKey) : Except Stop (Option Bytes) := do
  let signed ← cString msg
  pure ((ssl.sign key signed).map Output.data)

/-- A chunk that the buffer does not fill ends in zeros. -/
def splitBuffer (buffer : Bytes) (chunkSize : ℕ) : Option (List Bytes) :=
  if chunkSize = 0 then none
  else
    let numChunks := buffer.length / chunkSize
    some (loop (if buffer.length % chunkSize ≠ 0 then numChunks + 1 else numChunks) 0)
where
  loop : ℕ → ℕ → List Bytes
  | 0, _ => []
  | k + 1, offset =>
    let bytesToCopy :=
      if buffer.length < offset + chunkSize then buffer.length - offset else chunkSize
    ((buffer.drop offset).take bytesToCopy ++ List.replicate (chunkSize - bytesToCopy) 0) ::
      loop k (offset + bytesToCopy)

def encryptChunk (ssl : OpenSSL) (seed chunk : Bytes) (publicKey : ssl.PKey) : Option Bytes :=
  (ssl.encrypt publicKey seed chunk).map Output.data

def decryptChunk (ssl : OpenSSL) (encryptedChunk : Bytes) (privateKey : ssl.PKey) :
    Option Bytes :=
  (ssl.decrypt privateKey encryptedChunk).map Output.data

def verifySign (ssl : OpenSSL) (msg sign : Bytes) (key : ssl.PKey) : Bool := ssl.verify key msg sign

/-! ### `encipher` -/

/-- The length `rand() % 256` of `rnd_arr` is replaced by 255 when it is 0. -/
def rndSize (rand : ℕ → ℕ) : ℕ := if rand 0 % 256 = 0 then 255 else rand 0 % 256

def rndArr (rand : ℕ → ℕ) : Bytes :=
  (List.range (rndSize rand)).map fun i => UInt8.ofNat (rand (i + 1) % 256)

/-- The loop that encrypts the chunks, from the `i`-th on. -/
def encryptChunks (ssl : OpenSSL) (publicKey : ssl.PKey) (seed : ℕ → Bytes) :
    ℕ → List Bytes → Except Stop (List Bytes)
  | _, [] => pure []
  | i, chunk :: chunks => do
    let encChunk ← orStop (encryptChunk ssl (seed i) chunk publicKey) .exit
    require (encChunk.length = ENC_CHUNK_SIZE) .exit
    let encChunks ← encryptChunks ssl publicKey seed (i + 1) chunks
    pure (encChunk :: encChunks)

/-- The result is the pack and `*out_len`. -/
def encipher (ssl : OpenSSL) (privateKey publicKey : ssl.PKey) (rand : ℕ → ℕ) (seed : ℕ → Bytes)
    (msg : Bytes) (msgLen : ℤ) : Except Stop (Bytes × ℕ) := do
  let rndArr := rndArr rand
  require (msgLen % 2 ^ 16 = msgLen) .exit
  let msgSize := (msgLen % 2 ^ 16).toNat
  let hashed ← slice msg 0 msgSize
  let msgCrc ← orStop (calcCrc ssl hashed) .exit
  let sign ← calcSign ssl msg privateKey
  let sign ← orStop sign .exit
  let msgSign ← slice sign 0 SIG_SIZE
  let copied ← slice msg 0 msgSize
  let env := [UInt8.ofNat rndArr.length] ++ rndArr ++ le16 msgSize ++ msgCrc ++ msgSign ++ copied
  let chunks ← orStop (splitBuffer env CHUNK_SIZE) .exit
  let numChunks := chunks.length
  let encChunks ← encryptChunks ssl publicKey seed 0 chunks
  require (numChunks % 2 ^ 16 = numChunks) .exit
  pure (le16 numChunks ++ encChunks.flatten, 2 + numChunks * ENC_CHUNK_SIZE)

/-! ### `decipher` -/

/-- The loop that decrypts `k` chunks of the pack, from the `i`-th on. -/
def decryptChunks (ssl : OpenSSL) (privateKey : ssl.PKey) (pack : Bytes) :
    (k i : ℕ) → Except Stop (List Bytes)
  | 0, _ => pure []
  | k + 1, i => do
    let encChunk ← slice pack (2 + i * ENC_CHUNK_SIZE) ENC_CHUNK_SIZE
    let decChunk ← orStop (decryptChunk ssl encChunk privateKey) .null
    require (decChunk.length = CHUNK_SIZE) .null
    let decryptedChunks ← decryptChunks ssl privateKey pack k (i + 1)
    pure (decChunk :: decryptedChunks)

/-- The part of `decipher` that parses `env`, up to the `printf` of the message. -/
def parseEnv (env behind : Bytes) : Except Stop Fields := do
  let totalDecryptedLen := env.length
  require (1 ≤ totalDecryptedLen) .null
  let rndSize ← readByte env 0
  let offset := 1
  require (rndSize ≠ 0) .null
  require (offset + rndSize.toNat ≤ totalDecryptedLen) .null
  let offset := offset + rndSize.toNat
  require (offset + 2 ≤ totalDecryptedLen) .null
  let msgSize ← readU16 env offset
  let offset := offset + 2
  require (offset + HASH_SIZE ≤ totalDecryptedLen) .null
  let msgCrc ← slice env offset HASH_SIZE
  let offset := offset + HASH_SIZE
  require (offset + SIG_SIZE ≤ totalDecryptedLen) .null
  let msgSign ← slice env offset SIG_SIZE
  let offset := offset + SIG_SIZE
  require (offset + msgSize ≤ totalDecryptedLen) .null
  let _printed ← cString (env.drop offset ++ behind)
  let msg ← slice env offset msgSize
  pure { crc := msgCrc, sign := msgSign, msg := msg }

/-- The part of `decipher` that checks the hash and the signature. -/
def checkFields (ssl : OpenSSL) (publicKey : ssl.PKey) (f : Fields) : Except Stop Bytes := do
  let computedCrc ← orStop (calcCrc ssl f.msg) .null
  require (computedCrc = f.crc) .null
  require (verifySign ssl f.msg f.sign publicKey) .null
  pure f.msg

/-- The length of the pack is not looked at. -/
def decipher (ssl : OpenSSL) (privateKey publicKey : ssl.PKey) (behind pack : Bytes) (_inLen : ℕ) :
    Except Stop Bytes := do
  let packSize ← readU16 pack 0
  let decryptedChunks ← decryptChunks ssl privateKey pack packSize 0
  let f ← parseEnv decryptedChunks.flatten behind
  checkFields ssl publicKey f

/-! ### What the functions write -/

lemma splitBuffer.loop_eq {buffer : Bytes} {chunkSize : ℕ} (hsize : 0 < chunkSize) {k offset : ℕ}
    (hk : (Chunks.chunksOf chunkSize (buffer.drop offset)).length = k) :
    loop buffer chunkSize k offset =
      (Chunks.chunksOf chunkSize (buffer.drop offset)).map (List.rightpad chunkSize 0) := by
  induction k generalizing offset with
  | zero => rw [loop, List.length_eq_zero_iff.1 hk, List.map_nil]
  | succ k ih =>
    have hne : buffer.drop offset ≠ [] := by
      intro h
      rw [h, Chunks.chunksOf_nil] at hk
      exact absurd hk (Nat.succ_ne_zero k).symm
    have hlt : offset < buffer.length := by simpa using hne
    rw [Chunks.chunksOf_eq_cons hsize hne, List.length_cons, List.drop_drop] at hk
    rw [loop, Chunks.chunksOf_eq_cons hsize hne, List.map_cons, List.drop_drop, List.rightpad,
      List.length_take, List.length_drop]
    split_ifs with h
    · -- the last chunk
      have hend :
          buffer.drop (offset + (buffer.length - offset)) = buffer.drop (offset + chunkSize) := by
        rw [List.drop_of_length_le (by omega), List.drop_of_length_le (by omega)]
      have hmin : min chunkSize (buffer.length - offset) = buffer.length - offset := by omega
      rw [ih (by rw [hend]; exact Nat.succ_injective hk), hend, hmin,
        List.take_of_length_le (by simp), List.take_of_length_le (by simp; omega)]
    · have hmin : min chunkSize (buffer.length - offset) = chunkSize := by omega
      rw [ih (Nat.succ_injective hk), hmin]

lemma splitBuffer_eq {buffer : Bytes} {chunkSize : ℕ} (hsize : 0 < chunkSize) :
    splitBuffer buffer chunkSize =
      some ((Chunks.chunksOf chunkSize buffer).map (List.rightpad chunkSize 0)) := by
  have hk := Chunks.length_chunksOf hsize buffer
  simp only [splitBuffer, if_neg hsize.ne', ← hk]
  rw [splitBuffer.loop_eq hsize (by rw [List.drop_zero]), List.drop_zero]

variable {ssl : OpenSSL}

lemma calcCrc_eq {msg : Bytes} (h : ssl.Hashes msg) :
    ∃ hash, calcCrc ssl msg = some hash ∧ hash.length = HASH_SIZE := by
  obtain ⟨hash, hdigest, hlen⟩ := h
  exact ⟨hash, by simp [calcCrc, hdigest, hlen], hlen⟩

lemma rndSize_pos (rand : ℕ → ℕ) : 0 < rndSize rand := by
  rw [rndSize]
  split_ifs <;> omega

lemma rndSize_lt (rand : ℕ → ℕ) : rndSize rand < 2 ^ 8 := by
  rw [rndSize]
  split_ifs <;> omega

lemma length_rndArr (rand : ℕ → ℕ) : (rndArr rand).length = rndSize rand := by
  rw [rndArr, List.length_map, List.length_range]

lemma exists_encryptChunks_eq {publicKey privateKey : ssl.PKey}
    (hkeys : ssl.KeyPair publicKey privateKey) (seed : ℕ → Bytes) (i : ℕ) {chunks : List Bytes}
    (h : ∀ chunk ∈ chunks, chunk.length ≤ CHUNK_SIZE) :
    ∃ encChunks, encryptChunks ssl publicKey seed i chunks = .ok encChunks ∧
      List.Forall₂ (ssl.Sealed privateKey) chunks encChunks := by
  induction chunks generalizing i with
  | nil => exact ⟨[], rfl, .nil⟩
  | cons chunk chunks ih =>
    obtain ⟨hchunk, hchunks⟩ := List.forall_mem_cons.1 h
    obtain ⟨enc, henc, -, hsealed⟩ := hkeys (seed i) chunk hchunk
    obtain ⟨encChunks, hencChunks, hall⟩ := ih (i + 1) hchunks
    refine ⟨enc.data :: encChunks, ?_, .cons hsealed hall⟩
    simp only [encryptChunks, encryptChunk, henc, Option.map_some, orStop_some, ok_bind,
      require_of_pos hsealed.1, hencChunks]
    rfl

/-- `encipher` packs the chunks of an envelope, with the last one filled up, and signs the string
that the message begins. -/
lemma exists_encipher_eq {senderPrivate receiverPublic receiverPrivate : ssl.PKey}
    {msg rest signed : Bytes} {sig : Output} (hkeys : ssl.KeyPair receiverPublic receiverPrivate)
    (hsigned : cString (msg ++ rest) = .ok signed)
    (hsign : ssl.sign senderPrivate signed = some sig) (hlen : sig.data.length = SIG_SIZE)
    (hhash : ssl.Hashes msg) (hmsg : msg.length ≤ 65535) (rand : ℕ → ℕ) (seed : ℕ → Bytes) :
    ∃ (e : Envelope) (pack : Bytes),
      encipher ssl senderPrivate receiverPublic rand seed (msg ++ rest) msg.length
        = .ok (pack, pack.length) ∧
      IsPack ssl receiverPrivate e.fullChunks pack ∧
      e.random = rndArr rand ∧ e.msg = msg ∧ calcCrc ssl msg = some e.crc ∧ e.sign = sig.data := by
  obtain ⟨hash, hcrc, hhashlen⟩ := calcCrc_eq hhash
  let e : Envelope :=
    { random := rndArr rand, crc := hash, sign := sig.data, msg := msg
      random_lt := (length_rndArr rand).trans_lt (rndSize_lt rand), crc_length := hhashlen
      sign_length := hlen, msg_lt := Nat.lt_of_le_of_lt hmsg (by decide) }
  obtain ⟨encChunks, henc, hall⟩ := exists_encryptChunks_eq hkeys seed 0
    fun chunk hchunk => (e.length_of_mem_fullChunks chunk hchunk).le
  have hpack : IsPack ssl receiverPrivate _ _ := ⟨encChunks, hall, rfl⟩
  refine ⟨e, _, ?_, hpack, rfl, rfl, hcrc, rfl⟩
  have hsize : (msg.length : ℤ) % 2 ^ 16 = msg.length := by omega
  have hread : slice (msg ++ rest) 0 msg.length = .ok msg :=
    slice_of_prefix [] (List.prefix_append _ _) rfl rfl
  have hsig : slice sig.data 0 SIG_SIZE = .ok sig.data :=
    slice_of_prefix [] (List.prefix_refl _) rfl hlen.symm
  have hsplit : splitBuffer e.bytes CHUNK_SIZE = some e.fullChunks := splitBuffer_eq (by decide)
  have hcount : encChunks.length < 2 ^ 16 := hall.length_eq ▸ e.length_fullChunks_lt
  have hnum := hall.length_eq
  rw [hpack.length_eq, encipher, require_of_pos hsize, hsize, Int.toNat_natCast]
  simp only [ok_bind, hread, hcrc, orStop_some, calcSign, hsigned, hsign, pure_bind,
    Option.map_some, hsig]
  simp only [Envelope.fullChunks, Envelope.chunks, Envelope.bytes, e] at hsplit henc hnum ⊢
  simp only [hsplit, orStop_some, ok_bind, henc, hnum, require_of_pos (Nat.mod_eq_of_lt hcount)]
  rfl

lemma encipher_eq_error {privateKey publicKey : ssl.PKey} {msg rest : Bytes} {stop : Stop}
    (hsigned : cString (msg ++ rest) = .error stop) (hhash : ssl.Hashes msg)
    (hmsg : msg.length ≤ 65535) (rand : ℕ → ℕ) (seed : ℕ → Bytes) :
    encipher ssl privateKey publicKey rand seed (msg ++ rest) msg.length = .error stop := by
  obtain ⟨hash, hcrc, -⟩ := calcCrc_eq hhash
  have hsize : (msg.length : ℤ) % 2 ^ 16 = msg.length := by omega
  have hread : slice (msg ++ rest) 0 msg.length = .ok msg :=
    slice_of_prefix [] (List.prefix_append _ _) rfl rfl
  rw [encipher, require_of_pos hsize, hsize, Int.toNat_natCast]
  simp only [ok_bind, hread, hcrc, orStop_some, calcSign, hsigned, error_bind]

/-! ### What the functions read -/

/-- The chunks are decrypted if each of them is full. -/
lemma decryptChunks_eq {privateKey : ssl.PKey} {chunks encChunks : List Bytes}
    (h : List.Forall₂ (ssl.Sealed privateKey) chunks encChunks) {pack : Bytes} (before : Bytes)
    (i : ℕ) (hpack : pack = before ++ encChunks.flatten)
    (hi : before.length = 2 + i * ENC_CHUNK_SIZE) :
    decryptChunks ssl privateKey pack chunks.length i =
      if ∀ chunk ∈ chunks, chunk.length = CHUNK_SIZE then .ok chunks else .error .null := by
  induction h generalizing before i with
  | nil => rfl
  | @cons chunk enc chunks encChunks hsealed _ ih =>
    obtain ⟨hlen, d, hd, rfl⟩ := hsealed
    have hread : slice pack (2 + i * ENC_CHUNK_SIZE) ENC_CHUNK_SIZE = .ok enc :=
      slice_of_prefix before ⟨encChunks.flatten, by simp [hpack]⟩ hi.symm hlen.symm
    have hrest := ih (before ++ enc) (i + 1) (by simp [hpack])
      (by rw [List.length_append, hi, hlen, Nat.succ_mul]; omega)
    simp only [List.length_cons, decryptChunks, hread, ok_bind, decryptChunk, hd, Option.map_some,
      orStop_some, List.forall_mem_cons]
    by_cases hfull : d.data.length = CHUNK_SIZE
    · rw [require_of_pos hfull, ok_bind, hrest]
      by_cases hall : ∀ chunk ∈ chunks, chunk.length = CHUNK_SIZE
      · rw [if_pos hall, if_pos ⟨hfull, hall⟩]
        rfl
      · rw [if_neg hall, if_neg fun h => hall h.2]
        rfl
    · rw [require_of_neg hfull, if_neg fun h => hfull h.1]
      rfl

variable {e : Envelope} {env : Bytes}

lemma parseEnv_eq (h : e.bytes <+: env) (hrandom : e.random ≠ []) (behind : Bytes) :
    parseEnv env behind =
      if 0 ∈ env.drop e.msgOffset ++ behind then .ok e.toFields else .error .outOfBounds := by
  have hle : e.msgOffset + e.msg.length ≤ env.length := e.msgOffset_add_le h
  have hne : UInt8.ofNat e.random.length ≠ 0 := by
    intro h0
    have hlen := e.toNat_randomLen
    rw [h0] at hlen
    exact hrandom (List.length_eq_zero_iff.1 hlen.symm)
  have hoffset : 1 + e.random.length + 2 + HASH_SIZE + SIG_SIZE = e.msgOffset := rfl
  simp only [parseEnv, e.readByte_randomLen h, ok_bind, require_of_pos hne, e.toNat_randomLen,
    e.readU16_msgSize h, e.slice_crc h, e.slice_sign h, hoffset]
  rw [require_of_pos (by omega), ok_bind, require_of_pos (by omega), ok_bind,
    require_of_pos (by omega), ok_bind, require_of_pos (by omega), ok_bind,
    require_of_pos (by omega), ok_bind, require_of_pos hle, ok_bind, e.slice_msg h, cString]
  split_ifs <;> rfl

lemma parseEnv_eq_null (h : e.bytes <+: env) (hrandom : e.random = []) (behind : Bytes) :
    parseEnv env behind = .error .null := by
  have hle : e.msgOffset + e.msg.length ≤ env.length := e.msgOffset_add_le h
  have hone : 1 ≤ env.length := by rw [Envelope.msgOffset] at hle; omega
  have hzero : ¬ UInt8.ofNat e.random.length ≠ 0 := by simp [hrandom]
  simp only [parseEnv, require_of_pos hone, e.readByte_randomLen h, ok_bind, require_of_neg hzero,
    error_bind]

lemma checkFields_eq {publicKey : ssl.PKey} {f : Fields} (hcrc : calcCrc ssl f.msg = some f.crc) :
    checkFields ssl publicKey f =
      if ssl.verify publicKey f.msg f.sign then .ok f.msg else .error .null := by
  rw [checkFields, hcrc, orStop_some, ok_bind, require_of_pos rfl, ok_bind, verifySign, require]
  split_ifs <;> rfl

/-- `decipher` reads the envelope at the start of the chunks, if each of them is full. -/
lemma decipher_eq {privateKey publicKey : ssl.PKey} {chunks : List Bytes} {pack : Bytes}
    (hpack : IsPack ssl privateKey chunks pack) (hcount : chunks.length < 2 ^ 16)
    (behind : Bytes) (inLen : ℕ) :
    decipher ssl privateKey publicKey behind pack inLen =
      if ∀ chunk ∈ chunks, chunk.length = CHUNK_SIZE then
        parseEnv chunks.flatten behind >>= checkFields ssl publicKey
      else .error .null := by
  have hsize := hpack.readU16_eq hcount
  obtain ⟨encChunks, hall, rfl⟩ := hpack
  rw [decipher, hsize, ok_bind, decryptChunks_eq hall _ 0 rfl (by simp)]
  split_ifs <;> rfl

/-! ### The round trip -/

/-- What the receiver makes of a pack of `encipher`: `printf` reads on behind `env` when neither the
message nor the padding of the last chunk has a NUL, and the signature is that of a string. -/
lemma decipher_encipher_eq {senderPrivate receiverPublic receiverPrivate : ssl.PKey}
    (senderPublic : ssl.PKey) {msg rest signed : Bytes} {sig : Output}
    (hkeys : ssl.KeyPair receiverPublic receiverPrivate)
    (hsigned : cString (msg ++ rest) = .ok signed)
    (hsign : ssl.sign senderPrivate signed = some sig) (hlen : sig.data.length = SIG_SIZE)
    (hhash : ssl.Hashes msg) (hmsg : msg.length ≤ 65535) (rand : ℕ → ℕ) (seed : ℕ → Bytes)
    (behind : Bytes) :
    (do
      let (pack, outLen) ←
        encipher ssl senderPrivate receiverPublic rand seed (msg ++ rest) msg.length
      decipher ssl receiverPrivate senderPublic behind pack outLen) =
      if 0 ∈ msg ∨ ¬ CHUNK_SIZE ∣ envSize (rndSize rand) msg.length ∨ 0 ∈ behind then
        if ssl.verify senderPublic msg sig.data then .ok msg else .error .null
      else .error .outOfBounds := by
  obtain ⟨e, pack, hpack, hchunks, hrandom, rfl, hcrc, hsig⟩ :=
    exists_encipher_eq hkeys hsigned hsign hlen hhash hmsg rand seed
  have hlenr : e.random.length = rndSize rand := by rw [hrandom, length_rndArr]
  have hne : e.random ≠ [] := List.ne_nil_of_length_pos (hlenr ▸ rndSize_pos rand)
  have hlack : Chunks.lack CHUNK_SIZE e.bytes.length ≠ 0 ↔
      ¬ CHUNK_SIZE ∣ envSize (rndSize rand) e.msg.length := by
    rw [Ne, Chunks.lack_eq_zero_iff (by decide), e.length_bytes, hlenr]
  rw [hpack, ok_bind]
  dsimp only
  rw [decipher_eq hchunks e.length_fullChunks_lt, if_pos e.length_of_mem_fullChunks,
    e.flatten_fullChunks, parseEnv_eq (List.prefix_append _ _) hne, e.drop_msgOffset]
  simp only [List.mem_append, List.mem_replicate, hlack, and_true, or_assoc]
  split_ifs with h1 h2
  · rw [ok_bind, checkFields_eq hcrc, hsig, if_pos h2]
  · rw [ok_bind, checkFields_eq hcrc, hsig, if_neg h2]
  · rfl

/-- The receiver gets the message back when it is a string, with its terminator right behind it, and
`printf` finds a NUL to stop at. -/
theorem decipher_encipher_iff {senderPrivate senderPublic receiverPublic receiverPrivate : ssl.PKey}
    {msg rest : Bytes} (hkeys : ssl.KeyPair receiverPublic receiverPrivate)
    (hsign : ∀ signed, cString (msg ++ rest) = .ok signed →
      ssl.SignsOnly senderPrivate senderPublic signed)
    (hhash : ssl.Hashes msg) (hmsg : msg.length ≤ 65535) (rand : ℕ → ℕ) (seed : ℕ → Bytes)
    (behind : Bytes) :
    (do
      let (pack, outLen) ←
        encipher ssl senderPrivate receiverPublic rand seed (msg ++ rest) msg.length
      decipher ssl receiverPrivate senderPublic behind pack outLen) = .ok msg ↔
      0 ∉ msg ∧ rest.head? = some 0 ∧
        (CHUNK_SIZE ∣ envSize (rndSize rand) msg.length → 0 ∈ behind) := by
  rw [← and_assoc, ← cString_append_eq_left_iff]
  cases hsigned : cString (msg ++ rest) with
  | error stop =>
    rw [encipher_eq_error hsigned hhash hmsg]
    simp
  | ok signed =>
    obtain ⟨sig, hsig, -, hlen, hverify⟩ := hsign signed hsigned
    rw [decipher_encipher_eq senderPublic hkeys hsigned hsig hlen hhash hmsg]
    simp only [hverify, Except.ok.injEq]
    by_cases heq : msg = signed
    · subst heq
      have hnul := (cString_append_eq_left_iff.1 hsigned).1
      by_cases hdvd : CHUNK_SIZE ∣ envSize (rndSize rand) msg.length
      · by_cases hbehind : 0 ∈ behind <;> simp [hnul, hdvd, hbehind]
      · simp [hdvd]
    · have hne : signed ≠ msg := Ne.symm heq
      simp only [heq, hne, false_and, iff_false, if_false]
      split_ifs <;> simp

theorem decipher_encipher_string :
    (do
      let (pack, outLen) ← encipher .plain () () (fun _ => 0) (fun _ => []) ([0x48, 0x69] ++ [0]) 2
      decipher .plain () () [] pack outLen) = .ok [0x48, 0x69] :=
  (decipher_encipher_iff (OpenSSL.plain_keyPair () ())
    (fun _ h => Except.ok.inj h ▸ OpenSSL.plain_signsOnly () () (by decide))
    (OpenSSL.plain_hashes _) (by decide) (fun _ => 0) (fun _ => []) []).2
    ⟨by decide, rfl, fun h => absurd h (by decide)⟩

/-- The message `a`, NUL, `b` is signed as `a`. -/
theorem decipher_encipher_nul :
    OpenSSL.plain.KeyPair () () ∧ OpenSSL.plain.SignsOnly () () [0x61] ∧
      OpenSSL.plain.Hashes [0x61, 0, 0x62] ∧
      (do
        let (pack, outLen) ←
          encipher .plain () () (fun _ => 0) (fun _ => []) ([0x61, 0, 0x62] ++ [0]) 3
        decipher .plain () () [] pack outLen) = .error .null := by
  have hkeys := OpenSSL.plain_keyPair () ()
  have hhash := OpenSSL.plain_hashes [0x61, 0, 0x62]
  have hsigned : cString ([0x61, 0, 0x62] ++ [0]) = .ok [0x61] := by decide
  have hsign : OpenSSL.plain.SignsOnly () () [0x61] := OpenSSL.plain_signsOnly () () (by decide)
  refine ⟨hkeys, hsign, hhash, ?_⟩
  obtain ⟨sig, hsig, -, hlen, hverify⟩ := hsign
  have hrun := decipher_encipher_eq () hkeys hsigned hsig hlen hhash (by decide) (fun _ => 0)
    (fun _ => []) []
  rw [if_pos (.inl (by decide)), if_neg (by simp [hverify])] at hrun
  exact hrun

end Vjft.Term

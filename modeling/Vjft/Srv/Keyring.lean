import Vjft.Srv.Client

/-!
# What a packet is to whom

Each member has a pair of keys. A packet that was made of a message for a recipient is deciphered by
the recipient with the key of the sender, and by nobody else and with no other key, so that a packet
tells its sender, its recipient and its message.
-/

namespace Vjft.Srv

/-- The keys of the members. What is encrypted for one of them is padded for that key, and
decrypting it with the key of another one fails. A signature does not verify with the key of another
one. -/
structure Keyring (ssl : OpenSSL) (ι : Type*) where
  privateKey : ι → ssl.PKey
  publicKey : ι → ssl.PKey
  opens : ∀ i, ssl.KeyPair (publicKey i) (privateKey i)
  decrypt_none : ∀ {i j}, j ≠ i → ∀ {seed chunk e}, ssl.encrypt (publicKey i) seed chunk = some e →
    ssl.decrypt (privateKey j) e.data = none
  signs : ∀ i msg, ssl.Signs (privateKey i) (publicKey i) msg
  verify_false : ∀ {i j}, j ≠ i → ∀ {msg s}, ssl.sign (privateKey i) msg = some s →
    ssl.verify (publicKey j) msg s.data = false
  hashes : ∀ msg, ssl.Hashes msg

/-- A message as its sender packs it for one of its recipients. -/
structure Delivery (ι : Type*) where
  sender : ι
  recipient : ι
  msg : Bytes
  deriving DecidableEq

namespace Keyring

variable {ssl : OpenSSL} {ι : Type*} (keys : Keyring ssl ι)

/-- The packet carries the message of the delivery to its recipient; no more bytes are drawn for it
than there is room for. -/
def Packs (d : Delivery ι) (packet : Bytes) : Prop :=
  ∃ rand seed pack, Crypt.encipher ssl (keys.privateKey d.sender) (keys.publicKey d.recipient) rand
      seed d.msg = .ok pack ∧
    packet = Client.packedMsg pack ∧ d.msg ≠ [] ∧ Crypt.randomLen rand + d.msg.length ≤ 7358

/-! ### Who deciphers a packet -/

lemma decrypt_none_of_encryptChunks {i j : ι} (hij : j ≠ i) {seed : ℕ → Bytes} {n : ℕ}
    {chunks encChunks : List Bytes} (hlen : ∀ chunk ∈ chunks, chunk.length ≤ CHUNK_SIZE)
    (h : Crypt.encryptChunks ssl (keys.publicKey i) seed n chunks = some encChunks) :
    ∀ enc ∈ encChunks, ssl.decrypt (keys.privateKey j) enc = none := by
  induction chunks generalizing n encChunks with
  | nil =>
    cases h
    exact fun enc henc => absurd henc List.not_mem_nil
  | cons chunk chunks ih =>
    obtain ⟨hchunk, hchunks⟩ := List.forall_mem_cons.1 hlen
    obtain ⟨e, he, hsize, hsealed⟩ := keys.opens i (seed n) chunk hchunk
    have hpad : e.data.rightpad e.size 0 = e.data :=
      Chunks.rightpad_of_length_eq 0 (hsealed.1.trans hsize.symm)
    simp only [Crypt.encryptChunks, Crypt.Encrypt, he, Option.map_some, hpad,
      Option.map_eq_some_iff] at h
    obtain ⟨rest, hrest, rfl⟩ := h
    exact List.forall_mem_cons.2 ⟨keys.decrypt_none hij he, ih hchunks hrest⟩

variable [DecidableEq ι]

/-- The signature of a message verifies with the key of the sender only. -/
lemma exists_sign_eq (i : ι) (msg : Bytes) :
    ∃ s, Crypt.sign ssl msg (keys.privateKey i) = some s ∧ s.length = SIG_SIZE ∧
      ∀ j, ssl.verify (keys.publicKey j) msg s = decide (j = i) := by
  obtain ⟨s, hs, hsize, hlen, hverify⟩ := keys.signs i msg
  refine ⟨s.data, ?_, hlen, fun j => ?_⟩
  · simp only [Crypt.sign, hs, hsize, ne_eq, not_true_eq_false, if_false,
      Chunks.rightpad_of_length_eq 0 hlen]
  · by_cases hij : j = i
    · rw [hij, hverify, decide_eq_true rfl]
    · rw [keys.verify_false hij hs, decide_eq_false hij]

/-- The envelope of a message, and its chunks as they are encrypted for the recipient. -/
lemma exists_encipher_eq (i k : ι) {msg : Bytes} (hmsg : msg.length ≤ 65535) (rand : ℕ → ℕ)
    (seed : ℕ → Bytes) :
    ∃ (e : Envelope) (encChunks : List Bytes),
      Crypt.encipher ssl (keys.privateKey i) (keys.publicKey k) rand seed msg =
        .ok (le16 encChunks.length ++ encChunks.flatten) ∧
      List.Forall₂ (ssl.Sealed (keys.privateKey k)) e.chunks encChunks ∧
      (∀ j, j ≠ k → ∀ enc ∈ encChunks, ssl.decrypt (keys.privateKey j) enc = none) ∧
      e.msg = msg ∧ e.crc = Crypt.calcCRC ssl msg ∧
      ∀ j, ssl.verify (keys.publicKey j) msg e.sign = decide (j = i) := by
  obtain ⟨s, hs, hslen, hverify⟩ := keys.exists_sign_eq i msg
  let e : Envelope :=
    { random := Crypt.random rand, crc := Crypt.calcCRC ssl msg, sign := s, msg := msg
      random_lt := (Crypt.length_random rand).trans_lt (Crypt.randomLen_lt rand)
      crc_length := Crypt.length_calcCRC (keys.hashes msg), sign_length := hslen
      msg_lt := Nat.lt_of_le_of_lt hmsg (by decide) }
  obtain ⟨encChunks, henc, hsealed⟩ :=
    Crypt.exists_encryptChunks_eq (keys.opens k) seed 0 e.length_le_of_mem_chunks
  refine ⟨e, encChunks, ?_, hsealed, fun j hj => ?_, rfl, rfl, hverify⟩
  · have hsplit : splitVec e.bytes CHUNK_SIZE = e.chunks := splitVec_eq_chunksOf (by decide)
    have henc' : Crypt.encryptChunks ssl (keys.publicKey k) seed 0
        (splitVec e.bytes CHUNK_SIZE) = some encChunks := by
      rw [hsplit, henc]
    rw [Crypt.encipher, hs, orStop_some, ok_bind]
    exact congrArg (fun x => orStop x .runtimeError >>= fun encChunks =>
      Except.ok (le16 encChunks.length ++ encChunks.flatten)) henc'
  · exact keys.decrypt_none_of_encryptChunks hj e.length_le_of_mem_chunks henc

/-- What a member gets out of a packet with the key of another one. -/
lemma decipher_eq {i k : ι} {rand : ℕ → ℕ} {seed : ℕ → Bytes} {msg pack : Bytes}
    (hmsg : msg.length ≤ 65535)
    (h : Crypt.encipher ssl (keys.privateKey i) (keys.publicKey k) rand seed msg = .ok pack)
    (j m : ι) :
    Crypt.decipher ssl (keys.privateKey j) (keys.publicKey m) pack =
      .ok (if j = k ∧ m = i then msg else []) := by
  obtain ⟨e, encChunks, hok, hsealed, hother, rfl, hcrc, hverify⟩ :=
    keys.exists_encipher_eq i k hmsg rand seed
  obtain rfl := Except.ok.inj (hok.symm.trans h)
  have hpack : IsPack ssl (keys.privateKey k) e.chunks _ := ⟨encChunks, hsealed, rfl⟩
  by_cases hj : j = k
  · have hprefix : e.bytes <+: (e.chunks.map (List.rightpad CHUNK_SIZE 0)).flatten :=
      ⟨_, e.flatten_fullChunks.symm⟩
    rw [hj, Crypt.decipher_eq hpack e.length_chunks_lt e.length_le_of_mem_chunks hprefix]
    by_cases hm : m = i
    · rw [if_pos ⟨rfl, hm⟩, hm, Crypt.checkFields_eq hcrc ((hverify i).trans (decide_eq_true rfl))]
    · have hfalse : ssl.verify (keys.publicKey m) e.msg e.sign = false :=
        (hverify m).trans (decide_eq_false hm)
      rw [if_neg fun heq => hm heq.2, Crypt.checkFields, Crypt.VerifySignature, hfalse]
      rfl
  · have hsize := hpack.readU16_eq e.length_chunks_lt
    have hread : Crypt.readChunks encChunks.length
        ((le16 encChunks.length ++ encChunks.flatten).drop 2) = .ok encChunks := by
      rw [List.drop_left' (length_le16 _),
        Crypt.readChunks_flatten (OpenSSL.length_of_sealed hsealed)]
    rw [hsealed.length_eq] at hsize
    have hdecrypt : Crypt.decryptChunks ssl (keys.privateKey j) encChunks = none := by
      cases encChunks with
      | nil =>
        have hnil : e.chunks = [] := List.length_eq_zero_iff.1 hsealed.length_eq
        have hbytes := e.flatten_chunks
        rw [hnil] at hbytes
        cases hbytes
      | cons enc encChunks =>
        simp only [Crypt.decryptChunks, Crypt.Decrypt, hother j hj enc List.mem_cons_self,
          Option.map_none]
    rw [if_neg fun heq => hj heq.1]
    simp only [Crypt.decipher, hsize, ok_bind, hread, hdecrypt]
    rfl

variable {keys} {d : Delivery ι} {packet : Bytes}

/-- A packet has a length that is accepted, and the rest is cut off its end. -/
lemma Packs.exists_pack (h : keys.Packs d packet) :
    ∃ pack, packet = Client.packedMsg pack ∧ MIN_PACK_SIZE ≤ pack.length + 32 ∧
      pack.length + 32 ≤ MAX_PACK_SIZE ∧ d.msg ≠ [] ∧
      ∀ j m, Crypt.decipher ssl (keys.privateKey j) (keys.publicKey m) pack =
        .ok (if j = d.recipient ∧ m = d.sender then d.msg else []) := by
  obtain ⟨rand, seed, pack, hpack, rfl, hne, hle⟩ := h
  obtain ⟨s, hsign, -, -⟩ := keys.exists_sign_eq d.sender d.msg
  obtain ⟨pack', hpack', hlen⟩ := Client.exists_encipher_length (keys.opens d.recipient)
    (keys.hashes d.msg) hsign rand seed
  obtain rfl := Except.ok.inj (hpack.symm.trans hpack')
  obtain ⟨hmin, hmax⟩ := Client.encipheredLength_le_iff (Crypt.randomLen rand) d.msg.length
  rw [← hlen] at hmin hmax
  exact ⟨pack, rfl, hmin, hmax.2 hle, hne, keys.decipher_eq (by omega) hpack⟩

/-- A packet tells what it carries. -/
lemma Packs.unique {d' : Delivery ι} (h : keys.Packs d packet) (h' : keys.Packs d' packet) :
    d = d' := by
  obtain ⟨pack, rfl, -, -, hne, hdecipher⟩ := h.exists_pack
  obtain ⟨pack', heq, -, -, -, hdecipher'⟩ := h'.exists_pack
  obtain rfl : pack = pack' := by
    have hdrop := congrArg (List.drop 2) heq
    rw [Client.drop_packedMsg, Client.drop_packedMsg] at hdrop
    exact List.append_cancel_right hdrop
  have hmsg := Except.ok.inj
    ((hdecipher d.recipient d.sender).symm.trans (hdecipher' d.recipient d.sender))
  rw [if_pos ⟨rfl, rfl⟩] at hmsg
  split_ifs at hmsg with hsame
  · obtain ⟨sender, recipient, msg⟩ := d
    obtain ⟨sender', recipient', msg'⟩ := d'
    obtain ⟨rfl, rfl⟩ := hsame
    rw [show msg = msg' from hmsg]
  · exact absurd hmsg hne

lemma forall₂_packs_unique {ds ds' : List (Delivery ι)} {packets : List Bytes}
    (h : List.Forall₂ keys.Packs ds packets) (h' : List.Forall₂ keys.Packs ds' packets) :
    ds = ds' := List.left_unique_forall₂' (fun _ _ _ hd hd' => hd.unique hd') h h'

end Keyring

/-! ### Keys of two members -/

/-- A box whose last byte tells the key. -/
def lock (key : Bool) (m : Bytes) : Bytes := (OpenSSL.box m).set 511 key.toUInt8

@[simp] lemma length_lock (key : Bool) (m : Bytes) : (lock key m).length = 512 := by simp [lock]

lemma getElem?_lock (key : Bool) (m : Bytes) : (lock key m)[511]? = some key.toUInt8 := by
  simp [lock]

lemma unbox_lock {m : Bytes} (h : m.length ≤ 255) (key : Bool) :
    OpenSSL.unbox (lock key m) = m := by
  have hn : (UInt8.ofNat m.length).toNat = m.length := by
    rw [UInt8.toNat_ofNat']
    omega
  have hset : lock key m =
      UInt8.ofNat m.length :: ((m.rightpad 511 0).take 511).set 510 key.toUInt8 := rfl
  rw [hset, OpenSSL.unbox, hn, List.take_set_of_le (by omega), List.take_take,
    Nat.min_eq_left (by omega), List.rightpad, List.take_left]

lemma lock_ne {key key' : Bool} (h : key ≠ key') (m m' : Bytes) : lock key m ≠ lock key' m' := by
  intro heq
  have hlast := (getElem?_lock key m).symm.trans ((congrArg (·[511]?) heq).trans
    (getElem?_lock key' m'))
  revert h hlast
  cases key <;> cases key' <;> decide

/-- A ciphertext is a box with the chunk and the key, and a signature is a box with the first bytes
of the message and the key. -/
def locked : OpenSSL where
  PKey := Bool
  encrypt key _ chunk := some ⟨512, lock key chunk, (length_lock key chunk).le⟩
  decrypt key enc :=
    if enc[511]? = some key.toUInt8 then
      some ⟨enc.length, OpenSSL.unbox enc, OpenSSL.unbox_length_le enc⟩
    else none
  sign key msg := some ⟨512, lock key (msg.take 255), (length_lock key _).le⟩
  verify key msg sign := sign == lock key (msg.take 255)
  digest := OpenSSL.plain.digest

def twoMembers : Keyring locked Bool where
  privateKey := id
  publicKey := id
  opens key _ chunk h :=
    ⟨_, rfl, rfl, length_lock key chunk, _, if_pos (getElem?_lock key chunk), unbox_lock h key⟩
  decrypt_none := by
    rintro key key' hkey _ chunk _ ⟨⟩
    refine if_neg fun hlast => ?_
    have heq := (getElem?_lock key chunk).symm.trans hlast
    revert hkey heq
    cases key <;> cases key' <;> decide
  signs key msg := ⟨_, rfl, rfl, length_lock key _, beq_self_eq_true _⟩
  verify_false := by
    rintro key key' hkey msg _ ⟨⟩
    exact beq_eq_false_iff_ne.2 (lock_ne hkey.symm _ _)
  hashes := OpenSSL.plain_hashes

end Vjft.Srv

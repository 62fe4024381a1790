import Vjft.Srv.Crypt
import Vjft.Srv.Relay

/-!
# The client of the server programs (`srv/Client.cpp`)

A handler is called with what the read has put into `read_msg_`, or with `none` on an error; a read
that has no error has filled its buffer. Nothing opens the socket again once it is closed.
-/

namespace Vjft.Srv

def MIN_PACK_SIZE : ℕ := 1570

def READ_QUEUE_SIZE : ℕ := 32

def SYNC_MARKER_SIZE : ℕ := 32

structure Client (ssl : OpenSSL) where
  clientPrivateKey : ssl.PKey
  recipientPublicKeys : List ssl.PKey
  isOpen : Bool
  reading : Option AsyncRead
  readQueue : Bytes
  writeMsgs : List Bytes
  /-- The buffers of the `async_write`s that have not ended. -/
  writing : List Bytes
  /-- The buffers of all `async_write`s. -/
  handed : List Bytes

namespace Client

variable {ssl : OpenSSL}

/-! ### Reading -/

def closeImpl (c : Client ssl) : Client ssl := { c with isOpen := false }

/-- `Recover` closes the socket and empties the queue; `read_msg_` gets its size later. -/
def recover (c : Client ssl) : Client ssl := { c with isOpen := false, readQueue := [] }

def asyncRead (c : Client ssl) (read : AsyncRead) : Client ssl := { c with reading := some read }

/-- The outstanding read has ended. -/
def endRead (c : Client ssl) : Client ssl := { c with reading := none }

/-- The client after the constructor and `OnConnect` without an error. -/
def connected (clientPrivateKey : ssl.PKey) (recipientPublicKeys : List ssl.PKey) : Client ssl :=
  { clientPrivateKey, recipientPublicKeys, isOpen := true, reading := some .header, readQueue := []
    writeMsgs := [], writing := [], handed := [] }

def checkSyncMarkerInQueue (readQueue : Bytes) : Bool := loop 0 readQueue
where
  loop : ℕ → Bytes → Bool
  | _, [] => false
  | zeroCount, byte :: bytes =>
    if byte = 0 then
      if SYNC_MARKER_SIZE ≤ zeroCount + 1 then true else loop (zeroCount + 1) bytes
    else loop 0 bytes

/-- The end of `HeaderHandler`: the queue is trimmed and the body is read. -/
def readBody (c : Client ssl) (needReadSize : ℕ) : Client ssl :=
  let c := { c with readQueue := c.readQueue.drop (c.readQueue.length - READ_QUEUE_SIZE) }
  c.asyncRead (.body needReadSize)

/-- After a length that is too small the function does not return. -/
def headerHandler (c : Client ssl) : Option (UInt8 × UInt8) → Client ssl
  | some (lo, hi) =>
    let needReadSize := u16 lo hi
    let c := { c with readQueue := c.readQueue ++ [lo, hi] }
    if checkSyncMarkerInQueue c.readQueue then c.recover
    else if needReadSize < MIN_PACK_SIZE then c.recover.readBody needReadSize
    else if MAX_PACK_SIZE < needReadSize then c.recover
    else c.readBody needReadSize
  | none => c.closeImpl

/-- The part of `ReadHandler` that looks for the sync marker; `none` is a `Recover` and a return.
After `Recover` for a body that is too short the loop has nothing to look at, and the size that is
resized to wraps. -/
def receivedMsg (readMsg : Bytes) : Except Stop (Option Bytes) := do
  require (SYNC_MARKER_SIZE ≤ readMsg.length) .lengthError
  let size := readMsg.length - SYNC_MARKER_SIZE
  let syncMarkerFound := (readMsg.drop size).all (· == 0)
  pure (if syncMarkerFound then some (readMsg.take size) else none)

/-- The result has the decrypted messages that are logged. -/
def readHandler (c : Client ssl) : Option Bytes → Except Stop (Client ssl × List Bytes)
  | some readMsg => do
    match ← receivedMsg readMsg with
    | none => pure (c.recover, [])
    | some received =>
      let decrypted ← c.recipientPublicKeys.mapM fun key =>
        Crypt.decipher ssl c.clientPrivateKey key received
      pure (c.asyncRead .header, decrypted.filter (· ≠ []))
  | none => pure (c.closeImpl, [])

/-- The timer was not cancelled. -/
def handleDataTimeout (c : Client ssl) : Client ssl := c.closeImpl.recover

/-! ### Writing -/

/-- `async_write` of `write_msgs_.front()`; there is no front element in an empty queue. -/
def asyncWrite (c : Client ssl) : Except Stop (Client ssl) := do
  let front ← orStop c.writeMsgs.head? .outOfBounds
  pure { c with writing := c.writing ++ [front], handed := c.handed ++ [front] }

/-- The sync marker behind the encrypted message, and the length in front. -/
def packedMsg (encryptedMsg : Bytes) : Bytes :=
  let syncMarker := List.replicate 32 0
  let packedMsg := encryptedMsg ++ syncMarker
  le16 packedMsg.length ++ packedMsg

/-- The loop over the keys, from the `i`-th on, with the random draws for each of them. -/
def packedMsgs (c : Client ssl) (rand : ℕ → ℕ → ℕ) (seed : ℕ → ℕ → Bytes) (msgStr : Bytes) :
    ℕ → List ssl.PKey → Except Stop (List Bytes)
  | _, [] => pure []
  | i, key :: keys => do
    let encryptedMsg ← Crypt.encipher ssl c.clientPrivateKey key (rand i) (seed i) msgStr
    let packed ← c.packedMsgs rand seed msgStr (i + 1) keys
    pure (packedMsg encryptedMsg :: packed)

def writeImpl (c : Client ssl) (rand : ℕ → ℕ → ℕ) (seed : ℕ → ℕ → Bytes) (msg : Bytes) :
    Except Stop (Client ssl) := do
  let writeInProgress := !c.writeMsgs.isEmpty
  let packed ← c.packedMsgs rand seed msg 0 c.recipientPublicKeys
  let c := { c with writeMsgs := c.writeMsgs ++ packed }
  if !writeInProgress then c.asyncWrite else pure c

/-- One of the outstanding writes has ended. -/
def endWrite (c : Client ssl) : Client ssl := { c with writing := c.writing.tail }

/-- The write has ended without an error, or with one. -/
def writeHandler (c : Client ssl) : Bool → Except Stop (Client ssl)
  | true =>
    let c := { c with writeMsgs := c.writeMsgs.tail }
    if !c.writeMsgs.isEmpty then c.asyncWrite else pure c
  | false => pure c.closeImpl

/-! ### The states of a client -/

/-- The states in which a connected client can be between two handlers. -/
inductive Reachable : Client ssl → Prop
  | connected (key : ssl.PKey) (keys : List ssl.PKey) : Reachable (connected key keys)
  | header {c : Client ssl} (readMsg : Option (UInt8 × UInt8)) : Reachable c →
    (readMsg.isSome → c.isOpen) → c.reading = some .header →
    Reachable (c.endRead.headerHandler readMsg)
  | body {c c' : Client ssl} {size : ℕ} {msgs : List Bytes} (readMsg : Option Bytes) :
    Reachable c → (readMsg.isSome → c.isOpen) → c.reading = some (.body size) →
    (∀ b ∈ readMsg, b.length = size) → c.endRead.readHandler readMsg = .ok (c', msgs) → Reachable c'
  | timeout {c : Client ssl} : Reachable c → Reachable c.handleDataTimeout
  | close {c : Client ssl} : Reachable c → Reachable c.closeImpl
  | write {c c' : Client ssl} (rand : ℕ → ℕ → ℕ) (seed : ℕ → ℕ → Bytes) (msg : Bytes) :
    Reachable c → c.writeImpl rand seed msg = .ok c' → Reachable c'
  | written {c c' : Client ssl} (ok : Bool) : Reachable c → c.writing ≠ [] →
    c.endWrite.writeHandler ok = .ok c' → Reachable c'

/-! ### The queue of lengths -/

/-- Lengths of two bytes, the second of which is not zero. -/
def HeaderPairs : Bytes → Prop
  | [] => True
  | [_] => False
  | _ :: hi :: bytes => hi ≠ 0 ∧ HeaderPairs bytes

lemma HeaderPairs.append {bytes : Bytes} (h : HeaderPairs bytes) {lo hi : UInt8} (hhi : hi ≠ 0) :
    HeaderPairs (bytes ++ [lo, hi]) := by
  induction bytes using HeaderPairs.induct with
  | case1 => exact ⟨hhi, trivial⟩
  | case2 => exact h.elim
  | case3 lo' hi' bytes ih => exact ⟨h.1, ih h.2⟩

/-- The trimmed queue begins with a whole length. -/
lemma HeaderPairs.trim {bytes : Bytes} (h : HeaderPairs bytes) :
    HeaderPairs (bytes.drop (bytes.length - READ_QUEUE_SIZE)) := by
  induction bytes using HeaderPairs.induct with
  | case1 => trivial
  | case2 => exact h.elim
  | case3 lo hi bytes ih =>
    rw [List.length_cons, List.length_cons]
    by_cases hle : READ_QUEUE_SIZE ≤ bytes.length
    · rw [show bytes.length + 1 + 1 - READ_QUEUE_SIZE = bytes.length - READ_QUEUE_SIZE + 2 by omega]
      exact ih h.2
    · rcases Nat.lt_or_ge (bytes.length + 1) READ_QUEUE_SIZE with hlt | hge
      · rw [Nat.sub_eq_zero_of_le hlt]
        exact h
      · -- the number of bytes is even
        exfalso
        have heven : ∀ l : Bytes, HeaderPairs l → l.length % 2 = 0 := by
          intro l hl
          induction l using HeaderPairs.induct with
          | case1 => rfl
          | case2 => exact hl.elim
          | case3 lo hi l ih =>
            have hrest := ih hl.2
            simp only [List.length_cons]
            omega
        have hparity := heven bytes h.2
        simp only [READ_QUEUE_SIZE] at hle hge
        omega

/-- Two zeros never follow each other in a queue of lengths. -/
lemma HeaderPairs.checkSyncMarkerInQueue {bytes : Bytes} (h : HeaderPairs bytes) :
    checkSyncMarkerInQueue bytes = false := by
  rw [Client.checkSyncMarkerInQueue]
  induction bytes using HeaderPairs.induct with
  | case1 => rfl
  | case2 => exact h.elim
  | case3 lo hi bytes ih =>
    have hrest := ih h.2
    by_cases hlo : lo = 0
    · simp [checkSyncMarkerInQueue.loop, hlo, h.1, hrest, SYNC_MARKER_SIZE]
    · simp [checkSyncMarkerInQueue.loop, hlo, h.1, hrest]

/-- A length that is not too small has a second byte that is not zero. -/
lemma ne_zero_of_le_u16 {lo hi : UInt8} (h : MIN_PACK_SIZE ≤ u16 lo hi) : hi ≠ 0 := by
  rintro rfl
  have hlo := lo.toNat_lt
  simp only [u16, MIN_PACK_SIZE, UInt8.toNat_zero] at h
  omega

lemma headerHandler_eq_readBody {c : Client ssl} {lo hi : UInt8} (hqueue : HeaderPairs c.readQueue)
    (hmin : MIN_PACK_SIZE ≤ u16 lo hi) (hmax : u16 lo hi ≤ MAX_PACK_SIZE) :
    c.headerHandler (some (lo, hi)) =
      { c with readQueue := c.readQueue ++ [lo, hi] }.readBody (u16 lo hi) := by
  have hcheck : checkSyncMarkerInQueue (c.readQueue ++ [lo, hi]) = false :=
    (hqueue.append (ne_zero_of_le_u16 hmin)).checkSyncMarkerInQueue
  simp only [headerHandler, hcheck, Bool.false_eq_true, if_false, if_neg hmin.not_gt,
    if_neg hmax.not_gt]

lemma asyncWrite_eq_ok {c c' : Client ssl} (h : c.asyncWrite = .ok c') :
    c'.isOpen = c.isOpen ∧ c'.readQueue = c.readQueue ∧ c'.writeMsgs = c.writeMsgs := by
  rw [asyncWrite, bind_eq_ok_iff] at h
  obtain ⟨front, -, h⟩ := h
  cases h
  exact ⟨rfl, rfl, rfl⟩

/-- The packed messages go to the end of the queue. -/
lemma writeImpl_eq_ok {c c' : Client ssl} {rand : ℕ → ℕ → ℕ} {seed : ℕ → ℕ → Bytes} {msg : Bytes}
    (h : c.writeImpl rand seed msg = .ok c') :
    c'.isOpen = c.isOpen ∧ c'.readQueue = c.readQueue ∧
      ∃ packed, c.packedMsgs rand seed msg 0 c.recipientPublicKeys = .ok packed ∧
        c'.writeMsgs = c.writeMsgs ++ packed := by
  rw [writeImpl, bind_eq_ok_iff] at h
  obtain ⟨packed, hpacked, h⟩ := h
  split_ifs at h
  · obtain ⟨hopen, hqueue, hmsgs⟩ := asyncWrite_eq_ok h
    exact ⟨hopen, hqueue, packed, hpacked, hmsgs⟩
  · cases h
    exact ⟨rfl, rfl, packed, hpacked, rfl⟩

lemma writeHandler_eq_ok {c c' : Client ssl} {ok : Bool} (h : c.writeHandler ok = .ok c')
    (hopen : c'.isOpen = true) : c.isOpen = true ∧ c'.readQueue = c.readQueue := by
  cases ok with
  | false =>
    cases h
    cases hopen
  | true =>
    rw [writeHandler] at h
    dsimp only at h
    split_ifs at h
    · obtain ⟨hopen', hqueue, -⟩ := asyncWrite_eq_ok h
      exact ⟨hopen' ▸ hopen, hqueue⟩
    · cases h
      exact ⟨hopen, rfl⟩

/-- A client that is open after `HeaderHandler` has appended a length that was not too small. -/
lemma HeaderPairs.headerHandler {c : Client ssl} {readMsg : Option (UInt8 × UInt8)}
    (h : readMsg.isSome → HeaderPairs c.readQueue)
    (hopen : (c.headerHandler readMsg).isOpen = true) :
    HeaderPairs (c.headerHandler readMsg).readQueue := by
  cases readMsg with
  | none => cases hopen
  | some readMsg =>
    obtain ⟨lo, hi⟩ := readMsg
    have hqueue := h rfl
    revert hopen
    rw [Client.headerHandler]
    dsimp only
    split_ifs with hsync hmin hmax
    · intro hopen
      cases hopen
    · intro hopen
      cases hopen
    · intro hopen
      cases hopen
    · intro _
      exact (hqueue.append (ne_zero_of_le_u16 (Nat.le_of_not_lt hmin))).trim

/-- `ReadHandler` goes on with the next header, or it leaves the client closed. -/
lemma readHandler_eq_ok {c c' : Client ssl} {readMsg : Option Bytes} {msgs : List Bytes}
    (h : c.readHandler readMsg = .ok (c', msgs)) :
    c' = c.asyncRead .header ∧ readMsg.isSome ∨ c' = c.recover ∨ c' = c.closeImpl := by
  cases readMsg with
  | none =>
    cases h
    exact .inr (.inr rfl)
  | some readMsg =>
    simp only [readHandler, bind_eq_ok_iff] at h
    obtain ⟨received, -, h⟩ := h
    cases received with
    | none =>
      cases h
      exact .inr (.inl rfl)
    | some received =>
      simp only [bind_eq_ok_iff] at h
      obtain ⟨decrypted, -, h⟩ := h
      cases h
      exact .inl ⟨rfl, rfl⟩

/-- An open client has seen lengths only that were not too small. -/
lemma Reachable.headerPairs {c : Client ssl} (h : c.Reachable) :
    c.isOpen = true → HeaderPairs c.readQueue := by
  induction h with
  | connected key keys =>
    intro _
    trivial
  | header readMsg _ hopen _ ih =>
    exact HeaderPairs.headerHandler fun hread => ih (hopen hread)
  | body readMsg _ hopen _ _ hread ih =>
    intro hc
    rcases readHandler_eq_ok hread with ⟨rfl, hsome⟩ | rfl | rfl
    · exact ih (hopen hsome)
    · cases hc
    · cases hc
  | timeout _ _ =>
    intro hc
    cases hc
  | close _ _ =>
    intro hc
    cases hc
  | write rand seed msg _ hwrite ih =>
    obtain ⟨hopen, hqueue, -⟩ := writeImpl_eq_ok hwrite
    rw [hopen, hqueue]
    exact ih
  | written ok _ _ hwritten ih =>
    intro hc
    obtain ⟨hopen, hqueue⟩ := writeHandler_eq_ok hwritten hc
    rw [hqueue]
    exact ih hopen

/-! ### Which packets are accepted -/

/-- The packet made from `pack` is accepted: its length is that of the rest of the packet, the relay
and every open client that waits for a length go on to read that rest, and what the client passes to
`decipher` is `pack`. -/
structure Accepted (packet pack : Bytes) : Prop where
  length : readU16 packet 0 = .ok (packet.length - 2)
  relay {ι : Type} [DecidableEq ι] (s : Relay ι) (i : ι) (lo hi : UInt8) :
    packet.take 2 = [lo, hi] →
    s.headerHandler i (some (lo, hi)) = s.asyncRead i (.body (packet.length - 2))
  client {ssl : OpenSSL} (c : Client ssl) (lo hi : UInt8) : packet.take 2 = [lo, hi] →
    c.Reachable → c.isOpen → c.reading = some .header →
    (c.endRead.headerHandler (some (lo, hi))).isOpen ∧
      (c.endRead.headerHandler (some (lo, hi))).reading = some (.body (packet.length - 2))
  body : receivedMsg (packet.drop 2) = .ok (some pack)

lemma length_packedMsg (pack : Bytes) : (packedMsg pack).length = 2 + (pack.length + 32) := by
  simp [packedMsg, Nat.add_comm]

lemma take_packedMsg (pack : Bytes) : (packedMsg pack).take 2 = le16 (pack.length + 32) := by
  simp [packedMsg, le16]

lemma drop_packedMsg (pack : Bytes) :
    (packedMsg pack).drop 2 = pack ++ List.replicate SYNC_MARKER_SIZE 0 := rfl

lemma receivedMsg_append (pack : Bytes) :
    receivedMsg (pack ++ List.replicate SYNC_MARKER_SIZE 0) = .ok (some pack) := by
  have hle : SYNC_MARKER_SIZE ≤ (pack ++ List.replicate SYNC_MARKER_SIZE (0 : UInt8)).length := by
    simp
  have hsize : (pack ++ List.replicate SYNC_MARKER_SIZE (0 : UInt8)).length - SYNC_MARKER_SIZE
      = pack.length := by
    simp
  rw [receivedMsg, require_of_pos hle, ok_bind]
  dsimp only
  rw [hsize, List.drop_left, List.take_left, if_pos (by decide)]
  rfl

lemma u16_of_take_packedMsg {pack : Bytes} (hlt : pack.length + 32 < 2 ^ 16) {lo hi : UInt8}
    (h : (packedMsg pack).take 2 = [lo, hi]) : u16 lo hi = pack.length + 32 := by
  rw [take_packedMsg, le16] at h
  simp only [List.cons.injEq, and_true] at h
  rw [← h.1, ← h.2, u16_ofNat hlt]

/-- The sync marker is cut off. -/
lemma length_of_receivedMsg {readMsg pack : Bytes} (h : receivedMsg readMsg = .ok (some pack)) :
    pack.length + SYNC_MARKER_SIZE = readMsg.length := by
  rw [receivedMsg, bind_eq_ok_iff] at h
  obtain ⟨u, hle, h⟩ := h
  rw [require_eq_ok_iff] at hle
  dsimp only at h
  split_ifs at h
  · cases h
    rw [List.length_take]
    omega
  · cases h

/-- A packet that is long enough is accepted when it is not longer than `MAX_PACK_SIZE`. -/
lemma accepted_packedMsg_iff {pack : Bytes} (hmin : MIN_PACK_SIZE ≤ pack.length + 32) :
    Accepted (packedMsg pack) pack ↔ pack.length + 32 ≤ MAX_PACK_SIZE := by
  have hlen : (packedMsg pack).length - 2 = pack.length + 32 := by
    rw [length_packedMsg, Nat.add_sub_cancel_left]
  constructor
  · intro h
    have hsize := h.length
    rw [hlen] at hsize
    obtain ⟨-, hlt⟩ := take_add_two_of_readU16 hsize
    have hrelay := h.relay (Relay.init : Relay ℕ) 0 _ _ (take_packedMsg pack)
    rw [hlen, Relay.headerHandler, u16_of_take_packedMsg hlt (take_packedMsg pack)] at hrelay
    by_contra hmax
    -- the relay makes the sender leave
    rw [if_pos (Nat.lt_of_not_le hmax)] at hrelay
    have hreading := congrArg (fun s => (s.persons 0).reading) hrelay
    simp [Relay.asyncRead, Relay.init, PersonInRoom.accepted] at hreading
  · intro hmax
    have hlt : pack.length + 32 < 2 ^ 16 := hmax.trans_lt (by decide)
    constructor
    · rw [hlen]
      refine readU16_of_prefix [] ⟨(packedMsg pack).drop 2, ?_⟩ rfl hlt
      rw [List.nil_append, ← take_packedMsg, List.take_append_drop]
    · intro ι _ s i lo hi h
      rw [hlen, Relay.headerHandler, u16_of_take_packedMsg hlt h, if_neg hmax.not_gt]
    · intro ssl c lo hi h hc hopen _
      have hu16 := u16_of_take_packedMsg hlt h
      have hheader : c.endRead.headerHandler (some (lo, hi)) = _ :=
        headerHandler_eq_readBody (hc.headerPairs hopen) (hu16 ▸ hmin) (hu16 ▸ hmax)
      rw [hheader, hlen, hu16]
      exact ⟨hopen, rfl⟩
    · rw [drop_packedMsg]
      exact receivedMsg_append pack

/-! ### The packets of `WriteImpl` -/

/-- The number of bytes of an encrypted message: whole chunks behind their number. -/
def encipheredLength (envLength : ℕ) : ℕ :=
  2 + (envLength + (CHUNK_SIZE - 1)) / CHUNK_SIZE * ENC_CHUNK_SIZE

lemma exists_encipher_length {senderPrivate receiverPublic receiverPrivate : ssl.PKey}
    {msg s : Bytes} (hkeys : ssl.KeyPair receiverPublic receiverPrivate) (hhash : ssl.Hashes msg)
    (hsign : Crypt.sign ssl msg senderPrivate = some s) (rand : ℕ → ℕ) (seed : ℕ → Bytes) :
    ∃ pack, Crypt.encipher ssl senderPrivate receiverPublic rand seed msg = .ok pack ∧
      pack.length = encipheredLength (envSize (Crypt.randomLen rand) msg.length) := by
  obtain ⟨pack, hpack, hchunks⟩ := Crypt.exists_isPack_encipher hkeys hsign rand seed
  refine ⟨pack, hpack, ?_⟩
  have hlen : ([UInt8.ofNat (Crypt.random rand).length] ++ Crypt.random rand ++ le16 msg.length ++
      Crypt.calcCRC ssl msg ++ s ++ msg).length = envSize (Crypt.randomLen rand) msg.length := by
    simp only [envSize, List.length_append, List.length_singleton, length_le16,
      Crypt.length_random, Crypt.length_calcCRC hhash, Crypt.length_of_sign_eq hsign]
  rw [hchunks.length_eq, Chunks.length_chunksOf (by decide), hlen, encipheredLength]
  congr 2
  split_ifs with hmod
  · simp only [CHUNK_SIZE] at hmod ⊢
    omega
  · simp only [CHUNK_SIZE, not_not] at hmod ⊢
    omega

/-- The limits of the receivers, for the random bytes and the message. -/
lemma encipheredLength_le_iff (randomLen msgLength : ℕ) :
    MIN_PACK_SIZE ≤ encipheredLength (envSize randomLen msgLength) + 32 ∧
      (encipheredLength (envSize randomLen msgLength) + 32 ≤ MAX_PACK_SIZE ↔
        randomLen + msgLength ≤ 7358) := by
  simp only [encipheredLength, envSize, MIN_PACK_SIZE, MAX_PACK_SIZE, CHUNK_SIZE, ENC_CHUNK_SIZE,
    HASH_SIZE, SIG_SIZE]
  omega

section Packets

variable {c : Client ssl} {rand : ℕ → ℕ → ℕ} {seed : ℕ → ℕ → Bytes} {msg : Bytes}

/-- The loop makes a packet for each key. -/
lemma packedMsgs_eq_ok {i : ℕ} {keys : List ssl.PKey} {packets : List Bytes}
    (h : c.packedMsgs rand seed msg i keys = .ok packets) :
    packets.length = keys.length ∧ ∀ j key, keys[j]? = some key → ∃ pack,
      Crypt.encipher ssl c.clientPrivateKey key (rand (i + j)) (seed (i + j)) msg = .ok pack ∧
        packets[j]? = some (packedMsg pack) := by
  induction keys generalizing i packets with
  | nil =>
    cases h
    exact ⟨rfl, fun j key hkey => by simp at hkey⟩
  | cons key keys ih =>
    simp only [packedMsgs, bind_eq_ok_iff] at h
    obtain ⟨pack, hpack, packets', hpackets, h⟩ := h
    cases h
    obtain ⟨hlen, hrest⟩ := ih hpackets
    refine ⟨by rw [List.length_cons, List.length_cons, hlen], ?_⟩
    intro j key' hkey
    cases j with
    | zero =>
      cases hkey
      exact ⟨pack, hpack, rfl⟩
    | succ j =>
      obtain ⟨pack', hpack', hj⟩ := hrest j key' hkey
      rw [Nat.add_right_comm, Nat.add_assoc] at hpack'
      exact ⟨pack', hpack', hj⟩

/-- The loop ends when the message can be signed. -/
lemma exists_packedMsgs_eq {s : Bytes} {keys : List ssl.PKey}
    (hkeys : ∀ key ∈ keys, ∃ privateKey, ssl.KeyPair key privateKey)
    (hsign : Crypt.sign ssl msg c.clientPrivateKey = some s) (i : ℕ) :
    ∃ packets, c.packedMsgs rand seed msg i keys = .ok packets := by
  induction keys generalizing i with
  | nil => exact ⟨[], rfl⟩
  | cons key keys ih =>
    obtain ⟨⟨privateKey, hkey⟩, hrest⟩ := List.forall_mem_cons.1 hkeys
    obtain ⟨pack, hpack, -⟩ := Crypt.exists_isPack_encipher hkey hsign (rand i) (seed i)
    obtain ⟨packets, hpackets⟩ := ih hrest (i + 1)
    refine ⟨packedMsg pack :: packets, ?_⟩
    rw [packedMsgs, hpack, ok_bind, hpackets]
    rfl

/-- A message that is refused for its signature is not packed. -/
lemma packedMsgs_eq_error (hsign : Crypt.sign ssl msg c.clientPrivateKey = none) (i : ℕ)
    (key : ssl.PKey) (keys : List ssl.PKey) :
    c.packedMsgs rand seed msg i (key :: keys) = .error .runtimeError := by
  rw [packedMsgs, Crypt.encipher, hsign]
  rfl

/-- Each packet that a call of `WriteImpl` queues is accepted, and carries what `encipher` has made
of the message for one of the keys. -/
def QueuesAccepted (c c' : Client ssl) (rand : ℕ → ℕ → ℕ) (seed : ℕ → ℕ → Bytes) (msg : Bytes) :
    Prop :=
  ∃ packets, c'.writeMsgs = c.writeMsgs ++ packets ∧
    packets.length = c.recipientPublicKeys.length ∧
    ∀ j key, c.recipientPublicKeys[j]? = some key → ∃ pack packet,
      Crypt.encipher ssl c.clientPrivateKey key (rand j) (seed j) msg = .ok pack ∧
        packets[j]? = some packet ∧ Accepted packet pack

/-- The packets are accepted when the random bytes and the message are short enough. -/
lemma queuesAccepted_iff {c' : Client ssl} {s : Bytes}
    (hkeys : ∀ key ∈ c.recipientPublicKeys, ∃ privateKey, ssl.KeyPair key privateKey)
    (hhash : ssl.Hashes msg) (hsign : Crypt.sign ssl msg c.clientPrivateKey = some s)
    (h : c.writeImpl rand seed msg = .ok c') :
    QueuesAccepted c c' rand seed msg ↔
      ∀ j < c.recipientPublicKeys.length, Crypt.randomLen (rand j) + msg.length ≤ 7358 := by
  obtain ⟨-, -, packets, hpackets, hmsgs⟩ := writeImpl_eq_ok h
  obtain ⟨hlen, hpacked⟩ := packedMsgs_eq_ok hpackets
  simp only [Nat.zero_add] at hpacked
  -- each packet by itself
  have hone : ∀ j key, c.recipientPublicKeys[j]? = some key → ∀ pack,
      Crypt.encipher ssl c.clientPrivateKey key (rand j) (seed j) msg = .ok pack →
      (Accepted (packedMsg pack) pack ↔ Crypt.randomLen (rand j) + msg.length ≤ 7358) := by
    intro j key hkey pack hpack
    obtain ⟨privateKey, hpair⟩ := hkeys key (List.mem_of_getElem? hkey)
    obtain ⟨pack', hpack', hlen'⟩ := exists_encipher_length hpair hhash hsign (rand j) (seed j)
    obtain rfl : pack = pack' := Except.ok.inj (hpack.symm.trans hpack')
    obtain ⟨hmin, hmax⟩ := encipheredLength_le_iff (Crypt.randomLen (rand j)) msg.length
    rw [accepted_packedMsg_iff (hlen' ▸ hmin), hlen', hmax]
  constructor
  · rintro ⟨packets', hmsgs', -, haccepted⟩ j hj
    obtain rfl : packets = packets' := List.append_cancel_left (hmsgs.symm.trans hmsgs')
    have hkey := List.getElem?_eq_getElem hj
    obtain ⟨pack, packet, hpack, hpacket, hpacc⟩ := haccepted j _ hkey
    obtain ⟨pack', hpack', hpacket'⟩ := hpacked j _ hkey
    obtain rfl : pack = pack' := Except.ok.inj (hpack.symm.trans hpack')
    obtain rfl : packet = packedMsg pack := Option.some.inj (hpacket.symm.trans hpacket')
    exact (hone j _ hkey pack hpack).1 hpacc
  · intro hle
    refine ⟨packets, hmsgs, hlen, ?_⟩
    intro j key hkey
    obtain ⟨pack, hpack, hpacket⟩ := hpacked j key hkey
    obtain ⟨hj, -⟩ := List.getElem?_eq_some_iff.1 hkey
    exact ⟨pack, packedMsg pack, hpack, hpacket, (hone j key hkey pack hpack).2 (hle j hj)⟩

lemma exists_writeImpl_eq {s : Bytes}
    (hkeys : ∀ key ∈ c.recipientPublicKeys, ∃ privateKey, ssl.KeyPair key privateKey)
    (hsign : Crypt.sign ssl msg c.clientPrivateKey = some s) (hne : c.recipientPublicKeys ≠ []) :
    ∃ c', c.writeImpl rand seed msg = .ok c' := by
  obtain ⟨packets, hpackets⟩ := exists_packedMsgs_eq hkeys hsign 0
  have hnil : c.writeMsgs ++ packets ≠ [] := by
    intro hnil
    have hlen := (packedMsgs_eq_ok hpackets).1
    rw [(List.append_eq_nil_iff.1 hnil).2] at hlen
    exact hne (List.length_eq_zero_iff.1 hlen.symm)
  rw [writeImpl, hpackets, ok_bind]
  dsimp only
  split_ifs
  · obtain ⟨front, rest, hfront⟩ := List.exists_cons_of_ne_nil hnil
    rw [asyncWrite, hfront]
    exact ⟨_, rfl⟩
  · exact ⟨_, rfl⟩

/-- `WriteImpl` refuses a message, or queues accepted packets only, exactly when the message cannot
be signed, or is short enough for the random bytes that are drawn for each key. -/
theorem writeImpl_accepted_iff (c : Client ssl) (rand : ℕ → ℕ → ℕ) (seed : ℕ → ℕ → Bytes)
    (hkeys : ∀ key ∈ c.recipientPublicKeys, ∃ privateKey, ssl.KeyPair key privateKey)
    (hhash : ssl.Hashes msg) :
    (∀ c', c.writeImpl rand seed msg = .ok c' → QueuesAccepted c c' rand seed msg) ↔
      Crypt.sign ssl msg c.clientPrivateKey = none ∨
        ∀ j < c.recipientPublicKeys.length, Crypt.randomLen (rand j) + msg.length ≤ 7358 := by
  cases hsign : Crypt.sign ssl msg c.clientPrivateKey with
  | none =>
    simp only [true_or, iff_true]
    intro c' h
    obtain ⟨-, -, packets, hpackets, hmsgs⟩ := writeImpl_eq_ok h
    cases hc : c.recipientPublicKeys with
    | nil =>
      rw [hc] at hpackets
      cases hpackets
      exact ⟨[], hmsgs, congrArg List.length hc.symm, by simp [hc]⟩
    | cons key keys =>
      rw [hc, packedMsgs_eq_error hsign] at hpackets
      cases hpackets
  | some s =>
    simp only [reduceCtorEq, false_or]
    constructor
    · intro h j hj
      have hne : c.recipientPublicKeys ≠ [] := List.length_pos_iff.1 (Nat.zero_lt_of_lt hj)
      obtain ⟨c', hc'⟩ := exists_writeImpl_eq hkeys hsign hne
      exact (queuesAccepted_iff hkeys hhash hsign hc').1 (h c' hc') j hj
    · intro hle c' hc'
      exact (queuesAccepted_iff hkeys hhash hsign hc').2 hle

end Packets

/-- A client with one recipient. -/
def oneRecipient : Client .plain := connected () [()]

lemma oneRecipient_keys : ∀ key ∈ oneRecipient.recipientPublicKeys,
    ∃ privateKey, OpenSSL.plain.KeyPair key privateKey := by
  intro key _
  exact ⟨(), OpenSSL.plain_keyPair key ()⟩

lemma exists_oneRecipient_writeImpl_eq (rand : ℕ → ℕ → ℕ) (seed : ℕ → ℕ → Bytes) (msg : Bytes) :
    ∃ s c', Crypt.sign .plain msg oneRecipient.clientPrivateKey = some s ∧
      oneRecipient.writeImpl rand seed msg = .ok c' := by
  obtain ⟨s, hsign, -⟩ := Crypt.exists_sign_eq
    (OpenSSL.plain_signs oneRecipient.clientPrivateKey () msg)
  obtain ⟨c', hc'⟩ := exists_writeImpl_eq oneRecipient_keys hsign (List.cons_ne_nil _ _)
  exact ⟨s, c', hsign, hc'⟩

theorem writeImpl_accepted_hi :
    ∃ c', oneRecipient.writeImpl (fun _ _ => 255) (fun _ _ => []) [0x48, 0x69] = .ok c' ∧
      QueuesAccepted oneRecipient c' (fun _ _ => 255) (fun _ _ => []) [0x48, 0x69] := by
  obtain ⟨s, c', hsign, hc'⟩ :=
    exists_oneRecipient_writeImpl_eq (fun _ _ => 255) (fun _ _ => []) [0x48, 0x69]
  refine ⟨c', hc', ?_⟩
  have hiff := writeImpl_accepted_iff oneRecipient (fun _ _ => 255) (fun _ _ => [])
    oneRecipient_keys (OpenSSL.plain_hashes [0x48, 0x69])
  refine hiff.2 (.inr ?_) c' hc'
  intro j _
  exact (by decide : Crypt.randomLen (fun _ => 255) + 2 ≤ 7358)

/-- A message of 7359 bytes is one byte too long when no random bytes are drawn. -/
theorem writeImpl_not_accepted_7359 :
    OpenSSL.plain.KeyPair () () ∧ OpenSSL.plain.Hashes (List.replicate 7359 0x61) ∧
      ∃ c', oneRecipient.writeImpl (fun _ _ => 0) (fun _ _ => []) (List.replicate 7359 0x61)
          = .ok c' ∧
        ¬ QueuesAccepted oneRecipient c' (fun _ _ => 0) (fun _ _ => [])
          (List.replicate 7359 0x61) := by
  have hhash := OpenSSL.plain_hashes (List.replicate 7359 0x61)
  obtain ⟨s, c', hsign, hc'⟩ :=
    exists_oneRecipient_writeImpl_eq (fun _ _ => 0) (fun _ _ => []) (List.replicate 7359 0x61)
  refine ⟨OpenSSL.plain_keyPair () (), hhash, c', hc', ?_⟩
  rw [queuesAccepted_iff oneRecipient_keys hhash hsign hc', List.length_replicate]
  intro h
  have hle : Crypt.randomLen (fun _ => 0) + 7359 ≤ 7358 := h 0 Nat.one_pos
  exact absurd hle (by decide)

end Client

end Vjft.Srv

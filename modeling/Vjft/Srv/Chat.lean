import Vjft.Lib.Framing
import Vjft.Srv.Header
import Vjft.Srv.Keyring
import Vjft.Srv.Writes

/-!
# The chat

The relay and its clients run side by side, each connected to its participant by a stream of bytes
in both directions. A read gets the next bytes of the stream, as soon as they were given to a write
at the other end, and any operation may end with an error instead. What a client shows are the
messages that were sent to it, in the order in which the relay got them.
-/

namespace Vjft.Srv

variable {ssl : OpenSSL} {ι : Type*} [DecidableEq ι]

/-! ### The system -/

/-- The bytes that the relay has read from participant `i`. -/
def Event.data (i : ι) : Event ι → Bytes
  | .header j (some (lo, hi)) => if j = i then [lo, hi] else []
  | .body j (some readMsg) => if j = i then readMsg else []
  | _ => []

/-- The bytes that the client has read. -/
def ClientEvent.data : ClientEvent → Bytes
  | .header (some (lo, hi)) => [lo, hi]
  | .body (some readMsg) => readMsg
  | _ => []

/-- `main` posts no empty message, and there is room for what is posted. -/
def ClientEvent.Fits (recipients : List ι) : ClientEvent → Prop
  | .write rand _ msg =>
    msg ≠ [] ∧ ∀ j < recipients.length, Crypt.randomLen (rand j) + msg.length ≤ 7358
  | _ => True

/-- What `ReadHandler` logs. -/
def Client.logged (c : Client ssl) : ClientEvent → List Bytes
  | .body readMsg =>
    match c.endRead.readHandler readMsg with
    | .ok (_, msgs) => msgs
    | .error _ => []
  | _ => []

/-- The relay and the clients with what has happened to them, how far the streams were read, and
what the clients have logged. -/
structure Chat (ssl : OpenSSL) (ι : Type*) where
  relay : Relay ι
  clients : ι → Client ssl
  relayEvents : List (Event ι)
  clientEvents : ι → List ClientEvent
  relayRead : ι → ℕ
  clientRead : ι → ℕ
  logs : ι → List Bytes

namespace Chat

/-- The stream from client `i` to the relay. -/
def sentBy (s : Chat ssl ι) (i : ι) : Bytes := (s.clients i).handed.flatten

/-- The stream from the relay to client `i`. -/
def sentTo (s : Chat ssl ι) (i : ι) : Bytes := (s.relay.persons i).handed.flatten

variable (keys : Keyring ssl ι) (recipients : ι → List ι)

def constructed (i : ι) : Client ssl :=
  Client.constructed (keys.privateKey i) ((recipients i).map keys.publicKey)

def start : Chat ssl ι where
  relay := Relay.init
  clients := constructed keys recipients
  relayEvents := []
  clientEvents _ := []
  relayRead _ := 0
  clientRead _ := 0
  logs _ := []

def afterRelay (s : Chat ssl ι) (e : Event ι) (relay : Relay ι) : Chat ssl ι :=
  { s with
    relay
    relayEvents := s.relayEvents ++ [e]
    relayRead := fun i => s.relayRead i + (e.data i).length }

def afterClient (s : Chat ssl ι) (i : ι) (e : ClientEvent) (c : Client ssl) : Chat ssl ι :=
  { s with
    clients := Function.update s.clients i c
    clientEvents := Function.update s.clientEvents i (s.clientEvents i ++ [e])
    clientRead := Function.update s.clientRead i (s.clientRead i + e.data.length)
    logs := Function.update s.logs i (s.logs i ++ (s.clients i).logged e) }

/-- Something happens to the relay or to a client. -/
inductive Step : Chat ssl ι → Chat ssl ι → Prop
  | relay {s : Chat ssl ι} {e : Event ι} {relay : Relay ι} (hstep : s.relay.step e = some relay)
      (hdata : ∀ i, e.data i <+: (s.sentBy i).drop (s.relayRead i)) : Step s (s.afterRelay e relay)
  | client {s : Chat ssl ι} {i : ι} {e : ClientEvent} {c : Client ssl}
      (hcan : Client.CanHappen (s.clientEvents i) (s.clients i) e)
      (hhandle : (s.clients i).handle e = .ok c)
      (hdata : e.data <+: (s.sentTo i).drop (s.clientRead i)) (hfits : e.Fits (recipients i)) :
      Step s (s.afterClient i e c)

def Reachable (s : Chat ssl ι) : Prop :=
  Relation.ReflTransGen (Step recipients) (start keys recipients) s

/-! ### What is to be shown -/

/-- The deliveries of a message that is posted. -/
def deliveries (i : ι) : ClientEvent → List (Delivery ι)
  | .write _ _ msg => (recipients i).map fun k => ⟨i, k, msg⟩
  | _ => []

/-- The deliveries of the messages that client `i` was given to send. -/
def posted (i : ι) (es : List ClientEvent) : List (Delivery ι) :=
  es.flatMap (deliveries recipients i)

/-- What client `i` shows of a delivery: the message, once for each time that it was given the key
of the sender. -/
def shownTo (i : ι) (d : Delivery ι) : List Bytes :=
  if d.recipient = i then List.replicate ((recipients i).count d.sender) d.msg else []

/-- What a participant is sent that enters after the first `n` deliveries. -/
def deliveredFrom (n : ℕ) (room : List (Delivery ι)) : List (Delivery ι) :=
  (room.take n).rtake ChatRoom.maxRecentMsgs ++ room.drop n

end Chat

/-! ### Reading packets -/

section Reads

variable {keys : Keyring ssl ι} {sent sent' taken : List Bytes} {pos n : ℕ}
  {reading : Option AsyncRead} {d : Delivery ι} {p : Bytes}

lemma Keyring.Packs.length (h : keys.Packs d p) :
    2 < p.length ∧ MIN_PACK_SIZE ≤ p.length - 2 ∧ p.length - 2 ≤ MAX_PACK_SIZE := by
  obtain ⟨pack, rfl, hmin, hmax, -, -⟩ := h.exists_pack
  rw [Client.length_packedMsg, Nat.add_sub_cancel_left]
  exact ⟨by omega, hmin, hmax⟩

lemma Keyring.Packs.u16_eq (h : keys.Packs d p) {lo hi : UInt8} (hp : p.take 2 = [lo, hi]) :
    u16 lo hi = p.length - 2 := by
  obtain ⟨pack, rfl, -, hmax, -, -⟩ := h.exists_pack
  have hlt : pack.length + 32 < 2 ^ 16 := hmax.trans_lt (by decide)
  rw [Client.u16_of_take_packedMsg hlt hp, Client.length_packedMsg, Nat.add_sub_cancel_left]

/-- The relay puts the length in front of the body again. -/
lemma Keyring.Packs.le16_append_drop (h : keys.Packs d p) :
    le16 (p.drop 2).length ++ p.drop 2 = p := by
  obtain ⟨pack, rfl, -, -, -, -⟩ := h.exists_pack
  have hlen : ((Client.packedMsg pack).drop 2).length = pack.length + 32 := by
    rw [List.length_drop, Client.length_packedMsg, Nat.add_sub_cancel_left]
  rw [hlen, ← Client.take_packedMsg, List.take_append_drop]

/-- A reader of packets, with the read that is outstanding. -/
structure Reads (sent taken : List Bytes) (pos : ℕ) (reading : Option AsyncRead) : Prop where
  stands : Framing.Between sent taken pos ∨ ∃ p, Framing.Inside 2 sent taken p pos
  header : reading = some .header → Framing.Between sent taken pos
  body : ∀ n, reading = some (.body n) → ∃ p, Framing.Inside 2 sent taken p pos ∧ n = p.length - 2

lemma reads_nil (sent : List Bytes) : Reads sent [] 0 none :=
  ⟨.inl (Framing.between_nil sent), nofun, nofun⟩

lemma Reads.mono (h : Reads sent taken pos reading) (hs : sent <+: sent') :
    Reads sent' taken pos reading := by
  refine ⟨h.stands.imp (·.mono hs) fun ⟨p, hp⟩ => ⟨p, hp.mono hs⟩, fun hr => (h.header hr).mono hs,
    fun n hr => ?_⟩
  obtain ⟨p, hp, hn⟩ := h.body n hr
  exact ⟨p, hp.mono hs, hn⟩

/-- After an error nothing is read any more. -/
lemma Reads.stop (h : Reads sent taken pos reading) : Reads sent taken pos none :=
  ⟨h.stands, nofun, nofun⟩

lemma Reads.of_between (h : Framing.Between sent taken pos) :
    Reads sent taken pos (some .header) :=
  ⟨.inl h, fun _ => h, nofun⟩

/-- A length is that of the next packet. -/
lemma Reads.readHeader (h : Reads sent taken pos (some .header))
    (hsent : ∀ p ∈ sent, ∃ d, keys.Packs d p) {lo hi : UInt8}
    (hdata : [lo, hi] <+: sent.flatten.drop pos) :
    MIN_PACK_SIZE ≤ u16 lo hi ∧ u16 lo hi ≤ MAX_PACK_SIZE ∧
      Reads sent taken (pos + 2) (some (.body (u16 lo hi))) := by
  have hlen : ∀ p ∈ sent, 2 ≤ p.length := by
    intro p hp
    obtain ⟨d, hd⟩ := hsent p hp
    exact hd.length.1.le
  obtain ⟨p, hp, htake, hinside⟩ := (h.header rfl).header hlen Nat.two_pos rfl hdata
  obtain ⟨d, hd⟩ := hsent p hp
  have hu16 := hd.u16_eq htake.symm
  rw [hu16]
  refine ⟨hd.length.2.1, hd.length.2.2, .inr ⟨p, hinside⟩, nofun, ?_⟩
  rintro n ⟨⟩
  exact ⟨p, hinside, rfl⟩

/-- A body is that of the packet whose length was read. -/
lemma Reads.readBody (h : Reads sent taken pos (some (.body n)))
    (hsent : ∀ p ∈ sent, ∃ d, keys.Packs d p) {body : Bytes} (hlen : body.length = n)
    (hdata : body <+: sent.flatten.drop pos) :
    ∃ p ∈ sent, body = p.drop 2 ∧ le16 body.length ++ body = p ∧
      Reads sent (taken ++ [p]) (pos + body.length) (some .header) := by
  obtain ⟨p, hinside, hn⟩ := h.body n rfl
  have hp : p ∈ sent := hinside.taken_prefix.subset (List.mem_append_right _ List.mem_cons_self)
  obtain ⟨d, hd⟩ := hsent p hp
  obtain ⟨hbody, hbetween⟩ := hinside.body hd.length.1.le (hlen.trans hn) hdata
  refine ⟨p, hp, hbody, ?_, .of_between hbetween⟩
  rw [hbody]
  exact hd.le16_append_drop

/-- A reader of the whole stream has taken all packets. -/
lemma Reads.taken_eq (h : Reads sent taken pos reading) (hsent : ∀ p ∈ sent, ∃ d, keys.Packs d p)
    (hpos : pos = sent.flatten.length) : taken = sent := by
  have hlen : ∀ p ∈ sent, 2 < p.length := by
    intro p hp
    obtain ⟨d, hd⟩ := hsent p hp
    exact hd.length.1
  rcases h.stands with hbetween | ⟨p, hinside⟩
  · exact hbetween.eq_of_length (fun p hp => Nat.zero_lt_of_lt (hlen p hp)) hpos
  · have hp : p ∈ sent := hinside.taken_prefix.subset (List.mem_append_right _ List.mem_cons_self)
    exact absurd hpos (hinside.pos_lt (hlen p hp)).ne

lemma Reads.taken_prefix (h : Reads sent taken pos reading) : taken <+: sent := by
  rcases h.stands with hbetween | ⟨p, hinside⟩
  · exact hbetween.taken_prefix
  · exact (List.prefix_append taken [p]).trans hinside.taken_prefix

end Reads

/-! ### Clients -/

namespace Chat

variable {keys : Keyring ssl ι} {recipients : ι → List ι} {i : ι} {es : List ClientEvent}
  {e : ClientEvent} {c c' : Client ssl}

omit [DecidableEq ι] in
/-- The packets of a message carry it to the recipients. -/
lemma forall₂_packedMsgs (hkey : c.clientPrivateKey = keys.privateKey i) {rand : ℕ → ℕ → ℕ}
    {seed : ℕ → ℕ → Bytes} {msg : Bytes} (hne : msg ≠ []) {n : ℕ} {ks : List ι}
    {packed : List Bytes}
    (hfits : ∀ j < ks.length, Crypt.randomLen (rand (n + j)) + msg.length ≤ 7358)
    (h : c.packedMsgs rand seed msg n (ks.map keys.publicKey) = .ok packed) :
    List.Forall₂ keys.Packs (ks.map fun k => ⟨i, k, msg⟩) packed := by
  induction ks generalizing n packed with
  | nil =>
    cases h
    exact .nil
  | cons k ks ih =>
    simp only [List.map_cons, Client.packedMsgs, bind_eq_ok_iff] at h
    obtain ⟨pack, hpack, packed', hpacked, h⟩ := h
    cases h
    rw [hkey] at hpack
    refine .cons ⟨rand n, seed n, pack, hpack, rfl, hne, hfits 0 (Nat.succ_pos _)⟩ (ih ?_ hpacked)
    intro j hj
    rw [Nat.add_right_comm, Nat.add_assoc]
    exact hfits (j + 1) (Nat.succ_lt_succ hj)

/-- What a client has given to writes and what waits are its packets. -/
structure Sends (keys : Keyring ssl ι) (recipients : ι → List ι) (i : ι) (es : List ClientEvent)
    (c : Client ssl) : Prop where
  sameKeys : Client.SameKeys (constructed keys recipients i) c
  packs : List.Forall₂ keys.Packs (posted recipients i es) (c.handed ++ c.writeMsgs.tail)

omit [DecidableEq ι] in
lemma sends_constructed (keys : Keyring ssl ι) (recipients : ι → List ι) (i : ι) :
    Sends keys recipients i [] (constructed keys recipients i) := ⟨⟨rfl, rfl⟩, .nil⟩

omit [DecidableEq ι] in
lemma posted_concat (recipients : ι → List ι) (i : ι) (es : List ClientEvent) (e : ClientEvent) :
    posted recipients i (es ++ [e]) = posted recipients i es ++ deliveries recipients i e := by
  rw [posted, List.flatMap_append, List.flatMap_singleton]
  rfl

omit [DecidableEq ι] in
/-- An event that posts no message may end a write. -/
lemma Sends.of_not_write (h : Sends keys recipients i es c) (hkeys : Client.SameKeys c c')
    (hcarries : c'.handed ++ c'.writeMsgs.tail = c.handed ++ c.writeMsgs.tail)
    (hposts : deliveries recipients i e = []) : Sends keys recipients i (es ++ [e]) c' := by
  refine ⟨⟨?_, ?_⟩, ?_⟩
  · rw [hkeys.clientPrivateKey, h.sameKeys.clientPrivateKey]
  · rw [hkeys.recipientPublicKeys, h.sameKeys.recipientPublicKeys]
  · rw [posted_concat, hposts, List.append_nil, hcarries]
    exact h.packs

omit [DecidableEq ι] in
lemma Sends.handle (h : Sends keys recipients i es c) (hhandle : c.handle e = .ok c')
    (hfits : e.Fits (recipients i)) :
    Sends keys recipients i (es ++ [e]) c' ∧ c.handed <+: c'.handed := by
  by_cases hwrite : ∃ rand seed msg, e = .write rand seed msg
  · obtain ⟨rand, seed, msg, rfl⟩ := hwrite
    obtain ⟨packed, hpacked, rfl⟩ := Client.handle_write_eq_pushAll hhandle
    obtain ⟨hne, hfits⟩ := hfits
    rw [h.sameKeys.recipientPublicKeys] at hpacked
    have hpacks := forall₂_packedMsgs h.sameKeys.clientPrivateKey hne
      (fun j hj => by rw [Nat.zero_add]; exact hfits j hj) hpacked
    have hcarries : (c.toQueue.pushAll packed).handed ++ (c.toQueue.pushAll packed).queue.tail =
        c.handed ++ c.writeMsgs.tail ++ packed :=
      WriteQueue.Carries.pushAll (q := c.toQueue) rfl packed
    have happend : List.Forall₂ keys.Packs (posted recipients i es ++
        deliveries recipients i (.write rand seed msg))
        (c.handed ++ c.writeMsgs.tail ++ packed) := List.rel_append h.packs hpacks
    rw [← hcarries, ← posted_concat] at happend
    exact ⟨⟨⟨h.sameKeys.clientPrivateKey, h.sameKeys.recipientPublicKeys⟩, happend⟩,
      c.toQueue.handed_pushAll_prefix packed⟩
  · push Not at hwrite
    have hposts : deliveries recipients i e = [] := by
      cases e with
      | write rand seed msg => exact absurd rfl (hwrite rand seed msg)
      | _ => rfl
    by_cases hwritten : ∃ ok, e = .written ok
    · obtain ⟨ok, rfl⟩ := hwritten
      rw [Client.handle] at hhandle
      cases ok with
      | true =>
        rw [Client.writeHandler_true] at hhandle
        cases hhandle
        have hcarries : c.toQueue.done.handed ++ c.toQueue.done.queue.tail =
          c.handed ++ c.writeMsgs.tail := WriteQueue.Carries.done (q := c.toQueue) rfl
        exact ⟨h.of_not_write ⟨rfl, rfl⟩ hcarries hposts, c.toQueue.handed_done_prefix⟩
      | false =>
        rw [Client.writeHandler_false] at hhandle
        cases hhandle
        exact ⟨h.of_not_write ⟨rfl, rfl⟩ rfl hposts, List.prefix_rfl⟩
    · push Not at hwritten
      obtain ⟨hkeys, hqueue⟩ := Client.handle_of_not_write hhandle hwrite hwritten
      have hhanded : c'.handed = c.handed := congrArg WriteQueue.handed hqueue
      have hmsgs : c'.writeMsgs = c.writeMsgs := congrArg WriteQueue.queue hqueue
      rw [hhanded]
      exact ⟨h.of_not_write hkeys (by rw [hhanded, hmsgs]) hposts, List.prefix_rfl⟩

/-- The packets that a client has read. -/
def packetsRead (es : List ClientEvent) : List Bytes :=
  es.filterMap fun e =>
    match e with
    | .body (some readMsg) => some (le16 readMsg.length ++ readMsg)
    | _ => none

/-- A client reads what it is sent, and has logged what is for it. -/
structure Gets (keys : Keyring ssl ι) (recipients : ι → List ι) (i : ι) (sent : List Bytes)
    (es : List ClientEvent) (pos : ℕ) (c : Client ssl) (logs : List Bytes) : Prop where
  reads : Reads sent (packetsRead es) pos c.reading
  before : (∀ ok, .connect ok ∉ es) → pos = 0 ∧ packetsRead es = [] ∧ c.reading = none
  logs : ∃ view, List.Forall₂ keys.Packs view (packetsRead es) ∧
    logs = view.flatMap (shownTo recipients i)

lemma filter_map_eq_shownTo {d : Delivery ι} (hne : d.msg ≠ []) (i : ι) :
    ((recipients i).map fun m => if i = d.recipient ∧ m = d.sender then d.msg else []).filter
      (· ≠ []) = shownTo recipients i d := by
  rw [shownTo]
  by_cases hi : d.recipient = i
  · rw [if_pos hi]
    induction recipients i with
    | nil => rfl
    | cons m ms ih =>
      by_cases hm : m = d.sender
      · rw [List.map_cons, if_pos ⟨hi.symm, hm⟩, List.filter_cons_of_pos (by simpa using hne),
          ih, hm, List.count_cons_self, List.replicate_succ]
      · rw [List.map_cons, if_neg fun h => hm h.2, List.filter_cons_of_neg (by simp), ih,
          List.count_cons_of_ne hm]
  · rw [if_neg hi, List.filter_eq_nil_iff]
    intro msg hmsg
    obtain ⟨m, -, rfl⟩ := List.mem_map.1 hmsg
    rw [if_neg fun h => hi h.1.symm]
    simp

lemma mapM_eq_ok {α : Type*} {β : Type} {f : α → Except Stop β} {g : α → β} {l : List α}
    (h : ∀ a ∈ l, f a = .ok (g a)) : l.mapM f = .ok (l.map g) := by
  induction l with
  | nil => rfl
  | cons a l ih =>
    obtain ⟨ha, hl⟩ := List.forall_mem_cons.1 h
    rw [List.mapM_cons, ha, ok_bind, ih hl]
    rfl

/-- `ReadHandler` shows what is to be shown of a delivery. -/
lemma readHandler_eq (hsame : Client.SameKeys (constructed keys recipients i) c) {d : Delivery ι}
    {p : Bytes} (h : keys.Packs d p) :
    c.endRead.readHandler (some (p.drop 2)) =
      .ok (c.endRead.asyncRead .header, shownTo recipients i d) := by
  obtain ⟨pack, rfl, -, -, hne, hdecipher⟩ := h.exists_pack
  have hmapM : c.recipientPublicKeys.mapM
      (fun key => Crypt.decipher ssl c.clientPrivateKey key pack) =
      .ok ((recipients i).map fun m => if i = d.recipient ∧ m = d.sender then d.msg else []) := by
    have hkeys : c.recipientPublicKeys = (recipients i).map keys.publicKey :=
      hsame.recipientPublicKeys
    rw [hkeys, List.mapM_map, hsame.clientPrivateKey]
    exact mapM_eq_ok fun m _ => hdecipher i m
  have hmapM' : c.endRead.recipientPublicKeys.mapM
      (fun key => Crypt.decipher ssl c.endRead.clientPrivateKey key pack) = _ := hmapM
  rw [Client.drop_packedMsg, Client.readHandler, Client.receivedMsg_append, ok_bind]
  dsimp only
  rw [hmapM', ok_bind, ← filter_map_eq_shownTo hne]
  rfl

lemma gets_constructed (keys : Keyring ssl ι) (recipients : ι → List ι) (i : ι) :
    Gets keys recipients i [] [] 0 (constructed keys recipients i) [] :=
  ⟨reads_nil [], fun _ => ⟨rfl, rfl, rfl⟩, [], .nil, rfl⟩

section Gets

variable {sent sent' : List Bytes} {pos : ℕ} {logs : List Bytes}

lemma packetsRead_concat (es : List ClientEvent) (e : ClientEvent) :
    packetsRead (es ++ [e]) = packetsRead es ++ packetsRead [e] := List.filterMap_append

lemma Gets.mono (h : Gets keys recipients i sent es pos c logs) (hs : sent <+: sent') :
    Gets keys recipients i sent' es pos c logs := ⟨h.reads.mono hs, h.before, h.logs⟩

/-- An event that gets no packet. -/
lemma Gets.of_reads (h : Gets keys recipients i sent es pos c logs)
    (hread : packetsRead [e] = []) (hlogged : c.logged e = [])
    (hreads : Reads sent (packetsRead es) (pos + e.data.length) c'.reading)
    (hbefore : c.reading = none → e.data = [] ∧ c'.reading = none) :
    Gets keys recipients i sent (es ++ [e]) (pos + e.data.length) c' (logs ++ c.logged e) := by
  have htaken : packetsRead (es ++ [e]) = packetsRead es := by
    rw [packetsRead_concat, hread, List.append_nil]
  rw [hlogged, List.append_nil]
  refine ⟨htaken ▸ hreads, fun hnot => ?_, htaken ▸ h.logs⟩
  obtain ⟨hpos, htaken', hreading⟩ :=
    h.before fun ok hmem => hnot ok (List.mem_append_left _ hmem)
  obtain ⟨hdata, hreading'⟩ := hbefore hreading
  rw [hdata, hpos, htaken]
  exact ⟨rfl, htaken', hreading'⟩

/-- An event that does not touch the reading. -/
lemma Gets.of_reading_eq (h : Gets keys recipients i sent es pos c logs)
    (hread : packetsRead [e] = []) (hlogged : c.logged e = []) (hdata : e.data = [])
    (hreading : c'.reading = c.reading) :
    Gets keys recipients i sent (es ++ [e]) (pos + e.data.length) c' (logs ++ c.logged e) := by
  refine h.of_reads hread hlogged ?_ fun hnone => ⟨hdata, hreading.trans hnone⟩
  rw [hdata, hreading]
  exact h.reads

lemma Gets.handle_connect {ok : Bool} (h : Gets keys recipients i sent es pos c logs)
    (hcan : Client.CanHappen es c (.connect ok)) :
    Gets keys recipients i sent (es ++ [.connect ok]) pos (c.onConnect ok) logs := by
  obtain ⟨hpos, htaken, hreading⟩ := h.before hcan.1
  have htaken' : packetsRead (es ++ [.connect ok]) = packetsRead es := by
    rw [packetsRead_concat]
    exact List.append_nil _
  refine ⟨?_, fun hnot => absurd ?_ (hnot ok), htaken' ▸ h.logs⟩
  · rw [htaken', htaken, hpos]
    cases ok with
    | true => exact .of_between (Framing.between_nil sent)
    | false =>
      have hclosed : (c.onConnect false).reading = none := hreading
      rw [hclosed]
      exact reads_nil sent
  · exact List.mem_append_right _ List.mem_cons_self

/-- The length that was read is that of the next packet, and its body is read. -/
lemma Gets.handle_header (h : Gets keys recipients i sent es pos c logs)
    (hsent : ∀ p ∈ sent, ∃ d, keys.Packs d p) {readMsg : Option (UInt8 × UInt8)}
    (hqueue : readMsg.isSome → Client.HeaderPairs c.readQueue)
    (hreading : c.reading = some .header)
    (hdata : (ClientEvent.header readMsg).data <+: sent.flatten.drop pos) :
    Gets keys recipients i sent (es ++ [.header readMsg])
      (pos + (ClientEvent.header readMsg).data.length) (c.endRead.headerHandler readMsg)
      (logs ++ c.logged (.header readMsg)) := by
  have hnone : c.reading ≠ none := by
    rw [hreading]
    exact Option.some_ne_none _
  refine h.of_reads rfl rfl ?_ fun h => absurd h hnone
  cases readMsg with
  | none => exact h.reads.stop
  | some readMsg =>
    obtain ⟨lo, hi⟩ := readMsg
    obtain ⟨hmin, hmax, hreads⟩ := (hreading ▸ h.reads).readHeader hsent hdata
    have hpairs : Client.HeaderPairs c.endRead.readQueue := hqueue rfl
    rw [Client.headerHandler_eq_readBody hpairs hmin hmax]
    exact hreads

/-- The body that was read is that of the next packet, and its delivery is shown. -/
lemma Gets.handle_body (h : Gets keys recipients i sent es pos c logs)
    (hsent : ∀ p ∈ sent, ∃ d, keys.Packs d p)
    (hsame : Client.SameKeys (constructed keys recipients i) c) {readMsg : Option Bytes} {size : ℕ}
    (hreading : c.reading = some (.body size)) (hsize : ∀ b ∈ readMsg, b.length = size)
    (hdata : (ClientEvent.body readMsg).data <+: sent.flatten.drop pos) {msgs : List Bytes}
    (hhandle : c.endRead.readHandler readMsg = .ok (c', msgs)) :
    Gets keys recipients i sent (es ++ [.body readMsg])
      (pos + (ClientEvent.body readMsg).data.length) c' (logs ++ c.logged (.body readMsg)) := by
  have hlogged : c.logged (.body readMsg) = msgs := by
    rw [Client.logged, hhandle]
  have hnone : c.reading ≠ none := by
    rw [hreading]
    exact Option.some_ne_none _
  cases readMsg with
  | none =>
    cases hhandle
    exact h.of_reads rfl hlogged h.reads.stop fun h => absurd h hnone
  | some readMsg =>
    obtain ⟨p, hp, hbody, hpacket, hreads⟩ :=
      (hreading ▸ h.reads).readBody hsent (hsize readMsg rfl) hdata
    obtain ⟨d, hd⟩ := hsent p hp
    obtain ⟨view, hview, hlogs⟩ := h.logs
    rw [hbody, readHandler_eq hsame hd] at hhandle
    cases hhandle
    have htaken : packetsRead (es ++ [.body (some readMsg)]) = packetsRead es ++ [p] := by
      rw [packetsRead_concat, ← hpacket]
      rfl
    refine ⟨htaken ▸ hreads, fun hnot => ?_, view ++ [d], ?_, ?_⟩
    · exact absurd (h.before fun ok hmem => hnot ok (List.mem_append_left _ hmem)).2.2 hnone
    · rw [htaken]
      exact List.rel_append hview (.cons hd .nil)
    · rw [hlogged, hlogs, List.flatMap_append, List.flatMap_singleton]

lemma Gets.handle (h : Gets keys recipients i sent es pos c logs)
    (hsent : ∀ p ∈ sent, ∃ d, keys.Packs d p)
    (hsame : Client.SameKeys (constructed keys recipients i) c)
    (hqueue : c.isOpen = true → Client.HeaderPairs c.readQueue)
    (hcan : Client.CanHappen es c e) (hhandle : c.handle e = .ok c')
    (hdata : e.data <+: sent.flatten.drop pos) :
    Gets keys recipients i sent (es ++ [e]) (pos + e.data.length) c' (logs ++ c.logged e) := by
  cases e with
  | connect ok =>
    cases hhandle
    rw [show c.logged (.connect ok) = [] from rfl, List.append_nil]
    exact h.handle_connect hcan
  | header readMsg =>
    cases hhandle
    exact h.handle_header hsent (fun hread => hqueue (hcan.2 hread)) hcan.1 hdata
  | body readMsg =>
    rw [Client.handle, bind_eq_ok_iff] at hhandle
    obtain ⟨⟨c'', msgs⟩, hread, hc'⟩ := hhandle
    cases hc'
    obtain ⟨size, hreading, hsize⟩ := hcan
    exact h.handle_body hsent hsame hreading (fun b hb => (hsize b hb).1) hdata hread
  | timeout =>
    cases hhandle
    exact h.of_reading_eq rfl rfl rfl rfl
  | close =>
    cases hhandle
    exact h.of_reading_eq rfl rfl rfl rfl
  | write rand seed msg =>
    obtain ⟨q, rfl | rfl⟩ := Client.handle_write_eq_ok hhandle (.inl ⟨rand, seed, msg, rfl⟩)
    · exact h.of_reading_eq rfl rfl rfl rfl
    · exact h.of_reading_eq rfl rfl rfl rfl
  | written ok =>
    obtain ⟨q, rfl | rfl⟩ := Client.handle_write_eq_ok hhandle (.inr ⟨ok, rfl⟩)
    · exact h.of_reading_eq rfl rfl rfl rfl
    · exact h.of_reading_eq rfl rfl rfl rfl

end Gets

end Chat

/-! ### The relay -/

/-- The packets that the relay has read from participant `i`. -/
def packetsFrom (i : ι) (es : List (Event ι)) : List Bytes :=
  es.filterMap fun e =>
    match e with
    | .body j (some readMsg) => if j = i then some (le16 readMsg.length ++ readMsg) else none
    | _ => none

lemma packetsFrom_concat (i : ι) (es : List (Event ι)) (e : Event ι) :
    packetsFrom i (es ++ [e]) = packetsFrom i es ++ packetsFrom i [e] := List.filterMap_append

/-- The read of participant `i` that is outstanding after the event. -/
def Event.reading (i : ι) (reading : Option AsyncRead) : Event ι → Option AsyncRead
  | .start j => if j = i then some .header else reading
  | .header j (some (lo, hi)) =>
    if j = i then if MAX_PACK_SIZE < u16 lo hi then none else some (.body (u16 lo hi)) else reading
  | .header j none => if j = i then none else reading
  | .body j (some _) => if j = i then some .header else reading
  | .body j none => if j = i then none else reading
  | .written _ _ => reading

namespace Relay

variable {s s' : Relay ι} {e : Event ι}

lemma step_reading_eq (h : s.step e = some s') (i : ι) :
    (s'.persons i).reading = e.reading i (s.persons i).reading := by
  cases e with
  | start j =>
    obtain ⟨-, rfl⟩ := step_start h
    by_cases hij : i = j
    · simp [start, asyncRead, Event.reading, hij]
    · simp [start, asyncRead, Event.reading, hij, Ne.symm hij]
  | header j r =>
    obtain ⟨-, rfl⟩ := step_header h
    cases r with
    | none =>
      by_cases hij : i = j
      · simp [headerHandler, endRead, Event.reading, hij]
      · simp [headerHandler, endRead, Event.reading, hij, Ne.symm hij]
    | some r =>
      rw [headerHandler, Event.reading]
      by_cases hij : i = j
      · subst hij
        rw [if_pos rfl]
        split_ifs
        · simp [endRead]
        · simp [asyncRead]
      · rw [if_neg (Ne.symm hij)]
        split_ifs
        · simp [endRead, hij]
        · simp [endRead, asyncRead, hij]
  | body j r =>
    obtain ⟨-, -, -, rfl⟩ := step_body h
    cases r with
    | none =>
      by_cases hij : i = j
      · simp [readHandler, endRead, Event.reading, hij]
      · simp [readHandler, endRead, Event.reading, hij, Ne.symm hij]
    | some b =>
      rw [readHandler, asyncRead, persons_setPerson, Event.reading]
      by_cases hij : i = j
      · simp [hij]
      · rw [if_neg hij, if_neg (Ne.symm hij), persons_broadcast]
        split_ifs
        · simp [endRead, hij]
        · simp [endRead, hij]
  | written j ok =>
    obtain ⟨-, rfl⟩ := step_written h
    cases ok <;> by_cases hij : i = j <;>
      simp [writeHandler, Event.reading, hij, PersonInRoom.written_started, PersonInRoom.endWrite]

/-- What was given to writes stays given. -/
lemma step_handed_prefix (h : s.step e = some s') (i : ι) :
    (s.persons i).handed <+: (s'.persons i).handed := by
  by_cases hstart : e = .start i
  · subst hstart
    have hqueue := congrArg WriteQueue.handed (step_toQueue_start h)
    rw [show (s'.persons i).handed = _ from hqueue]
    exact (s.persons i).toQueue.handed_pushAll_prefix _
  by_cases hwritten : ∃ ok, e = .written i ok
  · obtain ⟨ok, rfl⟩ := hwritten
    have hqueue := congrArg WriteQueue.handed (step_toQueue_written h).2
    rw [show (s'.persons i).handed = _ from hqueue]
    cases ok with
    | true => exact (s.persons i).toQueue.handed_done_prefix
    | false => exact List.prefix_rfl
  · push Not at hwritten
    have hqueue := congrArg WriteQueue.handed (step_toQueue h hstart hwritten)
    rw [show (s'.persons i).handed = _ from hqueue]
    split_ifs
    · exact (s.persons i).toQueue.handed_pushAll_prefix _
    · exact List.prefix_rfl

end Relay

/-- The relay reads what a client sends. -/
structure Takes (i : ι) (sent : List Bytes) (es : List (Event ι)) (pos : ℕ)
    (reading : Option AsyncRead) : Prop where
  reads : Reads sent (packetsFrom i es) pos reading
  before : .start i ∉ es → pos = 0 ∧ packetsFrom i es = [] ∧ reading = none

section Takes

variable {keys : Keyring ssl ι} {i : ι} {sent sent' : List Bytes} {es : List (Event ι)} {pos : ℕ}
  {reading reading' : Option AsyncRead} {e : Event ι}

lemma takes_nil (i : ι) : Takes i [] [] 0 none := ⟨reads_nil [], fun _ => ⟨rfl, rfl, rfl⟩⟩

lemma Takes.mono (h : Takes i sent es pos reading) (hs : sent <+: sent') :
    Takes i sent' es pos reading := ⟨h.reads.mono hs, h.before⟩

/-- An event that takes no packet. -/
lemma Takes.of_reads (h : Takes i sent es pos reading) (htakes : packetsFrom i [e] = [])
    (hreads : Reads sent (packetsFrom i es) (pos + (e.data i).length) reading')
    (hbefore : reading = none → e.data i = [] ∧ reading' = none) :
    Takes i sent (es ++ [e]) (pos + (e.data i).length) reading' := by
  have htaken : packetsFrom i (es ++ [e]) = packetsFrom i es := by
    rw [packetsFrom_concat, htakes, List.append_nil]
  refine ⟨htaken ▸ hreads, fun hnot => ?_⟩
  obtain ⟨hpos, htaken', hreading⟩ := h.before fun hmem => hnot (List.mem_append_left _ hmem)
  obtain ⟨hdata, hreading'⟩ := hbefore hreading
  rw [hdata, hpos, htaken]
  exact ⟨rfl, htaken', hreading'⟩

/-- An event that is about another participant, or about a write. -/
lemma Takes.of_data_eq_nil (h : Takes i sent es pos reading) (htakes : packetsFrom i [e] = [])
    (hdata : e.data i = []) :
    Takes i sent (es ++ [e]) (pos + (e.data i).length) reading := by
  refine h.of_reads htakes ?_ fun hnone => ⟨hdata, hnone⟩
  rw [hdata]
  exact h.reads

lemma Takes.step {s s' : Relay ι} (h : Takes i sent es pos (s.persons i).reading)
    (hsound : Relay.Sound es s) (hsent : ∀ p ∈ sent, ∃ d, keys.Packs d p)
    (hstep : s.step e = some s') (hdata : e.data i <+: sent.flatten.drop pos) :
    Takes i sent (es ++ [e]) (pos + (e.data i).length) (s'.persons i).reading := by
  rw [Relay.step_reading_eq hstep]
  cases e with
  | start j =>
    by_cases hij : j = i
    · subst hij
      have hnot : .start j ∉ es := by
        rw [← hsound.started, (Relay.step_start hstep).1]
        exact Bool.false_ne_true
      obtain ⟨hpos, htaken, -⟩ := h.before hnot
      refine ⟨?_, fun hnot => absurd (List.mem_append_right _ List.mem_cons_self) hnot⟩
      have htaken' : packetsFrom j (es ++ [.start j]) = [] := by
        rw [packetsFrom_concat, htaken]
        rfl
      rw [htaken', hpos, Event.reading, if_pos rfl]
      exact .of_between (Framing.between_nil sent)
    · rw [Event.reading, if_neg hij]
      exact h.of_data_eq_nil rfl rfl
  | header j r =>
    have hreading := (Relay.step_header hstep).1
    by_cases hij : j = i
    · subst hij
      refine h.of_reads rfl ?_ fun hnone => ?_
      · cases r with
        | none =>
          rw [Event.reading, if_pos rfl]
          exact h.reads.stop
        | some r =>
          obtain ⟨lo, hi⟩ := r
          rw [Event.data, if_pos rfl] at hdata ⊢
          obtain ⟨-, hmax, hreads⟩ := (hreading ▸ h.reads).readHeader hsent hdata
          rw [Event.reading, if_pos rfl, if_neg hmax.not_gt]
          exact hreads
      · cases hreading.symm.trans hnone
    · cases r with
      | none =>
        rw [Event.reading, if_neg hij]
        exact h.of_data_eq_nil rfl rfl
      | some r =>
        rw [Event.reading, if_neg hij]
        exact h.of_data_eq_nil rfl (if_neg hij)
  | body j r =>
    obtain ⟨size, hreading, hsize, -⟩ := Relay.step_body hstep
    by_cases hij : j = i
    · subst hij
      cases r with
      | none =>
        rw [Event.reading, if_pos rfl]
        refine h.of_reads rfl h.reads.stop fun hnone => ?_
        cases hreading.symm.trans hnone
      | some b =>
        rw [Event.data, if_pos rfl] at hdata ⊢
        obtain ⟨p, hp, -, hpacket, hreads⟩ :=
          (hreading ▸ h.reads).readBody hsent (hsize b rfl) hdata
        have htaken : packetsFrom j (es ++ [.body j (some b)]) = packetsFrom j es ++ [p] := by
          rw [packetsFrom_concat, ← hpacket]
          simp [packetsFrom]
        rw [Event.reading, if_pos rfl]
        refine ⟨htaken ▸ hreads, fun hnot => ?_⟩
        have hnone := (h.before fun hmem => hnot (List.mem_append_left _ hmem)).2.2
        cases hreading.symm.trans hnone
    · cases r with
      | none =>
        rw [Event.reading, if_neg hij]
        exact h.of_data_eq_nil rfl rfl
      | some b =>
        rw [Event.reading, if_neg hij]
        refine h.of_data_eq_nil ?_ (if_neg hij)
        simp [packetsFrom, hij]
  | written j ok => exact h.of_data_eq_nil rfl rfl

end Takes

namespace Relay

variable {es : List (Event ι)} {s : Relay ι} {i : ι} {p : Bytes}

/-- What is given to writes was broadcast. -/
lemma mem_packets_of_mem_handed (h : run es = some s) (hp : p ∈ (s.persons i).handed) :
    p ∈ packets es := by
  by_cases hstart : .start i ∈ es
  · obtain ⟨before, after, rfl⟩ := List.append_of_mem hstart
    have hdue : p ∈ due i before after := by
      rw [← (run_delivers h).carries]
      exact List.mem_append_left _ hp
    rw [packets_append]
    rcases List.mem_append.1 hdue with hrecent | huntil
    · exact List.mem_append_left _ (List.mem_of_mem_drop hrecent)
    · have hsub : (untilLeave i after).Sublist (.start i :: after) :=
        (List.takeWhile_sublist _).trans (List.sublist_cons_self _ _)
      exact List.mem_append_right _ ((hsub.filterMap Event.packet).subset huntil)
  · rw [show (s.persons i).handed = [] from
      congrArg WriteQueue.handed ((run_sound h).outside i hstart).2] at hp
    cases hp

end Relay

/-! ### The room -/

/-- What was broadcast, and that it came from its senders. -/
structure Room (keys : Keyring ssl ι) (es : List (Event ι)) (room : List (Delivery ι)) : Prop where
  packs : List.Forall₂ keys.Packs room (packets es)
  packsFrom : ∀ i, List.Forall₂ keys.Packs (room.filter (·.sender = i)) (packetsFrom i es)

section Room

variable {keys : Keyring ssl ι} {recipients : ι → List ι} {es : List (Event ι)} {e : Event ι}
  {room : List (Delivery ι)}

lemma room_nil (keys : Keyring ssl ι) : Room keys [] [] := ⟨.nil, fun _ => .nil⟩

lemma Room.of_packet_eq_none (h : Room keys es room) (he : e.packet = none) :
    Room keys (es ++ [e]) room := by
  have hfrom : ∀ i, packetsFrom i [e] = [] := by
    intro i
    cases e with
    | body j r =>
      cases r with
      | none => rfl
      | some b => cases he
    | _ => rfl
  refine ⟨?_, fun i => ?_⟩
  · rw [packets_append, show packets [e] = [] by simp [packets, he], List.append_nil]
    exact h.packs
  · rw [packetsFrom_concat, hfrom, List.append_nil]
    exact h.packsFrom i

lemma Room.body (h : Room keys es room) {i : ι} {b : Bytes} {d : Delivery ι}
    (hd : keys.Packs d (le16 b.length ++ b)) (hi : d.sender = i) :
    Room keys (es ++ [.body i (some b)]) (room ++ [d]) := by
  refine ⟨?_, fun j => ?_⟩
  · rw [packets_append]
    exact List.rel_append h.packs (.cons hd .nil)
  · rw [packetsFrom_concat, List.filter_append]
    refine List.rel_append (h.packsFrom j) ?_
    by_cases hij : i = j
    · simpa [packetsFrom, hi, hij] using hd
    · simp [packetsFrom, hi, hij]

end Room

namespace Chat

variable {keys : Keyring ssl ι} {recipients : ι → List ι} {i : ι} {es : List ClientEvent}
  {c : Client ssl} {p : Bytes}

omit [DecidableEq ι] in
lemma sender_of_mem_posted {d : Delivery ι} (h : d ∈ posted recipients i es) : d.sender = i := by
  obtain ⟨e, -, hd⟩ := List.mem_flatMap.1 h
  cases e with
  | write rand seed msg =>
    obtain ⟨k, -, rfl⟩ := List.mem_map.1 hd
    rfl
  | _ => cases hd

omit [DecidableEq ι] in
lemma Sends.exists_packs (h : Sends keys recipients i es c) (hp : p ∈ c.handed) :
    ∃ d, keys.Packs d p ∧ d.sender = i := by
  obtain ⟨n, hn, hget⟩ := List.mem_iff_getElem.1 (List.mem_append_left c.writeMsgs.tail hp)
  have hlen := h.packs.length_eq
  refine ⟨(posted recipients i es)[n], ?_, sender_of_mem_posted (List.getElem_mem _)⟩
  have hpacks := h.packs.get (hlen ▸ hn) hn
  rwa [List.get_eq_getElem, List.get_eq_getElem, hget] at hpacks

/-! ### All runs -/

/-- What holds of the relay, of every client and of the two streams between them. -/
structure Inv (keys : Keyring ssl ι) (recipients : ι → List ι) (s : Chat ssl ι) : Prop where
  run : Relay.run s.relayEvents = some s.relay
  runs : ∀ i, Client.Runs (constructed keys recipients i) (s.clientEvents i) (s.clients i)
  sends : ∀ i, Sends keys recipients i (s.clientEvents i) (s.clients i)
  takes : ∀ i, Takes i (s.clients i).handed s.relayEvents (s.relayRead i)
    (s.relay.persons i).reading
  gets : ∀ i, Gets keys recipients i (s.relay.persons i).handed (s.clientEvents i)
    (s.clientRead i) (s.clients i) (s.logs i)
  room : ∃ room, Room keys s.relayEvents room

variable {s s' : Chat ssl ι}

lemma inv_start (keys : Keyring ssl ι) (recipients : ι → List ι) :
    Inv keys recipients (start keys recipients) where
  run := rfl
  runs _ := .nil
  sends := sends_constructed keys recipients
  takes := takes_nil
  gets := gets_constructed keys recipients
  room := ⟨[], room_nil keys⟩

lemma Inv.exists_packs_sentTo (h : Inv keys recipients s) (i : ι) :
    ∀ p ∈ (s.relay.persons i).handed, ∃ d, keys.Packs d p := by
  intro p hp
  obtain ⟨room, hroom⟩ := h.room
  obtain ⟨n, hn, rfl⟩ := List.mem_iff_getElem.1 (Relay.mem_packets_of_mem_handed h.run hp)
  exact ⟨_, hroom.packs.get (hroom.packs.length_eq ▸ hn) hn⟩

lemma Inv.exists_packs_sentBy (h : Inv keys recipients s) (i : ι) :
    ∀ p ∈ (s.clients i).handed, ∃ d, keys.Packs d p := by
  intro p hp
  obtain ⟨d, hd, -⟩ := (h.sends i).exists_packs hp
  exact ⟨d, hd⟩

lemma Inv.afterRelay (h : Inv keys recipients s) {e : Event ι} {relay : Relay ι}
    (hstep : s.relay.step e = some relay)
    (hdata : ∀ i, e.data i <+: (s.sentBy i).drop (s.relayRead i)) :
    Inv keys recipients (s.afterRelay e relay) := by
  have htakes : ∀ i, Takes i (s.clients i).handed (s.relayEvents ++ [e])
      (s.relayRead i + (e.data i).length) (relay.persons i).reading := fun i =>
    (h.takes i).step (Relay.run_sound h.run) (h.exists_packs_sentBy i) hstep (hdata i)
  refine ⟨?_, h.runs, h.sends, htakes, ?_, ?_⟩
  · change Relay.run (s.relayEvents ++ [e]) = some relay
    rw [Relay.run, List.foldlM_append, ← Relay.run, h.run]
    simpa using hstep
  · intro i
    exact (h.gets i).mono (Relay.step_handed_prefix hstep i)
  · obtain ⟨room, hroom⟩ := h.room
    cases hpacket : e.packet with
    | none => exact ⟨room, hroom.of_packet_eq_none hpacket⟩
    | some packet =>
      -- the packet is one that a client has sent
      obtain ⟨i, b, rfl⟩ : ∃ i b, e = .body i (some b) := by
        cases e with
        | body i r =>
          cases r with
          | none => cases hpacket
          | some b => exact ⟨i, b, rfl⟩
        | _ => cases hpacket
      have hmem : le16 b.length ++ b ∈ (s.clients i).handed := by
        refine (htakes i).reads.taken_prefix.subset ?_
        rw [packetsFrom_concat]
        exact List.mem_append_right _ (by simp [packetsFrom])
      obtain ⟨d, hd, hi⟩ := (h.sends i).exists_packs hmem
      exact ⟨room ++ [d], hroom.body hd hi⟩

lemma Inv.afterClient (h : Inv keys recipients s) {i : ι} {e : ClientEvent} {c : Client ssl}
    (hcan : Client.CanHappen (s.clientEvents i) (s.clients i) e)
    (hhandle : (s.clients i).handle e = .ok c)
    (hdata : e.data <+: (s.sentTo i).drop (s.clientRead i)) (hfits : e.Fits (recipients i)) :
    Inv keys recipients (s.afterClient i e c) := by
  obtain ⟨hsends, hprefix⟩ := (h.sends i).handle hhandle hfits
  have hgets := (h.gets i).handle (h.exists_packs_sentTo i) (h.sends i).sameKeys
    (h.runs i).headerInv.queue hcan hhandle hdata
  refine ⟨h.run, fun j => ?_, fun j => ?_, fun j => ?_, fun j => ?_, h.room⟩
  all_goals by_cases hij : j = i
  · subst hij
    simpa [Chat.afterClient] using (h.runs j).snoc hcan hhandle
  · simpa [Chat.afterClient, hij] using h.runs j
  · subst hij
    simpa [Chat.afterClient] using hsends
  · simpa [Chat.afterClient, hij] using h.sends j
  · subst hij
    simpa [Chat.afterClient] using (h.takes j).mono hprefix
  · simpa [Chat.afterClient, hij] using h.takes j
  · subst hij
    simpa [Chat.afterClient] using hgets
  · simpa [Chat.afterClient, hij] using h.gets j

lemma Reachable.inv (h : Reachable keys recipients s) : Inv keys recipients s := by
  induction h with
  | refl => exact inv_start keys recipients
  | tail _ hstep ih =>
    cases hstep with
    | relay hstep hdata => exact ih.afterRelay hstep hdata
    | client hcan hhandle hdata hfits => exact ih.afterClient hcan hhandle hdata hfits

lemma Reachable.start (keys : Keyring ssl ι) (recipients : ι → List ι) :
    Reachable keys recipients (start keys recipients) := Relation.ReflTransGen.refl

lemma Reachable.relay (h : Reachable keys recipients s) {e : Event ι} {relay : Relay ι}
    (hstep : s.relay.step e = some relay)
    (hdata : ∀ i, e.data i <+: (s.sentBy i).drop (s.relayRead i)) :
    Reachable keys recipients (s.afterRelay e relay) := h.tail (.relay hstep hdata)

lemma Reachable.client (h : Reachable keys recipients s) {i : ι} {e : ClientEvent} {c : Client ssl}
    (hcan : Client.CanHappen (s.clientEvents i) (s.clients i) e)
    (hhandle : (s.clients i).handle e = .ok c)
    (hdata : e.data <+: (s.sentTo i).drop (s.clientRead i)) (hfits : e.Fits (recipients i)) :
    Reachable keys recipients (s.afterClient i e c) := h.tail (.client hcan hhandle hdata hfits)

/-! ### What the clients show -/

/-- The room gets from each client what it was given to send, in this order. -/
lemma Inv.filter_prefix_posted (h : Inv keys recipients s) {room : List (Delivery ι)}
    (hroom : Room keys s.relayEvents room) (i : ι) :
    room.filter (·.sender = i) <+: posted recipients i (s.clientEvents i) ∧
      ((s.clients i).writeMsgs = [] → s.relayRead i = (s.sentBy i).length →
        room.filter (·.sender = i) = posted recipients i (s.clientEvents i)) := by
  have hposted := (h.sends i).packs
  have htaken := (h.takes i).reads.taken_prefix
  constructor
  · obtain ⟨rest, hrest⟩ := htaken.trans (List.prefix_append _ (s.clients i).writeMsgs.tail)
    rw [← hrest] at hposted
    rw [Keyring.forall₂_packs_unique (hroom.packsFrom i) (List.forall₂_take_append _ _ _ hposted)]
    exact List.take_prefix _ _
  · intro hmsgs hread
    have htaken' := (h.takes i).reads.taken_eq (h.exists_packs_sentBy i) hread
    rw [hmsgs, List.tail_nil, List.append_nil, ← htaken'] at hposted
    exact Keyring.forall₂_packs_unique (hroom.packsFrom i) hposted

lemma Room.deliveredFrom {room : List (Delivery ι)} {before after : List (Event ι)} {i : ι}
    (h : Room keys (before ++ .start i :: after) room) :
    List.Forall₂ keys.Packs (deliveredFrom (packets before).length room)
      (recent before ++ packets after) := by
  have hpacks := h.packs
  rw [packets_append, show packets (.start i :: after) = packets after from rfl] at hpacks
  have htake := List.forall₂_take_append _ _ _ hpacks
  refine List.rel_append ?_ (List.forall₂_drop_append _ _ _ hpacks)
  have hlen := htake.length_eq
  rw [List.rtake, recent, List.rtake, hlen]
  exact List.forall₂_drop _ htake

/-- What a client has logged is what is to be shown of the first packets that it is due. -/
lemma Inv.logs_eq (h : Inv keys recipients s) {room : List (Delivery ι)}
    (hroom : Room keys s.relayEvents room) {i : ι} {before after : List (Event ι)}
    (hevents : s.relayEvents = before ++ .start i :: after) :
    ∃ view, view <+: deliveredFrom (packets before).length room ∧
      s.logs i = view.flatMap (shownTo recipients i) ∧
      (stays i after → (s.relay.persons i).writeMsgs = [] →
        s.clientRead i = (s.sentTo i).length →
        view = deliveredFrom (packets before).length room) := by
  have hrun := h.run
  rw [hevents] at hroom hrun
  have hcarries : (s.relay.persons i).handed ++ (s.relay.persons i).writeMsgs.tail =
      recent before ++ packets (untilLeave i after) := (Relay.run_delivers hrun).carries
  obtain ⟨view, hview, hlogs⟩ := (h.gets i).logs
  have hdelivered := Room.deliveredFrom hroom
  refine ⟨view, ?_, hlogs, fun hstays hmsgs hread => ?_⟩
  · have huntil : packets (untilLeave i after) <+: packets after :=
      (List.takeWhile_prefix _).filterMap Event.packet
    have hdue : recent before ++ packets (untilLeave i after) <+:
        recent before ++ packets after := (List.prefix_append_right_inj _).2 huntil
    have htaken : packetsRead (s.clientEvents i) <+: recent before ++ packets after :=
      (h.gets i).reads.taken_prefix.trans ((hcarries ▸ List.prefix_append _ _ :).trans hdue)
    obtain ⟨rest, hrest⟩ := htaken
    rw [← hrest] at hdelivered
    rw [Keyring.forall₂_packs_unique hview (List.forall₂_take_append _ _ _ hdelivered)]
    exact List.take_prefix _ _
  · have htaken := (h.gets i).reads.taken_eq (h.exists_packs_sentTo i) hread
    have huntil : untilLeave i after = after := by
      rw [untilLeave, List.takeWhile_eq_self_iff]
      intro e he
      rw [hstays e he]
      rfl
    rw [hmsgs, List.tail_nil, List.append_nil, huntil, ← htaken] at hcarries
    rw [← hcarries] at hdelivered
    exact Keyring.forall₂_packs_unique hview hdelivered

/-- In every run of the relay and its clients, the room gets from each client what it was given to
send, in this order and packed for its recipients; and a client logs, of the deliveries that it is
due, those that are for it and from one of its contacts, in the order of the room. When nothing
waits any more and the streams are read, nothing is missing. -/
theorem reachable_delivers (h : Reachable keys recipients s) :
    ∃ room, List.Forall₂ keys.Packs room (packets s.relayEvents) ∧
      (∀ i, room.filter (·.sender = i) <+: posted recipients i (s.clientEvents i) ∧
        ((s.clients i).writeMsgs = [] → s.relayRead i = (s.sentBy i).length →
          room.filter (·.sender = i) = posted recipients i (s.clientEvents i))) ∧
      ∀ i, (.start i ∉ s.relayEvents → s.logs i = []) ∧
        ∀ before after, s.relayEvents = before ++ .start i :: after →
          ∃ view, view <+: deliveredFrom (packets before).length room ∧
            s.logs i = view.flatMap (shownTo recipients i) ∧
            (stays i after → (s.relay.persons i).writeMsgs = [] →
              s.clientRead i = (s.sentTo i).length →
              view = deliveredFrom (packets before).length room) := by
  have hinv := h.inv
  obtain ⟨room, hroom⟩ := hinv.room
  refine ⟨room, hroom.packs, hinv.filter_prefix_posted hroom, fun i => ⟨fun hstart => ?_, ?_⟩⟩
  · obtain ⟨view, hview, hlogs⟩ := (hinv.gets i).logs
    have hhanded : (s.relay.persons i).handed = [] :=
      congrArg WriteQueue.handed ((Relay.run_sound hinv.run).outside i hstart).2
    have htaken := (hinv.gets i).reads.taken_prefix
    rw [hhanded, List.prefix_nil] at htaken
    rw [htaken, List.forall₂_nil_right_iff] at hview
    rw [hlogs, hview, List.flatMap_nil]
  · intro before after hevents
    exact hinv.logs_eq hroom hevents

/-! A message gets from one of two members to the other. -/

def eachOther (i : Bool) : List Bool := [!i]

/-- Both members are connected. -/
def bothConnected : Chat locked Bool :=
  let s := start twoMembers eachOther
  let s := s.afterRelay (.start false) (s.relay.start false)
  let s := s.afterRelay (.start true) (s.relay.start true)
  let s := s.afterClient false (.connect true) ((s.clients false).onConnect true)
  s.afterClient true (.connect true) ((s.clients true).onConnect true)

lemma reachable_bothConnected : Reachable twoMembers eachOther bothConnected := by
  have h := (Reachable.start twoMembers eachOther).relay (e := .start false) rfl
    fun i => List.nil_prefix
  have h := h.relay (e := .start true) rfl fun i => List.nil_prefix
  have h := h.client (i := false) (e := .connect true) ⟨fun _ => List.not_mem_nil, fun _ => rfl⟩
    rfl List.nil_prefix trivial
  exact h.client (i := true) (e := .connect true) ⟨fun _ => List.not_mem_nil, fun _ => rfl⟩
    rfl List.nil_prefix trivial

def hi : Delivery Bool := ⟨false, true, [0x48, 0x69]⟩

lemma exists_packs_hi : ∃ packet, twoMembers.Packs hi packet ∧
    (bothConnected.clients false).packedMsgs (fun _ _ => 0) (fun _ _ => []) hi.msg 0 [true] =
      .ok [packet] := by
  obtain ⟨-, encChunks, hencipher, -⟩ :=
    @Keyring.exists_encipher_eq _ _ twoMembers _ false true hi.msg (by decide) (fun _ => 0)
      fun _ => []
  refine ⟨_, ⟨_, _, _, hencipher, rfl, List.cons_ne_nil _ _, by decide⟩, ?_⟩
  have hencipher' : Crypt.encipher locked (bothConnected.clients false).clientPrivateKey true
    (fun _ => 0) (fun _ => []) hi.msg = _ := hencipher
  simp only [Client.packedMsgs, hencipher', ok_bind]
  rfl

lemma exists_reachable_hi : ∃ s, Reachable twoMembers eachOther s ∧ s.logs true = [hi.msg] := by
  obtain ⟨packet, hpacks, hpacked⟩ := exists_packs_hi
  obtain ⟨lo, hi', htake⟩ : ∃ lo hi', packet.take 2 = [lo, hi'] := by
    obtain ⟨pack, rfl, -⟩ := hpacks.exists_pack
    exact ⟨_, _, Client.take_packedMsg pack⟩
  have hu16 := hpacks.u16_eq htake
  have hfirst : [lo, hi'] <+: packet := ⟨packet.drop 2, by rw [← htake, List.take_append_drop]⟩
  obtain ⟨-, hmin, hmax⟩ := hpacks.length
  rw [← hu16] at hmin hmax
  have hlen : (packet.drop 2).length = u16 lo hi' := by rw [List.length_drop, hu16]
  -- the message is posted
  have hwrite : (bothConnected.clients false).handle
      (.write (fun _ _ => 0) (fun _ _ => []) hi.msg) = .ok ((bothConnected.clients false).setQueue
        ((bothConnected.clients false).toQueue.pushAll [packet])) :=
    (Client.writeImpl_of_packedMsgs hpacked).trans (if_neg fun hnil => List.cons_ne_nil _ _ hnil.2)
  have h := reachable_bothConnected.client (i := false) (by trivial) hwrite List.nil_prefix
    ⟨List.cons_ne_nil _ _, fun j _ => show 0 + 2 ≤ 7358 by decide⟩
  -- the relay reads it
  have hheader : bothConnected.relay.step (.header false (some (lo, hi'))) =
      some ((bothConnected.relay.endRead false).asyncRead false (.body (u16 lo hi'))) :=
    congrArg some (if_neg hmax.not_gt)
  have h := h.relay hheader fun i => by
    cases i with
    | false =>
      change [lo, hi'] <+: packet ++ []
      rwa [List.append_nil]
    | true => exact List.nil_prefix
  have h := h.relay (e := .body false (some (packet.drop 2))) (if_pos (by simp [hlen])) fun i => by
    cases i with
    | false =>
      change packet.drop 2 <+: (packet ++ []).drop 2
      rw [List.append_nil]
    | true => exact List.nil_prefix
  -- the other client reads it
  have hsent : le16 (packet.drop 2).length ++ packet.drop 2 ++ [] = packet := by
    rw [List.append_nil, hpacks.le16_append_drop]
  have hfirst' : [lo, hi'] <+: le16 (packet.drop 2).length ++ packet.drop 2 ++ [] := by
    rwa [hsent]
  have hrest : packet.drop 2 <+: (le16 (packet.drop 2).length ++ packet.drop 2 ++ []).drop 2 := by
    rw [hsent]
  have hqueue : Client.HeaderPairs (bothConnected.clients true).endRead.readQueue := trivial
  have h := h.client (i := true) (e := .header (some (lo, hi'))) ⟨rfl, fun _ => rfl⟩
    (congrArg Except.ok (Client.headerHandler_eq_readBody hqueue hmin hmax)) hfirst' trivial
  have hread : ∀ c : Client locked, Client.SameKeys (constructed twoMembers eachOther true) c →
      c.endRead.readHandler (some (packet.drop 2)) = .ok (c.endRead.asyncRead .header, [hi.msg]) :=
    fun c hsame => readHandler_eq hsame hpacks
  have hhandle : ∀ c : Client locked, Client.SameKeys (constructed twoMembers eachOther true) c →
      c.handle (.body (some (packet.drop 2))) = .ok (c.endRead.asyncRead .header) := by
    intro c hsame
    rw [Client.handle, hread c hsame]
    rfl
  have hlogged : ∀ c : Client locked, Client.SameKeys (constructed twoMembers eachOther true) c →
      c.logged (.body (some (packet.drop 2))) = [hi.msg] := by
    intro c hsame
    rw [Client.logged, hread c hsame]
  have h := h.client (i := true) (e := .body (some (packet.drop 2)))
    ⟨u16 lo hi', rfl, fun b hb => ⟨Option.mem_some.1 hb ▸ hlen, .inl rfl⟩⟩ (hhandle _ ⟨rfl, rfl⟩)
    hrest trivial
  exact ⟨_, h, hlogged _ ⟨rfl, rfl⟩⟩

theorem reachable_delivers_hi :
    ∃ s : Chat locked Bool, s.logs true = [[0x48, 0x69]] ∧
      ∃ room, List.Forall₂ twoMembers.Packs room (packets s.relayEvents) ∧
        ∀ i, room.filter (·.sender = i) <+: posted eachOther i (s.clientEvents i) := by
  obtain ⟨s, h, hlogs⟩ := exists_reachable_hi
  obtain ⟨room, hpacks, hposted, -⟩ := reachable_delivers h
  exact ⟨s, hlogs, room, hpacks, fun i => (hposted i).1⟩

end Chat

end Vjft.Srv

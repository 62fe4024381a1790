import Vjft.Srv.Session

/-!
# What the client writes

The packets of a client go through a `WriteQueue`. `MainClient` (`src/srv/MainClient.cpp`) admits
argument lists without a recipient, for which a posted message finds an empty queue.
-/

namespace Vjft.Srv

/-- The recipients among the arguments of `main`, if it does not print its usage and return. -/
def recipientPublicKeyFiles (argv : List Bytes) : Option (List Bytes) :=
  if argv.length < 5 then none else some (argv.drop 5)

namespace Client

variable {ssl : OpenSSL}

/-- The packets that an event pushes into the queue of a client with the keys of `c₀`. -/
def packets (c₀ : Client ssl) : ClientEvent → List Bytes
  | .write rand seed msg =>
    match c₀.packedMsgs rand seed msg 0 c₀.recipientPublicKeys with
    | .ok packed => packed
    | .error _ => []
  | _ => []

/-- Until the first error of a write, there is one outstanding write exactly when packets are
queued, and it is that of the front packet, which is there for every write that begins. What was
given to writes and the packets that wait behind the front one are the packets of the messages in
their order, one for each recipient. -/
structure WritesInOrder (c₀ : Client ssl) (es : List ClientEvent) (c : Client ssl) : Prop where
  outstanding : c.writing.length = 1 ↔ c.writeMsgs ≠ []
  front : c.writing = c.writeMsgs.take 1
  in_order : c.handed ++ c.writeMsgs.tail = es.flatMap c₀.packets
  per_recipient : ∀ rand seed msg, .write rand seed msg ∈ es →
    ∃ packed, c₀.packedMsgs rand seed msg 0 c₀.recipientPublicKeys = .ok packed ∧
      packed.length = c₀.recipientPublicKeys.length
  write_front : ∀ rand seed msg packed,
    c.packedMsgs rand seed msg 0 c.recipientPublicKeys = .ok packed →
      ∃ c', c.handle (.write rand seed msg) = .ok c'
  written_front : ∃ c', c.handle (.written true) = .ok c'

/-! ### The queue in a session -/

/-- The keys do not change. -/
structure SameKeys (c₀ c : Client ssl) : Prop where
  clientPrivateKey : c.clientPrivateKey = c₀.clientPrivateKey
  recipientPublicKeys : c.recipientPublicKeys = c₀.recipientPublicKeys

lemma SameKeys.packedMsgs {c₀ c : Client ssl} (h : SameKeys c₀ c) (rand : ℕ → ℕ → ℕ)
    (seed : ℕ → ℕ → Bytes) (msg : Bytes) (i : ℕ) (keys : List ssl.PKey) :
    c.packedMsgs rand seed msg i keys = c₀.packedMsgs rand seed msg i keys := by
  induction keys generalizing i with
  | nil => rfl
  | cons key keys ih => rw [Client.packedMsgs, Client.packedMsgs, ih, h.clientPrivateKey]

/-- The queue carries the packets of the events, and its front is being written. -/
structure QueueInv (c₀ : Client ssl) (es : List ClientEvent) (c : Client ssl) : Prop where
  keys : SameKeys c₀ c
  carries : c.toQueue.Carries (es.flatMap c₀.packets)
  live : c.toQueue.Live
  written : ∀ rand seed msg, .write rand seed msg ∈ es →
    ∃ packed, c₀.packedMsgs rand seed msg 0 c₀.recipientPublicKeys = .ok packed

/-- An event that is not about writing leaves the keys and the queue of packets. -/
lemma handle_of_not_write {c c' : Client ssl} {e : ClientEvent} (h : c.handle e = .ok c')
    (hwrite : ∀ rand seed msg, e ≠ .write rand seed msg) (hwritten : ∀ ok, e ≠ .written ok) :
    SameKeys c c' ∧ c'.toQueue = c.toQueue := by
  cases e with
  | connect ok =>
    cases h
    cases ok with
    | true => exact ⟨⟨rfl, rfl⟩, rfl⟩
    | false => exact ⟨⟨rfl, rfl⟩, rfl⟩
  | header readMsg =>
    cases h
    cases readMsg with
    | none => exact ⟨⟨rfl, rfl⟩, rfl⟩
    | some readMsg =>
      obtain ⟨lo, hi⟩ := readMsg
      rw [headerHandler]
      dsimp only
      split_ifs
      · exact ⟨⟨rfl, rfl⟩, rfl⟩
      · exact ⟨⟨rfl, rfl⟩, rfl⟩
      · exact ⟨⟨rfl, rfl⟩, rfl⟩
      · exact ⟨⟨rfl, rfl⟩, rfl⟩
  | body readMsg =>
    rw [handle, bind_eq_ok_iff] at h
    obtain ⟨⟨c'', msgs⟩, hread, hc'⟩ := h
    cases hc'
    rcases readHandler_eq_ok hread with ⟨rfl, -⟩ | rfl | rfl
    · exact ⟨⟨rfl, rfl⟩, rfl⟩
    · exact ⟨⟨rfl, rfl⟩, rfl⟩
    · exact ⟨⟨rfl, rfl⟩, rfl⟩
  | timeout =>
    cases h
    exact ⟨⟨rfl, rfl⟩, rfl⟩
  | close =>
    cases h
    exact ⟨⟨rfl, rfl⟩, rfl⟩
  | write rand seed msg => exact absurd rfl (hwrite rand seed msg)
  | written ok => exact absurd rfl (hwritten ok)

/-- A posted message adds its packets to those that are carried. -/
lemma QueueInv.handle_write {c₀ c c' : Client ssl} {es : List ClientEvent} {rand : ℕ → ℕ → ℕ}
    {seed : ℕ → ℕ → Bytes} {msg : Bytes} (h : QueueInv c₀ es c)
    (hhandle : c.handle (.write rand seed msg) = .ok c') :
    QueueInv c₀ (es ++ [.write rand seed msg]) c' := by
  obtain ⟨packed, hpacked, rfl⟩ := handle_write_eq_pushAll hhandle
  rw [h.keys.packedMsgs, h.keys.recipientPublicKeys] at hpacked
  constructor
  · exact ⟨h.keys.clientPrivateKey, h.keys.recipientPublicKeys⟩
  · have hcarries := h.carries.pushAll packed
    simpa [packets, hpacked] using hcarries
  · exact h.live.pushAll packed
  · intro rand' seed' msg' hmem
    rcases List.mem_append.1 hmem with hmem | hmem
    · exact h.written rand' seed' msg' hmem
    · cases List.mem_singleton.1 hmem
      exact ⟨packed, hpacked⟩

/-- Any other event adds no packets. -/
lemma QueueInv.of_not_write {c₀ c c' : Client ssl} {es : List ClientEvent} {e : ClientEvent}
    (h : QueueInv c₀ es c) (hwrite : ∀ rand seed msg, e ≠ .write rand seed msg)
    (hkeys : SameKeys c c') (hcarries : c'.toQueue.Carries (es.flatMap c₀.packets))
    (hlive : c'.toQueue.Live) : QueueInv c₀ (es ++ [e]) c' := by
  constructor
  · constructor
    · rw [hkeys.clientPrivateKey, h.keys.clientPrivateKey]
    · rw [hkeys.recipientPublicKeys, h.keys.recipientPublicKeys]
  · have hpackets : c₀.packets e = [] := by
      cases e with
      | write rand seed msg => exact absurd rfl (hwrite rand seed msg)
      | _ => rfl
    rwa [List.flatMap_append, List.flatMap_singleton, hpackets, List.append_nil]
  · exact hlive
  · intro rand seed msg hmem
    rcases List.mem_append.1 hmem with hmem | hmem
    · exact h.written rand seed msg hmem
    · exact absurd (List.mem_singleton.1 hmem).symm (hwrite rand seed msg)

lemma QueueInv.handle {c₀ c c' : Client ssl} {es : List ClientEvent} {e : ClientEvent}
    (h : QueueInv c₀ es c) (hhandle : c.handle e = .ok c') (hok : e ≠ .written false) :
    QueueInv c₀ (es ++ [e]) c' := by
  by_cases hwrite : ∃ rand seed msg, e = .write rand seed msg
  · obtain ⟨rand, seed, msg, rfl⟩ := hwrite
    exact h.handle_write hhandle
  · push Not at hwrite
    by_cases hdone : e = .written true
    · subst hdone
      rw [Client.handle, writeHandler_true] at hhandle
      cases hhandle
      exact h.of_not_write hwrite ⟨rfl, rfl⟩ h.carries.done h.live.done
    · have hnot : ∀ ok, e ≠ .written ok := by
        intro ok
        cases ok with
        | true => exact hdone
        | false => exact hok
      obtain ⟨hkeys, hqueue⟩ := handle_of_not_write hhandle hwrite hnot
      have hcarries := h.carries
      have hlive := h.live
      rw [← hqueue] at hcarries hlive
      exact h.of_not_write hwrite hkeys hcarries hlive

lemma Runs.queueInv {clientPrivateKey : ssl.PKey} {recipientPublicKeys : List ssl.PKey}
    {es : List ClientEvent} {c : Client ssl}
    (h : Runs (constructed clientPrivateKey recipientPublicKeys) es c)
    (hok : .written false ∉ es) :
    QueueInv (constructed clientPrivateKey recipientPublicKeys) es c := by
  induction h with
  | nil =>
    exact ⟨⟨rfl, rfl⟩, WriteQueue.carries_empty, WriteQueue.live_empty, fun _ _ _ hmem => by
      cases hmem⟩
  | @snoc es c c' e _ _ hhandle ih =>
    rw [List.mem_append, not_or, List.mem_singleton] at hok
    exact (ih hok.1).handle hhandle (fun he => hok.2 he.symm)

/-- With a recipient every posted message puts a packet into the queue. -/
lemma QueueInv.writesInOrder {c₀ c : Client ssl} {es : List ClientEvent} (h : QueueInv c₀ es c)
    (hkeys : c₀.recipientPublicKeys ≠ []) : WritesInOrder c₀ es c := by
  refine ⟨?_, h.live, h.carries, ?_, ?_, _, writeHandler_true c⟩
  · have hlive : c.writing = c.writeMsgs.take 1 := h.live
    rw [hlive]
    cases c.writeMsgs with
    | nil => simp
    | cons front rest => simp
  · intro rand seed msg hmem
    obtain ⟨packed, hpacked⟩ := h.written rand seed msg hmem
    exact ⟨packed, hpacked, (packedMsgs_eq_ok hpacked).1⟩
  · intro rand seed msg packed hpacked
    have hne : packed ≠ [] := by
      intro hnil
      have hlen := (packedMsgs_eq_ok hpacked).1
      rw [hnil, h.keys.recipientPublicKeys] at hlen
      exact hkeys (List.length_eq_zero_iff.1 hlen.symm)
    rw [Client.handle, writeImpl_of_packedMsgs hpacked, if_neg (fun hnil => hne hnil.2)]
    exact ⟨_, rfl⟩

/-- Without a recipient a posted message makes `WriteImpl` take the front of an empty queue. -/
lemma handle_write_of_nil (clientPrivateKey : ssl.PKey) (rand : ℕ → ℕ → ℕ) (seed : ℕ → ℕ → Bytes)
    (msg : Bytes) :
    (constructed clientPrivateKey []).handle (.write rand seed msg) = .error .outOfBounds := rfl

/-- For arguments that `MainClient` admits, the client writes in order in every session, up to the
first error of a write, exactly when the arguments name a recipient. -/
theorem writesInOrder_iff (clientPrivateKey : ssl.PKey) (loadKey : Bytes → ssl.PKey)
    {argv files : List Bytes} (h : recipientPublicKeyFiles argv = some files) :
    (∀ es c, Runs (constructed clientPrivateKey (files.map loadKey)) es c → .written false ∉ es →
      WritesInOrder (constructed clientPrivateKey (files.map loadKey)) es c) ↔
    6 ≤ argv.length := by
  rw [recipientPublicKeyFiles] at h
  split_ifs at h with hargs
  cases h
  constructor
  · intro horder
    by_contra hlt
    have hnil : (argv.drop 5).map loadKey = [] := by
      rw [List.drop_of_length_le (by omega), List.map_nil]
    rw [hnil] at horder
    obtain ⟨c', hc'⟩ := (horder [] _ .nil List.not_mem_nil).write_front (fun _ _ => 0)
      (fun _ _ => []) [] [] rfl
    rw [handle_write_of_nil] at hc'
    cases hc'
  · intro hle es c hruns hok
    apply (hruns.queueInv hok).writesInOrder
    intro hnil
    have hlen : ((argv.drop 5).map loadKey).length = 0 := congrArg List.length hnil
    rw [List.length_map, List.length_drop] at hlen
    omega

/-- `chat_client a b c d e f` has the recipients `e` and `f`. A message has a packet for each of
them, and the second one is written when the first one has been. -/
theorem writesInOrder_two_recipients :
    let hi : ClientEvent := .write (fun _ _ => 0) (fun _ _ => []) [0x48, 0x69]
    let es : List ClientEvent := [.connect true] ++ [hi] ++ [.written true] ++ [.written true]
    ∃ c, Runs (@constructed .plain () [(), ()]) es c ∧ c.handed.length = 2 ∧ c.writing = [] ∧
      WritesInOrder (@constructed .plain () [(), ()]) es c := by
  intro hi es
  let c₁ : Client .plain := connected () [(), ()]
  obtain ⟨s, hsign, -⟩ := Crypt.exists_sign_eq (OpenSSL.plain_signs () () [0x48, 0x69])
  obtain ⟨packed, hpacked⟩ := @exists_packedMsgs_eq .plain c₁ (fun _ _ => 0) (fun _ _ => [])
    [0x48, 0x69] s c₁.recipientPublicKeys (fun key _ => ⟨(), OpenSSL.plain_keyPair key ()⟩) hsign 0
  obtain ⟨p, q, rfl⟩ := List.length_eq_two.1 (packedMsgs_eq_ok hpacked).1
  have hwrite : c₁.handle hi = .ok (c₁.setQueue ⟨[p, q], [p], [p]⟩) :=
    writeImpl_of_packedMsgs hpacked
  have hconnect : Runs (@constructed .plain () [(), ()]) [.connect true] c₁ :=
    Runs.nil.snoc ⟨by simp, fun _ => rfl⟩ rfl
  have hwritten : CanHappen ([.connect true] ++ [hi]) (c₁.setQueue ⟨[p, q], [p], [p]⟩)
      (.written true) := List.cons_ne_nil _ _
  have hruns := ((hconnect.snoc (e := hi) trivial hwrite).snoc hwritten rfl).snoc
    (e := .written true) (List.cons_ne_nil _ _) rfl
  refine ⟨_, hruns, rfl, rfl, ?_⟩
  exact (@writesInOrder_iff .plain () (fun _ => ())
    [[0x63], [0x61], [0x62], [0x63], [0x64], [0x65], [0x66]] [[0x65], [0x66]] rfl).2 (by decide)
    _ _ hruns (by simp [es, hi])

/-- `chat_client a b c d` is admitted, and the first message has no front packet to write. -/
theorem not_writesInOrder_no_recipient :
    recipientPublicKeyFiles [[0x63], [0x61], [0x62], [0x63], [0x64]] = some [] ∧
      ¬ WritesInOrder (@constructed .plain () []) [] (constructed () []) ∧
      (@constructed .plain () []).handle (.write (fun _ _ => 0) (fun _ _ => []) [0x48, 0x69])
        = .error .outOfBounds := by
  refine ⟨rfl, ?_, rfl⟩
  intro h
  obtain ⟨c', hc'⟩ := h.write_front (fun _ _ => 0) (fun _ _ => []) [0x48, 0x69] [] rfl
  cases hc'

end Client

end Vjft.Srv

import Vjft.Srv.Session

/-!
# What the client does with a length

`HeaderHandler` should go on to read a body exactly when the length is between `MIN_PACK_SIZE` and
`MAX_PACK_SIZE`, and recover otherwise. After a length that is too small it does both, since that
branch does not return.
-/

namespace Vjft.Srv.Client

variable {ssl : OpenSSL}

/-- What `HeaderHandler` does after it has put the length into the queue. -/
inductive HeaderAction
  | recover
  | trimQueue
  | startTimer
  | readBody (needReadSize : ℕ)
  deriving DecidableEq, Repr

/-- The actions of `HeaderHandler` in their order, for the queue before the call. -/
def headerActions (readQueue : Bytes) (lo hi : UInt8) : List HeaderAction :=
  let needReadSize := u16 lo hi
  let goOn : List HeaderAction := [.trimQueue, .startTimer, .readBody needReadSize]
  if checkSyncMarkerInQueue (readQueue ++ [lo, hi]) then [.recover]
  else if needReadSize < MIN_PACK_SIZE then .recover :: goOn
  else if MAX_PACK_SIZE < needReadSize then [.recover]
  else goOn

/-- The state of the timer is not followed. -/
def perform (c : Client ssl) : HeaderAction → Client ssl
  | .recover => c.recover
  | .trimQueue => { c with readQueue := c.readQueue.drop (c.readQueue.length - READ_QUEUE_SIZE) }
  | .startTimer => c
  | .readBody needReadSize => c.asyncRead (.body needReadSize)

lemma headerHandler_eq_perform (c : Client ssl) (lo hi : UInt8) :
    c.headerHandler (some (lo, hi)) =
      (headerActions c.readQueue lo hi).foldl perform
        { c with readQueue := c.readQueue ++ [lo, hi] } := by
  rw [headerHandler, headerActions]
  dsimp only
  split_ifs <;> rfl

/-- The timer and the read of the body are started exactly for a length in the limits, and for all
others `Recover` is called and nothing else is done. -/
structure ChecksHeader (c : Client ssl) (lo hi : UInt8) : Prop where
  performs : c.headerHandler (some (lo, hi)) = (headerActions c.readQueue lo hi).foldl perform
    { c with readQueue := c.readQueue ++ [lo, hi] }
  timer : .startTimer ∈ headerActions c.readQueue lo hi ↔
    MIN_PACK_SIZE ≤ u16 lo hi ∧ u16 lo hi ≤ MAX_PACK_SIZE
  body : .readBody (u16 lo hi) ∈ headerActions c.readQueue lo hi ↔
    MIN_PACK_SIZE ≤ u16 lo hi ∧ u16 lo hi ≤ MAX_PACK_SIZE
  recover : ¬ (MIN_PACK_SIZE ≤ u16 lo hi ∧ u16 lo hi ≤ MAX_PACK_SIZE) →
    headerActions c.readQueue lo hi = [.recover]

/-- Behind whole lengths two more bytes do not make a sync marker. -/
lemma HeaderPairs.checkSyncMarkerInQueue_append {bytes : Bytes} (h : HeaderPairs bytes)
    (lo hi : UInt8) : Client.checkSyncMarkerInQueue (bytes ++ [lo, hi]) = false := by
  rw [Client.checkSyncMarkerInQueue]
  induction bytes using HeaderPairs.induct with
  | case1 =>
    by_cases hlo : lo = 0
    · by_cases hhi : hi = 0
      · simp [checkSyncMarkerInQueue.loop, hlo, hhi, SYNC_MARKER_SIZE]
      · simp [checkSyncMarkerInQueue.loop, hlo, hhi, SYNC_MARKER_SIZE]
    · by_cases hhi : hi = 0
      · simp [checkSyncMarkerInQueue.loop, hlo, hhi, SYNC_MARKER_SIZE]
      · simp [checkSyncMarkerInQueue.loop, hlo, hhi]
  | case2 => exact h.elim
  | case3 lo' hi' bytes ih =>
    have hrest := ih h.2
    by_cases hlo : lo' = 0
    · simp [checkSyncMarkerInQueue.loop, hlo, h.1, hrest, SYNC_MARKER_SIZE]
    · simp [checkSyncMarkerInQueue.loop, hlo, h.1, hrest]

/-- Behind whole lengths the actions depend on the length only. -/
lemma HeaderPairs.headerActions {readQueue : Bytes} (h : HeaderPairs readQueue) (lo hi : UInt8) :
    headerActions readQueue lo hi =
      if u16 lo hi < MIN_PACK_SIZE then
        [.recover, .trimQueue, .startTimer, .readBody (u16 lo hi)]
      else if MAX_PACK_SIZE < u16 lo hi then [.recover]
      else [.trimQueue, .startTimer, .readBody (u16 lo hi)] := by
  have hcheck : ¬ Client.checkSyncMarkerInQueue (readQueue ++ [lo, hi]) = true := by
    simp [h.checkSyncMarkerInQueue_append lo hi]
  rw [Client.headerActions, if_neg hcheck]

/-- The length is checked as it should be unless it is too small. -/
lemma checksHeader_iff {c : Client ssl} (h : HeaderPairs c.readQueue) (lo hi : UInt8) :
    ChecksHeader c lo hi ↔ MIN_PACK_SIZE ≤ u16 lo hi := by
  constructor
  · intro hcheck
    by_contra hmin
    have hacts := h.headerActions lo hi
    rw [if_pos (Nat.lt_of_not_le hmin)] at hacts
    have htimer := hcheck.timer.1 (by simp [hacts])
    exact hmin htimer.1
  · intro hmin
    have hacts := h.headerActions lo hi
    rw [if_neg hmin.not_gt] at hacts
    by_cases hmax : u16 lo hi ≤ MAX_PACK_SIZE
    · rw [if_neg hmax.not_gt] at hacts
      constructor
      · exact headerHandler_eq_perform c lo hi
      · simp [hacts, hmin, hmax]
      · simp [hacts, hmin, hmax]
      · intro hout
        exact absurd ⟨hmin, hmax⟩ hout
    · rw [if_pos (Nat.lt_of_not_le hmax)] at hacts
      constructor
      · exact headerHandler_eq_perform c lo hi
      · simp [hacts, hmax]
      · simp [hacts, hmax]
      · intro _
        exact hacts

/-! ### Lengths in a session -/

/-- The lengths that arrived were not too small. -/
def LargeEnough (es : List ClientEvent) : Prop :=
  ∀ lo hi, .header (some (lo, hi)) ∈ es → MIN_PACK_SIZE ≤ u16 lo hi

/-- An open client has seen lengths only that were not too small, and if no other length arrived it
reads no smaller body. -/
structure HeaderInv (es : List ClientEvent) (c : Client ssl) : Prop where
  queue : c.isOpen = true → HeaderPairs c.readQueue
  body : LargeEnough es → ∀ size, c.reading = some (.body size) → MIN_PACK_SIZE ≤ size

lemma LargeEnough.of_append {es : List ClientEvent} {e : ClientEvent}
    (h : LargeEnough (es ++ [e])) : LargeEnough es :=
  fun lo hi hmem => h lo hi (List.mem_append_left _ hmem)

/-- The body that is read after `HeaderHandler` has the length that arrived. -/
lemma reading_headerHandler {c : Client ssl} {readMsg : Option (UInt8 × UInt8)} {size : ℕ}
    (h : (c.endRead.headerHandler readMsg).reading = some (.body size)) :
    ∃ lo hi, readMsg = some (lo, hi) ∧ size = u16 lo hi := by
  cases readMsg with
  | none => cases h
  | some readMsg =>
    obtain ⟨lo, hi⟩ := readMsg
    refine ⟨lo, hi, rfl, ?_⟩
    revert h
    rw [headerHandler]
    dsimp only
    split_ifs
    · intro h
      cases h
    · intro h
      cases h
      rfl
    · intro h
      cases h
    · intro h
      cases h
      rfl

/-- What does not touch the reading keeps the invariant. -/
lemma HeaderInv.of_eq {es : List ClientEvent} {e : ClientEvent} {c c' : Client ssl}
    (h : HeaderInv es c) (hopen : c'.isOpen = true → c.isOpen = true ∧ c'.readQueue = c.readQueue)
    (hreading : ∀ size, c'.reading = some (.body size) → c.reading = some (.body size)) :
    HeaderInv (es ++ [e]) c' := by
  constructor
  · intro hc'
    obtain ⟨hc, hqueue⟩ := hopen hc'
    rw [hqueue]
    exact h.queue hc
  · intro hlarge size hsize
    exact h.body hlarge.of_append size (hreading size hsize)

lemma HeaderInv.handle {es : List ClientEvent} {e : ClientEvent} {c c' : Client ssl}
    (h : HeaderInv es c) (hcan : CanHappen es c e) (hhandle : c.handle e = .ok c') :
    HeaderInv (es ++ [e]) c' := by
  cases e with
  | connect ok =>
    cases hhandle
    cases ok with
    | true => exact h.of_eq (fun hc => ⟨hc, rfl⟩) (fun _ hsize => by cases hsize)
    | false => exact h.of_eq (fun hc => by cases hc) (fun _ hsize => hsize)
  | header readMsg =>
    cases hhandle
    constructor
    · intro hopen
      exact HeaderPairs.headerHandler (fun hread => h.queue (hcan.2 hread)) hopen
    · intro hlarge size hsize
      obtain ⟨lo, hi, rfl, rfl⟩ := reading_headerHandler hsize
      exact hlarge lo hi (by simp)
  | body readMsg =>
    rw [Client.handle, bind_eq_ok_iff] at hhandle
    obtain ⟨⟨c'', msgs⟩, hread, hc'⟩ := hhandle
    cases hc'
    rcases readHandler_eq_ok hread with ⟨rfl, -⟩ | rfl | rfl
    · exact h.of_eq (fun hc => ⟨hc, rfl⟩) (fun _ hsize => by cases hsize)
    · exact h.of_eq (fun hc => by cases hc) (fun _ hsize => by cases hsize)
    · exact h.of_eq (fun hc => by cases hc) (fun _ hsize => by cases hsize)
  | timeout =>
    cases hhandle
    exact h.of_eq (fun hc => by cases hc) (fun _ hsize => hsize)
  | close =>
    cases hhandle
    exact h.of_eq (fun hc => by cases hc) (fun _ hsize => hsize)
  | write rand seed msg =>
    obtain ⟨q, rfl | rfl⟩ := handle_write_eq_ok hhandle (.inl ⟨rand, seed, msg, rfl⟩)
    · exact h.of_eq (fun hc => ⟨hc, rfl⟩) (fun _ hsize => hsize)
    · exact h.of_eq (fun hc => by cases hc) (fun _ hsize => hsize)
  | written ok =>
    obtain ⟨q, rfl | rfl⟩ := handle_write_eq_ok hhandle (.inr ⟨ok, rfl⟩)
    · exact h.of_eq (fun hc => ⟨hc, rfl⟩) (fun _ hsize => hsize)
    · exact h.of_eq (fun hc => by cases hc) (fun _ hsize => hsize)

lemma Runs.headerInv {clientPrivateKey : ssl.PKey} {recipientPublicKeys : List ssl.PKey}
    {es : List ClientEvent} {c : Client ssl}
    (h : Runs (constructed clientPrivateKey recipientPublicKeys) es c) : HeaderInv es c := by
  induction h with
  | nil =>
    constructor
    · intro _
      trivial
    · intro _ size hsize
      cases hsize
  | snoc _ hcan hhandle ih => exact ih.handle hcan hhandle

/-- In every state of a session a length that arrives is checked as it should be exactly when it is
not too small; and if no length was too small, every call of `ReadHandler` without an error has
enough bytes for the sync marker, so that no size wraps. -/
theorem headers_checked {clientPrivateKey : ssl.PKey} {recipientPublicKeys : List ssl.PKey}
    {es : List ClientEvent} {c : Client ssl}
    (h : Runs (constructed clientPrivateKey recipientPublicKeys) es c) :
    (∀ lo hi, CanHappen es c (.header (some (lo, hi))) →
      (ChecksHeader c lo hi ↔ MIN_PACK_SIZE ≤ u16 lo hi)) ∧
    ((∀ lo hi, .header (some (lo, hi)) ∈ es → MIN_PACK_SIZE ≤ u16 lo hi) →
      ∀ readMsg, CanHappen es c (.body (some readMsg)) →
        SYNC_MARKER_SIZE ≤ readMsg.length ∧ receivedMsg readMsg ≠ .error .lengthError) := by
  constructor
  · intro lo hi hcan
    exact checksHeader_iff (h.headerInv.queue (hcan.2 rfl)) lo hi
  · intro hlarge readMsg hcan
    obtain ⟨size, hreading, hread⟩ := hcan
    have hlen : SYNC_MARKER_SIZE ≤ readMsg.length := by
      rw [(hread readMsg rfl).1]
      exact le_trans (by decide) (h.headerInv.body hlarge size hreading)
    refine ⟨hlen, ?_⟩
    rw [receivedMsg, require_of_pos hlen, ok_bind]
    exact fun herror => by cases herror

/-- A client that is connected. -/
lemma runs_connect (clientPrivateKey : ssl.PKey) (recipientPublicKeys : List ssl.PKey) :
    Runs (constructed clientPrivateKey recipientPublicKeys) [.connect true]
      (connected clientPrivateKey recipientPublicKeys) :=
  Runs.nil.snoc ⟨by simp, fun _ => rfl⟩ rfl

/-- After the length 1602 a body of 1602 bytes is read. -/
theorem headers_checked_1602 :
    ChecksHeader oneRecipient 0x42 0x06 ∧
      SYNC_MARKER_SIZE ≤ (List.replicate 1602 0 : Bytes).length := by
  have hconnect := @runs_connect .plain () [()]
  have hheader := hconnect.snoc (e := .header (some (0x42, 0x06))) ⟨rfl, fun _ => rfl⟩ rfl
  constructor
  · exact ((headers_checked hconnect).1 0x42 0x06 ⟨rfl, fun _ => rfl⟩).2 (by decide)
  · refine ((headers_checked hheader).2 ?_ (List.replicate 1602 0) ⟨1602, ?_, ?_⟩).1
    · intro lo hi hmem
      simp only [List.cons_append, List.nil_append, List.mem_cons, reduceCtorEq, false_or,
        List.not_mem_nil, or_false, ClientEvent.header.injEq, Option.some.injEq,
        Prod.mk.injEq] at hmem
      obtain ⟨rfl, rfl⟩ := hmem
      decide
    · decide
    · intro b hb
      cases hb
      exact ⟨List.length_replicate, .inl (by decide)⟩

/-- After the length 0 the client recovers, and it starts the timer and reads a body of no bytes.
That read ends without an error on the closed socket, and `ReadHandler` resizes a vector to a size
that has wrapped. -/
theorem header_zero_not_checked :
    CanHappen [.connect true] oneRecipient (.header (some (0, 0))) ∧
      ¬ ChecksHeader oneRecipient 0 0 ∧
      ∃ c, Runs (@constructed .plain () [()]) [.connect true, .header (some (0, 0))] c ∧
        CanHappen [.connect true, .header (some (0, 0))] c (.body (some [])) ∧
        c.handle (.body (some [])) = .error .lengthError := by
  have hconnect := @runs_connect .plain () [()]
  have hheader := hconnect.snoc (e := .header (some (0, 0))) ⟨rfl, fun _ => rfl⟩ rfl
  refine ⟨⟨rfl, fun _ => rfl⟩, ?_, _, hheader, ⟨0, rfl, ?_⟩, rfl⟩
  · intro h
    exact absurd (h.timer.1 (by decide)) (by decide)
  · intro b hb
    cases hb
    exact ⟨rfl, .inr rfl⟩

end Vjft.Srv.Client

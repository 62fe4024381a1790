import Vjft.Lib.WriteQueue
import Vjft.Srv.Client

/-!
# Sessions of a client

A session is any order in which the connection is made, reads and writes end, timers run out and
messages are posted to the client that its constructor leaves. The operations that are outstanding
when the socket is closed end with an error; only a read of no bytes has none even then.
-/

namespace Vjft.Srv

/-- What happens to a client: an operation ends, where `none` and `false` stand for an error, or a
function was posted. A message comes with the random draws for each of the keys. -/
inductive ClientEvent
  | connect (ok : Bool)
  | header (readMsg : Option (UInt8 × UInt8))
  | body (readMsg : Option Bytes)
  | timeout
  | close
  | write (rand : ℕ → ℕ → ℕ) (seed : ℕ → ℕ → Bytes) (msg : Bytes)
  | written (ok : Bool)

namespace Client

variable {ssl : OpenSSL}

/-- The client after the constructor, which begins to connect. -/
def constructed (clientPrivateKey : ssl.PKey) (recipientPublicKeys : List ssl.PKey) : Client ssl :=
  { connected clientPrivateKey recipientPublicKeys with reading := none }

def onConnect (c : Client ssl) (ok : Bool) : Client ssl :=
  if ok then c.asyncRead .header else c.closeImpl

/-- The function that an event calls. -/
def handle (c : Client ssl) : ClientEvent → Except Stop (Client ssl)
  | .connect ok => pure (c.onConnect ok)
  | .header readMsg => pure (c.endRead.headerHandler readMsg)
  | .body readMsg => do
    let (c, _) ← c.endRead.readHandler readMsg
    pure c
  | .timeout => pure c.handleDataTimeout
  | .close => pure c.closeImpl
  | .write rand seed msg => c.writeImpl rand seed msg
  | .written ok => c.endWrite.writeHandler ok

/-- The event can happen after `es`. An operation ends when it is outstanding, and a read without
an error has filled its buffer. -/
def CanHappen (es : List ClientEvent) (c : Client ssl) : ClientEvent → Prop
  | .connect ok => (∀ ok', .connect ok' ∉ es) ∧ (ok = true → c.isOpen = true)
  | .header readMsg => c.reading = some .header ∧ (readMsg.isSome → c.isOpen = true)
  | .body readMsg => ∃ size, c.reading = some (.body size) ∧
      ∀ b ∈ readMsg, b.length = size ∧ (c.isOpen = true ∨ size = 0)
  | .written _ => c.writing ≠ []
  | .timeout | .close | .write .. => True

/-- The client gets from `c₀` to `c` by the events `es`. -/
inductive Runs (c₀ : Client ssl) : List ClientEvent → Client ssl → Prop
  | nil : Runs c₀ [] c₀
  | snoc {es : List ClientEvent} {c c' : Client ssl} {e : ClientEvent} (h : Runs c₀ es c)
      (hcan : CanHappen es c e) (hhandle : c.handle e = .ok c') : Runs c₀ (es ++ [e]) c'

/-! ### The queue of packets -/

def toQueue (c : Client ssl) : WriteQueue Bytes := ⟨c.writeMsgs, c.writing, c.handed⟩

def setQueue (c : Client ssl) (q : WriteQueue Bytes) : Client ssl :=
  { c with writeMsgs := q.queue, writing := q.writing, handed := q.handed }

@[simp] lemma toQueue_setQueue (c : Client ssl) (q : WriteQueue Bytes) :
    (c.setQueue q).toQueue = q := rfl

/-- `asyncWrite` begins the write of the front packet, if there is one. -/
lemma asyncWrite_of_ne_nil {c : Client ssl} (h : c.writeMsgs ≠ []) :
    c.asyncWrite = .ok (c.setQueue c.toQueue.start) := by
  obtain ⟨front, rest, hmsgs⟩ := List.exists_cons_of_ne_nil h
  have hfront : c.writeMsgs.head? = some front := by rw [hmsgs]; rfl
  have htake : c.writeMsgs.take 1 = [front] := by rw [hmsgs]; rfl
  rw [asyncWrite, hfront, orStop_some, ok_bind, setQueue, toQueue, WriteQueue.start, htake]
  rfl

lemma asyncWrite_of_eq_nil {c : Client ssl} (h : c.writeMsgs = []) :
    c.asyncWrite = .error .outOfBounds := by
  rw [asyncWrite, h]
  rfl

/-- `WriteImpl` pushes its packets, unless there is neither one in the queue nor a new one. -/
lemma writeImpl_of_packedMsgs {c : Client ssl} {rand : ℕ → ℕ → ℕ} {seed : ℕ → ℕ → Bytes}
    {msg : Bytes} {packed : List Bytes}
    (h : c.packedMsgs rand seed msg 0 c.recipientPublicKeys = .ok packed) :
    c.writeImpl rand seed msg =
      if c.writeMsgs = [] ∧ packed = [] then .error .outOfBounds
      else .ok (c.setQueue (c.toQueue.pushAll packed)) := by
  rw [writeImpl, h, ok_bind]
  by_cases hmsgs : c.writeMsgs = []
  · have hempty : (!!c.writeMsgs.isEmpty) = true := by simp [hmsgs]
    dsimp only
    rw [if_pos hempty]
    cases packed with
    | nil =>
      rw [if_pos ⟨hmsgs, rfl⟩]
      apply asyncWrite_of_eq_nil
      rw [List.append_nil, hmsgs]
    | cons packet packed =>
      rw [if_neg (by simp), asyncWrite_of_ne_nil (by simp),
        WriteQueue.pushAll_cons_of_eq_nil (q := c.toQueue) hmsgs]
      simp [setQueue, toQueue, WriteQueue.start, hmsgs]
  · have hempty : ¬ (!!c.writeMsgs.isEmpty) = true := by simpa using hmsgs
    dsimp only
    rw [if_neg hempty, if_neg (fun h => hmsgs h.1), WriteQueue.pushAll_of_ne_nil hmsgs]
    rfl

/-- `WriteHandler` drops the packet that was written and begins with the next one. -/
lemma writeHandler_true (c : Client ssl) :
    c.endWrite.writeHandler true = .ok (c.setQueue c.toQueue.done) := by
  rw [writeHandler]
  dsimp only
  split_ifs with h
  · exact asyncWrite_of_ne_nil (by simpa using h)
  · have hnil : c.writeMsgs.tail = [] := by simpa [endWrite] using h
    simp [toQueue, setQueue, WriteQueue.done, WriteQueue.start, endWrite, hnil]
    rfl

lemma writeHandler_false (c : Client ssl) :
    c.endWrite.writeHandler false = .ok (c.setQueue c.toQueue.failed).closeImpl := rfl

/-- A posted message that is handled goes to the end of the queue. -/
lemma handle_write_eq_pushAll {c c' : Client ssl} {rand : ℕ → ℕ → ℕ} {seed : ℕ → ℕ → Bytes}
    {msg : Bytes} (h : c.handle (.write rand seed msg) = .ok c') :
    ∃ packed, c.packedMsgs rand seed msg 0 c.recipientPublicKeys = .ok packed ∧
      c' = c.setQueue (c.toQueue.pushAll packed) := by
  rw [handle] at h
  obtain ⟨-, -, packed, hpacked, -⟩ := writeImpl_eq_ok h
  rw [writeImpl_of_packedMsgs hpacked] at h
  split_ifs at h
  cases h
  exact ⟨packed, hpacked, rfl⟩

/-- A call of `WriteImpl` or `WriteHandler` that returns changes the queue of packets, and it may
close the socket. -/
lemma handle_write_eq_ok {c c' : Client ssl} {e : ClientEvent} (h : c.handle e = .ok c')
    (he : (∃ rand seed msg, e = .write rand seed msg) ∨ ∃ ok, e = .written ok) :
    ∃ q, c' = c.setQueue q ∨ c' = (c.setQueue q).closeImpl := by
  rcases he with ⟨rand, seed, msg, rfl⟩ | ⟨ok, rfl⟩
  · obtain ⟨packed, -, rfl⟩ := handle_write_eq_pushAll h
    exact ⟨_, .inl rfl⟩
  · rw [handle] at h
    cases ok with
    | false =>
      rw [writeHandler_false] at h
      cases h
      exact ⟨_, .inr rfl⟩
    | true =>
      rw [writeHandler_true] at h
      cases h
      exact ⟨_, .inl rfl⟩

end Client

end Vjft.Srv

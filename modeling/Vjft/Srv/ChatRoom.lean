import Vjft.Lib.WriteQueue
import Vjft.Memory
import Mathlib.Data.Finset.Erase
import Mathlib.Data.Finset.Insert
import Mathlib.Data.List.DropRight
import Mathlib.Logic.Function.Basic

/-!
# The room and its participants (`srv/ChatRoom.cpp`, `srv/PersonInRoom.cpp`)

The handlers of all participants run one at a time. A participant has its socket: the read that is
outstanding, the writes that are outstanding, and all buffers that were given to `async_write`. A
handler is called with what the read has put into `read_msg_`, or with `none` on an error.
-/

namespace Vjft.Srv

def MAX_PACK_SIZE : ℕ := 16384

/-- An `async_read` of the two bytes of a length, or of a body of `size` bytes. -/
inductive AsyncRead
  | header
  | body (size : ℕ)
  deriving DecidableEq, Repr

structure PersonInRoom where
  /-- `Start` was called. -/
  started : Bool
  reading : Option AsyncRead
  writeMsgs : List Bytes
  /-- The buffers of the `async_write`s that have not ended. -/
  writing : List Bytes
  /-- The buffers of all `async_write`s. -/
  handed : List Bytes

namespace PersonInRoom

/-- A participant that was accepted and not started. -/
def accepted : PersonInRoom :=
  { started := false, reading := none, writeMsgs := [], writing := [], handed := [] }

/-- `async_write` of `write_msgs_.front()` -/
def asyncWrite (p : PersonInRoom) : PersonInRoom :=
  match p.writeMsgs with
  | [] => p
  | front :: _ => { p with writing := p.writing ++ [front], handed := p.handed ++ [front] }

def onMessage (p : PersonInRoom) (msg : Bytes) : PersonInRoom :=
  let writeInProgress := !p.writeMsgs.isEmpty
  let p := { p with writeMsgs := p.writeMsgs ++ [msg] }
  if !writeInProgress then p.asyncWrite else p

/-- The branch of `WriteHandler` for a write that has ended without an error. -/
def written (p : PersonInRoom) : PersonInRoom :=
  let p := { p with writeMsgs := p.writeMsgs.tail }
  if !p.writeMsgs.isEmpty then p.asyncWrite else p

/-- One of the outstanding writes has ended. -/
def endWrite (p : PersonInRoom) : PersonInRoom := { p with writing := p.writing.tail }

/-- What is written to the socket. -/
def toQueue (p : PersonInRoom) : WriteQueue Bytes := ⟨p.writeMsgs, p.writing, p.handed⟩

end PersonInRoom

structure ChatRoom (ι : Type*) where
  participants : Finset ι
  nameTable : ι → Option String
  recentMsgs : List Bytes

namespace ChatRoom

def maxRecentMsgs : ℕ := 100

/-- The loop that drops the oldest messages. -/
def popFront : List Bytes → List Bytes
  | [] => []
  | msg :: msgs => if maxRecentMsgs < msgs.length + 1 then popFront msgs else msg :: msgs

end ChatRoom

/-- The room, and all participants that were or will be accepted. -/
structure Relay (ι : Type*) where
  room : ChatRoom ι
  persons : ι → PersonInRoom

namespace Relay

variable {ι : Type*} [DecidableEq ι]

def init : Relay ι where
  room := { participants := ∅, nameTable := fun _ => none, recentMsgs := [] }
  persons := fun _ => .accepted

def setPerson (s : Relay ι) (i : ι) (p : PersonInRoom) : Relay ι :=
  { s with persons := Function.update s.persons i p }

/-! ### `ChatRoom` -/

def enter (s : Relay ι) (i : ι) (nickname : String) : Relay ι where
  room :=
    { s.room with
      participants := insert i s.room.participants
      nameTable := Function.update s.room.nameTable i (some nickname) }
  persons :=
    Function.update s.persons i (s.room.recentMsgs.foldl PersonInRoom.onMessage (s.persons i))

def leave (s : Relay ι) (i : ι) : Relay ι :=
  { s with
    room :=
      { s.room with
        participants := s.room.participants.erase i
        nameTable := Function.update s.room.nameTable i none } }

def broadcast (s : Relay ι) (msg : Bytes) : Relay ι :=
  let bcast := le16 msg.length ++ msg
  { room := { s.room with recentMsgs := ChatRoom.popFront (s.room.recentMsgs ++ [bcast]) }
    persons := fun j =>
      if j ∈ s.room.participants then (s.persons j).onMessage bcast else s.persons j }

/-! ### `PersonInRoom` -/

/-- `async_read` -/
def asyncRead (s : Relay ι) (i : ι) (read : AsyncRead) : Relay ι :=
  s.setPerson i { s.persons i with reading := some read }

/-- The outstanding read has ended. -/
def endRead (s : Relay ι) (i : ι) : Relay ι := s.setPerson i { s.persons i with reading := none }

def start (s : Relay ι) (i : ι) : Relay ι :=
  ((s.setPerson i { s.persons i with started := true }).asyncRead i .header).enter i
    "ParticipantNickname"

def headerHandler (s : Relay ι) (i : ι) : Option (UInt8 × UInt8) → Relay ι
  | some (lo, hi) =>
    let msgLength := u16 lo hi
    if MAX_PACK_SIZE < msgLength then s.leave i else s.asyncRead i (.body msgLength)
  | none => s.leave i

def readHandler (s : Relay ι) (i : ι) : Option Bytes → Relay ι
  | some receivedMsg => (s.broadcast receivedMsg).asyncRead i .header
  | none => s.leave i

/-- The write has ended without an error, or with one. -/
def writeHandler (s : Relay ι) (i : ι) : Bool → Relay ι
  | true => s.setPerson i (s.persons i).written
  | false => s.leave i

@[simp] lemma room_setPerson (s : Relay ι) (i : ι) (p : PersonInRoom) :
    (s.setPerson i p).room = s.room := rfl

@[simp] lemma persons_setPerson (s : Relay ι) (i : ι) (p : PersonInRoom) (j : ι) :
    (s.setPerson i p).persons j = if j = i then p else s.persons j :=
  Function.update_apply s.persons i p j

@[simp] lemma persons_enter (s : Relay ι) (i : ι) (nickname : String) (j : ι) :
    (s.enter i nickname).persons j =
      if j = i then s.room.recentMsgs.foldl PersonInRoom.onMessage (s.persons i)
      else s.persons j :=
  Function.update_apply s.persons i _ j

@[simp] lemma persons_leave (s : Relay ι) (i j : ι) : (s.leave i).persons j = s.persons j := rfl

@[simp] lemma persons_broadcast (s : Relay ι) (msg : Bytes) (j : ι) :
    (s.broadcast msg).persons j =
      if j ∈ s.room.participants then (s.persons j).onMessage (le16 msg.length ++ msg)
      else s.persons j := rfl

@[simp] lemma participants_enter (s : Relay ι) (i : ι) (nickname : String) :
    (s.enter i nickname).room.participants = insert i s.room.participants := rfl

@[simp] lemma participants_leave (s : Relay ι) (i : ι) :
    (s.leave i).room.participants = s.room.participants.erase i := rfl

@[simp] lemma participants_broadcast (s : Relay ι) (msg : Bytes) :
    (s.broadcast msg).room.participants = s.room.participants := rfl

@[simp] lemma room_asyncRead (s : Relay ι) (i : ι) (read : AsyncRead) :
    (s.asyncRead i read).room = s.room := rfl

@[simp] lemma room_endRead (s : Relay ι) (i : ι) : (s.endRead i).room = s.room := rfl

/-- What a person keeps when it is changed is kept by all. -/
lemma persons_setPerson_congr {α : Type*} (f : PersonInRoom → α) {s : Relay ι} {i : ι}
    {p : PersonInRoom} (h : f p = f (s.persons i)) (j : ι) :
    f ((s.setPerson i p).persons j) = f (s.persons j) := by
  rw [persons_setPerson]
  split_ifs with hj
  · rw [hj, h]
  · rfl

@[simp] lemma toQueue_asyncRead (s : Relay ι) (i : ι) (read : AsyncRead) (j : ι) :
    ((s.asyncRead i read).persons j).toQueue = (s.persons j).toQueue := by
  rw [asyncRead]
  exact persons_setPerson_congr PersonInRoom.toQueue (by rfl) j

@[simp] lemma toQueue_endRead (s : Relay ι) (i j : ι) :
    ((s.endRead i).persons j).toQueue = (s.persons j).toQueue := by
  rw [endRead]
  exact persons_setPerson_congr PersonInRoom.toQueue (by rfl) j

@[simp] lemma started_asyncRead (s : Relay ι) (i : ι) (read : AsyncRead) (j : ι) :
    ((s.asyncRead i read).persons j).started = (s.persons j).started := by
  rw [asyncRead]
  exact persons_setPerson_congr PersonInRoom.started (by rfl) j

@[simp] lemma started_endRead (s : Relay ι) (i j : ι) :
    ((s.endRead i).persons j).started = (s.persons j).started := by
  rw [endRead]
  exact persons_setPerson_congr PersonInRoom.started (by rfl) j

end Relay

/-! ### The messages of a participant are written one at a time -/

namespace PersonInRoom

variable (p : PersonInRoom)

lemma toQueue_asyncWrite : p.asyncWrite.toQueue = p.toQueue.start := by
  rw [asyncWrite, WriteQueue.start]
  cases hq : p.writeMsgs <;> simp [toQueue, hq]

lemma toQueue_onMessage (msg : Bytes) : (p.onMessage msg).toQueue = p.toQueue.push msg := by
  rw [onMessage, WriteQueue.push]
  by_cases hq : p.writeMsgs = []
  · rw [if_pos (by simp [hq]), toQueue_asyncWrite, if_pos (show p.toQueue.queue = [] from hq)]
    rfl
  · rw [if_neg (by simpa using hq), if_neg (show p.toQueue.queue ≠ [] from hq)]
    rfl

lemma toQueue_foldl_onMessage (msgs : List Bytes) :
    (msgs.foldl onMessage p).toQueue = p.toQueue.pushAll msgs := by
  induction msgs generalizing p with
  | nil => rfl
  | cons msg msgs ih =>
    rw [List.foldl_cons, ih, toQueue_onMessage]
    rfl

lemma toQueue_endWrite_written : p.endWrite.written.toQueue = p.toQueue.done := by
  have hstart : p.endWrite.written.toQueue =
      WriteQueue.start ⟨p.writeMsgs.tail, p.writing.tail, p.handed⟩ := by
    rw [written]
    split_ifs with h
    · rw [toQueue_asyncWrite]
      rfl
    · have hnil : p.writeMsgs.tail = [] := by simpa [endWrite] using h
      simp [toQueue, endWrite, WriteQueue.start, hnil]
  rw [hstart]
  rfl

lemma toQueue_endWrite : p.endWrite.toQueue = p.toQueue.failed := rfl

@[simp] lemma started_onMessage (msg : Bytes) : (p.onMessage msg).started = p.started := by
  rw [onMessage, asyncWrite]
  split_ifs
  · cases p.writeMsgs <;> rfl
  · rfl

@[simp] lemma reading_onMessage (msg : Bytes) : (p.onMessage msg).reading = p.reading := by
  rw [onMessage, asyncWrite]
  split_ifs
  · cases p.writeMsgs <;> rfl
  · rfl

@[simp] lemma started_foldl_onMessage (msgs : List Bytes) :
    (msgs.foldl onMessage p).started = p.started := by
  induction msgs generalizing p with
  | nil => rfl
  | cons msg msgs ih => rw [List.foldl_cons, ih, started_onMessage]

@[simp] lemma reading_foldl_onMessage (msgs : List Bytes) :
    (msgs.foldl onMessage p).reading = p.reading := by
  induction msgs generalizing p with
  | nil => rfl
  | cons msg msgs ih => rw [List.foldl_cons, ih, reading_onMessage]

lemma written_started : p.written.started = p.started ∧ p.written.reading = p.reading := by
  rw [written, asyncWrite]
  cases p.writeMsgs.tail <;> simp

end PersonInRoom

lemma ChatRoom.popFront_eq (msgs : List Bytes) : popFront msgs = msgs.rtake maxRecentMsgs := by
  rw [List.rtake]
  induction msgs with
  | nil => rfl
  | cons msg msgs ih =>
    rw [popFront, List.length_cons]
    split_ifs with h
    · rw [ih, Nat.sub_add_comm (Nat.le_of_lt_succ h), List.drop_succ_cons]
    · rw [Nat.sub_eq_zero_of_le (Nat.le_of_not_lt h), List.drop_zero]

end Vjft.Srv

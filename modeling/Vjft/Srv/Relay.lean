import Vjft.Srv.ChatRoom

/-!
# What the relay delivers

A run is any order in which participants are started and their reads and writes end. The packets
that a participant is due are the last ones of the history at its `Enter`, and then every packet
that is broadcast until it leaves. What is given to `async_write` for it is always a prefix of these
packets.
-/

namespace Vjft.Srv

variable {ι : Type*} [DecidableEq ι]

/-- What happens to a participant: it is started, or an operation of its socket ends. `none` and
`false` stand for an error. -/
inductive Event (ι : Type*)
  | start (i : ι)
  | header (i : ι) (readMsg : Option (UInt8 × UInt8))
  | body (i : ι) (readMsg : Option Bytes)
  | written (i : ι) (ok : Bool)
  deriving DecidableEq, Repr

namespace Event

/-- The packet that is broadcast: two bytes of the length, and the body. -/
def packet : Event ι → Option Bytes
  | body _ (some readMsg) => some (le16 readMsg.length ++ readMsg)
  | _ => none

/-- The participant leaves the room: an operation fails, or a length is too large. -/
def leaves (i : ι) : Event ι → Bool
  | header j none => j = i
  | header j (some (lo, hi)) => j = i ∧ MAX_PACK_SIZE < u16 lo hi
  | body j none => j = i
  | written j false => j = i
  | _ => false

end Event

/-- The packets that were broadcast. -/
def packets (es : List (Event ι)) : List Bytes := es.filterMap Event.packet

/-- The packets of the history. -/
def recent (es : List (Event ι)) : List Bytes := (packets es).rtake ChatRoom.maxRecentMsgs

/-- The events until a participant leaves. -/
def untilLeave (i : ι) (es : List (Event ι)) : List (Event ι) := es.takeWhile fun e => !e.leaves i

namespace Relay

/-- A participant is started once. An operation ends when it is outstanding, and a read without an
error has filled its buffer. -/
def step (s : Relay ι) : Event ι → Option (Relay ι)
  | .start i => if (s.persons i).started then none else some (s.start i)
  | .header i readMsg =>
    if (s.persons i).reading = some .header then some ((s.endRead i).headerHandler i readMsg)
    else none
  | .body i readMsg =>
    match (s.persons i).reading with
    | some (.body size) =>
      if readMsg.all (·.length = size) then some ((s.endRead i).readHandler i readMsg) else none
    | _ => none
  | .written i ok =>
    if (s.persons i).writing = [] then none
    else some ((s.setPerson i (s.persons i).endWrite).writeHandler i ok)

/-- The state after a run, if its events can happen in this order. -/
def run (es : List (Event ι)) : Option (Relay ι) := es.foldlM step init

/-! ### What a step does -/

variable {s s' : Relay ι}

lemma step_start {i : ι} (h : s.step (.start i) = some s') :
    (s.persons i).started = false ∧ s' = s.start i := by
  rw [step] at h
  split_ifs at h with hstarted
  cases h
  exact ⟨by simpa using hstarted, rfl⟩

lemma step_header {i : ι} {r : Option (UInt8 × UInt8)} (h : s.step (.header i r) = some s') :
    (s.persons i).reading = some .header ∧ s' = (s.endRead i).headerHandler i r := by
  rw [step] at h
  split_ifs at h with hreading
  cases h
  exact ⟨hreading, rfl⟩

lemma step_body {i : ι} {r : Option Bytes} (h : s.step (.body i r) = some s') :
    ∃ size, (s.persons i).reading = some (.body size) ∧ (∀ b ∈ r, b.length = size) ∧
      s' = (s.endRead i).readHandler i r := by
  rw [step] at h
  split at h
  · next size hreading =>
    split_ifs at h with hsize
    cases h
    refine ⟨size, hreading, ?_, rfl⟩
    intro b hb
    rw [Option.mem_def.1 hb] at hsize
    simpa using hsize
  · cases h

lemma step_written {i : ι} {ok : Bool} (h : s.step (.written i ok) = some s') :
    (s.persons i).writing ≠ [] ∧
      s' = (s.setPerson i (s.persons i).endWrite).writeHandler i ok := by
  rw [step] at h
  split_ifs at h with hwriting
  cases h
  exact ⟨hwriting, rfl⟩

lemma step_participants {e : Event ι} (h : s.step e = some s') (i : ι) :
    i ∈ s'.room.participants ↔
      e = .start i ∨ i ∈ s.room.participants ∧ e.leaves i = false := by
  cases e with
  | start j =>
    obtain ⟨-, rfl⟩ := step_start h
    simp [start, asyncRead, Event.leaves, eq_comm]
  | header j r =>
    obtain ⟨-, rfl⟩ := step_header h
    cases r with
    | none => simp [headerHandler, endRead, Event.leaves, eq_comm, and_comm]
    | some r =>
      rw [headerHandler]
      split_ifs with hsize
      · simp [endRead, Event.leaves, hsize, eq_comm, and_comm]
      · simp [endRead, asyncRead, Event.leaves, hsize]
  | body j r =>
    obtain ⟨-, -, -, rfl⟩ := step_body h
    cases r with
    | none => simp [readHandler, endRead, Event.leaves, eq_comm, and_comm]
    | some b => simp [readHandler, endRead, asyncRead, Event.leaves]
  | written j ok =>
    obtain ⟨-, rfl⟩ := step_written h
    cases ok with
    | false => simp [writeHandler, Event.leaves, eq_comm, and_comm]
    | true => simp [writeHandler, Event.leaves]

lemma step_recentMsgs {e : Event ι} (h : s.step e = some s') :
    s'.room.recentMsgs =
      match e.packet with
      | none => s.room.recentMsgs
      | some packet => (s.room.recentMsgs ++ [packet]).rtake ChatRoom.maxRecentMsgs := by
  cases e with
  | start j =>
    obtain ⟨-, rfl⟩ := step_start h
    rfl
  | header j r =>
    obtain ⟨-, rfl⟩ := step_header h
    cases r with
    | none => rfl
    | some r =>
      rw [headerHandler]
      split_ifs <;> rfl
  | body j r =>
    obtain ⟨-, -, -, rfl⟩ := step_body h
    cases r with
    | none => rfl
    | some b => exact ChatRoom.popFront_eq _
  | written j ok =>
    obtain ⟨-, rfl⟩ := step_written h
    cases ok <;> rfl

/-- A packet goes to the participants in the room, and nothing else is pushed. -/
lemma step_toQueue {e : Event ι} {i : ι} (h : s.step e = some s') (hstart : e ≠ .start i)
    (hwritten : ∀ ok, e ≠ .written i ok) :
    (s'.persons i).toQueue =
      if i ∈ s.room.participants then (s.persons i).toQueue.pushAll e.packet.toList
      else (s.persons i).toQueue := by
  cases e with
  | start j =>
    obtain ⟨-, rfl⟩ := step_start h
    have hij : i ≠ j := fun hij => hstart (hij ▸ rfl)
    simp [start, asyncRead, hij, Event.packet, WriteQueue.pushAll]
  | header j r =>
    obtain ⟨-, rfl⟩ := step_header h
    have hsame : (((s.endRead j).headerHandler j r).persons i).toQueue =
        (s.persons i).toQueue := by
      cases r with
      | none => simp [headerHandler]
      | some r =>
        rw [headerHandler]
        split_ifs <;> simp
    rw [hsame]
    simp [Event.packet, WriteQueue.pushAll]
  | body j r =>
    obtain ⟨-, -, -, rfl⟩ := step_body h
    cases r with
    | none => simp [readHandler, Event.packet, WriteQueue.pushAll]
    | some b =>
      rw [readHandler, toQueue_asyncRead, persons_broadcast, room_endRead]
      split_ifs
      · rw [PersonInRoom.toQueue_onMessage, toQueue_endRead]
        rfl
      · exact toQueue_endRead s j i
  | written j ok =>
    obtain ⟨-, rfl⟩ := step_written h
    have hij : i ≠ j := fun hij => hwritten ok (hij ▸ rfl)
    have hsame : ((s.setPerson j (s.persons j).endWrite).writeHandler j ok).persons i =
        s.persons i := by
      cases ok <;> simp [writeHandler, hij]
    rw [hsame]
    simp [Event.packet, WriteQueue.pushAll]

lemma step_toQueue_written {i : ι} {ok : Bool} (h : s.step (.written i ok) = some s') :
    (s.persons i).toQueue.writing ≠ [] ∧
      (s'.persons i).toQueue =
        if ok then (s.persons i).toQueue.done else (s.persons i).toQueue.failed := by
  obtain ⟨hwriting, rfl⟩ := step_written h
  refine ⟨hwriting, ?_⟩
  cases ok with
  | false => simp [writeHandler, PersonInRoom.toQueue_endWrite]
  | true => simp [writeHandler, PersonInRoom.toQueue_endWrite_written]

/-- The history goes to the participant that enters. -/
lemma step_toQueue_start {i : ι} (h : s.step (.start i) = some s') :
    (s'.persons i).toQueue = (s.persons i).toQueue.pushAll s.room.recentMsgs := by
  obtain ⟨-, rfl⟩ := step_start h
  simp only [start, persons_enter, if_pos, PersonInRoom.toQueue_foldl_onMessage, asyncRead,
    persons_setPerson, room_setPerson]
  rfl

lemma step_started {e : Event ι} (h : s.step e = some s') (i : ι) :
    (s'.persons i).started = true ↔ e = .start i ∨ (s.persons i).started = true := by
  cases e with
  | start j =>
    obtain ⟨-, rfl⟩ := step_start h
    by_cases hij : i = j
    · subst hij
      simp [start]
    · have hji : ¬ j = i := Ne.symm hij
      simp [start, hij, hji]
  | header j r =>
    obtain ⟨-, rfl⟩ := step_header h
    cases r with
    | none => simp [headerHandler]
    | some r =>
      rw [headerHandler]
      split_ifs <;> simp
  | body j r =>
    obtain ⟨-, -, -, rfl⟩ := step_body h
    cases r with
    | none => simp [readHandler]
    | some b =>
      rw [readHandler, started_asyncRead, persons_broadcast]
      split_ifs <;> simp
  | written j ok =>
    obtain ⟨-, rfl⟩ := step_written h
    have hstarted : (((s.setPerson j (s.persons j).endWrite).writeHandler j ok).persons i).started =
        (s.persons i).started := by
      cases ok <;> by_cases hij : i = j <;>
        simp [writeHandler, hij, PersonInRoom.written_started, PersonInRoom.endWrite]
    simp [hstarted]

lemma step_reading {e : Event ι} (h : s.step e = some s') {i : ι} {size : ℕ}
    (hreading : (s'.persons i).reading = some (.body size)) :
    size ≤ MAX_PACK_SIZE ∨ (s.persons i).reading = some (.body size) := by
  cases e with
  | start j =>
    obtain ⟨-, rfl⟩ := step_start h
    by_cases hij : i = j
    · simp [start, asyncRead, hij] at hreading
    · right
      simpa [start, asyncRead, hij] using hreading
  | header j r =>
    obtain ⟨-, rfl⟩ := step_header h
    by_cases hij : i = j
    · left
      subst hij
      cases r with
      | none => simp [headerHandler, endRead] at hreading
      | some r =>
        rw [headerHandler] at hreading
        split_ifs at hreading with hsize
        · simp [endRead] at hreading
        · simp only [asyncRead, persons_setPerson, if_pos, Option.some.injEq,
            AsyncRead.body.injEq] at hreading
          exact hreading ▸ Nat.le_of_not_lt hsize
    · right
      cases r with
      | none => simpa [headerHandler, endRead, hij] using hreading
      | some r =>
        rw [headerHandler] at hreading
        split_ifs at hreading <;> simpa [endRead, asyncRead, hij] using hreading
  | body j r =>
    obtain ⟨-, -, -, rfl⟩ := step_body h
    by_cases hij : i = j
    · cases r <;> simp [readHandler, endRead, asyncRead, hij] at hreading
    · right
      cases r with
      | none => simpa [readHandler, endRead, hij] using hreading
      | some b =>
        rw [readHandler, asyncRead, persons_setPerson, if_neg hij, persons_broadcast] at hreading
        split_ifs at hreading <;> simpa [endRead, hij] using hreading
  | written j ok =>
    obtain ⟨-, rfl⟩ := step_written h
    right
    cases ok <;> by_cases hij : i = j <;>
      simpa [writeHandler, hij, PersonInRoom.written_started, PersonInRoom.endWrite]
        using hreading

end Relay

/-! ### What a participant is due -/

/-- The packets that participant `i` is to be sent when it enters between the two runs. -/
def due (i : ι) (before after : List (Event ι)) : List Bytes :=
  recent before ++ packets (untilLeave i after)

/-- Participant `i` has not left. -/
def stays (i : ι) (es : List (Event ι)) : Prop := ∀ e ∈ es, e.leaves i = false

omit [DecidableEq ι] in
lemma packets_append (es es' : List (Event ι)) : packets (es ++ es') = packets es ++ packets es' :=
  List.filterMap_append

lemma packet_of_leaves {i : ι} {e : Event ι} (h : e.leaves i = true) : e.packet = none := by
  cases e with
  | start j => rfl
  | header j r => rfl
  | body j r =>
    cases r with
    | none => rfl
    | some b => cases h
  | written j ok => rfl

omit [DecidableEq ι] in
lemma recent_concat (es : List (Event ι)) (e : Event ι) :
    recent (es ++ [e]) =
      match e.packet with
      | none => recent es
      | some packet => (recent es ++ [packet]).rtake ChatRoom.maxRecentMsgs := by
  rw [recent, recent, packets_append]
  cases he : e.packet with
  | none => simp [packets, he]
  | some packet =>
    have hone : packets [e] = [packet] := by simp [packets, he]
    have hrtake : ((packets es).rtake (99 + 1)).rtake 99 = (packets es).rtake 99 := by
      simp [List.rtake_eq_reverse_take_reverse, List.take_take]
    rw [hone]
    change _ = ((packets es).rtake (99 + 1) ++ [packet]).rtake (99 + 1)
    rw [List.rtake_concat_succ, hrtake]
    exact List.rtake_concat_succ _ _ _

/-- Nothing is due to a participant after it has left. -/
lemma due_concat_of_stays {i : ι} {before after : List (Event ι)} (h : stays i after)
    (e : Event ι) : due i before (after ++ [e]) = due i before after ++ e.packet.toList := by
  have hall : ∀ a ∈ after, (!a.leaves i) = true := by
    intro a ha
    rw [h a ha]
    rfl
  rw [due, due, untilLeave, untilLeave, List.takeWhile_append_of_pos hall,
    List.takeWhile_eq_self_iff.2 hall, packets_append, List.append_assoc]
  congr 2
  cases he : e.leaves i with
  | true => simp [he, packet_of_leaves he, packets]
  | false => cases hp : e.packet <;> simp [he, hp, packets]

lemma due_concat_of_not_stays {i : ι} {before after : List (Event ι)} (h : ¬ stays i after)
    (e : Event ι) : due i before (after ++ [e]) = due i before after := by
  have hne : (after.takeWhile fun a => !a.leaves i).length ≠ after.length := by
    intro hlen
    apply h
    intro a ha
    have hself := (List.takeWhile_prefix (l := after) fun a => !a.leaves i).eq_of_length hlen
    simpa using List.takeWhile_eq_self_iff.1 hself a ha
  rw [due, due, untilLeave, untilLeave, List.takeWhile_append, if_neg hne]

lemma stays_concat {i : ι} {es : List (Event ι)} {e : Event ι} :
    stays i (es ++ [e]) ↔ stays i es ∧ e.leaves i = false := by
  simp [stays, or_imp, forall_and]

/-! ### Runs -/

namespace Relay

lemma run_concat {es : List (Event ι)} {e : Event ι} {s' : Relay ι}
    (h : run (es ++ [e]) = some s') : ∃ s, run es = some s ∧ s.step e = some s' := by
  rw [run, List.foldlM_append, Option.bind_eq_bind, Option.bind_eq_some_iff] at h
  simpa [run] using h

/-- The state of the room, and of the participants that have not entered. -/
structure Sound (es : List (Event ι)) (s : Relay ι) : Prop where
  recentMsgs : s.room.recentMsgs = recent es
  started : ∀ i, (s.persons i).started = true ↔ .start i ∈ es
  outside : ∀ i, .start i ∉ es → i ∉ s.room.participants ∧ (s.persons i).toQueue = .empty
  reading : ∀ i size, (s.persons i).reading = some (.body size) → size ≤ MAX_PACK_SIZE
  bodies : ∀ i b, .body i (some b) ∈ es → b.length ≤ MAX_PACK_SIZE

omit [DecidableEq ι] in
lemma sound_init : Sound [] (init : Relay ι) where
  recentMsgs := rfl
  started i := by simp [init, PersonInRoom.accepted]
  outside i _ := ⟨Finset.notMem_empty i, rfl⟩
  reading i size h := by cases h
  bodies i b h := by cases h

lemma Sound.step {es : List (Event ι)} {s s' : Relay ι} {e : Event ι} (h : Sound es s)
    (hstep : s.step e = some s') : Sound (es ++ [e]) s' where
  recentMsgs := by rw [step_recentMsgs hstep, recent_concat, h.recentMsgs]
  started i := by
    rw [step_started hstep, h.started, List.mem_append, List.mem_singleton, or_comm, eq_comm]
  outside i hi := by
    rw [List.mem_append, List.mem_singleton, not_or] at hi
    obtain ⟨hout, hqueue⟩ := h.outside i hi.1
    have hne : e ≠ .start i := Ne.symm hi.2
    have hwritten : ∀ ok, e ≠ .written i ok := by
      rintro ok rfl
      have hwriting := (step_toQueue_written hstep).1
      rw [hqueue] at hwriting
      exact hwriting rfl
    constructor
    · rw [step_participants hstep]
      rintro (heq | ⟨hin, -⟩)
      · exact hne heq
      · exact hout hin
    · rw [step_toQueue hstep hne hwritten, if_neg hout, hqueue]
  reading i size hreading := by
    rcases step_reading hstep hreading with hle | hreading
    · exact hle
    · exact h.reading i size hreading
  bodies i b hb := by
    rw [List.mem_append, List.mem_singleton] at hb
    rcases hb with hb | rfl
    · exact h.bodies i b hb
    · obtain ⟨size, hreading, hsize, -⟩ := step_body hstep
      rw [hsize b rfl]
      exact h.reading i size hreading

lemma run_sound {es : List (Event ι)} {s : Relay ι} (h : run es = some s) : Sound es s := by
  induction es using List.reverseRecOn generalizing s with
  | nil =>
    cases h
    exact sound_init
  | append_singleton es e ih =>
    obtain ⟨s₀, hrun, hstep⟩ := run_concat h
    exact (ih hrun).step hstep

/-- The state of a participant that entered between the two runs. -/
structure Delivers (i : ι) (before after : List (Event ι)) (s : Relay ι) : Prop where
  inRoom : i ∈ s.room.participants ↔ stays i after
  carries : (s.persons i).toQueue.Carries (due i before after)
  live : .written i false ∉ after → (s.persons i).toQueue.Live
  stopped : .written i false ∈ after → (s.persons i).toQueue.Stopped

lemma delivers_start {i : ι} {before : List (Event ι)} {s s' : Relay ι} (h : Sound before s)
    (hstep : s.step (.start i) = some s') : Delivers i before [] s' := by
  obtain ⟨hstarted, -⟩ := step_start hstep
  have hnot : .start i ∉ before := by
    rw [← h.started i, hstarted]
    exact Bool.false_ne_true
  obtain ⟨-, hqueue⟩ := h.outside i hnot
  have hqueue' := step_toQueue_start hstep
  rw [hqueue, h.recentMsgs] at hqueue'
  constructor
  · rw [step_participants hstep]
    simp [stays]
  · rw [hqueue']
    simpa [due, untilLeave, packets] using WriteQueue.carries_empty.pushAll (recent before)
  · intro _
    rw [hqueue']
    exact WriteQueue.live_empty.pushAll _
  · intro hmem
    cases hmem

lemma Delivers.inRoom_step {i : ι} {before after : List (Event ι)} {s s' : Relay ι} {e : Event ι}
    (h : Delivers i before after s) (hne : e ≠ .start i) (hstep : s.step e = some s') :
    i ∈ s'.room.participants ↔ stays i (after ++ [e]) := by
  rw [step_participants hstep, stays_concat, h.inRoom, or_iff_right hne]

/-- The end of a write to the participant. -/
lemma Delivers.step_written {i : ι} {before after : List (Event ι)} {s s' : Relay ι} {ok : Bool}
    (h : Delivers i before after s) (hstep : s.step (.written i ok) = some s') :
    Delivers i before (after ++ [.written i ok]) s' := by
  obtain ⟨hwriting, hqueue⟩ := step_toQueue_written hstep
  -- a write can end as long as none has failed
  have hnot : .written i false ∉ after := by
    intro hmem
    exact hwriting (h.stopped hmem).1
  have hlive : (s.persons i).toQueue.Live := h.live hnot
  have hdue : due i before (after ++ [.written i ok]) = due i before after := by
    by_cases hs : stays i after
    · rw [due_concat_of_stays hs]
      exact List.append_nil _
    · exact due_concat_of_not_stays hs _
  refine ⟨h.inRoom_step nofun hstep, ?_, ?_, ?_⟩
  · rw [hqueue, hdue]
    split_ifs
    · exact h.carries.done
    · exact h.carries.failed
  · intro hmem
    cases ok with
    | true =>
      rw [hqueue]
      exact hlive.done
    | false => simp at hmem
  · intro hmem
    cases ok with
    | true => simp [hnot] at hmem
    | false =>
      rw [hqueue]
      exact hlive.failed hwriting

lemma Delivers.step {i : ι} {before after : List (Event ι)} {s s' : Relay ι} {e : Event ι}
    (h : Delivers i before after s) (hne : e ≠ .start i) (hstep : s.step e = some s') :
    Delivers i before (after ++ [e]) s' := by
  by_cases hwritten : ∃ ok, e = .written i ok
  · obtain ⟨ok, rfl⟩ := hwritten
    exact h.step_written hstep
  · have hne' : ∀ ok, e ≠ .written i ok := by
      intro ok heq
      exact hwritten ⟨ok, heq⟩
    have hin := h.inRoom_step hne hstep
    have hmem : .written i false ∈ after ++ [e] ↔ .written i false ∈ after := by
      simp [(hne' false).symm]
    have hqueue := step_toQueue hstep hne hne'
    by_cases hs : stays i after
    · rw [if_pos (h.inRoom.2 hs)] at hqueue
      refine ⟨hin, ?_, ?_, ?_⟩
      · rw [hqueue, due_concat_of_stays hs]
        exact h.carries.pushAll _
      · intro hnot
        rw [hqueue]
        exact (h.live (mt hmem.2 hnot)).pushAll _
      · intro hfail
        rw [hqueue]
        exact (h.stopped (hmem.1 hfail)).pushAll _
    · rw [if_neg (mt h.inRoom.1 hs)] at hqueue
      refine ⟨hin, ?_, ?_, ?_⟩
      · rw [hqueue, due_concat_of_not_stays hs]
        exact h.carries
      · intro hnot
        rw [hqueue]
        exact h.live (mt hmem.2 hnot)
      · intro hfail
        rw [hqueue]
        exact h.stopped (hmem.1 hfail)

lemma run_delivers {i : ι} {before after : List (Event ι)} {s : Relay ι}
    (h : run (before ++ .start i :: after) = some s) : Delivers i before after s := by
  induction after using List.reverseRecOn generalizing s with
  | nil =>
    obtain ⟨s₀, hrun, hstep⟩ := run_concat h
    exact delivers_start (run_sound hrun) hstep
  | append_singleton after e ih =>
    rw [← List.cons_append, ← List.append_assoc] at h
    obtain ⟨s₀, hrun, hstep⟩ := run_concat h
    refine (ih hrun).step ?_ hstep
    -- a participant is started once
    rintro rfl
    obtain ⟨hstarted, -⟩ := step_start hstep
    have hmem := (run_sound hrun).started i
    simp [hstarted] at hmem

/-- What is written to a participant, in every run: the packets that it is due, in order and once
each, one `async_write` at a time. -/
theorem relay_delivers {es : List (Event ι)} {s : Relay ι} (h : run es = some s) (i : ι) :
    (∀ before after, es = before ++ .start i :: after →
      (s.persons i).handed ++ (s.persons i).writeMsgs.tail = due i before after ∧
        (s.persons i).handed.flatten <+: (due i before after).flatten) ∧
    (.start i ∉ es → (s.persons i).handed = []) ∧
    (s.persons i).writing.length ≤ 1 ∧
    (∀ buffer ∈ (s.persons i).writing, (s.persons i).writeMsgs.head? = some buffer) ∧
    (.written i false ∉ es → ((s.persons i).writing ≠ [] ↔ (s.persons i).writeMsgs ≠ [])) ∧
    ∀ j body, .body j (some body) ∈ es →
      body.length ≤ MAX_PACK_SIZE ∧ readU16 (le16 body.length ++ body) 0 = .ok body.length := by
  have hsound := run_sound h
  have hwriting : (s.persons i).toQueue.Live ∨
      .written i false ∈ es ∧ (s.persons i).toQueue.Stopped := by
    by_cases hstart : .start i ∈ es
    · obtain ⟨before, after, rfl⟩ := List.append_of_mem hstart
      have hdelivers := run_delivers h
      by_cases hfail : .written i false ∈ after
      · exact .inr ⟨by simp [hfail], hdelivers.stopped hfail⟩
      · exact .inl (hdelivers.live hfail)
    · rw [(hsound.outside i hstart).2]
      exact .inl WriteQueue.live_empty
  refine ⟨?_, ?_, ?_, ?_, ?_, ?_⟩
  · rintro before after rfl
    have hcarries := (run_delivers h).carries
    refine ⟨hcarries, (s.persons i).writeMsgs.tail.flatten, ?_⟩
    rw [← hcarries, List.flatten_append]
    rfl
  · intro hstart
    exact congrArg WriteQueue.handed (hsound.outside i hstart).2
  · rcases hwriting with hlive | ⟨-, hstopped⟩
    · rw [show (s.persons i).writing = (s.persons i).writeMsgs.take 1 from hlive]
      exact List.length_take_le 1 _
    · rw [show (s.persons i).writing = [] from hstopped.1]
      exact Nat.zero_le 1
  · intro buffer hbuffer
    rcases hwriting with hlive | ⟨-, hstopped⟩
    · rw [show (s.persons i).writing = (s.persons i).writeMsgs.take 1 from hlive] at hbuffer
      cases hmsgs : (s.persons i).writeMsgs <;> simp_all
    · rw [show (s.persons i).writing = [] from hstopped.1] at hbuffer
      cases hbuffer
  · intro hnot
    rcases hwriting with hlive | ⟨hfail, -⟩
    · exact hlive.writing_ne_nil_iff
    · exact absurd hfail hnot
  · intro j body hbody
    have hle := hsound.bodies j body hbody
    refine ⟨hle, readU16_of_prefix [] (List.prefix_append _ _) rfl ?_⟩
    exact hle.trans_lt (by decide)

/-- A packet of participant `false`, which participant `true` gets from the history. -/
def twoPersons : List (Event Bool) :=
  [.start false, .header false (some (1, 0)), .body false (some [7]), .start true,
    .written false true]

theorem relay_delivers_twoPersons : ∃ s : Relay Bool, run twoPersons = some s ∧
    (s.persons true).handed ++ (s.persons true).writeMsgs.tail = [[1, 0, 7]] := by
  refine ⟨_, rfl, ?_⟩
  have hdelivers := @relay_delivers Bool _ twoPersons _ rfl true
  exact (hdelivers.1 (twoPersons.take 3) (twoPersons.drop 4) rfl).1

end Relay

end Vjft.Srv

import Vjft.Lib.Audience
import Vjft.Term.Network
import Mathlib.Data.List.Induction

/-!
# The server of the terminal (`term/srv.c`)

The server sends each line that is typed at its console to all clients and shows what they send. It
waits in `select` and then looks at all descriptors from the lowest one on, while clients come and
go, and the kernel gives the descriptor of one that has gone to the next one that comes. It always
gives the lowest one that is free. A `send` that fails is only reported; one to a client that reads
no more raises `SIGPIPE`, for which the server has no handler.
-/

namespace Vjft.Term

open Audience

/-- What an open descriptor leads to. The connections have the numbers in which they were
accepted. -/
inductive Description
  | inherited
  | listener
  | connection (c : ℕ)
  deriving DecidableEq

def maxClients : ℕ := 10
def bufferSize : ℕ := 1024
def fdSetSize : ℕ := 1024
def stdinFileno : ℕ := 0

/-- What happens to the connections, and the lines of the console. -/
inductive ServerEvent
  | connected (c : ℕ)
  | refused (c : ℕ)
  | line (text : CStr)
  /-- A text was handed to `send`, which took so many of its bytes; `none` stands for `-1`. -/
  | send (c : ℕ) (text : CStr) (result : Option ℕ)
  | received (c : ℕ) (text : CStr)
  | disconnected (c : ℕ)
  deriving DecidableEq

/-- The variables of `main` and the open descriptors, with what is yet to be typed at the console
until its end and with what has happened. -/
structure Server where
  descriptors : Heap Description
  listenerFd : ℕ
  clientFds : List (Option ℕ)
  console : Bytes
  accepted : ℕ
  log : List ServerEvent

/-- What a call of `send` does. -/
inductive Sending
  | sent (n : ℕ)
  | failed
  | sigpipe
  deriving DecidableEq

/-- What `send` returns, with `none` for `-1`. -/
def Sending.result : Sending → Option ℕ
  | sent n => some n
  | failed | sigpipe => none

/-- What ends the server. -/
inductive Fault
  /-- `FD_SET` of a descriptor that an `fd_set` has no bit for; C leaves the result open. -/
  | outOfRange
  /-- A call with a descriptor that leads to something else or is closed. -/
  | badDescriptor
  /-- `accept` or `recv` when there is nothing to get, so that all clients wait. -/
  | blocks
  /-- The signal came in `send` to a client. -/
  | sigpipe (c : ℕ) (s : Server)

/-- What is ready when `select` returns, and what the calls give then: whether there is a connection
for `accept`, what `send` does with a text for a connection, and for each connection that is ready
the bytes of `recv`, or `none` for `-1`. -/
structure Selected where
  stdin : Bool
  listener : Bool
  accepts : Bool
  send : ℕ → Sending
  recv : ℕ → Option (Option Bytes)
  length_le : ∀ c r, recv c = some (some r) → r.length ≤ bufferSize - 1

/-- What `fgets` reads, up to a newline or as much as there is place for, and what is left. -/
def fgets (console : Bytes) : Option (Bytes × Bytes) :=
  if console = [] then none
  else
    let n := min ((console.takeWhile (· ≠ 0x0A)).length + 1) (bufferSize - 1)
    some (console.take n, console.drop n)

/-- The string in the buffer without the newline at its end. -/
def lineText (r : Bytes) : CStr :=
  let text := textOf r
  if text.getLast? = some 0x0A then text.dropLast else text

/-- Whether `select` reports the descriptor. -/
def Selected.reports (sel : Selected) : Option Description → Bool
  | some .inherited => sel.stdin
  | some .listener => sel.listener
  | some (.connection c) => (sel.recv c).isSome
  | none => false

/-- The descriptors that are open when the program starts. -/
def inheritedDescriptors (inherited : List ℕ) : Heap Description :=
  inherited.foldr (fun fd (heap : Heap Description) => heap.insert fd .inherited) ∅

namespace Server

/-- The server after `listen`. -/
def start (inherited : List ℕ) (console : Bytes) : Server where
  descriptors :=
    (inheritedDescriptors inherited).insert (lowest (inheritedDescriptors inherited)) .listener
  listenerFd := lowest (inheritedDescriptors inherited)
  clientFds := List.replicate maxClients none
  console := console
  accepted := 0
  log := []

def masterSet (s : Server) : List ℕ := s.listenerFd :: stdinFileno :: s.clientFds.reduceOption

def fdMax (s : Server) : ℕ := s.masterSet.foldr max 0

def readFds (s : Server) (sel : Selected) : List ℕ :=
  s.masterSet.filter fun fd => sel.reports s.descriptors[fd]?

def connection (s : Server) (fd : ℕ) : Except Fault ℕ :=
  match s.descriptors[fd]? with
  | some (.connection c) => .ok c
  | _ => .error .badDescriptor

def accept (s : Server) (sel : Selected) : Except Fault Server :=
  if s.descriptors[s.listenerFd]? ≠ some .listener then .error .badDescriptor
  else if ¬ sel.listener then .error .blocks
  else if ¬ sel.accepts then .ok s
  else
    let newFd := lowest s.descriptors
    let c := s.accepted
    let s := { s with
      accepted := c + 1
      descriptors := s.descriptors.insert newFd (.connection c) }
    match takeSlot newFd s.clientFds with
    | some clientFds => .ok { s with clientFds, log := s.log ++ [.connected c] }
    | none =>
      .ok { s with descriptors := s.descriptors.erase newFd, log := s.log ++ [.refused c] }

/-- `send` to the client of a slot. It is not called again for the bytes that it leaves. -/
def sendTo (sel : Selected) (text : CStr) (s : Server) : Option ℕ → Except Fault Server
  | none => .ok s
  | some fd => do
    let c ← s.connection fd
    if sel.send c = .sigpipe then .error (.sigpipe c s)
    else pure { s with log := s.log ++ [.send c text (sel.send c).result] }

def readConsole (s : Server) (sel : Selected) : Except Fault Server :=
  match fgets s.console with
  | none => .ok s
  | some (r, console) =>
    s.clientFds.foldlM (sendTo sel (lineText r))
      { s with console, log := s.log ++ [.line (lineText r)] }

def readClient (s : Server) (sel : Selected) (fd : ℕ) : Except Fault Server := do
  let c ← s.connection fd
  match sel.recv c with
  | none => .error .blocks
  | some (some (b :: r)) => pure { s with log := s.log ++ [.received c (textOf (b :: r))] }
  | some _ =>
    pure { s with
      descriptors := s.descriptors.erase fd
      clientFds := freeSlot fd s.clientFds
      log := s.log ++ [.disconnected c] }

def handle (sel : Selected) (s : Server) (fd : ℕ) : Except Fault Server :=
  if fd = s.listenerFd then s.accept sel
  else if fd = stdinFileno then s.readConsole sel
  else s.readClient sel fd

/-- A round of the loop. `select` is called with descriptors in the range of an `fd_set` that are
open. -/
def pass (s : Server) (sel : Selected) : Except Fault Server :=
  if ¬ ∀ fd ∈ s.masterSet, fd < fdSetSize then .error .outOfRange
  else if ¬ ∀ fd ∈ s.masterSet, s.descriptors[fd]? ≠ none then .error .badDescriptor
  else
    let readFds := s.readFds sel
    (List.range (s.fdMax + 1)).foldlM
      (fun s i => if i ∈ readFds then s.handle sel i else .ok s) s

/-- The rounds of the loop, of which `select` ends one after the other. -/
def run (s : Server) (sels : List Selected) : Except Fault Server := sels.foldlM pass s

end Server

/-! ### What was sent -/

namespace ServerEvent

def event : ServerEvent → Option (Turn ℕ CStr)
  | connected c => some (.join c)
  | disconnected c => some (.leave c)
  | line text => some (.say text)
  | _ => none

def line? : ServerEvent → Option CStr
  | line text => some text
  | _ => none

def sentTo? (c : ℕ) : ServerEvent → Option CStr
  | send c' text _ => if c' = c then some text else none
  | _ => none

def takenFor? (c : ℕ) : ServerEvent → Option CStr
  | send c' text (some n) => if c' = c then some (text.take n) else none
  | _ => none

def connected? : ServerEvent → Option ℕ
  | connected c => some c
  | _ => none

end ServerEvent

/-- The connections, their coming and going and what is said to them. -/
def events (log : List ServerEvent) : List (Turn ℕ CStr) := log.filterMap ServerEvent.event

/-- The lines of the console. -/
def lines (log : List ServerEvent) : List CStr := log.filterMap ServerEvent.line?

/-- What was handed to `send` for a connection. -/
def sentTo (c : ℕ) (log : List ServerEvent) : List CStr := log.filterMap (ServerEvent.sentTo? c)

/-- What `send` took of it. -/
def takenFor (c : ℕ) (log : List ServerEvent) : List CStr := log.filterMap (ServerEvent.takenFor? c)

/-- The calls of `send` for a line. -/
def sends (sel : Selected) (text : CStr) (conns : List ℕ) : List ServerEvent :=
  conns.map fun c => .send c text (sel.send c).result

/-- A client is refused only when there are as many as there can be. -/
def Admits (log : List ServerEvent) (e : ServerEvent) : Prop :=
  (∀ c, e = .connected c → (members [] (events log)).length < maxClients) ∧
    ∀ c, e = .refused c → (members [] (events log)).length = maxClients

inductive Admitted : List ServerEvent → Prop
  | nil : Admitted []
  | snoc {log : List ServerEvent} {e : ServerEvent} (h : Admitted log) (he : Admits log e) :
      Admitted (log ++ [e])

/-- What the log says when these connections are open. -/
structure Logged (conns : List ℕ) (accepted : ℕ) (log : List ServerEvent) : Prop where
  members : conns.Perm (members [] (events log))
  nodup : conns.Nodup
  lt : ∀ c ∈ conns, c < accepted
  once : (log.filterMap ServerEvent.connected?).Nodup
  once_lt : ∀ c ∈ log.filterMap ServerEvent.connected?, c < accepted
  sent : ∀ c, sentTo c log = heard c [] (events log)
  admitted : Admitted log

section Log

variable {log log' : List ServerEvent} {conns conns' : List ℕ} {accepted : ℕ} {sel : Selected}

lemma Admitted.append (h : Admitted log) (h' : ∀ e ∈ log', ∀ c, e ≠ .connected c ∧ e ≠ .refused c) :
    Admitted (log ++ log') := by
  induction log' using List.reverseRecOn with
  | nil =>
    rw [List.append_nil]
    exact h
  | append_singleton log' e ih =>
    rw [← List.append_assoc]
    have he := h' e (by simp)
    refine (ih fun e he => h' e (List.mem_append_left _ he)).snoc ⟨fun c hc => ?_, fun c hc => ?_⟩
    · exact absurd hc (he c).1
    · exact absurd hc (he c).2

lemma Admitted.admits (h : Admitted log) {before after : List ServerEvent} {e : ServerEvent}
    (hlog : log = before ++ e :: after) : Admits before e := by
  induction h generalizing after with
  | nil => simp at hlog
  | @snoc log e' h he ih =>
    rcases List.eq_nil_or_concat' after with rfl | ⟨after, e'', rfl⟩
    · obtain ⟨rfl, hsingle⟩ := List.append_inj' hlog rfl
      obtain rfl := List.singleton_inj.1 hsingle
      exact he
    · rw [← List.cons_append, ← List.append_assoc] at hlog
      exact ih (List.append_inj' hlog rfl).1

lemma said_events (log : List ServerEvent) : said (events log) = lines log := by
  rw [said, events, lines, List.filterMap_filterMap]
  congr 1
  funext e
  cases e <;> rfl

lemma Logged.nil : Logged [] 0 [] where
  members := .refl _
  nodup := List.nodup_nil
  lt := fun _ h => absurd h List.not_mem_nil
  once := List.nodup_nil
  once_lt := fun _ h => absurd h List.not_mem_nil
  sent := fun _ => rfl
  admitted := .nil

lemma Logged.perm (h : Logged conns accepted log) (hperm : conns.Perm conns') :
    Logged conns' accepted log :=
  { h with
    members := hperm.symm.trans h.members
    nodup := hperm.nodup_iff.1 h.nodup
    lt := fun c hc => h.lt c (hperm.mem_iff.2 hc) }

lemma Logged.connected (h : Logged conns accepted log) (hlength : conns.length < maxClients) :
    Logged (accepted :: conns) (accepted + 1) (log ++ [.connected accepted]) where
  members := by
    rw [events, List.filterMap_append, members_append]
    exact h.members.cons accepted
  nodup := List.nodup_cons.2 ⟨fun hmem => (h.lt _ hmem).false, h.nodup⟩
  lt := List.forall_mem_cons.2 ⟨Nat.lt_succ_self _, fun c hc => Nat.lt_succ_of_lt (h.lt c hc)⟩
  once := by
    rw [List.filterMap_append]
    refine List.Nodup.append h.once (List.nodup_singleton _) ?_
    intro c hc hc'
    obtain rfl := List.mem_singleton.1 hc'
    exact (h.once_lt _ hc).false
  once_lt := by
    intro c hc
    rw [List.filterMap_append, List.mem_append] at hc
    rcases hc with hc | hc
    · exact Nat.lt_succ_of_lt (h.once_lt c hc)
    · obtain rfl := List.mem_singleton.1 hc
      exact Nat.lt_succ_self _
  sent := by
    intro c
    rw [sentTo, events, List.filterMap_append, List.filterMap_append, heard_append]
    exact congrArg (· ++ []) (h.sent c)
  admitted := by
    refine h.admitted.snoc ⟨fun _ _ => ?_, nofun⟩
    rw [← h.members.length_eq]
    exact hlength

/-- An event that is not about the audience. -/
lemma Logged.snoc (h : Logged conns accepted log) {e : ServerEvent} (hevent : e.event = none)
    (hsent : ∀ c, e.sentTo? c = none) (hadmits : Admits log e) :
    Logged conns accepted (log ++ [e]) := by
  have hevents : events (log ++ [e]) = events log := by
    rw [events, List.filterMap_append, List.filterMap_cons_none hevent, List.filterMap_nil,
      List.append_nil]
    rfl
  have hconnected : e.connected? = none := by
    cases e with
    | connected c => cases hevent
    | _ => rfl
  have honce : (log ++ [e]).filterMap ServerEvent.connected? =
      log.filterMap ServerEvent.connected? := by
    rw [List.filterMap_append, List.filterMap_cons_none hconnected, List.filterMap_nil,
      List.append_nil]
  refine ⟨hevents ▸ h.members, h.nodup, h.lt, honce ▸ h.once, honce ▸ h.once_lt, fun c => ?_,
    h.admitted.snoc hadmits⟩
  rw [hevents, ← h.sent c, sentTo, List.filterMap_append, List.filterMap_cons_none (hsent c),
    List.filterMap_nil, List.append_nil]
  rfl

lemma Logged.refused (h : Logged conns accepted log) (hlength : conns.length = maxClients) :
    Logged conns (accepted + 1) (log ++ [.refused accepted]) := by
  have hsnoc : Logged conns accepted (log ++ [.refused accepted]) :=
    h.snoc rfl (fun _ => rfl) ⟨nofun, fun c _ => h.members.length_eq ▸ hlength⟩
  exact { hsnoc with
    lt := fun c hc => Nat.lt_succ_of_lt (hsnoc.lt c hc)
    once_lt := fun c hc => Nat.lt_succ_of_lt (hsnoc.once_lt c hc) }

lemma Logged.received (h : Logged conns accepted log) (c : ℕ) (text : CStr) :
    Logged conns accepted (log ++ [.received c text]) :=
  h.snoc rfl (fun _ => rfl) ⟨nofun, nofun⟩

lemma Logged.disconnected {c : ℕ} (h : Logged (c :: conns) accepted log) :
    Logged conns accepted (log ++ [.disconnected c]) where
  members := by
    rw [events, List.filterMap_append, members_append]
    have hperm := h.members.erase c
    rw [List.erase_cons_head] at hperm
    exact hperm
  nodup := (List.nodup_cons.1 h.nodup).2
  lt := fun c' hc' => h.lt c' (List.mem_cons_of_mem c hc')
  once := by
    rw [List.filterMap_append]
    exact (List.append_nil _).symm ▸ h.once
  once_lt := by
    rw [List.filterMap_append]
    exact (List.append_nil _).symm ▸ h.once_lt
  sent := by
    intro c'
    rw [sentTo, events, List.filterMap_append, List.filterMap_append, heard_append]
    exact congrArg (· ++ []) (h.sent c')
  admitted := h.admitted.snoc ⟨nofun, nofun⟩

lemma sentTo_sends (hnodup : conns.Nodup) (c : ℕ) (text : CStr) :
    sentTo c (sends sel text conns) = if c ∈ conns then [text] else [] := by
  induction conns with
  | nil => rfl
  | cons c' conns ih =>
    obtain ⟨hnotMem, hnodup⟩ := List.nodup_cons.1 hnodup
    have hcons : sentTo c (sends sel text (c' :: conns)) =
        (if c' = c then [text] else []) ++ sentTo c (sends sel text conns) := by
      rw [sentTo, sends, List.map_cons, List.filterMap_cons, ServerEvent.sentTo?]
      split_ifs <;> rfl
    rw [hcons, ih hnodup]
    by_cases hc : c' = c
    · subst hc
      rw [if_pos rfl, if_neg hnotMem, if_pos List.mem_cons_self, List.append_nil]
    · rw [if_neg hc, List.nil_append]
      exact if_congr (by rw [List.mem_cons, or_iff_right (Ne.symm hc)]) rfl rfl

/-- What is not about calls of `send` does not depend on them. -/
lemma filterMap_line {α : Type} (f : ServerEvent → Option α)
    (hf : ∀ c text n, f (.send c text n) = none) (text : CStr) :
    (log ++ .line text :: sends sel text conns).filterMap f =
      log.filterMap f ++ (f (.line text)).toList := by
  have hsends : (sends sel text conns).filterMap f = [] := by
    rw [sends, List.filterMap_map, List.filterMap_eq_nil_iff]
    exact fun c _ => hf c text _
  rw [List.filterMap_append, List.filterMap_cons, hsends]
  cases f (.line text) <;> rfl

lemma sentTo_line (hnodup : conns.Nodup) (c : ℕ) (text : CStr) :
    sentTo c (log ++ .line text :: sends sel text conns) =
      sentTo c log ++ if c ∈ conns then [text] else [] := by
  have hsends : sentTo c (sends sel text conns) = if c ∈ conns then [text] else [] :=
    sentTo_sends hnodup c text
  rw [← hsends, sentTo, List.filterMap_append]
  rfl

lemma Admitted.line (h : Admitted log) (text : CStr) :
    Admitted (log ++ .line text :: sends sel text conns) := by
  refine h.append ?_
  intro e he c
  rcases List.mem_cons.1 he with rfl | he
  · constructor
    all_goals
      intro hc
      cases hc
  · obtain ⟨c', -, rfl⟩ := List.mem_map.1 he
    constructor
    all_goals
      intro hc
      cases hc

lemma Logged.heard_line (h : Logged conns accepted log) (c : ℕ) (text : CStr) :
    heard c [] (events log ++ [.say text]) = sentTo c log ++ if c ∈ conns then [text] else [] := by
  rw [heard_append, h.sent c, heard, heard, List.append_nil, Turn.heard]
  simp only [h.members.mem_iff]

/-- A line is sent to all who are present. -/
lemma Logged.said (h : Logged conns accepted log) (text : CStr) :
    Logged conns accepted (log ++ .line text :: sends sel text conns) := by
  have hevents : events (log ++ .line text :: sends sel text conns) =
      events log ++ [.say text] := filterMap_line _ (fun _ _ _ => rfl) text
  have honce : (log ++ .line text :: sends sel text conns).filterMap ServerEvent.connected? =
      log.filterMap ServerEvent.connected? := by
    rw [filterMap_line _ (fun _ _ _ => rfl) text]
    exact List.append_nil _
  refine ⟨?_, h.nodup, h.lt, honce ▸ h.once, honce ▸ h.once_lt, fun c => ?_,
    h.admitted.line text⟩
  · rw [hevents, members_append]
    exact h.members
  · rw [hevents, h.heard_line, sentTo_line h.nodup]

/-- What the log says when the server has ended in the middle of sending a line. -/
structure Cut (log : List ServerEvent) : Prop where
  once : (log.filterMap ServerEvent.connected?).Nodup
  sent : ∀ c, ∃ rest, rest.length ≤ 1 ∧ sentTo c log ++ rest = heard c [] (events log)
  admitted : Admitted log

/-- Some clients are still to get the line. -/
lemma Logged.cut {conns₁ conns₂ : List ℕ} (h : Logged (conns₁ ++ conns₂) accepted log)
    (text : CStr) : Cut (log ++ .line text :: sends sel text conns₁) := by
  have hevents : events (log ++ .line text :: sends sel text conns₁) =
      events log ++ [.say text] := filterMap_line _ (fun _ _ _ => rfl) text
  refine ⟨?_, fun c => ?_, h.admitted.line text⟩
  · rw [filterMap_line _ (fun _ _ _ => rfl) text]
    exact (List.append_nil _).symm ▸ h.once
  · rw [hevents, h.heard_line, sentTo_line (List.nodup_append'.1 h.nodup).1]
    by_cases hc : c ∈ conns₁
    · refine ⟨[], Nat.zero_le 1, ?_⟩
      rw [if_pos hc, if_pos (List.mem_append_left _ hc), List.append_nil]
    · refine ⟨if c ∈ conns₁ ++ conns₂ then [text] else [], ?_, ?_⟩
      · split_ifs
        · exact le_rfl
        · exact Nat.zero_le 1
      · rw [if_neg hc, List.append_nil]

lemma events_takeWhile (c : ℕ) (log : List ServerEvent) :
    events (log.takeWhile (· ≠ .disconnected c)) =
      (events log).takeWhile (· ≠ .leave c) := by
  induction log with
  | nil => rfl
  | cons e log ih =>
    have hcons (e : ServerEvent) (log : List ServerEvent) :
        events (e :: log) = e.event.toList ++ events log := by
      rw [events, List.filterMap_cons]
      cases e <;> rfl
    rw [List.takeWhile_cons, hcons]
    cases e with
    | disconnected c' =>
      by_cases hc : c' = c
      · subst hc
        simp [events, ServerEvent.event]
      · simpa [hcons, ServerEvent.event, hc] using ih
    | _ => simpa [hcons, ServerEvent.event] using ih

lemma join_mem_events {c : ℕ} :
    .join c ∈ events log ↔ c ∈ log.filterMap ServerEvent.connected? := by
  rw [events, List.mem_filterMap, List.mem_filterMap]
  refine exists_congr fun e => and_congr_right fun _ => ?_
  cases e <;> simp [ServerEvent.event, ServerEvent.connected?]

/-- What is said while a client is connected. -/
lemma heard_events_eq (honce : (log.filterMap ServerEvent.connected?).Nodup) {c : ℕ}
    {before after : List ServerEvent} (hlog : log = before ++ .connected c :: after) :
    heard c [] (events log) = lines (after.takeWhile (· ≠ .disconnected c)) := by
  rw [hlog, List.filterMap_append, List.filterMap_cons_some (by rfl)] at honce
  obtain ⟨-, hafter, hdisjoint⟩ := List.nodup_append'.1 honce
  have hbefore : c ∉ before.filterMap ServerEvent.connected? :=
    fun hmem => hdisjoint hmem List.mem_cons_self
  have hevents : events log = events before ++ .join c :: events after := by
    rw [hlog, events, List.filterMap_append, List.filterMap_cons_some (by rfl)]
    rfl
  rw [hevents, heard_eq (mt join_mem_events.1 hbefore)
    (mt join_mem_events.1 (List.nodup_cons.1 hafter).1), ← events_takeWhile, said_events]

lemma heard_events_eq_nil {c : ℕ} (hc : .connected c ∉ log) : heard c [] (events log) = [] := by
  refine heard_of_notMem List.not_mem_nil fun hjoin => hc ?_
  obtain ⟨e, he, hconnected⟩ := List.mem_filterMap.1 (join_mem_events.1 hjoin)
  cases e with
  | connected c' =>
    cases hconnected
    exact he
  | _ => cases hconnected

/-- Calls of `send` that take all bytes. -/
lemma takenFor_eq {c : ℕ} (h : ∀ text n, .send c text n ∈ log → n = some text.length) :
    takenFor c log = sentTo c log := by
  refine List.filterMap_congr fun e he => ?_
  cases e with
  | send c' text n =>
    by_cases hc : c' = c
    · subst hc
      obtain rfl := h text n he
      rw [ServerEvent.takenFor?, ServerEvent.sentTo?, List.take_length]
    · cases n <;> simp [ServerEvent.takenFor?, ServerEvent.sentTo?, hc]
  | _ => rfl

end Log

/-! ### The descriptors -/

/-- The slots have the descriptors of the connections in them, and there are no open descriptors
but these, the listener and those from the start. -/
structure Server.Table (s : Server) (inherited : List ℕ) (slots : List (Option (ℕ × ℕ))) :
    Prop where
  clientFds : s.clientFds = slots.map (Option.map Prod.fst)
  length : slots.length = maxClients
  owns : Linked.Owns s.descriptors
    (slots.reduceOption.map Prod.fst ++ s.listenerFd :: inherited)
  listener : s.descriptors[s.listenerFd]? = some .listener
  inherited_eq : ∀ fd ∈ inherited, s.descriptors[fd]? = some .inherited
  connection : ∀ p ∈ slots.reduceOption, s.descriptors[p.1]? = some (.connection p.2)
  le : ∀ fd ∈ s.listenerFd :: slots.reduceOption.map Prod.fst, fd ≤ inherited.length + maxClients

/-- A line that `fgets` reads as it is. -/
def IsLine (l : CStr) : Prop := l.length + 1 ≤ bufferSize - 1 ∧ 0 ∉ l ∧ 0x0A ∉ l

/-- The lines in the log are those of the console so far. -/
structure Server.Typed (s : Server) (console : Bytes) : Prop where
  pieces : ∃ done : List Bytes, done.flatten ++ s.console = console ∧
    lines s.log = done.map lineText
  lines : ∀ ls, (∀ l ∈ ls, IsLine l) → console = ls.flatMap (· ++ [0x0A]) →
    ∃ rest, ls = lines s.log ++ rest ∧ s.console = rest.flatMap (· ++ [0x0A])

/-- What holds between two calls. -/
structure Server.Inv (s : Server) (inherited : List ℕ) (console : Bytes) : Prop where
  table : ∃ slots, s.Table inherited slots ∧
    Logged (slots.reduceOption.map Prod.snd) s.accepted s.log
  typed : s.Typed console

/-- What holds when a signal has ended the server. -/
structure Server.Ended (s : Server) (console : Bytes) (c : ℕ) : Prop where
  typed : s.Typed console
  present : c ∈ members [] (events s.log)
  cut : Cut s.log

/-- The server goes on, unless `send` to a client raises `SIGPIPE`. -/
def Server.Goes (console : Bytes) (raises : ℕ → Prop) (P : Server → Prop) :
    Except Fault Server → Prop
  | .ok s => P s
  | .error (.sigpipe c s) => raises c ∧ s.Ended console c
  | .error _ => False

/-- The open descriptors other than `fd` lead where they did. -/
def Server.Keeps (fd : ℕ) (s s' : Server) : Prop :=
  s'.listenerFd = s.listenerFd ∧
    ∀ fd' ≠ fd, s.descriptors[fd']? ≠ none → s'.descriptors[fd']? = s.descriptors[fd']?

namespace Server

variable {s s' : Server} {inherited : List ℕ} {slots : List (Option (ℕ × ℕ))}

lemma Table.exists_mem (h : s.Table inherited slots) {fd c : ℕ}
    (hfd : s.descriptors[fd]? = some (.connection c)) : (fd, c) ∈ slots.reduceOption := by
  have hmem := (h.owns.mem_iff fd).2 (hfd ▸ Option.some_ne_none _)
  rw [List.mem_append, List.mem_cons] at hmem
  rcases hmem with hmem | rfl | hmem
  · obtain ⟨⟨fd', c'⟩, hp, rfl⟩ := List.mem_map.1 hmem
    have hp' := h.connection _ hp
    dsimp only at hp' hfd
    rw [hfd] at hp'
    cases hp'
    exact hp
  · rw [h.listener] at hfd
    cases hfd
  · rw [h.inherited_eq fd hmem] at hfd
    cases hfd

lemma connection_eq {fd c : ℕ} (hfd : s.descriptors[fd]? = some (.connection c)) :
    s.connection fd = .ok c := by
  rw [connection, hfd]

/-- A new connection gets the descriptor `lowest` and the first free slot. -/
lemma Table.insert (h : s.Table inherited slots) (hfree : none ∈ slots) (c : ℕ) :
    ∃ slots' clientFds, takeSlot (lowest s.descriptors) s.clientFds = some clientFds ∧
      slots'.reduceOption.Perm ((lowest s.descriptors, c) :: slots.reduceOption) ∧
      ∀ accepted log, Table { s with
        descriptors := s.descriptors.insert (lowest s.descriptors) (.connection c)
        clientFds, accepted, log } inherited slots' := by
  have hnew := getElem?_lowest s.descriptors
  have hne {fd : ℕ} {d : Description} (hfd : s.descriptors[fd]? = some d) :
      (s.descriptors.insert (lowest s.descriptors) (.connection c))[fd]? = some d := by
    rw [Heap.getElem?_insert_of_ne _ _, hfd]
    rintro rfl
    rw [hnew] at hfd
    cases hfd
  obtain ⟨slots', hslots', hlength, hperm⟩ :=
    exists_takeSlot_eq Prod.fst hfree (lowest s.descriptors, c)
  refine ⟨slots', _, h.clientFds ▸ hslots', hperm, fun accepted log => ?_⟩
  have hfds := hperm.map Prod.fst
  have hlt : slots.reduceOption.length < maxClients := by
    rw [← h.length, List.reduceOption_length_lt_iff]
    exact hfree
  refine ⟨rfl, hlength.trans h.length, (h.owns.insert hnew _).perm ?_, hne h.listener,
    fun fd hfd => hne (h.inherited_eq fd hfd), ?_, ?_⟩
  · exact (hfds.append_right _).symm
  · intro p hp
    rcases List.mem_cons.1 (hperm.mem_iff.1 hp) with rfl | hp
    · exact Heap.getElem?_insert_self ..
    · exact hne (h.connection p hp)
  · intro fd hfd
    have hle := lowest_le_length h.owns
    rw [List.length_append, List.length_map, List.length_cons] at hle
    rcases List.mem_cons.1 hfd with rfl | hfd
    · exact h.le _ List.mem_cons_self
    · rcases List.mem_cons.1 (hfds.mem_iff.1 hfd) with rfl | hfd
      · omega
      · exact h.le fd (List.mem_cons_of_mem _ hfd)

/-- A connection that is refused leaves no descriptor behind. -/
lemma Table.refuse (h : s.Table inherited slots) (c : ℕ) (accepted : ℕ) (log : List ServerEvent) :
    Table { s with
      descriptors := (s.descriptors.insert (lowest s.descriptors) (.connection c)).erase
        (lowest s.descriptors)
      accepted, log } inherited slots := by
  have hnew := getElem?_lowest s.descriptors
  have hne {fd : ℕ} {d : Description} (hfd : s.descriptors[fd]? = some d) :
      ((s.descriptors.insert (lowest s.descriptors) (.connection c)).erase
        (lowest s.descriptors))[fd]? = some d := by
    have hfd' : fd ≠ lowest s.descriptors := by
      rintro rfl
      rw [hnew] at hfd
      cases hfd
    rw [Heap.getElem?_erase_of_ne _ hfd', Heap.getElem?_insert_of_ne _ hfd', hfd]
  exact ⟨h.clientFds, h.length, (h.owns.insert hnew _).erase, hne h.listener,
    fun fd hfd => hne (h.inherited_eq fd hfd), fun p hp => hne (h.connection p hp), h.le⟩

/-- The descriptor of a connection is closed, and its slot becomes free. -/
lemma Table.erase (h : s.Table inherited slots) {fd c : ℕ} (hmem : (fd, c) ∈ slots.reduceOption) :
    ∃ slots', slots.reduceOption.Perm ((fd, c) :: slots'.reduceOption) ∧
      ∀ log, Table { s with
        descriptors := s.descriptors.erase fd
        clientFds := freeSlot fd s.clientFds
        log } inherited slots' := by
  have hnodup : (slots.reduceOption.map Prod.fst).Nodup := (List.nodup_append'.1 h.owns.nodup).1
  obtain ⟨slots', hslots', hlength, hperm⟩ :=
    exists_freeSlot_eq (f := Prod.fst) (List.reduceOption_mem_iff.1 hmem) hnodup
  have hfds := hperm.map Prod.fst
  have howns := h.owns.perm (hfds.append_right (s.listenerFd :: inherited))
  have hnotMem := (List.nodup_cons.1 howns.nodup).1
  have hne {fd' : ℕ} (hfd' : fd' ∈ slots'.reduceOption.map Prod.fst ++ s.listenerFd :: inherited) :
      (s.descriptors.erase fd)[fd']? = s.descriptors[fd']? := by
    rw [Heap.getElem?_erase_of_ne]
    rintro rfl
    exact hnotMem hfd'
  refine ⟨slots', hperm, fun log => ⟨h.clientFds ▸ hslots', hlength.trans h.length, howns.erase,
    ?_, ?_, ?_, ?_⟩⟩
  · exact (hne (by simp)).trans h.listener
  · exact fun fd' hfd' => (hne (by simp [hfd'])).trans (h.inherited_eq fd' hfd')
  · intro p hp
    exact (hne (List.mem_append_left _ (List.mem_map_of_mem hp))).trans
      (h.connection p (hperm.mem_iff.2 (List.mem_cons_of_mem _ hp)))
  · intro fd' hfd'
    rcases List.mem_cons.1 hfd' with rfl | hfd'
    · exact h.le _ List.mem_cons_self
    · exact h.le fd' (List.mem_cons_of_mem _ (hfds.mem_iff.2 (List.mem_cons_of_mem _ hfd')))

/-! ### The console -/

lemma lineText_line {l : CStr} (h : IsLine l) : lineText (l ++ [0x0A]) = l := by
  obtain ⟨-, hnul, -⟩ := h
  have htext : textOf (l ++ [0x0A]) = l ++ [0x0A] := by
    rw [textOf, List.takeWhile_eq_self_iff]
    intro b hb
    rw [List.mem_append, List.mem_singleton] at hb
    rcases hb with hb | rfl
    · simpa using ne_of_mem_of_not_mem hb hnul
    · rfl
  rw [lineText, htext, if_pos List.getLast?_concat, List.dropLast_concat]

lemma fgets_line {l : CStr} (h : IsLine l) (rest : Bytes) :
    fgets (l ++ [0x0A] ++ rest) = some (l ++ [0x0A], rest) := by
  obtain ⟨hlength, -, hnewline⟩ := h
  have htake : (l ++ [0x0A] ++ rest).takeWhile (· ≠ 0x0A) = l := by
    rw [List.append_assoc, List.takeWhile_append_of_pos]
    · simp
    · intro b hb
      simpa using ne_of_mem_of_not_mem hb hnewline
  rw [fgets, if_neg (by simp), htake, min_eq_left hlength]
  dsimp only
  rw [← List.length_singleton (a := (0x0A : UInt8)), ← List.length_append, List.take_left,
    List.drop_left]

lemma append_of_fgets {console r rest : Bytes} (h : fgets console = some (r, rest)) :
    r ++ rest = console := by
  rw [fgets] at h
  split_ifs at h
  cases h
  exact List.take_append_drop _ _

lemma Typed.congr {console : Bytes} (h : s.Typed console) (hconsole : s'.console = s.console)
    (hlines : Term.lines s'.log = Term.lines s.log) : s'.Typed console := by
  refine ⟨?_, fun ls hls htyped => ?_⟩
  · rw [hconsole, hlines]
    exact h.pieces
  · rw [hconsole, hlines]
    exact h.lines ls hls htyped

lemma Typed.line {console r rest : Bytes} (h : s.Typed console)
    (hread : fgets s.console = some (r, rest)) (hconsole : s'.console = rest)
    (hlines : Term.lines s'.log = Term.lines s.log ++ [lineText r]) : s'.Typed console := by
  refine ⟨?_, fun ls hls htyped => ?_⟩
  · obtain ⟨done, hdone, hdoneLines⟩ := h.pieces
    refine ⟨done ++ [r], ?_, ?_⟩
    · rw [List.flatten_append, List.flatten_singleton, List.append_assoc, hconsole,
        append_of_fgets hread, hdone]
    · rw [hlines, hdoneLines, List.map_append, List.map_singleton]
  · obtain ⟨rest', hrest', hconsole'⟩ := h.lines ls hls htyped
    cases rest' with
    | nil =>
      rw [hconsole'] at hread
      cases hread
    | cons l rest' =>
      have hl : IsLine l := hls l (by simp [hrest'])
      rw [hconsole', List.flatMap_cons, fgets_line hl] at hread
      obtain ⟨rfl, rfl⟩ := Prod.ext_iff.1 (Option.some.inj hread)
      refine ⟨rest', ?_, hconsole⟩
      rw [hlines, lineText_line hl, List.append_assoc, hrest']
      rfl

/-! ### The calls -/

variable {sel : Selected} {console : Bytes}

lemma lines_append (log log' : List ServerEvent) :
    Term.lines (log ++ log') = Term.lines log ++ Term.lines log' := List.filterMap_append ..

lemma Inv.accept (h : s.Inv inherited console) (hsel : sel.listener) :
    ∃ s', s.accept sel = .ok s' ∧ s'.Inv inherited console ∧ s.Keeps s.listenerFd s' := by
  obtain ⟨slots, htable, hlog⟩ := h.table
  rw [Server.accept, if_neg (not_not.2 htable.listener), if_neg (not_not.2 hsel)]
  by_cases haccepts : sel.accepts
  · rw [if_neg (not_not.2 haccepts)]
    have hkeeps {fd : ℕ} (hfd : s.descriptors[fd]? ≠ none) : fd ≠ lowest s.descriptors := by
      rintro rfl
      exact hfd (getElem?_lowest s.descriptors)
    by_cases hfree : none ∈ slots
    · obtain ⟨slots', clientFds, htake, hperm, htable'⟩ := htable.insert hfree s.accepted
      have hlength : (slots.reduceOption.map Prod.snd).length < maxClients := by
        rw [List.length_map, ← htable.length, List.reduceOption_length_lt_iff]
        exact hfree
      dsimp only
      rw [htake]
      refine ⟨_, rfl,
        ⟨⟨slots', htable' _ _, (hlog.connected hlength).perm ?_⟩, h.typed.congr rfl ?_⟩,
        rfl, fun fd _ hfd => Heap.getElem?_insert_of_ne _ (hkeeps hfd) _⟩
      · exact (hperm.map Prod.snd).symm
      · exact (lines_append ..).trans (List.append_nil _)
    · have hlength : slots.reduceOption.length = maxClients := by
        rw [← htable.length, List.reduceOption_length_eq_iff]
        intro slot hslot
        cases slot with
        | none => exact absurd hslot hfree
        | some p => rfl
      have htake : takeSlot (lowest s.descriptors) s.clientFds = none := by
        refine takeSlot_eq_none (fun hmem => hfree ?_) _
        rw [htable.clientFds, List.mem_map] at hmem
        obtain ⟨slot, hslot, hnone⟩ := hmem
        rwa [Option.map_eq_none_iff.1 hnone] at hslot
      dsimp only
      rw [htake]
      refine ⟨_, rfl, ⟨⟨slots, htable.refuse _ _ _, hlog.refused ?_⟩, h.typed.congr rfl ?_⟩, rfl,
        fun fd _ hfd => ?_⟩
      · rw [List.length_map, hlength]
      · exact (lines_append ..).trans (List.append_nil _)
      · exact (Heap.getElem?_erase_of_ne _ (hkeeps hfd)).trans
          (Heap.getElem?_insert_of_ne _ (hkeeps hfd) _)
  · rw [if_pos haccepts]
    exact ⟨s, rfl, h, rfl, fun _ _ _ => rfl⟩

lemma ok_bind {α β : Type} (a : α) (f : α → Except Fault β) : (Except.ok a >>= f) = f a := rfl

section Goes

variable {raises raises' : ℕ → Prop} {P Q : Server → Prop} {x : Except Fault Server}

lemma Goes.bind {f : Server → Except Fault Server} (hx : Goes console raises P x)
    (hf : ∀ s, P s → Goes console raises Q (f s)) : Goes console raises Q (x >>= f) := by
  cases x with
  | ok s => exact hf s hx
  | error fault =>
    cases fault with
    | sigpipe c s => exact hx
    | _ => exact hx.elim

lemma Goes.imp (hx : Goes console raises P x) (hraises : ∀ c, raises c → raises' c)
    (hP : ∀ s, P s → Q s) : Goes console raises' Q x := by
  cases x with
  | ok s => exact hP s hx
  | error fault =>
    cases fault with
    | sigpipe c s => exact ⟨hraises c hx.1, hx.2⟩
    | _ => exact hx.elim

end Goes

/-- A text is sent to the clients in the order of the slots, up to one for which the signal
comes. -/
lemma foldlM_sendTo (sel : Selected) (text : CStr) (slots : List (Option (ℕ × ℕ)))
    (h : ∀ p ∈ slots.reduceOption, s.descriptors[p.1]? = some (.connection p.2)) :
    (slots.map (Option.map Prod.fst)).foldlM (sendTo sel text) s = .ok { s with
        log := s.log ++ sends sel text (slots.reduceOption.map Prod.snd) } ∨
      ∃ ps₁ p ps₂, slots.reduceOption = ps₁ ++ p :: ps₂ ∧ sel.send p.2 = .sigpipe ∧
        (slots.map (Option.map Prod.fst)).foldlM (sendTo sel text) s = .error (.sigpipe p.2
          { s with log := s.log ++ sends sel text (ps₁.map Prod.snd) }) := by
  induction slots generalizing s with
  | nil =>
    refine .inl ?_
    simp only [List.reduceOption_nil, List.map_nil, sends, List.append_nil]
    rfl
  | cons slot slots ih =>
    cases slot with
    | none => exact ih h
    | some p =>
      rw [List.reduceOption_cons_of_some] at h ⊢
      have hconnection := connection_eq (h p List.mem_cons_self)
      rw [List.map_cons, Option.map_some, List.foldlM_cons, sendTo, hconnection, ok_bind]
      by_cases hsend : sel.send p.2 = .sigpipe
      · refine .inr ⟨[], p, slots.reduceOption, rfl, hsend, ?_⟩
        rw [if_pos hsend, List.map_nil, sends, List.map_nil, List.append_nil]
        rfl
      · have hrest := ih (s := { s with log := s.log ++ [.send p.2 text (sel.send p.2).result] })
          fun p hp => h p (List.mem_cons_of_mem _ hp)
        rw [if_neg hsend]
        rcases hrest with hok | ⟨ps₁, p', ps₂, hps, hp', herror⟩
        · refine .inl (hok.trans ?_)
          rw [List.append_assoc]
          rfl
        · refine .inr ⟨p :: ps₁, p', ps₂, congrArg (p :: ·) hps, hp', herror.trans ?_⟩
          rw [List.append_assoc]
          rfl

lemma Inv.readConsole (h : s.Inv inherited console) (sel : Selected) :
    Goes console (sel.send · = .sigpipe)
      (fun s' => s'.Inv inherited console ∧ s.Keeps stdinFileno s') (s.readConsole sel) := by
  obtain ⟨slots, htable, hlog⟩ := h.table
  rw [Server.readConsole]
  cases hread : fgets s.console with
  | none => exact ⟨h, rfl, fun _ _ _ => rfl⟩
  | some r =>
    obtain ⟨r, rest⟩ := r
    dsimp only
    have hlines (conns : List ℕ) : Term.lines (s.log ++ .line (lineText r) ::
        sends sel (lineText r) conns) = Term.lines s.log ++ [lineText r] :=
      filterMap_line _ (fun _ _ _ => rfl) _
    have hsend := foldlM_sendTo
      (s := { s with console := rest, log := s.log ++ [.line (lineText r)] })
      sel (lineText r) slots htable.connection
    rw [← htable.clientFds] at hsend
    simp only [List.append_assoc, List.cons_append, List.nil_append] at hsend
    rcases hsend with hok | ⟨ps₁, p, ps₂, hps, hp, herror⟩
    · rw [hok]
      exact ⟨⟨⟨slots, { htable with }, hlog.said (lineText r)⟩,
        h.typed.line hread rfl (hlines _)⟩, rfl, fun _ _ _ => rfl⟩
    · rw [herror]
      have hsplit : slots.reduceOption.map Prod.snd =
          ps₁.map Prod.snd ++ p.2 :: ps₂.map Prod.snd := by
        rw [hps, List.map_append, List.map_cons]
      have hmembers := hlog.members
      rw [hsplit] at hlog hmembers
      have hevents : Term.events (s.log ++ .line (lineText r) ::
          sends sel (lineText r) (ps₁.map Prod.snd)) =
            Term.events s.log ++ [.say (lineText r)] :=
        filterMap_line _ (fun _ _ _ => rfl) _
      refine ⟨hp, h.typed.line hread rfl (hlines _), ?_, hlog.cut (lineText r)⟩
      rw [hevents, members_append]
      exact hmembers.mem_iff.1 (List.mem_append_right _ List.mem_cons_self)

lemma Inv.readClient (h : s.Inv inherited console) {fd c : ℕ}
    (hfd : s.descriptors[fd]? = some (.connection c)) (hsel : (sel.recv c).isSome) :
    ∃ s', s.readClient sel fd = .ok s' ∧ s'.Inv inherited console ∧ s.Keeps fd s' := by
  obtain ⟨slots, htable, hlog⟩ := h.table
  obtain ⟨slots', hperm, htable'⟩ := htable.erase (htable.exists_mem hfd)
  have hlog' := (hlog.perm (hperm.map Prod.snd)).disconnected
  have hgone : Inv { s with
      descriptors := s.descriptors.erase fd
      clientFds := freeSlot fd s.clientFds
      log := s.log ++ [.disconnected c] } inherited console :=
    ⟨⟨slots', htable' _, hlog'⟩, h.typed.congr rfl ((lines_append ..).trans (List.append_nil _))⟩
  have hkeeps : s.Keeps fd { s with
      descriptors := s.descriptors.erase fd
      clientFds := freeSlot fd s.clientFds
      log := s.log ++ [.disconnected c] } :=
    ⟨rfl, fun fd' hfd' _ => Heap.getElem?_erase_of_ne _ hfd'⟩
  obtain ⟨answer, hanswer⟩ := Option.isSome_iff_exists.1 hsel
  rw [Server.readClient, connection_eq hfd, ok_bind, hanswer]
  rcases answer with - | - | ⟨b, r⟩
  · exact ⟨_, rfl, hgone, hkeeps⟩
  · exact ⟨_, rfl, hgone, hkeeps⟩
  · refine ⟨_, rfl, ⟨⟨slots, { htable with }, hlog.received c _⟩, h.typed.congr rfl ?_⟩, rfl,
      fun _ _ _ => rfl⟩
    exact (lines_append ..).trans (List.append_nil _)

/-! ### Rounds -/

lemma Inv.handle (h : s.Inv inherited console) {i : ℕ}
    (hi : i = s.listenerFd ∨ i = stdinFileno ∨ ∃ c, s.descriptors[i]? = some (.connection c))
    (hsel : sel.reports s.descriptors[i]?) :
    Goes console (sel.send · = .sigpipe)
      (fun s' => s'.Inv inherited console ∧ s.Keeps i s') (handle sel s i) := by
  obtain ⟨slots, htable, -⟩ := h.table
  rw [Server.handle]
  split_ifs with hlistener hstdin
  · subst hlistener
    rw [htable.listener] at hsel
    obtain ⟨s', hs', hkeeps⟩ := h.accept hsel
    rw [hs']
    exact hkeeps
  · subst hstdin
    exact h.readConsole sel
  · obtain ⟨c, hc⟩ := (hi.resolve_left hlistener).resolve_left hstdin
    rw [hc] at hsel
    obtain ⟨s', hs', hkeeps⟩ := h.readClient hc hsel
    rw [hs']
    exact hkeeps

lemma Table.mem_masterSet (h : s.Table inherited slots) {fd : ℕ} (hfd : fd ∈ s.masterSet) :
    fd = s.listenerFd ∨ fd = stdinFileno ∨ ∃ c, s.descriptors[fd]? = some (.connection c) := by
  rw [masterSet, List.mem_cons, List.mem_cons, h.clientFds, List.reduceOption_map] at hfd
  refine hfd.imp_right (Or.imp_right fun hfd => ?_)
  obtain ⟨p, hp, rfl⟩ := List.mem_map.1 hfd
  exact ⟨p.2, h.connection p hp⟩

/-- The descriptors that were reported and are still to be looked at lead where they did when
`select` returned. -/
lemma Inv.goes_foldlM (h : s.Inv inherited console) (sel : Selected) (n : ℕ) :
    Goes console (sel.send · = .sigpipe)
      (fun t => t.Inv inherited console ∧ t.listenerFd = s.listenerFd ∧
        ∀ fd ∈ s.readFds sel, n ≤ fd → t.descriptors[fd]? = s.descriptors[fd]?)
      ((List.range n).foldlM
        (fun t i => if i ∈ s.readFds sel then t.handle sel i else .ok t) s) := by
  obtain ⟨slots, htable, -⟩ := h.table
  induction n with
  | zero => exact ⟨h, rfl, fun _ _ _ => rfl⟩
  | succ n ih =>
    rw [List.range_succ, List.foldlM_append]
    refine ih.bind ?_
    rintro t ⟨hinv, hlistener, hsame⟩
    rw [List.foldlM_cons]
    by_cases hn : n ∈ s.readFds sel
    · obtain ⟨hmaster, hreports⟩ := List.mem_filter.1 hn
      rw [← hsame n hn le_rfl] at hreports
      have hmaster' := htable.mem_masterSet hmaster
      rw [← hsame n hn le_rfl, ← hlistener] at hmaster'
      rw [if_pos hn]
      refine (hinv.handle hmaster' hreports).bind ?_
      rintro t' ⟨hinv', hlistener', hkeeps⟩
      refine ⟨hinv', hlistener'.trans hlistener, fun fd hfd hlt => ?_⟩
      have hreports' := (List.mem_filter.1 hfd).2
      rw [← hsame fd hfd (Nat.le_of_succ_le hlt)] at hreports'
      refine (hkeeps fd (Nat.ne_of_gt hlt) fun hnone => ?_).trans
        (hsame fd hfd (Nat.le_of_succ_le hlt))
      rw [hnone] at hreports'
      cases hreports'
    · rw [if_neg hn]
      exact ⟨hinv, hlistener, fun fd hfd hlt => hsame fd hfd (Nat.le_of_succ_le hlt)⟩

lemma Inv.pass (h : s.Inv inherited console) (hstdin : stdinFileno ∈ inherited)
    (hlength : inherited.length + maxClients < fdSetSize) (sel : Selected) :
    Goes console (sel.send · = .sigpipe) (·.Inv inherited console) (s.pass sel) := by
  obtain ⟨slots, htable, -⟩ := h.table
  have hopen : ∀ fd ∈ s.masterSet, s.descriptors[fd]? ≠ none := by
    intro fd hfd
    rcases htable.mem_masterSet hfd with rfl | rfl | ⟨c, hc⟩
    · rw [htable.listener]
      exact Option.some_ne_none _
    · rw [htable.inherited_eq _ hstdin]
      exact Option.some_ne_none _
    · rw [hc]
      exact Option.some_ne_none _
  have hrange : ∀ fd ∈ s.masterSet, fd < fdSetSize := by
    intro fd hfd
    rw [masterSet, List.mem_cons, List.mem_cons, htable.clientFds, List.reduceOption_map] at hfd
    rcases hfd with rfl | rfl | hfd
    · exact (htable.le _ List.mem_cons_self).trans_lt hlength
    · exact Nat.zero_lt_of_lt hlength
    · exact (htable.le fd (List.mem_cons_of_mem _ hfd)).trans_lt hlength
  rw [Server.pass, if_neg (not_not.2 hrange), if_neg (not_not.2 hopen)]
  exact (h.goes_foldlM sel (s.fdMax + 1)).imp (fun _ => id) fun _ => And.left

/-! ### Runs -/

lemma owns_inheritedDescriptors (hnodup : inherited.Nodup) :
    Linked.Owns (inheritedDescriptors inherited) inherited ∧
      ∀ fd ∈ inherited, (inheritedDescriptors inherited)[fd]? = some .inherited := by
  induction inherited with
  | nil => exact ⟨Linked.owns_empty, fun _ h => absurd h List.not_mem_nil⟩
  | cons fd fds ih =>
    obtain ⟨hfd, hnodup⟩ := List.nodup_cons.1 hnodup
    obtain ⟨howns, heq⟩ := ih hnodup
    have hnew : (inheritedDescriptors fds)[fd]? = none := by
      by_contra hne
      exact hfd ((howns.mem_iff fd).2 hne)
    refine ⟨howns.insert hnew _, List.forall_mem_cons.2 ⟨Heap.getElem?_insert_self .., ?_⟩⟩
    intro fd' hfd'
    exact (Heap.getElem?_insert_of_ne _ (ne_of_mem_of_not_mem hfd' hfd) _).trans (heq fd' hfd')

lemma inv_start (hnodup : inherited.Nodup) (console : Bytes) :
    (start inherited console).Inv inherited console := by
  obtain ⟨howns, heq⟩ := owns_inheritedDescriptors hnodup
  have hnew := getElem?_lowest (inheritedDescriptors inherited)
  have hslots : (List.replicate maxClients (none : Option (ℕ × ℕ))).reduceOption = [] :=
    List.reduceOption_replicate_none
  refine ⟨⟨List.replicate maxClients none, ⟨?_, List.length_replicate, ?_, ?_, ?_, ?_, ?_⟩, ?_⟩,
    ⟨[], rfl, rfl⟩, fun ls _ hls => ⟨ls, rfl, hls⟩⟩
  · rw [List.map_replicate]
    rfl
  · rw [hslots]
    exact howns.insert hnew _
  · exact Heap.getElem?_insert_self ..
  · intro fd hfd
    refine (Heap.getElem?_insert_of_ne _ ?_ _).trans (heq fd hfd)
    rintro rfl
    exact (howns.mem_iff _).1 hfd hnew
  · rw [hslots]
    exact fun _ h => absurd h List.not_mem_nil
  · rw [hslots]
    intro fd hfd
    obtain rfl := List.mem_singleton.1 hfd
    exact (lowest_le_length howns).trans (Nat.le_add_right _ _)
  · rw [hslots]
    exact .nil

lemma Inv.run (h : s.Inv inherited console) (hstdin : stdinFileno ∈ inherited)
    (hlength : inherited.length + maxClients < fdSetSize) (sels : List Selected) :
    Goes console (fun c => ∃ sel ∈ sels, sel.send c = .sigpipe) (·.Inv inherited console)
      (s.run sels) := by
  induction sels generalizing s with
  | nil => exact h
  | cons sel sels ih =>
    rw [Server.run, List.foldlM_cons]
    have hpass := (h.pass hstdin hlength sel).imp
      (fun c hc => (⟨sel, List.mem_cons_self, hc⟩ : ∃ sel' ∈ sel :: sels, sel'.send c = .sigpipe))
      fun _ => id
    refine hpass.bind fun t ht => (ih ht).imp ?_ fun _ => id
    rintro c ⟨sel', hmem, hc⟩
    exact ⟨sel', List.mem_cons_of_mem _ hmem, hc⟩

/-- Whatever `select` reports: the server reads only from the clients it has reported, also when the
kernel gives a closed descriptor away again, and uses no descriptor for what it does not lead to.
The descriptors that are open are those of the start, the listener and one for each slot. Each line
of the console is handed once to `send` for each client that is connected then and for nobody else,
and a client is refused only when there are `maxClients` others. Only the signal of a `send` to a
client that is connected ends the server; then the last line has not been sent to all. -/
theorem run_serves (hnodup : inherited.Nodup) (hstdin : stdinFileno ∈ inherited)
    (hlength : inherited.length + maxClients < fdSetSize) (console : Bytes)
    (sels : List Selected) :
    match (start inherited console).run sels with
    | .ok s =>
      (∀ fd, s.descriptors[fd]? ≠ none ↔
        fd ∈ inherited ∨ fd = s.listenerFd ∨ some fd ∈ s.clientFds) ∧
      s.clientFds.length = maxClients ∧ s.clientFds.reduceOption.Nodup ∧ s.Typed console ∧
      (∀ c before after, s.log = before ++ .connected c :: after →
        sentTo c s.log = lines (after.takeWhile (· ≠ .disconnected c))) ∧
      (∀ c, .connected c ∉ s.log → sentTo c s.log = []) ∧
      (∀ c, (∀ text n, .send c text n ∈ s.log → n = some text.length) →
        takenFor c s.log = sentTo c s.log) ∧
      ∀ before e after, s.log = before ++ e :: after → Admits before e
    | .error fault => ∃ c s, fault = .sigpipe c s ∧ (∃ sel ∈ sels, sel.send c = .sigpipe) ∧
      c ∈ members [] (events s.log) ∧ s.Typed console ∧
      (∀ c before after, s.log = before ++ .connected c :: after →
        ∃ rest, rest.length ≤ 1 ∧
          sentTo c s.log ++ rest = lines (after.takeWhile (· ≠ .disconnected c))) ∧
      (∀ c, .connected c ∉ s.log → sentTo c s.log = []) ∧
      ∀ before e after, s.log = before ++ e :: after → Admits before e := by
  have hrun := (inv_start hnodup console).run hstdin hlength sels
  cases hs : (start inherited console).run sels with
  | ok s =>
    rw [hs] at hrun
    obtain ⟨slots, htable, hlog⟩ := hrun.table
    have hfds : s.clientFds.reduceOption = slots.reduceOption.map Prod.fst := by
      rw [htable.clientFds, List.reduceOption_map]
    refine ⟨fun fd => ?_, ?_, ?_, hrun.typed,
      fun c before after hbefore => (hlog.sent c).trans (heard_events_eq hlog.once hbefore),
      fun c hc => (hlog.sent c).trans (heard_events_eq_nil hc), fun c => takenFor_eq,
      fun before e after => hlog.admitted.admits⟩
    · rw [← htable.owns.mem_iff, List.mem_append, List.mem_cons, ← hfds,
        List.reduceOption_mem_iff]
      tauto
    · rw [htable.clientFds, List.length_map, htable.length]
    · rw [hfds]
      exact (List.nodup_append'.1 htable.owns.nodup).1
  | error fault =>
    rw [hs] at hrun
    cases fault with
    | sigpipe c s =>
      obtain ⟨hraises, hended⟩ := hrun
      refine ⟨c, s, rfl, hraises, hended.present, hended.typed, fun c before after hbefore => ?_,
        fun c hc => ?_, fun before e after => hended.cut.admitted.admits⟩
      · rw [← heard_events_eq hended.cut.once hbefore]
        exact hended.cut.sent c
      · obtain ⟨rest, -, hsent⟩ := hended.cut.sent c
        rw [heard_events_eq_nil hc] at hsent
        exact (List.append_eq_nil_iff.1 hsent).1
    | _ => exact hrun.elim

/-- Two clients come, a line is typed, which `send` does not take for the first one; it goes and
another one comes. -/
def visits : List Selected :=
  let joins : Selected := ⟨false, true, true, fun _ => .failed, fun _ => none, nofun⟩
  let line : Selected :=
    ⟨true, false, true, fun c => if c = 0 then .failed else .sent 2, fun _ => none, nofun⟩
  let leaves : Selected :=
    ⟨false, false, true, fun _ => .failed, fun c => if c = 0 then some none else none, by
      intro c r h
      split_ifs at h
      cases h⟩
  [joins, joins, line, leaves, joins]

/-- The last one gets the descriptor of the first but no line. -/
theorem run_serves_visits : ∃ s, (start [0, 1, 2] [0x68, 0x69, 0x0A]).run visits = .ok s ∧
    sentTo 0 s.log = [[0x68, 0x69]] ∧ sentTo 1 s.log = [[0x68, 0x69]] ∧ sentTo 2 s.log = [] ∧
      takenFor 0 s.log = [] ∧ takenFor 1 s.log = [[0x68, 0x69]] := by
  have hlog : ((start [0, 1, 2] [0x68, 0x69, 0x0A]).run visits).toOption.map Server.log =
      some [.connected 0, .connected 1, .line [0x68, 0x69], .send 0 [0x68, 0x69] none,
        .send 1 [0x68, 0x69] (some 2), .disconnected 0, .connected 2] := by
    decide +kernel
  have hserves :=
    run_serves (by decide : [0, 1, 2].Nodup) (by decide) (by decide) [0x68, 0x69, 0x0A] visits
  cases hs : (start [0, 1, 2] [0x68, 0x69, 0x0A]).run visits with
  | error fault =>
    rw [hs] at hlog
    cases hlog
  | ok s =>
    rw [hs] at hlog hserves
    obtain ⟨-, -, -, -, hsent, -⟩ := hserves
    replace hlog := Option.some.inj hlog
    refine ⟨s, rfl, ?_, ?_, ?_, ?_, ?_⟩
    · exact hsent 0 [] _ hlog
    · exact hsent 1 [.connected 0] _ hlog
    · exact hsent 2 [.connected 0, .connected 1, .line [0x68, 0x69], .send 0 [0x68, 0x69] none,
        .send 1 [0x68, 0x69] (some 2), .disconnected 0] _ hlog
    · rw [hlog]
      rfl
    · rw [hlog]
      rfl

end Server

end Vjft.Term

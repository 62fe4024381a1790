import Mathlib.Data.List.Basic

/-!
# A queue that is written one entry at a time

Entries wait in a queue. A write is given the front entry, which stays in the queue until the write
has ended; then the next write begins. A write that fails is the last one.

What was given to writes, followed by the entries that wait behind the front one, is the list of all
entries that were pushed. This holds before and after a failure, and until a failure the one
outstanding write is that of the front entry.
-/

structure WriteQueue (α : Type*) where
  queue : List α
  /-- The writes that began and have not ended. -/
  writing : List α
  /-- All that was given to a write. -/
  handed : List α

namespace WriteQueue

variable {α : Type*}

def empty : WriteQueue α := ⟨[], [], []⟩

/-- Begin a write of the front entry. -/
def start (q : WriteQueue α) : WriteQueue α :=
  { q with writing := q.writing ++ q.queue.take 1, handed := q.handed ++ q.queue.take 1 }

/-- A write begins when the queue was empty. -/
def push (q : WriteQueue α) (a : α) : WriteQueue α :=
  if q.queue = [] then start { q with queue := q.queue ++ [a] }
  else { q with queue := q.queue ++ [a] }

/-- A write has ended. -/
def done (q : WriteQueue α) : WriteQueue α :=
  start { q with queue := q.queue.tail, writing := q.writing.tail }

/-- A write has failed. -/
def failed (q : WriteQueue α) : WriteQueue α := { q with writing := q.writing.tail }

/-! ### Which entries a queue carries -/

/-- The entries given to writes and the waiting ones are `pushed`. -/
def Carries (q : WriteQueue α) (pushed : List α) : Prop := q.handed ++ q.queue.tail = pushed

/-- The outstanding write is that of the front entry. -/
def Live (q : WriteQueue α) : Prop := q.writing = q.queue.take 1

/-- Nothing is outstanding, and the front entry stays where it is. -/
def Stopped (q : WriteQueue α) : Prop := q.writing = [] ∧ q.queue ≠ []

lemma carries_empty : (empty : WriteQueue α).Carries [] := rfl

lemma live_empty : (empty : WriteQueue α).Live := rfl

variable {q : WriteQueue α} {pushed : List α}

lemma push_of_eq_nil (h : q.queue = []) (a : α) :
    q.push a = ⟨[a], q.writing ++ [a], q.handed ++ [a]⟩ := by
  rw [push, if_pos h, start, h]
  rfl

lemma push_of_ne_nil (h : q.queue ≠ []) (a : α) :
    q.push a = { q with queue := q.queue ++ [a] } := if_neg h

lemma Carries.push (h : q.Carries pushed) (a : α) : (q.push a).Carries (pushed ++ [a]) := by
  rw [Carries] at h ⊢
  by_cases hq : q.queue = []
  · rw [push_of_eq_nil hq, ← h, hq]
    simp
  · rw [push_of_ne_nil hq, ← h, List.tail_append_of_ne_nil hq, List.append_assoc]

lemma Carries.done (h : q.Carries pushed) : q.done.Carries pushed := by
  rw [Carries] at h ⊢
  rw [← h, WriteQueue.done, start, List.append_assoc]
  congr 1
  cases q.queue.tail <;> rfl

lemma Carries.failed (h : q.Carries pushed) : q.failed.Carries pushed := h

lemma Live.push (h : q.Live) (a : α) : (q.push a).Live := by
  rw [Live] at h ⊢
  by_cases hq : q.queue = []
  · rw [push_of_eq_nil hq, h, hq]
    rfl
  · rw [push_of_ne_nil hq, h, List.take_append_of_le_length]
    exact List.length_pos_iff.2 hq

lemma Live.done (h : q.Live) : q.done.Live := by
  rw [Live] at h ⊢
  rw [WriteQueue.done, start, h]
  cases q.queue <;> simp

lemma Live.failed (h : q.Live) (hq : q.writing ≠ []) : q.failed.Stopped := by
  rw [Live] at h
  constructor
  · rw [WriteQueue.failed, h]
    cases q.queue <;> rfl
  · intro hnil
    apply hq
    rw [h, show q.queue = [] from hnil]
    rfl

lemma Stopped.push (h : q.Stopped) (a : α) : (q.push a).Stopped := by
  obtain ⟨hwriting, hq⟩ := h
  rw [push_of_ne_nil hq]
  exact ⟨hwriting, by simp⟩

/-- Until a failure there is an outstanding write exactly when the queue has entries. -/
lemma Live.writing_ne_nil_iff (h : q.Live) : q.writing ≠ [] ↔ q.queue ≠ [] := by
  rw [Live] at h
  rw [h, ne_eq, List.take_eq_nil_iff]
  simp

/-! ### Many entries -/

/-- Push one entry after another. -/
def pushAll (q : WriteQueue α) (as : List α) : WriteQueue α := as.foldl push q

lemma pushAll_of_ne_nil (h : q.queue ≠ []) (as : List α) :
    q.pushAll as = { q with queue := q.queue ++ as } := by
  induction as generalizing q with
  | nil => rw [List.append_nil]; rfl
  | cons a as ih =>
    have hpush : (q.push a).pushAll as = _ := ih (by simp [push_of_ne_nil h])
    rw [pushAll, List.foldl_cons, ← pushAll, hpush, push_of_ne_nil h, List.append_assoc]
    rfl

/-- The write of the first of many entries begins when the queue was empty. -/
lemma pushAll_cons_of_eq_nil (h : q.queue = []) (a : α) (as : List α) :
    q.pushAll (a :: as) = ⟨a :: as, q.writing ++ [a], q.handed ++ [a]⟩ := by
  rw [pushAll, List.foldl_cons, ← pushAll, push_of_eq_nil h, pushAll_of_ne_nil (by simp)]
  rfl

lemma Carries.pushAll (h : q.Carries pushed) (as : List α) :
    (q.pushAll as).Carries (pushed ++ as) := by
  induction as generalizing q pushed with
  | nil => rwa [List.append_nil]
  | cons a as ih =>
    have hpush := ih (h.push a)
    rwa [List.append_assoc] at hpush

lemma Live.pushAll (h : q.Live) (as : List α) : (q.pushAll as).Live := by
  induction as generalizing q with
  | nil => exact h
  | cons a as ih => exact ih (h.push a)

lemma Stopped.pushAll (h : q.Stopped) (as : List α) : (q.pushAll as).Stopped := by
  induction as generalizing q with
  | nil => exact h
  | cons a as ih => exact ih (h.push a)

/-! ### What was given to writes stays given -/

lemma handed_push_prefix (q : WriteQueue α) (a : α) : q.handed <+: (q.push a).handed := by
  rw [push]
  split_ifs
  · exact List.prefix_append _ _
  · exact List.prefix_rfl

lemma handed_pushAll_prefix (q : WriteQueue α) (as : List α) :
    q.handed <+: (q.pushAll as).handed := by
  induction as generalizing q with
  | nil => exact List.prefix_rfl
  | cons a as ih => exact (q.handed_push_prefix a).trans (ih (q.push a))

lemma handed_done_prefix (q : WriteQueue α) : q.handed <+: q.done.handed :=
  List.prefix_append _ _

end WriteQueue

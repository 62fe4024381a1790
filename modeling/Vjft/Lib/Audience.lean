import Vjft.Lib.Linked
import Mathlib.Data.List.ReduceOption
import Mathlib.Data.List.Perm.Subperm
import Mathlib.Data.Nat.Find

/-!
# An audience

Members join and leave while something is said from time to time. A member hears what is said
between the two. The members sit in slots, of which a new one takes the first that is free, and each
of them has a descriptor, which is the lowest one that is not in use.
-/

namespace Audience

/-! ### What is heard -/

variable {ι α : Type*}

inductive Turn (ι α : Type*)
  | join (i : ι)
  | leave (i : ι)
  | say (a : α)
  deriving DecidableEq

/-- All that is said. -/
def said (es : List (Turn ι α)) : List α :=
  es.filterMap fun
    | .say a => some a
    | _ => none

section Heard

variable [DecidableEq ι]

def Turn.members (present : List ι) : Turn ι α → List ι
  | join i => i :: present
  | leave i => present.erase i
  | say _ => present

/-- Those who are present after some events. -/
def members (present : List ι) (es : List (Turn ι α)) : List ι := es.foldl Turn.members present

def Turn.heard (i : ι) (present : List ι) : Turn ι α → List α
  | say a => if i ∈ present then [a] else []
  | _ => []

/-- What is said while `i` is present. -/
def heard (i : ι) : List ι → List (Turn ι α) → List α
  | _, [] => []
  | present, e :: es => e.heard i present ++ heard i (e.members present) es

variable {i : ι} {present : List ι} {es es' : List (Turn ι α)}

lemma members_append :
    members present (es ++ es') = members (members present es) es' := List.foldl_append

lemma heard_append :
    heard i present (es ++ es') = heard i present es ++ heard i (members present es) es' := by
  induction es generalizing present with
  | nil => rfl
  | cons e es ih =>
    rw [List.cons_append, heard, heard, ih, List.append_assoc]
    rfl

lemma Turn.notMem_members {e : Turn ι α} (hi : i ∉ present) (hjoin : e ≠ .join i) :
    i ∉ e.members present := by
  cases e with
  | say a => exact hi
  | join j =>
    rw [members, List.mem_cons, not_or]
    exact ⟨fun hij => hjoin (hij ▸ rfl), hi⟩
  | leave j => exact fun hmem => hi (List.mem_of_mem_erase hmem)

lemma notMem_members (hi : i ∉ present) (hjoin : .join i ∉ es) : i ∉ members present es := by
  induction es generalizing present with
  | nil => exact hi
  | cons e es ih =>
    rw [List.mem_cons, not_or] at hjoin
    exact ih (Turn.notMem_members hi (Ne.symm hjoin.1)) hjoin.2

/-- Nothing is heard by one who does not join. -/
lemma heard_of_notMem (hi : i ∉ present) (hjoin : .join i ∉ es) : heard i present es = [] := by
  induction es generalizing present with
  | nil => rfl
  | cons e es ih =>
    rw [List.mem_cons, not_or] at hjoin
    rw [heard, ih (Turn.notMem_members hi (Ne.symm hjoin.1)) hjoin.2, List.append_nil]
    cases e with
    | say a => exact if_neg hi
    | join j => rfl
    | leave j => rfl

/-- One who is present hears everything until it leaves. -/
lemma heard_of_mem [DecidableEq α] (hi : present.count i = 1) (hjoin : .join i ∉ es) :
    heard i present es = said (es.takeWhile (· ≠ .leave i)) := by
  have hmem : i ∈ present := List.count_pos_iff.1 (hi ▸ Nat.one_pos)
  induction es generalizing present with
  | nil => rfl
  | cons e es ih =>
    rw [List.mem_cons, not_or] at hjoin
    rw [List.takeWhile_cons, heard]
    cases e with
    | say a =>
      rw [if_pos (by simp)]
      exact (congrArg₂ (· ++ ·) (if_pos hmem) (ih hi hjoin.2 hmem))
    | join j =>
      have hij : j ≠ i := fun hij => hjoin.1 (hij ▸ rfl)
      rw [if_pos (by simp)]
      refine ih ?_ hjoin.2 (List.mem_cons_of_mem _ hmem)
      rw [Turn.members, List.count_cons_of_ne hij, hi]
    | leave j =>
      by_cases hij : j = i
      · subst hij
        rw [if_neg (by simp)]
        refine heard_of_notMem ?_ hjoin.2
        rw [Turn.members, ← List.count_eq_zero, List.count_erase_self, hi]
      · rw [if_pos (by simpa using hij)]
        refine ih ?_ hjoin.2 ((List.mem_erase_of_ne (Ne.symm hij)).2 hmem)
        rw [Turn.members, List.count_erase_of_ne (Ne.symm hij), hi]

/-- Who joins once hears what is said after that, until it leaves. -/
lemma heard_eq [DecidableEq α] (hjoin : .join i ∉ es) (hjoin' : .join i ∉ es') :
    heard i [] (es ++ .join i :: es') = said (es'.takeWhile (· ≠ .leave i)) := by
  have hi : i ∉ members [] es := notMem_members List.not_mem_nil hjoin
  rw [heard_append, heard_of_notMem List.not_mem_nil hjoin, heard]
  refine heard_of_mem ?_ hjoin'
  change (i :: members [] es).count i = 1
  rw [List.count_cons_self, List.count_eq_zero.2 hi]

end Heard

/-! ### Slots -/

section Slots

variable {slots : List (Option α)}

/-- The first free slot is taken, if there is one. -/
def takeSlot (a : α) : List (Option α) → Option (List (Option α))
  | [] => none
  | none :: slots => some (some a :: slots)
  | some b :: slots => (takeSlot a slots).map (some b :: ·)

/-- The slot of `a` becomes free. -/
def freeSlot [DecidableEq α] (a : α) : List (Option α) → List (Option α)
  | [] => []
  | none :: slots => none :: freeSlot a slots
  | some b :: slots => if b = a then none :: slots else some b :: freeSlot a slots

variable {β : Type*} {slots : List (Option α)}

lemma takeSlot_eq_none (h : none ∉ slots) (a : α) : takeSlot a slots = none := by
  induction slots with
  | nil => rfl
  | cons slot slots ih =>
    rw [List.mem_cons, not_or] at h
    cases slot with
    | none => exact absurd rfl h.1
    | some b => rw [takeSlot, ih h.2, Option.map_none]

lemma exists_takeSlot_eq (f : α → β) (h : none ∈ slots) (a : α) :
    ∃ slots' : List (Option α),
      takeSlot (f a) (slots.map (Option.map f)) = some (slots'.map (Option.map f)) ∧
      slots'.length = slots.length ∧ slots'.reduceOption.Perm (a :: slots.reduceOption) := by
  induction slots with
  | nil => cases h
  | cons slot slots ih =>
    cases slot with
    | none => exact ⟨some a :: slots, rfl, rfl, .refl _⟩
    | some b =>
      obtain ⟨slots', hslots', hlength, hperm⟩ := ih (List.mem_of_ne_of_mem (by simp) h)
      refine ⟨some b :: slots', ?_, congrArg (· + 1) hlength, ?_⟩
      · rw [List.map_cons, Option.map_some, takeSlot, hslots']
        rfl
      · rw [List.reduceOption_cons_of_some, List.reduceOption_cons_of_some]
        exact (hperm.cons b).trans (.swap a b _)

lemma exists_freeSlot_eq [DecidableEq β] {f : α → β} {a : α} (h : some a ∈ slots)
    (hnodup : (slots.reduceOption.map f).Nodup) :
    ∃ slots' : List (Option α),
      freeSlot (f a) (slots.map (Option.map f)) = slots'.map (Option.map f) ∧
      slots'.length = slots.length ∧ slots.reduceOption.Perm (a :: slots'.reduceOption) := by
  induction slots with
  | nil => cases h
  | cons slot slots ih =>
    cases slot with
    | none =>
      obtain ⟨slots', hslots', hlength, hperm⟩ := ih (List.mem_of_ne_of_mem (by simp) h) hnodup
      refine ⟨none :: slots', ?_, congrArg (· + 1) hlength, hperm⟩
      rw [List.map_cons, Option.map_none, freeSlot, hslots']
      rfl
    | some b =>
      rw [List.reduceOption_cons_of_some, List.map_cons, List.nodup_cons] at hnodup
      rw [List.map_cons, Option.map_some, freeSlot]
      rcases List.mem_cons.1 h with hab | h
      · obtain rfl := Option.some.inj hab
        rw [if_pos rfl]
        exact ⟨none :: slots, rfl, rfl, .refl _⟩
      · have hne : f b ≠ f a := fun hab => hnodup.1 (hab ▸ List.mem_map_of_mem
          (List.reduceOption_mem_iff.2 h))
        obtain ⟨slots', hslots', hlength, hperm⟩ := ih h hnodup.2
        refine ⟨some b :: slots', ?_, congrArg (· + 1) hlength, ?_⟩
        · rw [if_neg hne, hslots']
          rfl
        · rw [List.reduceOption_cons_of_some, List.reduceOption_cons_of_some]
          exact (hperm.cons b).trans (.swap a b _)

end Slots

/-! ### Descriptors -/

section Lowest

variable {N : Type*} {heap : Heap N} {owned : List ℕ}

lemma exists_free (heap : Heap N) : ∃ a : ℕ, heap[a]? = none :=
  ⟨Linked.above heap, Linked.getElem?_above heap⟩

/-- The lowest address without a node. -/
def lowest [DecidableEq N] (heap : Heap N) : ℕ := Nat.find (exists_free heap)

variable [DecidableEq N]

lemma getElem?_lowest (heap : Heap N) : heap[lowest heap]? = none :=
  Nat.find_spec (exists_free heap)

lemma lowest_le_length (h : Linked.Owns heap owned) : lowest heap ≤ owned.length := by
  have hsub : List.range (lowest heap) ⊆ owned := by
    intro a ha
    rw [h.mem_iff]
    exact Nat.find_min (exists_free heap) (List.mem_range.1 ha)
  have hlength := (List.nodup_range.subperm hsub).length_le
  rwa [List.length_range] at hlength

end Lowest

end Audience

import Mathlib.Data.List.Nodup
import Mathlib.Data.List.Perm.Subperm

/-!
# Objects with one owner

A ledger lists the objects that are owned at a moment, those that were freed, and how many were
made so far. It is in order when no object is listed twice, so that no object has two owners, none
is freed twice and none is owned after it was freed.
-/

/-- Objects are named by numbers in the order in which they are made. -/
structure Ledger where
  owned : List ℕ
  freed : List ℕ
  created : ℕ

namespace Ledger

/-- No object is listed twice, and only objects that were made are listed. -/
structure Ok (l : Ledger) : Prop where
  nodup : (l.owned ++ l.freed).Nodup
  lt_created : ∀ id ∈ l.owned ++ l.freed, id < l.created

variable {owned owned' freed xs : List ℕ} {created : ℕ}

lemma ok_empty : Ok ⟨[], [], created⟩ := ⟨List.nodup_nil, by simp⟩

/-- Owners may change, and objects may be lost. -/
lemma Ok.subperm (h : Ok ⟨owned, freed, created⟩) (hsub : owned'.Subperm owned) :
    Ok ⟨owned', freed, created⟩ := by
  obtain ⟨l, hperm, hl⟩ := hsub.append (List.Subperm.refl freed)
  constructor
  · exact hperm.nodup_iff.mp (h.nodup.sublist hl)
  · intro id hid
    exact h.lt_created id (hl.subset (hperm.mem_iff.mpr hid))

lemma Ok.perm (h : Ok ⟨owned, freed, created⟩) (hperm : owned'.Perm owned) :
    Ok ⟨owned', freed, created⟩ := h.subperm hperm.subperm

/-- An object is made. -/
lemma Ok.create (h : Ok ⟨owned, freed, created⟩) : Ok ⟨created :: owned, freed, created + 1⟩ := by
  constructor
  · refine List.nodup_cons.mpr ⟨?_, h.nodup⟩
    intro hmem
    exact Nat.lt_irrefl _ (h.lt_created _ hmem)
  · intro id hid
    rcases List.mem_cons.mp hid with rfl | hid
    · exact Nat.lt_succ_self _
    · exact Nat.lt_succ_of_lt (h.lt_created id hid)

/-- Owned objects are freed one after the other. -/
lemma Ok.free (h : Ok ⟨xs ++ owned, freed, created⟩) :
    Ok ⟨owned, xs.reverse ++ freed, created⟩ := by
  have hperm : (owned ++ (xs.reverse ++ freed)).Perm (xs ++ owned ++ freed) := by
    rw [← List.append_assoc]
    apply List.Perm.append_right
    exact List.perm_append_comm.trans ((List.reverse_perm xs).append_right owned)
  constructor
  · exact hperm.nodup_iff.mpr h.nodup
  · intro id hid
    exact h.lt_created id (hperm.mem_iff.mp hid)

lemma Ok.nodup_owned (h : Ok ⟨owned, freed, created⟩) : owned.Nodup :=
  (List.nodup_append.mp h.nodup).1

lemma Ok.nodup_freed (h : Ok ⟨owned, freed, created⟩) : freed.Nodup :=
  (List.nodup_append.mp h.nodup).2.1

lemma Ok.notMem_freed (h : Ok ⟨owned, freed, created⟩) {id : ℕ} (hid : id ∈ owned) :
    id ∉ freed := fun hfreed => (List.nodup_append.mp h.nodup).2.2 id hid id hfreed rfl

end Ledger

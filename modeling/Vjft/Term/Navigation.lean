import Vjft.Term.Utf8
import Mathlib.Data.Nat.Find
import Mathlib.Data.Set.Function
import Mathlib.Order.Bounds.Basic
import Mathlib.Order.Interval.Set.Basic

/-!
# Moving over UTF-8 strings (`term/utf8.c`)

Offsets in bytes and indices of characters tell the same places of a well-formed text, and the steps
to the next and to the previous character lead from one of these places to the one beside it.
-/

namespace Vjft.Term

/-- A place between two characters, or at an end: what is in front of it is a text. -/
def IsBoundary (str : CStr) (b : ℕ) : Prop := b ≤ str.length ∧ ∃ ds, str.take b = utf8.encode ds

/-- The character boundaries of a string. -/
def boundaries (str : CStr) : Set ℕ := {b | IsBoundary str b}

variable {cs : List CodePoint}

lemma mem_boundaries_iff {b : ℕ} :
    b ∈ boundaries (utf8.encode cs) ↔ ∃ i ≤ cs.length, utf8.offset cs i = b := by
  constructor
  · rintro ⟨hle, htake⟩
    exact (Utf8.isPrefixFree.exists_take_eq_iff hle).mp htake
  · rintro ⟨i, hi, rfl⟩
    exact ⟨utf8.offset_le cs i, _, utf8.take_offset cs i⟩

lemma offset_mem_boundaries {i : ℕ} (hi : i ≤ cs.length) :
    utf8.offset cs i ∈ boundaries (utf8.encode cs) := mem_boundaries_iff.mpr ⟨i, hi, rfl⟩

/-! ### Offsets and indices -/

lemma strictMonoOn_offset : StrictMonoOn (utf8.offset cs) (Set.Iic cs.length) := by
  intro i _ j hj hij
  exact utf8.offset_lt hij (hij.trans_le hj)

lemma exists_first_offset {b : ℕ} (hb : b ≤ (utf8.encode cs).length) :
    ∃ i ≤ cs.length, (∀ j < i, utf8.offset cs j < b) ∧ b ≤ utf8.offset cs i := by
  have hex : ∃ i, b ≤ utf8.offset cs i := ⟨cs.length, by rwa [utf8.offset_length]⟩
  refine ⟨Nat.find hex, ?_, fun j hj => not_le.mp (Nat.find_min hex hj), Nat.find_spec hex⟩
  exact Nat.find_min' hex (by rwa [utf8.offset_length])

lemma isLeast_utf8CharIndex {b : ℕ} (hb : b ≤ (utf8.encode cs).length) :
    IsLeast {i : ℕ | b ≤ utf8ByteOffset (utf8.encode cs) i} (utf8CharIndex (utf8.encode cs) b) := by
  obtain ⟨i, hi, hlt, hle⟩ := exists_first_offset hb
  rw [utf8CharIndex_eq hi hlt hle]
  simp only [utf8ByteOffset_encode, Int.toNat_natCast]
  refine ⟨hle, ?_⟩
  intro j hj
  by_contra hji
  exact absurd hj (not_le.mpr (hlt j (not_le.mp hji)))

lemma bijOn_offset :
    Set.BijOn (utf8.offset cs) (Set.Iic cs.length) (boundaries (utf8.encode cs)) := by
  refine ⟨fun i hi => offset_mem_boundaries hi, strictMonoOn_offset.injOn, ?_⟩
  intro b hb
  exact mem_boundaries_iff.mp hb

lemma invOn_utf8CharIndex :
    Set.InvOn (utf8CharIndex (utf8.encode cs)) (utf8.offset cs) (Set.Iic cs.length)
      (boundaries (utf8.encode cs)) := by
  refine ⟨fun i hi => utf8CharIndex_offset hi, ?_⟩
  intro b hb
  obtain ⟨i, hi, rfl⟩ := mem_boundaries_iff.mp hb
  rw [utf8CharIndex_offset hi]

lemma mapsTo_utf8CharIndex :
    Set.MapsTo (utf8CharIndex (utf8.encode cs)) (boundaries (utf8.encode cs))
      (Set.Iic cs.length) := by
  intro b hb
  obtain ⟨i, hi, rfl⟩ := mem_boundaries_iff.mp hb
  rwa [utf8CharIndex_offset hi]

lemma strictMonoOn_utf8CharIndex :
    StrictMonoOn (utf8CharIndex (utf8.encode cs)) (boundaries (utf8.encode cs)) := by
  intro b hb b' hb' hlt
  obtain ⟨i, hi, rfl⟩ := mem_boundaries_iff.mp hb
  obtain ⟨j, hj, rfl⟩ := mem_boundaries_iff.mp hb'
  rw [utf8CharIndex_offset hi, utf8CharIndex_offset hj]
  exact (strictMonoOn_offset.lt_iff_lt hi hj).mp hlt

/-! ### Steps -/

/-- The next boundary is the first one behind, and the step back returns. -/
lemma utf8NextChar_spec {b : ℕ} (hb : b ∈ boundaries (utf8.encode cs))
    (hne : b ≠ (utf8.encode cs).length) :
    IsLeast {b' ∈ boundaries (utf8.encode cs) | b < b'} (utf8NextChar (utf8.encode cs) b) ∧
      utf8PrevChar (utf8.encode cs) (utf8NextChar (utf8.encode cs) b) = b := by
  obtain ⟨i, hi, rfl⟩ := mem_boundaries_iff.mp hb
  have hlt : i < cs.length := by
    refine hi.lt_of_ne ?_
    rintro rfl
    exact hne (utf8.offset_length cs)
  rw [utf8NextChar_offset hlt]
  refine ⟨⟨⟨offset_mem_boundaries hlt, utf8.offset_lt_succ hlt⟩, ?_⟩, utf8PrevChar_offset_succ hlt⟩
  rintro b' ⟨hb', hbb'⟩
  obtain ⟨j, hj, rfl⟩ := mem_boundaries_iff.mp hb'
  have hij := (strictMonoOn_offset.lt_iff_lt hi hj).mp hbb'
  exact utf8.offset_mono cs hij

/-- The previous boundary is the last one in front, and the step forward returns. -/
lemma utf8PrevChar_spec {b : ℕ} (hb : b ∈ boundaries (utf8.encode cs)) (hne : b ≠ 0) :
    IsGreatest {b' ∈ boundaries (utf8.encode cs) | b' < b} (utf8PrevChar (utf8.encode cs) b) ∧
      utf8NextChar (utf8.encode cs) (utf8PrevChar (utf8.encode cs) b) = b := by
  obtain ⟨i, hi, rfl⟩ := mem_boundaries_iff.mp hb
  cases i with
  | zero => exact absurd (utf8.offset_zero cs) hne
  | succ i =>
    have hlt : i < cs.length := hi
    rw [utf8PrevChar_offset_succ hlt]
    refine ⟨⟨⟨offset_mem_boundaries hlt.le, utf8.offset_lt_succ hlt⟩, ?_⟩, utf8NextChar_offset hlt⟩
    rintro b' ⟨hb', hbb'⟩
    obtain ⟨j, hj, rfl⟩ := mem_boundaries_iff.mp hb'
    have hji := (strictMonoOn_offset.lt_iff_lt hj hi).mp hbb'
    exact utf8.offset_mono cs (Nat.le_of_lt_succ hji)

/-- The functions that move over a well-formed text agree. -/
theorem utf8_navigation (cs : List CodePoint) :
    (Set.BijOn (fun i : ℕ => utf8ByteOffset (utf8.encode cs) i)
        (Set.Iic (utf8Strlen (utf8.encode cs))) (boundaries (utf8.encode cs)) ∧
      StrictMonoOn (fun i : ℕ => utf8ByteOffset (utf8.encode cs) i)
        (Set.Iic (utf8Strlen (utf8.encode cs))) ∧
      Set.BijOn (utf8CharIndex (utf8.encode cs)) (boundaries (utf8.encode cs))
        (Set.Iic (utf8Strlen (utf8.encode cs))) ∧
      StrictMonoOn (utf8CharIndex (utf8.encode cs)) (boundaries (utf8.encode cs)) ∧
      Set.InvOn (utf8CharIndex (utf8.encode cs)) (fun i : ℕ => utf8ByteOffset (utf8.encode cs) i)
        (Set.Iic (utf8Strlen (utf8.encode cs))) (boundaries (utf8.encode cs))) ∧
    (∀ b ≤ (utf8.encode cs).length,
      IsLeast {i : ℕ | b ≤ utf8ByteOffset (utf8.encode cs) i}
        (utf8CharIndex (utf8.encode cs) b)) ∧
    (∀ b ∈ boundaries (utf8.encode cs), b ≠ (utf8.encode cs).length →
      IsLeast {b' ∈ boundaries (utf8.encode cs) | b < b'} (utf8NextChar (utf8.encode cs) b) ∧
        utf8PrevChar (utf8.encode cs) (utf8NextChar (utf8.encode cs) b) = b) ∧
    (∀ b ∈ boundaries (utf8.encode cs), b ≠ 0 →
      IsGreatest {b' ∈ boundaries (utf8.encode cs) | b' < b} (utf8PrevChar (utf8.encode cs) b) ∧
        utf8NextChar (utf8.encode cs) (utf8PrevChar (utf8.encode cs) b) = b) ∧
    utf8NextChar (utf8.encode cs) (utf8.encode cs).length = (utf8.encode cs).length ∧
    utf8PrevChar (utf8.encode cs) 0 = 0 := by
  have hoffset : (fun i : ℕ => utf8ByteOffset (utf8.encode cs) i) = utf8.offset cs := by
    funext i
    rw [utf8ByteOffset_encode, Int.toNat_natCast]
  rw [utf8Strlen_encode, hoffset]
  refine ⟨⟨bijOn_offset, strictMonoOn_offset, ?_, strictMonoOn_utf8CharIndex,
    invOn_utf8CharIndex⟩, fun b => isLeast_utf8CharIndex, fun b => utf8NextChar_spec,
    fun b => utf8PrevChar_spec, ?_, rfl⟩
  · exact invOn_utf8CharIndex.symm.bijOn mapsTo_utf8CharIndex bijOn_offset.mapsTo
  · rw [utf8NextChar, if_pos (byteAt_of_length_le le_rfl)]

end Vjft.Term

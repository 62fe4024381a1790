import Vjft.Term.Event.Basic
import Vjft.Term.Iface
import Mathlib.Data.List.TakeWhile

/-!
# Messages from the network (`term/main.c`)

The main loop of the program stores what each `read` from the socket brings as a text of its own.
The texts may hold any bytes, and the walkers over a text trust the lengths that the bytes announce.
They stay inside of the text as long as no character is cut off by its end.
-/

namespace Vjft.Term

def maxBuffer : ℕ := 1024

/-- The bytes of the socket as the calls of `read` hand them out. The buffer keeps a byte for the
terminator. -/
structure Reads (stream : Bytes) where
  reads : List Bytes
  flatten_eq : reads.flatten = stream
  ne_nil : ∀ r ∈ reads, r ≠ []
  length_le : ∀ r ∈ reads, r.length ≤ maxBuffer - 1

/-- What the main loop does after a `read` of some bytes: it puts `'\0'` behind them and pushes a
copy of the string that the buffer holds then. -/
def networkRead (s : Editor) (r : Bytes) : Except Stop Editor := do
  let text ← cString (r ++ [0])
  pure (pushMessage s text)

def networkReads (s : Editor) (reads : List Bytes) : Except Stop Editor :=
  reads.foldlM networkRead s

/-- The bytes of a read up to its first NUL. -/
def textOf (r : Bytes) : CStr := r.takeWhile (· ≠ 0)

/-- The loops over a text look at the text and its terminator only. -/
structure ReadsInside (str : CStr) : Prop where
  strlen : InMemory.utf8Strlen str.toMemory ≠ .error .outOfBounds
  byteOffset : ∀ cursorPos, InMemory.utf8ByteOffset str.toMemory cursorPos ≠ .error .outOfBounds
  charIndex : ∀ byteOffset, InMemory.utf8CharIndex str.toMemory byteOffset ≠ .error .outOfBounds
  displaySize : ∀ maxWidth cursorPos,
    calcDisplaySize str.toMemory maxWidth cursorPos ≠ .error .outOfBounds

/-! ### What is stored -/

lemma zero_notMem_textOf (r : Bytes) : 0 ∉ textOf r := by
  intro h
  have h0 := List.mem_takeWhile_imp h
  exact absurd h0 (by decide)

/-- The terminator that the program adds ends the string where there is no other NUL. -/
lemma cString_append_zero (r : Bytes) : cString (r ++ [0]) = .ok (textOf r) := by
  rw [cString, if_pos (by simp), textOf]
  congr 1
  induction r with
  | nil => rfl
  | cons b r ih =>
    rw [List.cons_append, List.takeWhile_cons, List.takeWhile_cons, ih]

lemma networkRead_eq (s : Editor) (r : Bytes) :
    networkRead s r = .ok (pushMessage s (textOf r)) := by
  rw [networkRead, cString_append_zero]
  rfl

lemma networkReads_eq (s : Editor) (reads : List Bytes) :
    networkReads s reads =
      .ok { s with messages := (reads.map textOf).reverse ++ s.messages } := by
  induction reads generalizing s with
  | nil => rfl
  | cons r reads ih =>
    rw [networkReads, List.foldlM_cons, networkRead_eq, ok_bind]
    refine (ih _).trans ?_
    simp [pushMessage]

/-! ### What is read -/

/-- A round of the loop looks at one character and goes on behind it. -/
lemma exists_loop_eq {str : CStr} (maxWidth cursorPos : ℤ) (n : ℕ) {curPos : ℕ} {m : Measure}
    (hpos : m.bytePos ≤ str.length) (hrest : Completes 0 (str.drop m.bytePos)) :
    ∃ m', calcDisplaySize.loop str.toMemory maxWidth cursorPos n curPos m = .ok m' := by
  induction n generalizing curPos m with
  | zero => exact ⟨m, rfl⟩
  | succ n ih =>
    have hbyte := InMemory.readByte_toMemory hpos
    by_cases hb : byteAt str m.bytePos = 0
    · rw [hb] at hbyte
      rw [calcDisplaySize.loop_succ hbyte (codepointAt_of_byteAt_eq_zero hpos hb)]
      exact ⟨_, if_pos rfl⟩
    · obtain ⟨hnext, hrest⟩ := InMemory.completes_next hrest hb
      obtain ⟨codepoint, hcode⟩ := exists_codepointAt_eq (Nat.le_succ_of_le hnext)
      rw [calcDisplaySize.loop_succ hbyte hcode]
      split_ifs with h0
      · exact ⟨_, rfl⟩
      · exact ih hnext hrest

/-- Measuring a text of complete characters does not leave it. -/
lemma exists_calcDisplaySize_eq {str : CStr} (hstr : Completes 0 str) (maxWidth cursorPos : ℤ) :
    ∃ size, calcDisplaySize str.toMemory maxWidth cursorPos = .ok size := by
  obtain ⟨m, hm⟩ := exists_loop_eq maxWidth cursorPos (Term.utf8Strlen str + 1)
    (show (⟨0, 1, 0, 0, none⟩ : Measure).bytePos ≤ str.length from Nat.zero_le _) hstr
  rw [calcDisplaySize, InMemory.utf8Strlen_of_completes hstr, ok_bind, hm, ok_bind]
  exact ⟨_, rfl⟩

/-- The loops stay inside of a text exactly when all its characters are complete. -/
lemma readsInside_iff {str : CStr} (hnul : 0 ∉ str) : ReadsInside str ↔ Completes 0 str := by
  constructor
  · intro h
    exact InMemory.completes_of_utf8Strlen hnul h.strlen
  · intro hstr
    constructor
    · rw [InMemory.utf8Strlen_of_completes hstr]
      exact nofun
    · intro cursorPos
      rw [InMemory.utf8ByteOffset_of_completes hstr]
      exact nofun
    · intro byteOffset
      rw [InMemory.utf8CharIndex_of_completes hstr]
      exact nofun
    · intro maxWidth cursorPos
      obtain ⟨size, hsize⟩ := exists_calcDisplaySize_eq hstr maxWidth cursorPos
      rw [hsize]
      exact nofun

/-- However the bytes of the socket are read, the loops stay inside of the texts that are stored
exactly when no read, up to its first NUL, cuts a character off. -/
theorem networkReads_readsInside_iff (s : Editor) (stream : Bytes) (r : Reads stream) :
    ∃ s' texts, networkReads s r.reads = .ok s' ∧ s'.messages = texts ++ s.messages ∧
      texts.length = r.reads.length ∧
      ((∀ text ∈ texts, ReadsInside text) ↔ ∀ bytes ∈ r.reads, Completes 0 (textOf bytes)) := by
  refine ⟨_, _, networkReads_eq s r.reads, rfl, ?_, ?_⟩
  · rw [List.length_reverse, List.length_map]
  · simp only [List.mem_reverse, List.mem_map, forall_exists_index, and_imp,
      forall_apply_eq_imp_iff₂, readsInside_iff (zero_notMem_textOf _)]

/-- The two bytes of a character as two reads: the walk over the first text passes its end. -/
theorem networkReads_cut :
    ∃ (r : Reads [0xD0, 0xB6]) (s s' : Editor), networkReads s r.reads = .ok s' ∧
      ∃ text ∈ s'.messages, ¬ ReadsInside text := by
  let r : Reads [0xD0, 0xB6] := ⟨[[0xD0], [0xB6]], rfl, by decide, by decide⟩
  let s : Editor := ⟨⟨[], 0, -1⟩, [], [], [], -1, [], ⟨0, 0⟩, 0, []⟩
  refine ⟨r, s, _, networkReads_eq s r.reads, [0xD0], ?_, ?_⟩
  · decide
  · rw [readsInside_iff (by decide)]
    decide

end Vjft.Term

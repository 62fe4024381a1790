import Vjft.Term.Event.Runs

/-!
# Runs of deletions

Each further `cmd_backspace` puts the bytes that it has deleted in front of those that the `Action`
holds. The overlapping copy that makes room for them repeats the bytes at the front of the old ones,
so that these survive only where they repeat by themselves. All of this is about a `realloc` that
extends blocks in place.
-/

namespace Vjft.Term

open EditingCmd

/-! ### The overlapping copy -/

lemma length_strncpyWithin (buf : List UInt8) (d s n : ℕ) :
    (strncpyWithin buf d s n).length = buf.length := by
  induction n with
  | zero => rfl
  | succ n ih =>
    rw [strncpyWithin, List.range_succ, List.foldl_append]
    simpa [strncpyWithin] using ih

/-- Copying `n` bytes up by `d` inside a buffer repeats the first `d` of them. -/
lemma getD_strncpyWithin {buf : List UInt8} {d n : ℕ} (hd : 0 < d) (hn : d + n ≤ buf.length)
    (x : ℕ) :
    (strncpyWithin buf d 0 n).getD x 0 =
      if d ≤ x ∧ x < d + n then buf.getD ((x - d) % d) 0 else buf.getD x 0 := by
  induction n generalizing x with
  | zero => rw [if_neg (by omega)]; rfl
  | succ n ih =>
    have hstep : strncpyWithin buf d 0 (n + 1) =
        (strncpyWithin buf d 0 n).set (d + n) ((strncpyWithin buf d 0 n).getD n 0) := by
      simp only [strncpyWithin, List.range_succ, List.foldl_append, List.foldl_cons,
        List.foldl_nil, Nat.zero_add]
    have hlen := length_strncpyWithin buf d 0 n
    -- the byte that is copied has been copied before, unless it is one of the first `d`
    have hsrc : (strncpyWithin buf d 0 n).getD n 0 = buf.getD (n % d) 0 := by
      rw [ih (by omega)]
      split_ifs with h
      · rw [Nat.mod_eq_sub_mod h.1]
      · rw [Nat.mod_eq_of_lt (by omega)]
    rw [hstep, hsrc, List.getD_eq_getElem?_getD]
    by_cases hx : x = d + n
    · subst hx
      rw [List.getElem?_set_self (by omega), if_pos (by omega), Nat.add_sub_cancel_left]
      rfl
    · rw [List.getElem?_set_ne (by omega), ← List.getD_eq_getElem?_getD, ih (by omega)]
      have hiff : (d ≤ x ∧ x < d + n) ↔ (d ≤ x ∧ x < d + (n + 1)) := by omega
      simp only [hiff]

/-- Behind the bytes in front, the first bytes of the old ones are repeated. -/
lemma prependDeleted_eq {seq del : CStr} (hdel : del ≠ []) :
    prependDeleted seq del =
      del ++ (List.range seq.length).map fun i => byteAt seq (i % del.length) := by
  have hpos := List.length_pos_iff.mpr hdel
  set buf := seq ++ List.replicate (del.length + 1) 0 with hbuf
  have hlen : buf.length = seq.length + (del.length + 1) := by simp [hbuf]
  have hdrop : ((strncpyWithin buf del.length 0 seq.length).drop del.length).take seq.length =
      (List.range seq.length).map fun i => byteAt seq (i % del.length) := by
    apply List.ext_getElem
    · rw [List.length_take, List.length_drop, length_strncpyWithin, List.length_map,
        List.length_range]
      omega
    · intro i h1 h2
      rw [List.length_map, List.length_range] at h2
      have hlt : del.length + i < (strncpyWithin buf del.length 0 seq.length).length := by
        rw [length_strncpyWithin]
        omega
      have hmod : i % del.length ≤ i := Nat.mod_le _ _
      rw [List.getElem_take, List.getElem_drop, ← List.getD_eq_getElem _ 0 hlt,
        getD_strncpyWithin hpos (by omega), if_pos (by omega), Nat.add_sub_cancel_left, hbuf,
        List.getD_append _ _ _ _ (by omega), List.getElem_map, List.getElem_range]
      rfl
  have hcopy : prependDeleted seq del =
      (del ++ (strncpyWithin buf del.length 0 seq.length).drop del.length).take
        (seq.length + del.length) := rfl
  rw [hcopy, List.take_append, List.take_of_length_le (by omega), Nat.add_sub_cancel, hdrop]

/-! ### The bytes that are recorded -/

/-- The bytes in the `Action` when the characters were deleted one by one, the last one first. -/
def recordedSeq : List CodePoint → CStr
  | [] => []
  | c :: cs => prependDeleted (recordedSeq cs) (utf8.word c)

/-- The first `k` bytes of the record are those of the characters: behind the first character the
bytes repeat as far as they matter, and the bytes that are repeated were themselves kept. -/
def KeepsUpTo : ℕ → List CodePoint → Prop
  | _, [] => True
  | k, c :: cs =>
    let w := (utf8.word c).length
    (∀ i < min (k - w) (utf8.encode cs).length,
      byteAt (utf8.encode cs) (i % w) = byteAt (utf8.encode cs) i) ∧ KeepsUpTo (min w (k - w)) cs

instance instDecidableKeepsUpTo : ∀ (k : ℕ) (cs : List CodePoint), Decidable (KeepsUpTo k cs)
  | _, [] => inferInstanceAs (Decidable True)
  | k, c :: cs =>
    have : Decidable (KeepsUpTo (min (utf8.word c).length (k - (utf8.word c).length)) cs) :=
      instDecidableKeepsUpTo _ cs
    inferInstanceAs (Decidable ((∀ i < min _ _, _) ∧ _))

lemma recordedSeq_cons (c : CodePoint) (cs : List CodePoint) :
    recordedSeq (c :: cs) = utf8.word c ++ (List.range (recordedSeq cs).length).map fun i =>
      byteAt (recordedSeq cs) (i % (utf8.word c).length) :=
  prependDeleted_eq (utf8.word_ne_nil c)

lemma length_recordedSeq (cs : List CodePoint) :
    (recordedSeq cs).length = (utf8.encode cs).length := by
  induction cs with
  | nil => rfl
  | cons c cs ih =>
    rw [recordedSeq_cons, utf8.encode_cons, List.length_append, List.length_append,
      List.length_map, List.length_range, ih]

lemma byteAt_append_right (x y : CStr) (i : ℕ) : byteAt (x ++ y) (x.length + i) = byteAt y i := by
  rw [byteAt, List.getD_append_right _ _ _ _ (Nat.le_add_right _ _), Nat.add_sub_cancel_left]
  rfl

/-- The record at a place behind its first character. -/
lemma byteAt_recordedSeq_cons {c : CodePoint} {cs : List CodePoint} {i : ℕ}
    (h : i < (utf8.encode cs).length) :
    byteAt (recordedSeq (c :: cs)) ((utf8.word c).length + i) =
      byteAt (recordedSeq cs) (i % (utf8.word c).length) := by
  rw [recordedSeq_cons, byteAt_append_right, byteAt, List.getD_eq_getElem, List.getElem_map,
    List.getElem_range]
  rwa [List.length_map, List.length_range, length_recordedSeq]

lemma forall_byteAt_recordedSeq_iff (k : ℕ) (cs : List CodePoint) :
    (∀ i < min k (utf8.encode cs).length,
      byteAt (recordedSeq cs) i = byteAt (utf8.encode cs) i) ↔ KeepsUpTo k cs := by
  induction cs generalizing k with
  | nil => simp [KeepsUpTo]
  | cons c cs ih =>
    have hw := utf8.word_length_pos c
    rw [KeepsUpTo, ← ih]
    -- only the places behind the first character matter
    have hbehind : (∀ i < min k (utf8.encode (c :: cs)).length,
        byteAt (recordedSeq (c :: cs)) i = byteAt (utf8.encode (c :: cs)) i) ↔
        ∀ i < min (k - (utf8.word c).length) (utf8.encode cs).length,
          byteAt (recordedSeq cs) (i % (utf8.word c).length) = byteAt (utf8.encode cs) i := by
      rw [utf8.encode_cons, List.length_append]
      constructor
      · intro h i hi
        have hplace := h ((utf8.word c).length + i) (by omega)
        rwa [byteAt_recordedSeq_cons (by omega), byteAt_append_right] at hplace
      · intro h i hi
        rcases Nat.lt_or_ge i (utf8.word c).length with hlt | hge
        · rw [recordedSeq_cons, byteAt_append_left _ hlt, byteAt_append_left _ hlt]
        · obtain ⟨j, rfl⟩ := Nat.exists_eq_add_of_le hge
          rw [byteAt_recordedSeq_cons (by omega), byteAt_append_right]
          exact h j (by omega)
    rw [hbehind]
    constructor
    · intro h
      have hkept : ∀ i < min (min (utf8.word c).length (k - (utf8.word c).length))
          (utf8.encode cs).length,
          byteAt (recordedSeq cs) i = byteAt (utf8.encode cs) i := by
        intro i hi
        have hi' := h i (by omega)
        rwa [Nat.mod_eq_of_lt (by omega)] at hi'
      refine ⟨?_, hkept⟩
      intro i hi
      have hmod := Nat.mod_lt i hw
      have hle := Nat.mod_le i (utf8.word c).length
      rw [← h i hi, hkept _ (by omega)]
    · rintro ⟨hrepeats, hkept⟩ i hi
      have hmod := Nat.mod_lt i hw
      have hle := Nat.mod_le i (utf8.word c).length
      rw [hkept _ (by omega), hrepeats i hi]

/-- The whole record is that of the characters. -/
lemma recordedSeq_eq_encode_iff (cs : List CodePoint) :
    recordedSeq cs = utf8.encode cs ↔ KeepsUpTo (utf8.encode cs).length cs := by
  rw [← forall_byteAt_recordedSeq_iff, min_self]
  constructor
  · intro h i _
    rw [h]
  · intro h
    apply List.ext_getElem (length_recordedSeq cs)
    intro i h1 h2
    have hi := h i h2
    rwa [byteAt, byteAt, List.getD_eq_getElem _ 0 h1, List.getD_eq_getElem _ 0 h2] at hi

/-! ### The run -/

/-- The cursor behind a run is behind its last character. -/
lemma nodeOf_concat (pre ys post : List CodePoint) (y : CodePoint) (mk : ℤ) :
    nodeOf (pre ++ (ys ++ [y]) ++ post) (pre.length + (ys ++ [y]).length) mk =
      nodeOf ((pre ++ ys) ++ [y] ++ post) ((pre ++ ys).length + [y].length) mk := by
  rw [List.length_append, List.length_append, List.append_assoc pre ys]
  push_cast
  rw [add_assoc]

lemma not_stuck_backspace {cs : List CodePoint} {p : ℕ} {y : CodePoint} {mk : ℤ} :
    ¬ backspace.Stuck (nodeOf cs (p + [y].length) mk) := by
  simp only [Stuck, nodeOf, List.length_singleton]
  omega

/-- The deletion of the last character of a run. -/
lemma backspace_last {pre ys post : List CodePoint} {y : CodePoint} {mk : ℤ} {node : MsgNode}
    (hnode : node = nodeOf (pre ++ (ys ++ [y]) ++ post) (pre.length + (ys ++ [y]).length) mk) :
    ¬ backspace.Stuck node ∧
      backspace.update node (pressed .cmdBackspace) =
        nodeOf (pre ++ ys ++ post) (pre.length + ys.length) mk ∧
      deleted node (pressed .cmdBackspace) = utf8.word y := by
  obtain ⟨hupdate, hdeleted⟩ :=
    @updBackspace_append mk (pre ++ ys) [y] post (pressed .cmdBackspace) rfl
  rw [hnode, nodeOf_concat]
  refine ⟨not_stuck_backspace, ?_, ?_⟩
  · rw [update, hupdate, List.length_append, Nat.cast_add]
  · rw [hdeleted, utf8.encode_singleton]

lemma calls_backspace : backspace.Calls (pressed .cmdBackspace) :=
  calls_of_ne_insert rfl (by decide)

/-- Further deletions add to the record. -/
lemma exists_processEvents_backspace {pre post : List CodePoint} {mk : ℤ} (ys : List CodePoint)
    {s : Editor} {a : Action} {u : ActionStack} {ds : List CodePoint}
    (ha : a.cmdFn = .cmdBackspace) (hcnt : a.cnt = 1) (hseq : a.seq = some (recordedSeq ds))
    (hu : s.undoStack = some a :: u)
    (hcurr : s.curr = nodeOf (pre ++ ys ++ post) (pre.length + ys.length) mk) :
    ∃ s' updated a',
      processEvents s (List.replicate ys.length (pressed .cmdBackspace)) = some (s', updated) ∧
      s'.undoStack = some a' :: u ∧ s'.curr = nodeOf (pre ++ post) pre.length mk ∧
      a'.cmdFn = .cmdBackspace ∧ a'.cnt = 1 ∧ a'.seq = some (recordedSeq (ys ++ ds)) := by
  induction ys using List.reverseRecOn generalizing s a ds with
  | nil =>
    refine ⟨s, false, a, rfl, hu, ?_, ha, hcnt, hseq⟩
    simpa using hcurr
  | append_singleton ys y ih =>
    obtain ⟨hstuck, hupdate, hdeleted⟩ := backspace_last hcurr
    obtain ⟨s₁, hs₁, hcurr₁, hu₁, -⟩ := exists_processEvent_merge
      calls_backspace hstuck ha hu
    rw [hupdate] at hcurr₁
    rw [adjust, if_pos (by simp [hcnt]), hdeleted, hseq] at hu₁
    obtain ⟨s', updated, a', hs', hu', hcurr', hfn, hcnt', hseq'⟩ :=
      ih (a := { a with cnt := 1, seq := some (recordedSeq (y :: ds)) }) ha rfl rfl hu₁ hcurr₁
    refine ⟨s', true || updated, a', ?_, hu', hcurr', hfn, hcnt', ?_⟩
    · rw [List.length_append, List.length_singleton, List.replicate_succ]
      exact processEvents_cons hs₁ hs'
    · rw [hseq', List.append_assoc, List.singleton_append]

/-- The run of deletions from the first one on. -/
lemma exists_processEvents_backspace_fresh {pre post ys : List CodePoint} {mk : ℤ} {s : Editor}
    (hys : ys ≠ []) (htop : mergeTarget .cmdBackspace s.undoStack = none)
    (hcurr : s.curr = nodeOf (pre ++ ys ++ post) (pre.length + ys.length) mk) :
    ∃ s' a, processEvents s (List.replicate ys.length (pressed .cmdBackspace)) = some (s', true) ∧
      s'.undoStack = some a :: restOf .cmdBackspace s.undoStack ∧
      s'.curr = nodeOf (pre ++ post) pre.length mk ∧
      a.cmdFn = .cmdBackspace ∧ a.cnt = 1 ∧ a.seq = some (recordedSeq ys) := by
  obtain ⟨ys, y, rfl⟩ : ∃ ys' y, ys = ys' ++ [y] :=
    ⟨ys.dropLast, ys.getLast hys, (List.dropLast_append_getLast hys).symm⟩
  obtain ⟨hstuck, hupdate, hdeleted⟩ := backspace_last hcurr
  obtain ⟨s₁, id, hs₁, hcurr₁, hu₁, -⟩ := exists_processEvent_fresh
    calls_backspace hstuck htop
  rw [hupdate] at hcurr₁
  have hone : recordedSeq [y] = utf8.word y := by
    rw [recordedSeq_cons]
    simp [recordedSeq]
  rw [adjust, if_neg (by simp), hdeleted, ← hone] at hu₁
  obtain ⟨s', updated, a', hs', hu', hcurr', hfn, hcnt', hseq'⟩ :=
    exists_processEvents_backspace ys (a := ⟨id, .cmdBackspace, some (recordedSeq [y]), 1⟩)
      rfl rfl rfl hu₁ hcurr₁
  refine ⟨s', a', ?_, hu', hcurr', hfn, hcnt', hseq'⟩
  rw [List.length_append, List.length_singleton, List.replicate_succ]
  exact processEvents_cons hs₁ hs'

/-- After `n` deletions the `Action` on top holds the characters `del`, and `cmd_undo` puts them
back. -/
def RecordsDeleted (s : Editor) (n : ℕ) (del : List CodePoint) : Prop :=
  ∃ s' a t, processEvents s (List.replicate n (pressed .cmdBackspace)) = some (s', true) ∧
    s'.undoStack = some a :: restOf .cmdBackspace s.undoStack ∧ a.cnt = 1 ∧
    a.seq = some (utf8.encode del) ∧
    processEvent s' (pressed .cmdUndo) = some (t, true) ∧ t.curr.text = s.curr.text ∧
    t.curr.cursorPos = s.curr.cursorPos

lemma recordsDeleted_iff {pre post del : List CodePoint} {mk : ℤ} {s : Editor} (hdel : del ≠ [])
    (htop : mergeTarget .cmdBackspace s.undoStack = none)
    (hcurr : s.curr = nodeOf (pre ++ del ++ post) (pre.length + del.length) mk) :
    RecordsDeleted s del.length del ↔ KeepsUpTo (utf8.encode del).length del := by
  obtain ⟨s', a, hs', hu', hcurr', hfn, hcnt, hseq⟩ :=
    exists_processEvents_backspace_fresh hdel htop hcurr
  rw [← recordedSeq_eq_encode_iff]
  constructor
  · rintro ⟨s'', a'', -, hs'', hu'', -, hseq'', -⟩
    rw [hs', Option.some.injEq, Prod.mk.injEq] at hs''
    obtain ⟨rfl, -⟩ := hs''
    rw [hu', List.cons.injEq, Option.some.injEq] at hu''
    obtain ⟨rfl, -⟩ := hu''
    exact Option.some.inj (hseq.symm.trans hseq'')
  · intro hkeeps
    rw [hkeeps] at hseq
    have hok : a.Ok := by
      refine ⟨⟨backspace, hfn⟩, hcnt.ge, ?_, fun _ => ⟨hcnt, by rw [hseq]; rfl⟩, ?_⟩ <;>
        · intro h
          rw [hfn] at h
          cases h
    have hev : a.undoEvent = typed del := by
      rw [Action.undoEvent, hfn, hseq]
      rfl
    have hnode : a.undoNode s'.curr =
        some (updInsert (nodeOf (pre ++ post) pre.length mk) (typed del)) := by
      have hstuck : ¬ insert.Stuck (nodeOf (pre ++ post) pre.length mk) := id
      rw [Action.undoNode, hcnt, effects_one, hev, hcurr',
        effect_of_calls insert (calls_of_seq rfl rfl), ← update_eq_act hstuck, update]
    have hundo := processEvent_undo (pressed_cmdFn .cmdUndo) hok hu'
    rw [hnode] at hundo
    obtain ⟨t, ht, htcurr, -⟩ := hundo
    refine ⟨s', a, t, hs', hu', hcnt, hseq, ht, ?_, ?_⟩
    · rw [htcurr, hcurr, typed, updInsert_nodeOf, Int.toNat_natCast, List.take_left' rfl,
        List.drop_left' rfl]
      rfl
    · rw [htcurr, hcurr, typed, updInsert_nodeOf]
      rfl

/-- A run of deletions records what it has deleted exactly when the bytes behind each deleted
character repeat as far as they are kept. -/
theorem backspaces_record_iff {s : Editor} {cs : List CodePoint} {p n : ℕ} {mk : ℤ}
    (hcurr : s.curr = nodeOf cs p mk) (hn : 1 ≤ n) (hnp : n ≤ p) (hp : p ≤ cs.length)
    (htop : mergeTarget .cmdBackspace s.undoStack = none) :
    RecordsDeleted s n ((cs.drop (p - n)).take n) ↔
      KeepsUpTo (utf8.encode ((cs.drop (p - n)).take n)).length ((cs.drop (p - n)).take n) := by
  have hlen : ((cs.drop (p - n)).take n).length = n := by
    rw [List.length_take, List.length_drop]
    omega
  have hpre : (cs.take (p - n)).length = p - n := by
    rw [List.length_take]
    omega
  have hsplit : cs = cs.take (p - n) ++ (cs.drop (p - n)).take n ++ cs.drop p := by
    rw [← List.take_add, Nat.sub_add_cancel hnp, List.take_append_drop]
  have hne : (cs.drop (p - n)).take n ≠ [] := List.ne_nil_of_length_pos (hlen.symm ▸ hn)
  have hnode : s.curr = nodeOf (cs.take (p - n) ++ (cs.drop (p - n)).take n ++ cs.drop p)
      ((cs.take (p - n)).length + ((cs.drop (p - n)).take n).length) mk := by
    rw [← hsplit, hcurr, hpre, hlen]
    congr 1
    omega
  have hiff := recordsDeleted_iff hne htop hnode
  rwa [hlen] at hiff

/-- A text with the cursor at its end. -/
def atEnd (cs : List CodePoint) : Editor := { start with curr := nodeOf cs cs.length (-1) }

/-- A letter of two bytes and one of one byte. -/
theorem backspaces_record_two :
    RecordsDeleted (atEnd [.ofChar 'я', .ofChar 'b']) 2 [.ofChar 'я', .ofChar 'b'] :=
  (@backspaces_record_iff (atEnd [.ofChar 'я', .ofChar 'b']) [.ofChar 'я', .ofChar 'b'] 2 2 (-1)
    rfl (by decide) le_rfl le_rfl rfl).2 (by decide)

/-- Three letters of one byte are recorded as `abb`. -/
theorem backspaces_record_abc :
    ¬ RecordsDeleted (atEnd [.ofChar 'a', .ofChar 'b', .ofChar 'c']) 3
      [.ofChar 'a', .ofChar 'b', .ofChar 'c'] := by
  have hiff := recordsDeleted_iff (s := atEnd [.ofChar 'a', .ofChar 'b', .ofChar 'c'])
    (List.cons_ne_nil (CodePoint.ofChar 'a') [.ofChar 'b', .ofChar 'c']) rfl
    (show _ = nodeOf ([] ++ _ ++ []) _ (-1) from rfl)
  rw [show (3 : ℕ) = [CodePoint.ofChar 'a', .ofChar 'b', .ofChar 'c'].length from rfl, hiff]
  decide

end Vjft.Term

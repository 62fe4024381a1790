import Vjft.Memory
import Vjft.Term.Utf8
import Mathlib.Data.List.Induction

/-!
# The buffers that texts are appended to (`term/history.c`, `term/mbuf.c`)

`miniBuffer` and `historyBuffer` grow by doubling. The text that is appended goes behind the NUL
that `strcat` finds from the end of the text on, so that there has to be one.
-/

namespace Vjft.Term

/-! ### Memory -/

/-- What stands in the memory that an allocation returns, or `none` if it returns `NULL`. -/
abbrev Allocation := Option (ℕ → UInt8)

def malloc (allocation : Allocation) (n : ℕ) : Option Bytes :=
  allocation.map fun heap => (List.range n).map heap

/-- The bytes of the block are kept, and those behind them are as they are found. -/
def realloc (allocation : Allocation) (block : Option Bytes) (n : ℕ) : Option Bytes :=
  allocation.map fun heap => (block.getD [] ++ (List.range n).map heap).take n

/-- `strcat(block + offset, text)` -/
def strcatAt (block : Bytes) (offset : ℕ) (text : CStr) : Except Stop Bytes := do
  let dest ← cString (block.drop offset)
  let start := offset + dest.length
  require (start + text.length + 1 ≤ block.length) .outOfBounds
  pure (block.take start ++ text ++ 0 :: block.drop (start + text.length + 1))

/-! ### The buffers -/

structure DynamicBuffer where
  buffer : Option Bytes
  size : ℕ
  capacity : ℕ

abbrev MiniBuffer := DynamicBuffer

/-- `while (new_capacity <= new_size) new_capacity *= 2;` -/
def growCapacity (newSize : ℕ) (newCapacity : ℕ) : ℕ := loop (newSize + 1) newCapacity
where
  /-- Every round makes the capacity larger, so a round more than there are bytes is enough. -/
  loop : ℕ → ℕ → ℕ
  | 0, newCapacity => newCapacity
  | n + 1, newCapacity =>
    if newCapacity ≤ newSize then loop n (newCapacity * 2) else newCapacity

namespace DynamicBuffer

def initDynamicBuffer (allocation : Allocation) (initialCapacity : ℕ) :
    Except Stop DynamicBuffer := do
  let block ← orStop (malloc allocation initialCapacity) .exit
  pure ⟨some (block.set 0 0), 0, initialCapacity⟩

/-- The part of `appendToDynamicBuffer` that makes room for `newSize` bytes and a NUL. -/
def reserve (db : DynamicBuffer) (allocation : Allocation) (newSize : ℕ) :
    Except Stop DynamicBuffer :=
  if newSize ≥ db.capacity then do
    let newCapacity :=
      growCapacity newSize (if db.capacity = 0 then 128 else db.capacity * 2)
    let newBuffer ← orStop (realloc allocation db.buffer newCapacity) .exit
    pure { db with buffer := some newBuffer, capacity := newCapacity }
  else pure db

def appendToDynamicBuffer (db : DynamicBuffer) (allocation : Allocation) (text : Option CStr) :
    Except Stop DynamicBuffer :=
  match text with
  | none => pure db
  | some text => do
    let textLen := text.length
    let newSize := db.size + textLen
    let db ← db.reserve allocation newSize
    let block ← orStop db.buffer .outOfBounds
    let block ← strcatAt block db.size text
    pure { db with buffer := some block, size := db.size + textLen }

def clearDynamicBuffer (db : DynamicBuffer) : DynamicBuffer :=
  match db.buffer with
  | some block => { db with buffer := some (block.set 0 0), size := 0 }
  | none => db

end DynamicBuffer

/-- `DynamicBuffer historyBuffer = {NULL, 0, 0};`, on which `initEventHistory` is never called. -/
def historyBuffer : DynamicBuffer := ⟨none, 0, 0⟩

def initMiniBuffer (allocation : Allocation) (initialCapacity : ℕ) : Except Stop MiniBuffer :=
  DynamicBuffer.initDynamicBuffer allocation initialCapacity

def appendToMiniBuffer (miniBuffer : MiniBuffer) (allocation : Allocation) (text : Option CStr) :
    Except Stop MiniBuffer :=
  miniBuffer.appendToDynamicBuffer allocation text

def clearMiniBuffer (miniBuffer : MiniBuffer) : MiniBuffer := miniBuffer.clearDynamicBuffer

/-! ### Blocks with a text -/

lemma lt_growCapacity {newSize newCapacity : ℕ} (h : 0 < newCapacity) :
    newSize < growCapacity newSize newCapacity := by
  have key : ∀ n c, 0 < c → newSize < c + n → newSize < growCapacity.loop newSize n c := by
    intro n
    induction n with
    | zero =>
      intro c _ hn
      exact hn
    | succ n ih =>
      intro c hc hn
      rw [growCapacity.loop]
      split_ifs with hle
      · exact ih _ (by omega) (by omega)
      · exact not_le.mp hle
  exact key _ _ h (by omega)

lemma le_growCapacity (newSize newCapacity : ℕ) :
    newCapacity ≤ growCapacity newSize newCapacity := by
  have key : ∀ n c, c ≤ growCapacity.loop newSize n c := by
    intro n
    induction n with
    | zero =>
      intro c
      exact le_rfl
    | succ n ih =>
      intro c
      rw [growCapacity.loop]
      split_ifs with hle
      · exact le_trans (by omega) (ih _)
      · exact le_rfl
  exact key _ _

lemma length_of_realloc {heap : ℕ → UInt8} {block : Option Bytes} {n : ℕ} {newBuffer : Bytes}
    (h : realloc (some heap) block n = some newBuffer) : newBuffer.length = n := by
  cases h
  rw [List.length_take, List.length_append, List.length_map, List.length_range]
  omega

/-- A block that grows keeps its text. -/
lemma cString_realloc {heap : ℕ → UInt8} {block newBuffer : Bytes} {n : ℕ} {s : CStr}
    (hs : cString block = .ok s) (hn : block.length ≤ n)
    (h : realloc (some heap) (some block) n = some newBuffer) : cString newBuffer = .ok s := by
  obtain ⟨hnul, rest, rfl⟩ := cString_eq_ok_iff.mp hs
  cases h
  change cString ((s ++ 0 :: rest ++ (List.range n).map heap).take n) = .ok s
  rw [List.take_append, List.take_of_length_le hn, List.append_assoc, List.cons_append]
  exact cString_eq_ok_iff.mpr ⟨hnul, _, rfl⟩

/-- `strcat` behind the end of a text finds its NUL there. -/
lemma strcatAt_length {block s text : Bytes} (hs : cString block = .ok s) (htext : 0 ∉ text)
    (hroom : s.length + text.length < block.length) :
    ∃ block', strcatAt block s.length text = .ok block' ∧ block'.length = block.length ∧
      cString block' = .ok (s ++ text) := by
  obtain ⟨hnul, rest, rfl⟩ := cString_eq_ok_iff.mp hs
  have hdest : cString ((s ++ 0 :: rest).drop s.length) = .ok [] := by
    rw [List.drop_left]
    exact cString_eq_ok_iff.mpr ⟨List.not_mem_nil, rest, rfl⟩
  rw [strcatAt, hdest, ok_bind]
  simp only [List.length_nil, Nat.add_zero, require_of_pos (Nat.succ_le_of_lt hroom), ok_bind,
    List.take_left]
  refine ⟨_, rfl, ?_, ?_⟩
  · simp only [List.length_append, List.length_cons, List.length_drop] at hroom ⊢
    omega
  · refine cString_eq_ok_iff.mpr ⟨?_, _, rfl⟩
    rw [List.mem_append, not_or]
    exact ⟨hnul, htext⟩

/-- `strcat` to a block that begins with another text leaves that text in front. -/
lemma cString_strcatAt_zero {block block' dest text : Bytes} (htext : 0 ∉ text)
    (hdest : cString block = .ok dest) (h : strcatAt block 0 text = .ok block') :
    cString block' = .ok (dest ++ text) := by
  obtain ⟨hnul, rest, rfl⟩ := cString_eq_ok_iff.mp hdest
  rw [strcatAt, List.drop_zero, hdest, ok_bind] at h
  obtain ⟨_, -, h⟩ := bind_eq_ok_iff.mp h
  cases h
  rw [Nat.zero_add, List.take_left]
  refine cString_eq_ok_iff.mpr ⟨?_, _, rfl⟩
  rw [List.mem_append, not_or]
  exact ⟨hnul, htext⟩

lemma strcatAt_bind_ne_exit {α : Type} {block text : Bytes} {offset : ℕ} {f : Bytes → Except Stop α}
    (hf : ∀ block', f block' ≠ .error .exit) :
    (strcatAt block offset text >>= f) ≠ .error .exit := by
  intro h
  rcases bind_eq_error_iff.mp h with h | ⟨block', -, h⟩
  · rcases bind_eq_error_iff.mp h with h | ⟨dest, -, h⟩
    · rw [cString] at h
      split_ifs at h
      cases h
    · rcases bind_eq_error_iff.mp h with h | ⟨_, -, h⟩
      · rw [require] at h
        split_ifs at h
        cases h
      · cases h
  · exact hf block' h

/-! ### Calls -/

/-- A text without its terminator. -/
abbrev Text := {text : CStr // 0 ∉ text}

/-- A call, with what its allocation finds. -/
inductive BufferCall
  | clear
  | append (text : Option Text) (allocation : Allocation)

namespace DynamicBuffer

/-- The text that a call appends. -/
def callText : BufferCall → Option Text
  | .clear => none
  | .append text _ => text

def call (db : DynamicBuffer) : BufferCall → Except Stop DynamicBuffer
  | .clear => pure db.clearDynamicBuffer
  | .append text allocation => db.appendToDynamicBuffer allocation (text.map Subtype.val)

def run (db : DynamicBuffer) (calls : List BufferCall) : Except Stop DynamicBuffer :=
  calls.foldlM call db

/-- The calls of the functions for the minibuffer. -/
def runMiniBuffer (miniBuffer : MiniBuffer) (calls : List BufferCall) : Except Stop MiniBuffer :=
  calls.foldlM callMiniBuffer miniBuffer
where
  callMiniBuffer (miniBuffer : MiniBuffer) : BufferCall → Except Stop MiniBuffer
    | .clear => pure (clearMiniBuffer miniBuffer)
    | .append text allocation => appendToMiniBuffer miniBuffer allocation (text.map Subtype.val)

/-- The texts that were appended since the buffer was last cleared. -/
def appended (calls : List BufferCall) : CStr := calls.foldl appendedCall []
where
  appendedCall (s : CStr) : BufferCall → CStr
    | .clear => []
    | .append none _ => s
    | .append (some text) _ => s ++ text.val

/-- The C string of the buffer is `s`, `size` is its length, and there is room for its NUL. -/
structure Holds (db : DynamicBuffer) (s : CStr) : Prop where
  cString_eq : ∃ block, db.buffer = some block ∧ block.length = db.capacity ∧ cString block = .ok s
  size_eq : db.size = s.length
  size_lt : db.size < db.capacity

/-- The program has left for want of memory, or the buffer holds `s`. -/
def Kept (result : Except Stop DynamicBuffer) (s : CStr) : Prop :=
  result = .error .exit ∨ ∃ db, result = .ok db ∧ db.Holds s

/-- A block with its first byte overwritten is an empty text. -/
lemma cString_set_zero {block : Bytes} (h : 0 < block.length) :
    cString (block.set 0 0) = .ok [] := by
  cases block with
  | nil => exact absurd h (Nat.lt_irrefl 0)
  | cons b rest => exact cString_eq_ok_iff.mpr ⟨List.not_mem_nil, rest, rfl⟩

lemma kept_initDynamicBuffer (allocation : Allocation) {n : ℕ} (hn : 0 < n) :
    Kept (initDynamicBuffer allocation n) [] := by
  cases allocation with
  | none => exact .inl rfl
  | some heap =>
    have hlen : ((List.range n).map heap).length = n := by simp
    refine .inr ⟨_, rfl, ⟨_, rfl, ?_, cString_set_zero ?_⟩, rfl, hn⟩
    · rw [List.length_set, hlen]
    · rwa [hlen]

/-- Room is made without a change of the text. -/
lemma Holds.reserve {db : DynamicBuffer} {s : CStr} (h : db.Holds s) (allocation : Allocation)
    (newSize : ℕ) :
    db.reserve allocation newSize = .error .exit ∨
      ∃ db', db.reserve allocation newSize = .ok db' ∧ db'.Holds s ∧ newSize < db'.capacity := by
  obtain ⟨⟨block, hblock, hcapacity, hs⟩, hsize, hlt⟩ := h
  rw [DynamicBuffer.reserve]
  by_cases hge : newSize ≥ db.capacity
  · rw [if_pos hge, if_neg (show db.capacity ≠ 0 by omega), hblock]
    cases allocation with
    | none => exact .inl rfl
    | some heap =>
      have hgrow := le_growCapacity newSize (db.capacity * 2)
      refine .inr ⟨_, rfl, ⟨⟨_, rfl, length_of_realloc rfl, ?_⟩, hsize, ?_⟩, ?_⟩
      · apply cString_realloc hs _ rfl
        omega
      · exact hlt.trans_le (le_trans (Nat.le_mul_of_pos_right _ Nat.two_pos) hgrow)
      · exact lt_growCapacity (by omega)
  · rw [if_neg hge]
    exact .inr ⟨db, rfl, ⟨⟨block, hblock, hcapacity, hs⟩, hsize, hlt⟩, not_le.mp hge⟩

/-- `strcat` with enough room for the text and its NUL. -/
lemma Holds.strcatAt {db : DynamicBuffer} {s : CStr} (h : db.Holds s) {text : CStr}
    (htext : 0 ∉ text) (hroom : db.size + text.length < db.capacity) :
    ∃ block block', db.buffer = some block ∧ Term.strcatAt block db.size text = .ok block' ∧
      Holds { db with buffer := some block', size := db.size + text.length } (s ++ text) := by
  obtain ⟨⟨block, hblock, hcapacity, hs⟩, hsize, -⟩ := h
  obtain ⟨block', hcat, hlen, hs'⟩ := strcatAt_length hs htext (hsize ▸ hcapacity ▸ hroom)
  refine ⟨block, block', hblock, hsize ▸ hcat, ⟨block', rfl, hlen.trans hcapacity, hs'⟩, ?_, hroom⟩
  rw [List.length_append, ← hsize]

/-- Once there is room and a text in front, the new text goes behind it. -/
lemma kept_append_of_reserve {db db' : DynamicBuffer} {allocation : Allocation} {s : CStr}
    {text : Text} (hreserve : db.reserve allocation (db.size + text.val.length) = .ok db')
    (hsize : db'.size = db.size) (hs : db'.Holds s)
    (hroom : db.size + text.val.length < db'.capacity) :
    Kept (db.appendToDynamicBuffer allocation (some text.val)) (s ++ text.val) := by
  obtain ⟨block, block', hblock, hcat, hholds⟩ := hs.strcatAt text.property (hsize ▸ hroom)
  refine .inr ⟨_, ?_, hholds⟩
  rw [appendToDynamicBuffer]
  simp only [hreserve, ok_bind, hblock, orStop_some, hcat]
  rfl

lemma Holds.append {db : DynamicBuffer} {s : CStr} (h : db.Holds s) (allocation : Allocation)
    (text : Text) : Kept (db.appendToDynamicBuffer allocation (some text.val)) (s ++ text.val) := by
  rcases h.reserve allocation (db.size + text.val.length) with hexit | ⟨db', hdb', hs, hroom⟩
  · rw [appendToDynamicBuffer]
    exact .inl (by rw [hexit]; rfl)
  · exact kept_append_of_reserve hdb' (hs.size_eq.trans h.size_eq.symm) hs hroom

lemma Holds.clear {db : DynamicBuffer} {s : CStr} (h : db.Holds s) :
    db.clearDynamicBuffer.Holds [] := by
  obtain ⟨⟨block, hblock, hcapacity, hs⟩, hsize, hlt⟩ := h
  rw [clearDynamicBuffer, hblock]
  refine ⟨⟨_, rfl, ?_, cString_set_zero ?_⟩, rfl, Nat.zero_lt_of_lt hlt⟩
  · rw [List.length_set, hcapacity]
  · rw [hcapacity]
    exact Nat.zero_lt_of_lt hlt

/-- A call keeps the buffer right. -/
lemma Holds.call {db : DynamicBuffer} {s : CStr} (h : db.Holds s) (c : BufferCall) :
    Kept (db.call c) (appended.appendedCall s c) := by
  match c with
  | .clear => exact .inr ⟨_, rfl, h.clear⟩
  | .append none _ => exact .inr ⟨db, rfl, h⟩
  | .append (some text) allocation => exact h.append allocation text

/-! ### Runs -/

lemma run_concat (db : DynamicBuffer) (calls : List BufferCall) (c : BufferCall) :
    db.run (calls ++ [c]) = (db.run calls >>= (call · c)) := by
  simp [run]

lemma runMiniBuffer_eq (miniBuffer : MiniBuffer) (calls : List BufferCall) :
    runMiniBuffer miniBuffer calls = miniBuffer.run calls := by
  have hcall : runMiniBuffer.callMiniBuffer = call := by
    funext miniBuffer c
    cases c <;> rfl
  rw [runMiniBuffer, run, hcall]

lemma appended_concat (calls : List BufferCall) (c : BufferCall) :
    appended (calls ++ [c]) = appended.appendedCall (appended calls) c := by
  simp [appended]

lemma Kept.call {result : Except Stop DynamicBuffer} {s : CStr} (h : Kept result s)
    (c : BufferCall) : Kept (result >>= (call · c)) (appended.appendedCall s c) := by
  rcases h with rfl | ⟨db, rfl, hdb⟩
  · exact .inl rfl
  · exact hdb.call c

/-- A buffer that was set up is right after every call. -/
lemma Kept.run {start : Except Stop DynamicBuffer} (h : Kept start []) (calls : List BufferCall) :
    Kept (start >>= (run · calls)) (appended calls) := by
  induction calls using List.reverseRecOn with
  | nil =>
    have hnil : (start >>= (DynamicBuffer.run · [])) = start := bind_pure start
    rw [hnil]
    exact h
  | append_singleton calls c ih =>
    rw [appended_concat]
    have hrun : (start >>= (DynamicBuffer.run · (calls ++ [c]))) =
        (start >>= (DynamicBuffer.run · calls)) >>= (DynamicBuffer.call · c) := by
      simp only [run_concat, bind_assoc]
    rw [hrun]
    exact ih.call c

/-! ### The buffer that is not set up -/

lemma reserve_historyBuffer (heap : ℕ → UInt8) (newSize : ℕ) :
    historyBuffer.reserve (some heap) newSize =
      .ok ⟨some ((List.range (growCapacity newSize 128)).map heap), 0,
        growCapacity newSize 128⟩ := by
  have htake : ((List.range (growCapacity newSize 128)).map heap).take (growCapacity newSize 128) =
      (List.range (growCapacity newSize 128)).map heap := List.take_of_length_le (by simp)
  rw [reserve, if_pos (show newSize ≥ historyBuffer.capacity from Nat.zero_le _)]
  simp only [historyBuffer, if_pos, realloc, Option.map_some, Option.getD_none, List.nil_append,
    htake, orStop_some, ok_bind]
  rfl

/-- A new block is an empty text exactly if its first byte is NUL. -/
lemma cString_map_range_eq_nil_iff {heap : ℕ → UInt8} {n : ℕ} (hn : 0 < n) :
    cString ((List.range n).map heap) = .ok [] ↔ heap 0 = 0 := by
  obtain ⟨m, rfl⟩ := Nat.exists_eq_add_of_lt hn
  rw [Nat.zero_add, List.range_succ_eq_map, List.map_cons, cString_eq_ok_iff]
  simp

/-- The first text goes behind what happens to stand in the new block, up to a NUL. -/
lemma kept_append_historyBuffer_iff (heap : ℕ → UInt8) (text : Text) :
    Kept (historyBuffer.appendToDynamicBuffer (some heap) (some text.val)) text.val ↔
      heap 0 = 0 := by
  have hreserve := reserve_historyBuffer heap (historyBuffer.size + text.val.length)
  have hroom : historyBuffer.size + text.val.length <
      growCapacity (historyBuffer.size + text.val.length) 128 := lt_growCapacity (by decide)
  rw [← cString_map_range_eq_nil_iff (Nat.zero_lt_of_lt hroom)]
  constructor
  · intro h
    rw [appendToDynamicBuffer] at h
    simp only [hreserve, ok_bind, orStop_some] at h
    rcases h with h | ⟨db, h, ⟨block', hblock', -, htext⟩, -, -⟩
    · exact absurd h (strcatAt_bind_ne_exit fun _ => nofun)
    · obtain ⟨block, hcat, hdb⟩ := bind_eq_ok_iff.mp h
      cases hdb
      obtain rfl : block = block' := Option.some.inj hblock'
      obtain ⟨dest, hdest, -⟩ := bind_eq_ok_iff.mp hcat
      have hboth := cString_strcatAt_zero text.property hdest hcat
      rw [htext, Except.ok.injEq, List.self_eq_append_left] at hboth
      rwa [hboth] at hdest
  · intro h
    refine kept_append_of_reserve hreserve rfl ⟨⟨_, rfl, ?_, h⟩, rfl, ?_⟩ hroom
    · simp
    · exact Nat.zero_lt_of_lt hroom

/-- As long as no text was appended there is no block. -/
lemma run_historyBuffer {calls : List BufferCall} (h : ∀ c ∈ calls, callText c = none) :
    historyBuffer.run calls = .ok historyBuffer ∧ appended calls = [] := by
  induction calls using List.reverseRecOn with
  | nil => exact ⟨rfl, rfl⟩
  | append_singleton calls c ih =>
    obtain ⟨hrun, htext⟩ := ih fun c' hc' => h c' (List.mem_append_left _ hc')
    rw [run_concat, appended_concat, hrun, htext]
    match c, h c List.mem_concat_self with
    | .clear, _ => exact ⟨rfl, rfl⟩
    | .append none _, _ => exact ⟨rfl, rfl⟩

/-- What the first text finds in its block decides whether the buffer is right. -/
lemma kept_run_first_iff {es : List BufferCall} (hnone : ∀ c ∈ es, callText c = none) (text : Text)
    (heap : ℕ → UInt8) :
    Kept (historyBuffer.run (es ++ [.append (some text) (some heap)]))
        (appended (es ++ [.append (some text) (some heap)])) ↔ heap 0 = 0 := by
  obtain ⟨hrun, htext⟩ := run_historyBuffer hnone
  rw [run_concat, appended_concat, hrun, htext]
  exact kept_append_historyBuffer_iff heap text

/-- The first text, if there was one, found an empty text in its block. -/
def FirstIsNul (calls : List BufferCall) : Prop :=
  ∀ es text heap, es ++ [.append (some text) (some heap)] <+: calls →
    (∀ c ∈ es, callText c = none) → heap 0 = 0

/-- Before the first text there is no block, and after it the buffer is right. -/
lemma kept_run_historyBuffer {calls : List BufferCall} (h : FirstIsNul calls) :
    (∀ c ∈ calls, callText c = none) ∨ Kept (historyBuffer.run calls) (appended calls) := by
  induction calls using List.reverseRecOn with
  | nil => exact .inl (fun c hc => absurd hc List.not_mem_nil)
  | append_singleton calls c ih =>
    rcases ih fun es text heap hes => h es text heap (hes.trans (List.prefix_append _ _)) with
      hnone | hkept
    · cases hc : callText c with
      | none => exact .inl (List.forall_mem_append.mpr ⟨hnone, by simpa using hc⟩)
      | some text =>
        right
        match c, hc with
        | .append (some text) none, _ =>
          rw [run_concat, (run_historyBuffer hnone).1]
          exact .inl rfl
        | .append (some text) (some heap), _ =>
          exact (kept_run_first_iff hnone text heap).mpr
            (h calls text heap (List.prefix_refl _) hnone)
    · right
      rw [run_concat, appended_concat]
      exact hkept.call c

/-- `miniBuffer`, which `main` sets up, holds what was appended after every call. `historyBuffer`
does so after every text exactly if the memory for its first text begins with a NUL. -/
theorem kept_run_iff (calls : List BufferCall) :
    (∀ allocation,
      Kept (initMiniBuffer allocation 128 >>= (runMiniBuffer · calls)) (appended calls)) ∧
    ((∀ es text allocation, es ++ [.append (some text) allocation] <+: calls →
        Kept (historyBuffer.run (es ++ [.append (some text) allocation]))
          (appended (es ++ [.append (some text) allocation]))) ↔
      ∀ es text heap, es ++ [.append (some text) (some heap)] <+: calls →
        (∀ c ∈ es, callText c = none) → heap 0 = 0) := by
  refine ⟨?_, ?_, ?_⟩
  · intro allocation
    simp only [runMiniBuffer_eq]
    exact (kept_initDynamicBuffer allocation (by decide)).run calls
  · intro h es text heap hes hnone
    exact (kept_run_first_iff hnone text heap).mp (h es text (some heap) hes)
  · intro h es text allocation hes
    have hfirst : FirstIsNul (es ++ [.append (some text) allocation]) :=
      fun es' text' heap hes' => h es' text' heap (hes'.trans hes)
    rcases kept_run_historyBuffer hfirst with hnone | hkept
    · exact absurd (hnone _ List.mem_concat_self) nofun
    · exact hkept

/-- `"\nHistory: "` is appended to a block that begins with another byte. -/
theorem historyBuffer_not_kept :
    ¬ ∀ (es : List BufferCall) (text : Text) (allocation : Allocation),
      Kept (historyBuffer.run (es ++ [.append (some text) allocation]))
        (appended (es ++ [.append (some text) allocation])) := by
  intro h
  have hnul : ∀ (text : Text) (heap : ℕ → UInt8), heap 0 = 0 := by
    intro text heap
    have hnone : ∀ c ∈ ([] : List BufferCall), callText c = none := by simp
    exact (kept_run_first_iff hnone text heap).mp (h [] text (some heap))
  have hx := hnul ⟨[0x0A, 0x48, 0x69, 0x73, 0x74, 0x6F, 0x72, 0x79, 0x3A, 0x20], by decide⟩
    (fun i => if i = 1 then 0 else 0x78)
  exact absurd hx (by decide)

end DynamicBuffer

end Vjft.Term

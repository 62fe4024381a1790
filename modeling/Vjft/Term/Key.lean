import Vjft.Term.KeyMap
import Vjft.Term.Utf8

/-!
# Keys and the stack of keys (`term/key.c`, `term/ctrlstk.c`)

A key is told by the bytes that were read. The keys that have not made up the binding of a command
yet wait in a stack, which is emptied by popping until a pop returns the value 0.
-/

namespace Vjft.Term

/-! ### Keys -/

/-- The place of an entry in `KEY_MAP`, which is the value of the enumerator. -/
abbrev Key := ℕ

/-- The enumerator of that name. -/
def key (val : String) : Key := keyMap.findIdx (·.val == val)

/-- `strncmp(s1, s2, n) == 0`, which looks at no byte behind the first NUL. -/
def strncmpEq : ℕ → CStr → CStr → Bool
  | 0, _, _ => true
  | n + 1, s1, s2 =>
    byteAt s1 0 == byteAt s2 0 && (byteAt s1 0 == 0 || strncmpEq n s1.tail s2.tail)

def identifyKey (seq : Bytes) (seqSize : ℕ) : Key :=
  (keyMap.findIdx? fun e => e.len == seqSize && strncmpEq e.len seq (literal e.str)).getD
    (key "KEY_UNKNOWN")

/-- The printable keys come first, and `KEY_UNKNOWN` is the first one of the others. -/
def keyPrintable (k : Key) : Prop := k < key "KEY_UNKNOWN"

instance (k : Key) : Decidable (keyPrintable k) := Nat.decLt _ _

lemma eq_of_strncmpEq {n : ℕ} {s1 s2 : CStr} (h : strncmpEq n s1 s2 = true) (h1 : s1.length = n)
    (h2 : s2.length = n) (h0 : 0 ∉ s2) : s1 = s2 := by
  induction n generalizing s1 s2 with
  | zero => rw [List.length_eq_zero_iff.mp h1, List.length_eq_zero_iff.mp h2]
  | succ n ih =>
    obtain ⟨a, s1, rfl⟩ := List.exists_cons_of_length_eq_add_one h1
    obtain ⟨b, s2, rfl⟩ := List.exists_cons_of_length_eq_add_one h2
    rw [List.mem_cons, not_or] at h0
    simp only [strncmpEq, byteAt, List.getD_cons_zero, List.tail_cons, Bool.and_eq_true,
      Bool.or_eq_true, beq_iff_eq] at h
    obtain ⟨rfl, hz | hrest⟩ := h
    · exact absurd hz.symm h0.1
    · rw [ih hrest (Nat.succ.inj h1) (Nat.succ.inj h2) h0.2]

/-- Printable keys are written with as many bytes as they have, and without a NUL. -/
lemma literal_of_printable : ∀ e ∈ keyMap.take (key "KEY_UNKNOWN"),
    (literal e.str).length = e.len ∧ (0 : UInt8) ∉ literal e.str ∧ 0 < e.len := by
  decide +kernel

/-- The enumerator of a name in the map has that name. -/
lemma val_getElem_key {val : String} {i : ℕ} (hi : i < keyMap.length) (h : key val = i) :
    keyMap[i].val = val := by
  subst h
  exact eq_of_beq (List.findIdx_getElem (p := fun e : KeyEntry => e.val == val) (w := hi))

/-- Entries of different names are different keys. -/
lemma key_inj {val val' : String} (h : key val < keyMap.length) :
    key val = key val' ↔ val = val' := by
  refine ⟨fun heq => ?_, congrArg key⟩
  rw [← val_getElem_key h rfl, val_getElem_key h heq.symm]

lemma not_keyPrintable_ctrlG : ¬ keyPrintable (key "KEY_CTRL_G") := by
  decide +kernel

/-- The bytes of a printable key are those in the map. -/
lemma literal_of_keyPrintable {seq : Bytes} (h : keyPrintable (identifyKey seq seq.length)) :
    ∃ e ∈ keyMap.take (key "KEY_UNKNOWN"), literal e.str = seq := by
  rw [identifyKey] at h
  cases hfind : keyMap.findIdx? fun e =>
      e.len == seq.length && strncmpEq e.len seq (literal e.str) with
  | none =>
    rw [hfind, Option.getD_none, keyPrintable] at h
    exact absurd h (lt_irrefl _)
  | some i =>
    rw [hfind, Option.getD_some, keyPrintable] at h
    obtain ⟨hi, hmatch, -⟩ := List.findIdx?_eq_some_iff_getElem.mp hfind
    rw [Bool.and_eq_true, beq_iff_eq] at hmatch
    have hmem : keyMap[i] ∈ keyMap.take (key "KEY_UNKNOWN") :=
      List.mem_take_iff_getElem.mpr ⟨i, lt_min h hi, rfl⟩
    obtain ⟨hlen, h0, -⟩ := literal_of_printable _ hmem
    exact ⟨_, hmem, (eq_of_strncmpEq hmatch.2 hmatch.1.symm hlen h0).symm⟩

/-- A literal in which no character is NUL is a text. -/
lemma exists_encode_literal {str : String} (h : '\x00' ∉ str.toList) :
    ∃ ds, literal str = utf8.encode ds := by
  rw [literal]
  generalize str.toList = cs at h
  induction cs with
  | nil => exact ⟨[], rfl⟩
  | cons c cs ih =>
    rw [List.mem_cons, not_or] at h
    have hc : c.toNat ≠ 0 := fun h0 => h.1 (Char.toNat_inj.mp h0.symm)
    obtain ⟨ds, hds⟩ := ih h.2
    obtain ⟨d, hd⟩ : ∃ d : CodePoint, utf8.word d = String.utf8EncodeChar c := ⟨⟨c, hc⟩, rfl⟩
    refine ⟨d :: ds, ?_⟩
    rw [List.flatMap_cons, hds, utf8.encode_cons, hd]

lemma literal_eq_encode {str : String} (h : 0 ∉ literal str) : ∃ ds, literal str = utf8.encode ds :=
  exists_encode_literal fun hnul => h (List.mem_flatMap.mpr ⟨'\x00', hnul, by decide⟩)

lemma zero_notMem_repr (n : ℕ) : '\x00' ∉ n.repr.toList := by
  rw [Nat.repr, String.toList_ofList]
  intro h
  have hdigit := Nat.isDigit_of_mem_toDigits (by decide) (by decide) h
  exact absurd hdigit (by decide)

/-- A number is written without a NUL. -/
lemma zero_notMem_toString (n : ℤ) : '\x00' ∉ (toString n).toList := by
  rw [Int.toString_eq_repr, Int.repr_eq_if]
  split_ifs
  · exact zero_notMem_repr _
  · rw [String.toList_append, List.mem_append, not_or]
    exact ⟨by decide, zero_notMem_repr _⟩

lemma literal_toString_eq_encode (n : ℤ) : ∃ ds, literal (toString n) = utf8.encode ds :=
  exists_encode_literal (zero_notMem_toString n)

/-! ### The stack of keys -/

/-- The key that was pushed last comes first. -/
abbrev CtrlStack := List Key

def pushCtrlStack (ctrlStack : CtrlStack) (k : Key) : CtrlStack := k :: ctrlStack

/-- `'\0'`, the value of the first printable key, is returned for an empty stack. -/
def popCtrlStack : CtrlStack → Key × CtrlStack
  | [] => (0, [])
  | k :: next => (k, next)

def isCtrlStackEmpty (ctrlStack : CtrlStack) : Bool := ctrlStack.isEmpty

/-- `while (popCtrlStack());` -/
def clearCtrlStack : CtrlStack → CtrlStack
  | [] => (popCtrlStack []).2
  | k :: next =>
    if (popCtrlStack (k :: next)).1 ≠ 0 then clearCtrlStack next else (popCtrlStack (k :: next)).2

lemma key_eq_zero_iff {val : String} : key val = 0 ↔ val = "KEY_BACKTICK" := by
  have hhead : keyMap.head? = some ⟨"KEY_BACKTICK", 1, "\x60", true⟩ := by
    rfl
  obtain ⟨rest, hmap⟩ := List.head?_eq_some_iff.mp hhead
  rw [key, hmap, List.findIdx_cons]
  by_cases h : val = "KEY_BACKTICK"
  · rw [h]
    exact iff_of_true rfl rfl
  · rw [beq_false_of_ne (Ne.symm h)]
    exact iff_of_false (Nat.succ_ne_zero _) h

lemma key_backtick : key "KEY_BACKTICK" = 0 := key_eq_zero_iff.mpr rfl

lemma key_unknown_pos : 0 < key "KEY_UNKNOWN" := by
  decide +kernel

lemma clearCtrlStack_cons (k : Key) (next : CtrlStack) :
    clearCtrlStack (k :: next) = if k ≠ 0 then clearCtrlStack next else next := rfl

/-- What is left of the stack was at its bottom. -/
lemma clearCtrlStack_suffix (ctrlStack : CtrlStack) : clearCtrlStack ctrlStack <:+ ctrlStack := by
  induction ctrlStack with
  | nil => exact List.suffix_rfl
  | cons k next ih =>
    rw [clearCtrlStack_cons]
    split_ifs
    · exact ih.trans (List.suffix_cons k next)
    · exact List.suffix_cons k next

/-- Emptying the stack stops at a backtick, unless that is the last key in it. -/
lemma clearCtrlStack_eq_nil_iff {ctrlStack : CtrlStack} :
    clearCtrlStack ctrlStack = [] ↔ 0 ∉ ctrlStack.dropLast := by
  induction ctrlStack with
  | nil => exact iff_of_true rfl List.not_mem_nil
  | cons k next ih =>
    rw [clearCtrlStack_cons]
    cases next with
    | nil => split_ifs <;> exact iff_of_true rfl List.not_mem_nil
    | cons k' next =>
      rw [List.dropLast_cons_cons, List.mem_cons, not_or]
      split_ifs with hk
      · rw [ih]
        exact (and_iff_right (Ne.symm hk)).symm
      · exact iff_of_false not_false (fun h => h.1 (not_ne_iff.mp hk).symm)

end Vjft.Term

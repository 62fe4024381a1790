import Std.Data.ExtTreeMap
import Mathlib.Algebra.Order.BigOperators.Group.List
import Mathlib.Algebra.Order.Group.Nat
import Mathlib.Data.List.Nodup

/-!
# Linked lists in memory

A heap has nodes at addresses, and `Chain` says which nodes are met when the links are followed from
a pointer on. A list that ends at the null pointer meets no node twice, so a node can be changed or
put behind the last one without a look at the rest. With a second link that leads the other way the
same holds for both directions.
-/

/-- Nodes at addresses. -/
abbrev Heap (N : Type*) := Std.ExtTreeMap ℕ N compare

namespace Heap

variable {N : Type*} (heap : Heap N)

lemma getElem?_insert_self (a : ℕ) (n : N) : (heap.insert a n)[a]? = some n :=
  Std.ExtTreeMap.getElem?_insert_self

lemma getElem?_insert_of_ne {a b : ℕ} (h : b ≠ a) (n : N) : (heap.insert a n)[b]? = heap[b]? := by
  rw [Std.ExtTreeMap.getElem?_insert, if_neg]
  exact fun hab => h (Std.LawfulEqCmp.eq_of_compare hab).symm

lemma getElem?_erase_of_ne {a b : ℕ} (h : b ≠ a) : (heap.erase a)[b]? = heap[b]? := by
  rw [Std.ExtTreeMap.getElem?_erase, if_neg]
  exact fun hab => h (Std.LawfulEqCmp.eq_of_compare hab).symm

lemma size_erase_lt {a : ℕ} {n : N} (h : heap[a]? = some n) : (heap.erase a).size < heap.size := by
  have hmem : heap.contains a = true :=
    Std.ExtTreeMap.mem_iff_isSome_getElem?.2 (by rw [h]; rfl)
  have hpos : 0 < heap.size := by
    rw [Nat.pos_iff_ne_zero]
    intro hzero
    rw [← Std.ExtTreeMap.eq_empty_iff_size_eq_zero] at hzero
    simp [hzero] at h
  rw [Std.ExtTreeMap.size_erase, if_pos hmem]
  omega

end Heap

namespace Linked

variable {N : Type*} (next : N → Option ℕ)

/-- The nodes that are met from the pointer `p` on, with their addresses, until the pointer is
`q`. -/
def Chain (heap : Heap N) : Option ℕ → List (ℕ × N) → Option ℕ → Prop
  | p, [], q => p = q
  | p, (a, n) :: nodes, q => p = some a ∧ heap[a]? = some n ∧ Chain heap (next n) nodes q

/-- The addresses of the nodes. -/
def addrs (nodes : List (ℕ × N)) : List ℕ := nodes.map Prod.fst

variable {next} {heap heap' : Heap N} {p q : Option ℕ} {nodes nodes' : List (ℕ × N)}

lemma chain_append_iff :
    Chain next heap p (nodes ++ nodes') q ↔
      ∃ r, Chain next heap p nodes r ∧ Chain next heap r nodes' q := by
  induction nodes generalizing p with
  | nil => simp [Chain]
  | cons node nodes ih => simp [Chain, ih, and_assoc]

/-- The first node stands where the pointer leads. -/
lemma Chain.head_eq (h : Chain next heap p nodes none) : p = (addrs nodes).head? := by
  cases nodes with
  | nil => exact h
  | cons node nodes => exact h.1

lemma Chain.eq_none_iff (h : Chain next heap p nodes none) : p = none ↔ nodes = [] := by
  rw [h.head_eq, List.head?_eq_none_iff, addrs, List.map_eq_nil_iff]

lemma Chain.getElem?_of_mem (h : Chain next heap p nodes q) {a : ℕ} {n : N}
    (hmem : (a, n) ∈ nodes) : heap[a]? = some n := by
  induction nodes generalizing p with
  | nil => cases hmem
  | cons node nodes ih =>
    rcases List.mem_cons.1 hmem with heq | hmem
    · cases heq
      exact h.2.1
    · exact ih h.2.2 hmem

/-- A chain stays when its nodes do. -/
lemma Chain.congr (h : Chain next heap p nodes q)
    (hheap : ∀ a ∈ addrs nodes, heap'[a]? = heap[a]?) : Chain next heap' p nodes q := by
  induction nodes generalizing p with
  | nil => exact h
  | cons node nodes ih =>
    obtain ⟨hp, hnode, hrest⟩ := h
    refine ⟨hp, ?_, ih hrest fun a ha => hheap a (List.mem_cons_of_mem _ ha)⟩
    rw [hheap node.1 List.mem_cons_self, hnode]

/-- The links lead to one list only. -/
lemma Chain.unique (h : Chain next heap p nodes none) (h' : Chain next heap p nodes' none) :
    nodes = nodes' := by
  induction nodes generalizing p nodes' with
  | nil =>
    cases nodes' with
    | nil => rfl
    | cons node' nodes' => cases h.symm.trans h'.1
  | cons node nodes ih =>
    cases nodes' with
    | nil => cases h.1.symm.trans h'
    | cons node' nodes' =>
      obtain ⟨a, n⟩ := node
      obtain ⟨a', n'⟩ := node'
      obtain rfl : a = a' := Option.some.inj (h.1.symm.trans h'.1)
      obtain rfl : n = n' := Option.some.inj (h.2.1.symm.trans h'.2.1)
      rw [ih h.2.2 h'.2.2]

/-- A list with an end meets no node twice. -/
lemma Chain.nodup (h : Chain next heap p nodes none) : (addrs nodes).Nodup := by
  induction nodes generalizing p with
  | nil => exact List.nodup_nil
  | cons node nodes ih =>
    obtain ⟨a, n⟩ := node
    obtain ⟨hp, hnode, hrest⟩ := h
    refine List.nodup_cons.2 ⟨?_, ih hrest⟩
    intro hmem
    obtain ⟨⟨a', n'⟩, hnode', rfl⟩ := List.mem_map.1 hmem
    obtain rfl : n = n' := Option.some.inj (hnode.symm.trans (hrest.getElem?_of_mem hnode'))
    obtain ⟨before, after, rfl⟩ := List.append_of_mem hnode'
    -- what follows the node is the same at both places
    obtain ⟨r, -, hr⟩ := chain_append_iff.1 hrest
    have heq := congrArg List.length (hrest.unique hr.2.2)
    simp only [List.length_append, List.length_cons] at heq
    omega

/-- A node that is changed, but for its link, is changed in the list. -/
lemma Chain.set {a : ℕ} {n n' : N} (h : Chain next heap p (nodes ++ (a, n) :: nodes') none)
    (hnext : next n' = next n) :
    Chain next (heap.insert a n') p (nodes ++ (a, n') :: nodes') none := by
  have hnodup := h.nodup
  rw [addrs, List.map_append, List.map_cons, List.nodup_append, List.nodup_cons] at hnodup
  obtain ⟨-, ⟨hafter, -⟩, hbefore⟩ := hnodup
  obtain ⟨r, hchain, hr, -, hrest⟩ := chain_append_iff.1 h
  refine chain_append_iff.2 ⟨r, hchain.congr ?_, hr, heap.getElem?_insert_self a n', ?_⟩
  · intro b hb
    apply heap.getElem?_insert_of_ne
    exact hbefore b hb a List.mem_cons_self
  · rw [hnext]
    apply hrest.congr
    intro b hb
    apply heap.getElem?_insert_of_ne
    rintro rfl
    exact hafter hb

/-- A new node in front. -/
lemma Chain.cons {a : ℕ} {n : N} (h : Chain next heap p nodes none) (hnew : heap[a]? = none)
    (hnext : next n = p) : Chain next (heap.insert a n) (some a) ((a, n) :: nodes) none := by
  refine ⟨rfl, heap.getElem?_insert_self a n, ?_⟩
  rw [hnext]
  apply h.congr
  intro b hb
  apply heap.getElem?_insert_of_ne
  rintro rfl
  obtain ⟨⟨b, n'⟩, hmem, rfl⟩ := List.mem_map.1 hb
  rw [h.getElem?_of_mem hmem] at hnew
  cases hnew

/-- A new node behind the last one, whose link is changed to it. -/
lemma Chain.snoc {a t : ℕ} {n n' m : N} (h : Chain next heap p (nodes ++ [(t, n)]) none)
    (hnew : heap[a]? = none) (hn' : next n' = some a) (hm : next m = none) :
    Chain next ((heap.insert a m).insert t n') p (nodes ++ [(t, n'), (a, m)]) none := by
  have hnodup := h.nodup
  rw [addrs, List.map_append, List.nodup_append] at hnodup
  obtain ⟨-, -, hbefore⟩ := hnodup
  have hold : ∀ b ∈ addrs (nodes ++ [(t, n)]), b ≠ a := by
    rintro b hb rfl
    obtain ⟨⟨b, n⟩, hmem, rfl⟩ := List.mem_map.1 hb
    rw [h.getElem?_of_mem hmem] at hnew
    cases hnew
  have hta : a ≠ t := (hold t (by simp [addrs])).symm
  obtain ⟨r, hchain, hr, -, -⟩ := chain_append_iff.1 h
  refine chain_append_iff.2 ⟨r, hchain.congr ?_, hr, ?_, hn', ?_, hm⟩
  · intro b hb
    rw [Heap.getElem?_insert_of_ne _ (hbefore b hb t (by simp)),
      Heap.getElem?_insert_of_ne _ (hold b (by simp [addrs] at hb ⊢; exact .inl hb))]
  · exact Heap.getElem?_insert_self _ t n'
  · rw [Heap.getElem?_insert_of_ne _ hta, Heap.getElem?_insert_self]

/-- The first node is taken away. -/
lemma Chain.tail {a : ℕ} {n : N} (h : Chain next heap p ((a, n) :: nodes) none) :
    Chain next (heap.erase a) (next n) nodes none := by
  have hnodup := h.nodup
  rw [addrs, List.map_cons, List.nodup_cons] at hnodup
  apply h.2.2.congr
  intro b hb
  apply heap.getElem?_erase_of_ne
  rintro rfl
  exact hnodup.1 hb

/-- A node is read where a chain has it. -/
lemma Chain.exists_mem (h : Chain next heap p nodes q) {a : ℕ} (ha : a ∈ addrs nodes) :
    ∃ n, heap[a]? = some n ∧ (a, n) ∈ nodes := by
  obtain ⟨⟨a, n⟩, hmem, rfl⟩ := List.mem_map.1 ha
  exact ⟨n, h.getElem?_of_mem hmem, hmem⟩

/-- The link of a node leads to the one behind it. -/
lemma Chain.link_eq {a : ℕ} {n : N} (h : Chain next heap p (nodes ++ (a, n) :: nodes') none) :
    next n = (addrs nodes').head? := by
  obtain ⟨r, -, hr⟩ := chain_append_iff.1 h
  exact hr.2.2.head_eq

/-- The links do not lead out of a chain. -/
lemma Chain.link_mem (h : Chain next heap p nodes none) {a b : ℕ} {n : N} (hmem : (a, n) ∈ nodes)
    (hlink : next n = some b) : b ∈ addrs nodes := by
  obtain ⟨before, after, rfl⟩ := List.append_of_mem hmem
  rw [h.link_eq] at hlink
  have hb : b ∈ addrs after := List.mem_of_mem_head? hlink
  rw [addrs, List.map_append, List.map_cons]
  exact List.mem_append_right _ (List.mem_cons_of_mem _ hb)

/-- The last node is the one whose link is the null pointer. -/
lemma Chain.link_getLast (h : Chain next heap p nodes none) {a : ℕ} {n : N}
    (ha : (addrs nodes).getLast? = some a) (hn : heap[a]? = some n) : next n = none := by
  rcases List.eq_nil_or_concat' nodes with rfl | ⟨before, ⟨b, m⟩, rfl⟩
  · cases ha
  · obtain rfl : b = a := by simpa [addrs] using ha
    have hm := h.getElem?_of_mem (List.mem_append_right _ List.mem_cons_self)
    obtain rfl : m = n := Option.some.inj (hm.symm.trans hn)
    exact h.link_eq

section TwoLinks

variable {prev : N → Option ℕ}

lemma Chain.link_back (h : Chain next heap p nodes none)
    (hback : Chain prev heap q nodes.reverse none) {a b : ℕ} {n m : N} (ha : (a, n) ∈ nodes)
    (hb : (b, m) ∈ nodes) (hlink : next n = some b) : prev m = some a := by
  obtain ⟨before, after, rfl⟩ := List.append_of_mem ha
  rw [h.link_eq] at hlink
  cases after with
  | nil => cases hlink
  | cons node after =>
    obtain ⟨b', m'⟩ := node
    obtain rfl : b' = b := Option.some.inj hlink
    have hmem' : (b', m') ∈ before ++ (a, n) :: (b', m') :: after := by simp
    obtain rfl : m' = m :=
      Option.some.inj ((h.getElem?_of_mem hmem').symm.trans (h.getElem?_of_mem hb))
    have hrev : (before ++ (a, n) :: (b', m') :: after).reverse =
        after.reverse ++ (b', m') :: (a, n) :: before.reverse := by simp
    rw [hrev] at hback
    exact hback.link_eq

/-- When the same nodes are met in the other order, the links are inverse to each other. -/
lemma Chain.link_iff (h : Chain next heap p nodes none)
    (hback : Chain prev heap q nodes.reverse none) {a b : ℕ} {n m : N} (ha : (a, n) ∈ nodes)
    (hb : (b, m) ∈ nodes) : next n = some b ↔ prev m = some a := by
  refine ⟨h.link_back hback ha hb, ?_⟩
  rw [← nodes.reverse_reverse] at h
  exact hback.link_back h (List.mem_reverse.2 hb) (List.mem_reverse.2 ha)

end TwoLinks

/-! ### Owners -/

/-- What an allocator answers to a call: an address where there is no node, or the null pointer. It
may look at all that was allocated and freed so far, here at the number of the call. -/
structure Allocator (N : Type*) where
  alloc : ℕ → Heap N → Option ℕ
  fresh : ∀ {calls heap a}, alloc calls heap = some a → heap[a]? = none

/-- An address above those of all nodes. -/
def above (heap : Heap N) : ℕ := heap.keys.foldr (fun a b => a + b) 0 + 1

lemma lt_above_of_mem {a : ℕ} (h : a ∈ heap.keys) : a < above heap :=
  Nat.lt_succ_of_le (List.le_sum_of_mem h)

lemma getElem?_above (heap : Heap N) : heap[above heap]? = none := by
  by_contra hne
  have hmem : above heap ∈ heap.keys :=
    Std.ExtTreeMap.mem_keys.2 (Std.ExtTreeMap.mem_iff_isSome_getElem?.2
      (Option.isSome_iff_ne_none.2 hne))
  exact (lt_above_of_mem hmem).false

/-- Each new node gets an address above those of all others. -/
def Allocator.above (N : Type*) : Allocator N where
  alloc _ heap := some (Linked.above heap)
  fresh h := Option.some.inj h ▸ getElem?_above _

/-- The nodes in memory are at these addresses, each of which has one owner. -/
structure Owns (heap : Heap N) (owned : List ℕ) : Prop where
  nodup : owned.Nodup
  mem_iff : ∀ a, a ∈ owned ↔ heap[a]? ≠ none

variable {owned owned' : List ℕ} {a : ℕ}

lemma owns_empty : Owns (∅ : Heap N) [] :=
  ⟨List.nodup_nil, fun a => by simp⟩

lemma Owns.perm (h : Owns heap owned) (hperm : owned.Perm owned') : Owns heap owned' :=
  ⟨hperm.nodup_iff.1 h.nodup, fun a => hperm.mem_iff.symm.trans (h.mem_iff a)⟩

lemma Owns.notMem (h : Owns heap owned) (hnew : heap[a]? = none) : a ∉ owned :=
  fun hmem => (h.mem_iff a).1 hmem hnew

lemma Owns.insert (h : Owns heap owned) (hnew : heap[a]? = none) (n : N) :
    Owns (heap.insert a n) (a :: owned) := by
  refine ⟨List.nodup_cons.2 ⟨h.notMem hnew, h.nodup⟩, fun b => ?_⟩
  rw [List.mem_cons]
  by_cases hab : b = a
  · rw [hab, heap.getElem?_insert_self]
    exact iff_of_true (.inl rfl) (Option.some_ne_none n)
  · rw [heap.getElem?_insert_of_ne hab, or_iff_right hab]
    exact h.mem_iff b

/-- A node that is changed keeps its owner. -/
lemma Owns.set (h : Owns heap owned) (hmem : a ∈ owned) (n : N) :
    Owns (heap.insert a n) owned := by
  refine ⟨h.nodup, fun b => ?_⟩
  by_cases hab : b = a
  · rw [hab, heap.getElem?_insert_self]
    exact iff_of_true hmem (Option.some_ne_none n)
  · rw [heap.getElem?_insert_of_ne hab]
    exact h.mem_iff b

lemma Owns.erase (h : Owns heap (a :: owned)) : Owns (heap.erase a) owned := by
  obtain ⟨hnew, hnodup⟩ := List.nodup_cons.1 h.nodup
  refine ⟨hnodup, fun b => ?_⟩
  by_cases hab : b = a
  · rw [hab, Std.ExtTreeMap.getElem?_erase_self]
    exact iff_of_false hnew fun hne => hne rfl
  · rw [heap.getElem?_erase_of_ne hab, ← h.mem_iff b, List.mem_cons, or_iff_right hab]

lemma Owns.length_le_size (h : Owns heap owned) : owned.length ≤ heap.size := by
  induction owned generalizing heap with
  | nil => exact Nat.zero_le _
  | cons a owned ih =>
    obtain ⟨n, hn⟩ := Option.ne_none_iff_exists'.1 ((h.mem_iff a).1 List.mem_cons_self)
    exact Nat.lt_of_le_of_lt (ih h.erase) (heap.size_erase_lt hn)

end Linked

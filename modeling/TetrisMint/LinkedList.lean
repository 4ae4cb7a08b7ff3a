import TetrisMint.CallRecord
import TetrisMint.ObjectHeap
import TetrisMint.StringArray

/-! The linked lists of `list.c` in their memory. The registry of players, the parties and
the open requests of a client are such lists; elsewhere they are plain lists. -/
namespace TetrisMint

open CallRecord FallibleRun ObjectHeap

/-- `struct st_node`: the pointer that the list holds, and the next node. -/
abbrev StNode := Node ℕ

structure StList where
  head : ℕ
  length : ℤ
deriving DecidableEq

/-- All lists with their nodes. -/
structure ListMemory where
  nodes : Heap StNode
  lists : Heap StList

/-- The object that a pointer leads to. Null leads to none, and neither does a pointer to
what was freed. -/
def load {α : Type} (objects : Heap α) (p : ℕ) : Except Fault α :=
  if p = 0 then .error .nullDereference else access (objects.lookup p)

/-- `v++` for an int. -/
def increment (v : ℤ) : Except Fault ℤ := if v = intMax then .error .overflow else .ok (v + 1)

section Functions

variable (malloc : Allocator)

def listCreate (mem : ListMemory) : ListMemory × ℕ :=
  let list := malloc.address mem.lists.keys
  ({ mem with lists := mem.lists.insert list ⟨0, 0⟩ }, list)

/-- `while (target->next != 0) target = target->next;` -/
def lastNode (nodes : Heap StNode) : ℕ → ℕ → Except Fault ℕ
  | 0, _ => .error .nonterminating
  | fuel + 1, target => do
    let node ← load nodes target
    if node.next = 0 then .ok target else lastNode nodes fuel node.next

def listEndNode (nodes : Heap StNode) (list : StList) : Except Fault ℕ :=
  if list.head = 0 then .ok 0 else lastNode nodes nodes.keys.card list.head

/-- `i` times `node = node->next`. -/
def nextNode (nodes : Heap StNode) : ℕ → ℕ → Except Fault ℕ
  | 0, node => .ok node
  | i + 1, node => do nextNode nodes i (← load nodes node).next

/-- The loop runs not at all for a negative index. -/
def listGet (mem : ListMemory) (list : ℕ) (index : ℤ) : Except Fault ℕ := do
  let l ← load mem.lists list
  if l.length ≤ index then .ok 0
  else do
    let node ← nextNode mem.nodes index.toNat l.head
    .ok (← load mem.nodes node).target

def searchNodes (nodes : Heap StNode) (matcher : ℕ → Bool) : ℕ → ℕ → Except Fault ℕ
  | 0, _ => .error .nonterminating
  | fuel + 1, node =>
    if node = 0 then .ok 0
    else do
      let n ← load nodes node
      if matcher n.target then .ok n.target else searchNodes nodes matcher fuel n.next

def listSearch (mem : ListMemory) (list : ℕ) (matcher : ℕ → Bool) : Except Fault ℕ := do
  let l ← load mem.lists list
  searchNodes mem.nodes matcher (mem.nodes.keys.card + 1) l.head

/-- The new node behind the last one, and the head that the list has then. -/
def linkNode (nodes : Heap StNode) (list : StList) (node : ℕ) : Except Fault (Heap StNode × ℕ) := do
  let last ← listEndNode nodes list
  if last = 0 then .ok (nodes, node)
  else do
    let n ← load nodes last
    .ok (nodes.insert last { n with next := node }, list.head)

def listAppend (mem : ListMemory) (list target : ℕ) : Except Fault ListMemory := do
  let node := malloc.address mem.nodes.keys
  let l ← load mem.lists list
  let (nodes, head) ← linkNode (mem.nodes.insert node ⟨target, 0⟩) l node
  let length ← increment l.length
  .ok ⟨nodes, mem.lists.insert list ⟨head, length⟩⟩

/-- The loop of list_free: the next node is read before the node is freed. -/
def freeNodes : ℕ → ℕ → Heap StNode → Except Fault (Heap StNode)
  | 0, _, _ => .error .nonterminating
  | fuel + 1, next, nodes =>
    if next = 0 then .ok nodes
    else do
      let target ← load nodes next
      freeNodes fuel target.next (nodes.erase next)

def listFree (mem : ListMemory) (list : ℕ) : Except Fault ListMemory := do
  let l ← load mem.lists list
  let nodes ← freeNodes (mem.nodes.keys.card + 1) l.head mem.nodes
  .ok ⟨nodes, mem.lists.erase list⟩

inductive ListCall
  | create
  | append (list target : ℕ)
  | get (list : ℕ) (index : ℤ)
  | search (list : ℕ) (matcher : ℕ → Bool)
  | free (list : ℕ)

/-- A call and its return value, 0 where there is none. -/
def ListCall.call (mem : ListMemory) : ListCall → Except Fault (ListMemory × ℕ)
  | .create => .ok (listCreate malloc mem)
  | .append list target => do .ok (← listAppend malloc mem list target, 0)
  | .get list index => do .ok (mem, ← listGet mem list index)
  | .search list matcher => do .ok (mem, ← listSearch mem list matcher)
  | .free list => do .ok (← listFree mem list, 0)

/-- What the calls are for: the lists without their nodes. -/
abbrev ListStore := Heap (List ℕ)

def ListCall.spec (store : ListStore) : ListCall → Except Fault (ListStore × ℕ)
  | .create =>
    let list := malloc.address store.keys
    .ok (store.insert list [], list)
  | .append list target => do
    let xs ← load store list
    if xs.length = intMax then .error .overflow
    else .ok (store.insert list (xs ++ [target]), 0)
  | .get list index => do
    let xs ← load store list
    if xs.length ≤ index then .ok (store, 0)
    else
      match xs[index.toNat]? with
      | some x => .ok (store, x)
      -- a negative index is one too large for the empty list only
      | none => .error .nullDereference
  | .search list matcher => do
    let xs ← load store list
    .ok (store, (xs.find? matcher).getD 0)
  | .free list => do
    let _ ← load store list
    .ok (store.erase list, 0)

end Functions

section Loops

variable {nodes : Heap StNode} {p : ℕ} {cells : List (ℕ × ℕ)}

theorem load_eq_ok {α : Type} {objects : Heap α} {p : ℕ} {a : α} :
    load objects p = .ok a ↔ p ≠ 0 ∧ objects.lookup p = some a := by
  unfold load
  split_ifs with hp
  · simp [hp]
  · rw [access_eq_ok]
    exact ⟨fun h => ⟨hp, h⟩, fun h => h.2⟩

theorem load_cell {a x : ℕ} (h : Chain nodes p cells) (hmem : (a, x) ∈ cells) :
    ∃ next, load nodes a = .ok ⟨x, next⟩ := by
  obtain ⟨front, back, rfl⟩ := List.append_of_mem hmem
  obtain ⟨r, -, -, hnull, next, hnode, -⟩ := segment_append.mp h
  exact ⟨next, load_eq_ok.mpr ⟨hnull, hnode⟩⟩

theorem lastNode_eq {front : List (ℕ × ℕ)} {a x fuel : ℕ} (h : Chain nodes p (front ++ [(a, x)]))
    (hfuel : front.length < fuel) : lastNode nodes fuel p = .ok a := by
  induction front generalizing p fuel with
  | nil =>
    obtain ⟨rfl, hnull, next, hnode, rfl⟩ := h
    obtain ⟨n, rfl⟩ := Nat.exists_eq_add_of_lt hfuel
    rw [lastNode, load_eq_ok.mpr ⟨hnull, hnode⟩, ok_bind, if_pos rfl]
  | cons cell front ih =>
    obtain ⟨rfl, hnull, next, hnode, hrest⟩ := h
    obtain ⟨n, rfl⟩ := Nat.exists_eq_add_of_lt hfuel
    -- there is a node behind this one, so the loop goes on
    have hnext : next ≠ 0 := by
      rintro rfl
      exact absurd (chain_null.mp hrest) (by simp)
    rw [lastNode, load_eq_ok.mpr ⟨hnull, hnode⟩, ok_bind, if_neg hnext]
    apply ih hrest
    rw [List.length_cons] at *
    omega

theorem nextNode_eq {i : ℕ} (h : Chain nodes p cells) {a x : ℕ} (hi : cells[i]? = some (a, x)) :
    nextNode nodes i p = .ok a := by
  induction i generalizing p cells with
  | zero =>
    cases cells with
    | nil => exact absurd hi (by simp)
    | cons cell cells =>
      rw [List.getElem?_cons_zero, Option.some.injEq] at hi
      rw [nextNode, h.1, hi]
  | succ i ih =>
    cases cells with
    | nil => exact absurd hi (by simp)
    | cons cell cells =>
      obtain ⟨rfl, hnull, next, hnode, hrest⟩ := h
      rw [nextNode, load_eq_ok.mpr ⟨hnull, hnode⟩, ok_bind]
      exact ih hrest hi

theorem searchNodes_eq {fuel : ℕ} (matcher : ℕ → Bool) (h : Chain nodes p cells)
    (hfuel : cells.length < fuel) :
    searchNodes nodes matcher fuel p = .ok (((targets cells).find? matcher).getD 0) := by
  induction cells generalizing p fuel with
  | nil =>
    obtain ⟨n, rfl⟩ := Nat.exists_eq_add_of_lt hfuel
    have hp : p = 0 := h
    rw [searchNodes, if_pos hp]
    rfl
  | cons cell cells ih =>
    obtain ⟨rfl, hnull, next, hnode, hrest⟩ := h
    obtain ⟨n, rfl⟩ := Nat.exists_eq_add_of_lt hfuel
    rw [searchNodes, if_neg hnull, load_eq_ok.mpr ⟨hnull, hnode⟩, ok_bind, targets_cons]
    cases hm : matcher cell.2 with
    | true => rw [if_pos rfl, List.find?_cons_of_pos hm, Option.getD_some]
    | false =>
      rw [if_neg Bool.false_ne_true, List.find?_cons_of_neg (by simp [hm])]
      apply ih hrest
      rw [List.length_cons] at *
      omega

/-- The loop frees the nodes of its chain, each once, and no others. -/
theorem freeNodes_eq {fuel : ℕ} (h : Chain nodes p cells) (hfuel : cells.length < fuel) :
    ∃ rest, freeNodes fuel p nodes = .ok rest ∧
      (∀ a ∈ addresses cells, a ∉ rest) ∧
      ∀ a, a ∉ addresses cells → rest.lookup a = nodes.lookup a := by
  induction cells generalizing p fuel nodes with
  | nil =>
    obtain ⟨n, rfl⟩ := Nat.exists_eq_add_of_lt hfuel
    have hp : p = 0 := h
    exact ⟨nodes, by rw [freeNodes, if_pos hp], by simp, fun a _ => rfl⟩
  | cons cell cells ih =>
    obtain ⟨rfl, hnull, next, hnode, hrest⟩ := id h
    obtain ⟨n, rfl⟩ := Nat.exists_eq_add_of_lt hfuel
    have hhead : cell.1 ∉ addresses cells := (List.nodup_cons.mp (Chain.nodup h)).1
    -- the rest of the chain does not use the node that is freed first
    have hchain : Chain (nodes.erase cell.1) next cells := by
      apply hrest.congr
      intro a ha
      apply Finmap.lookup_erase_ne
      rintro rfl
      exact hhead ha
    obtain ⟨rest, hfree, hgone, hkept⟩ := ih hchain
      (show cells.length < cells.length + 1 + n by omega)
    refine ⟨rest, ?_, ?_, ?_⟩
    · rw [freeNodes, if_neg hnull, load_eq_ok.mpr ⟨hnull, hnode⟩, ok_bind, List.length_cons]
      exact hfree
    · intro a ha
      rcases List.mem_cons.mp ha with rfl | ha
      · rw [← Finmap.lookup_eq_none, hkept _ hhead]
        exact Finmap.lookup_erase _ _
      · exact hgone a ha
    · intro a ha
      rw [addresses_cons, List.mem_cons, not_or] at ha
      rw [hkept a ha.2, Finmap.lookup_erase_ne ha.1]

/-- A new node becomes the end of the list, and the other lists are not touched. -/
theorem linkNode_eq {list : StList} {node target : ℕ} (h : Chain nodes list.head cells)
    (hnull : node ≠ 0) (hfresh : node ∉ nodes) :
    ∃ nodes' head, linkNode (nodes.insert node ⟨target, 0⟩) list node = .ok (nodes', head) ∧
      Chain nodes' head (cells ++ [(node, target)]) ∧
      ∀ a, a ∉ addresses (cells ++ [(node, target)]) → nodes'.lookup a = nodes.lookup a := by
  rcases List.eq_nil_or_concat cells with rfl | ⟨front, ⟨last, x⟩, rfl⟩
  · -- an empty list gets a head
    have hhead : list.head = 0 := h
    refine ⟨nodes.insert node ⟨target, 0⟩, node, ?_, ⟨rfl, hnull, 0, Finmap.lookup_insert _, rfl⟩, ?_⟩
    · rw [linkNode, listEndNode, if_pos hhead, ok_bind, if_pos rfl]
    · intro a ha
      apply Finmap.lookup_insert_of_ne
      simpa using ha
  · rw [List.concat_eq_append] at h ⊢
    have hlast : last ≠ 0 ∧ last ∈ nodes := h.ne_null last (by simp)
    have hne : last ≠ node := by
      rintro rfl
      exact hfresh hlast.2
    have hhead : list.head ≠ 0 := by
      intro hhead
      rw [hhead] at h
      exact absurd (chain_null.mp h) (by simp)
    -- the new node is not on the chain yet, so the end is where it was
    have hchain : Chain (nodes.insert node ⟨target, 0⟩) list.head (front ++ [(last, x)]) := by
      apply h.congr
      intro a ha
      apply Finmap.lookup_insert_of_ne
      rintro rfl
      exact hfresh (h.ne_null a ha).2
    have hend : listEndNode (nodes.insert node ⟨target, 0⟩) list = .ok last := by
      rw [listEndNode, if_neg hhead]
      apply lastNode_eq hchain
      have hle := Chain.length_le hchain
      rw [List.length_append, List.length_singleton] at hle
      omega
    obtain ⟨next, hload⟩ := load_cell hchain (List.mem_append_right _ (List.mem_singleton_self _))
    refine ⟨_, list.head, ?_, h.hang hnull hfresh, ?_⟩
    · rw [linkNode, hend, ok_bind, if_neg hlast.1, hload, ok_bind]
    · intro a ha
      simp only [addresses_append, addresses_cons, addresses_nil, List.mem_append, List.mem_singleton,
        not_or] at ha
      rw [Finmap.lookup_insert_of_ne _ ha.1.2, Finmap.lookup_insert_of_ne _ ha.2]

end Loops

/-- The memory of the lists in `store`: `cells` are the nodes of each. No two lists share a
node, and every node that is live belongs to a list. -/
structure Represents (mem : ListMemory) (cells : ℕ → List (ℕ × ℕ)) (store : ListStore) : Prop where
  store : ∀ p, store.lookup p = (mem.lists.lookup p).map fun _ => targets (cells p)
  chain : ∀ p l, mem.lists.lookup p = some l → Chain mem.nodes l.head (cells p)
  length : ∀ p l, mem.lists.lookup p = some l → l.length = (cells p).length
  apart : ∀ p ∈ mem.lists, ∀ q ∈ mem.lists, p ≠ q → ∀ a ∈ addresses (cells p), a ∉ addresses (cells q)
  owned : ∀ a ∈ mem.nodes, ∃ p ∈ mem.lists, a ∈ addresses (cells p)

section Refinement

variable {mem : ListMemory} {cells : ℕ → List (ℕ × ℕ)} {store : ListStore}

theorem Represents.mem_iff (h : Represents mem cells store) (p : ℕ) : p ∈ store ↔ p ∈ mem.lists := by
  rw [← Finmap.lookup_isSome, ← Finmap.lookup_isSome, h.store, Option.isSome_map]

theorem Represents.keys (h : Represents mem cells store) : store.keys = mem.lists.keys := by
  ext p
  rw [Finmap.mem_keys, Finmap.mem_keys, h.mem_iff]

theorem Represents.load (h : Represents mem cells store) (p : ℕ) :
    TetrisMint.load store p = (TetrisMint.load mem.lists p).map fun _ => targets (cells p) := by
  unfold TetrisMint.load
  split_ifs
  · rfl
  · rw [h.store]
    cases mem.lists.lookup p with
    | none => rfl
    | some l => rfl

/-- A list that is created, or that grows by new nodes. -/
theorem Represents.grow (h : Represents mem cells store) {list : ℕ} {l : StList}
    {grown : List (ℕ × ℕ)} {nodes : Heap StNode} (hchain : Chain nodes l.head grown)
    (hlength : l.length = grown.length)
    (hkept : list ∈ mem.lists → ∀ a ∈ addresses (cells list), a ∈ addresses grown)
    (hnew : ∀ a ∈ addresses grown, a ∈ mem.nodes → list ∈ mem.lists ∧ a ∈ addresses (cells list))
    (hframe : ∀ a, a ∉ addresses grown → nodes.lookup a = mem.nodes.lookup a) :
    Represents ⟨nodes, mem.lists.insert list l⟩ (Function.update cells list grown)
      (store.insert list (targets grown)) := by
  -- the nodes of the other lists are none of the grown list's
  have hother : ∀ q ∈ mem.lists, q ≠ list → ∀ a ∈ addresses (cells q), a ∉ addresses grown := by
    intro q hq hne a ha hgrown
    obtain ⟨lq, hlq⟩ := Finmap.mem_iff.mp hq
    obtain ⟨hlist, hmem⟩ := hnew a hgrown ((h.chain q lq hlq).ne_null a ha).2
    exact h.apart q hq list hlist hne a ha hmem
  refine ⟨?_, ?_, ?_, ?_, ?_⟩
  · intro p
    by_cases hp : p = list
    · subst hp
      rw [Finmap.lookup_insert, Finmap.lookup_insert, Function.update_self, Option.map_some]
    · rw [Finmap.lookup_insert_of_ne _ hp, Finmap.lookup_insert_of_ne _ hp,
        Function.update_of_ne hp, h.store]
  · intro p l' hl'
    by_cases hp : p = list
    · subst hp
      rw [Finmap.lookup_insert, Option.some.injEq] at hl'
      rw [Function.update_self, ← hl']
      exact hchain
    · rw [Finmap.lookup_insert_of_ne _ hp] at hl'
      rw [Function.update_of_ne hp]
      apply (h.chain p l' hl').congr
      intro a ha
      exact hframe a (hother p (Finmap.mem_of_lookup_eq_some hl') hp a ha)
  · intro p l' hl'
    by_cases hp : p = list
    · subst hp
      rw [Finmap.lookup_insert, Option.some.injEq] at hl'
      rw [Function.update_self, ← hl', hlength]
    · rw [Finmap.lookup_insert_of_ne _ hp] at hl'
      rw [Function.update_of_ne hp]
      exact h.length p l' hl'
  · intro p hp q hq hpq a ha haq
    rw [Finmap.mem_insert] at hp hq
    by_cases hpl : p = list
    · subst hpl
      rw [Function.update_self] at ha
      rw [Function.update_of_ne hpq.symm] at haq
      exact hother q (hq.resolve_left hpq.symm) hpq.symm a haq ha
    · rw [Function.update_of_ne hpl] at ha
      have hpmem : p ∈ mem.lists := hp.resolve_left hpl
      by_cases hql : q = list
      · subst hql
        rw [Function.update_self] at haq
        exact hother p hpmem hpl a ha haq
      · rw [Function.update_of_ne hql] at haq
        exact h.apart p hpmem q (hq.resolve_left hql) hpq a ha haq
  · intro a ha
    by_cases hgrown : a ∈ addresses grown
    · exact ⟨list, Finmap.mem_insert.mpr (Or.inl rfl), by rwa [Function.update_self]⟩
    · -- a node that was there before has its list still
      have hold : a ∈ mem.nodes := by
        rw [← Finmap.lookup_isSome, ← hframe a hgrown]
        exact Finmap.lookup_isSome.mpr ha
      obtain ⟨p, hp, hap⟩ := h.owned a hold
      have hne : p ≠ list := by
        rintro rfl
        exact hgrown (hkept hp a hap)
      exact ⟨p, Finmap.mem_insert.mpr (Or.inr hp), by rwa [Function.update_of_ne hne]⟩

/-- A list that is freed with its nodes. -/
theorem Represents.erase (h : Represents mem cells store) {list : ℕ} (hlist : list ∈ mem.lists)
    {nodes : Heap StNode} (hgone : ∀ a ∈ addresses (cells list), a ∉ nodes)
    (hframe : ∀ a, a ∉ addresses (cells list) → nodes.lookup a = mem.nodes.lookup a) :
    Represents ⟨nodes, mem.lists.erase list⟩ cells (store.erase list) := by
  -- whoever is still found is another list
  have hlookup {α : Type} {objects : Heap α} {p : ℕ} {a : α}
      (hp : (objects.erase list).lookup p = some a) : p ≠ list ∧ objects.lookup p = some a := by
    have hne : p ≠ list := by
      rintro rfl
      rw [Finmap.lookup_erase] at hp
      exact absurd hp (by simp)
    exact ⟨hne, by rwa [Finmap.lookup_erase_ne hne] at hp⟩
  refine ⟨?_, ?_, ?_, ?_, ?_⟩
  · intro p
    by_cases hp : p = list
    · subst hp
      rw [Finmap.lookup_erase, Finmap.lookup_erase, Option.map_none]
    · rw [Finmap.lookup_erase_ne hp, Finmap.lookup_erase_ne hp, h.store]
  · intro p l hl
    obtain ⟨hp, hl⟩ := hlookup hl
    apply (h.chain p l hl).congr
    intro a ha
    exact hframe a (h.apart p (Finmap.mem_of_lookup_eq_some hl) list hlist hp a ha)
  · intro p l hl
    exact h.length p l (hlookup hl).2
  · intro p hp q hq
    exact h.apart p (Finmap.mem_erase.mp hp).2 q (Finmap.mem_erase.mp hq).2
  · -- a node that is left belongs to one of the other lists
    intro a ha
    have hkept : a ∉ addresses (cells list) := fun hmem => hgone a hmem ha
    have hold : a ∈ mem.nodes := by
      rw [← Finmap.lookup_isSome, ← hframe a hkept]
      exact Finmap.lookup_isSome.mpr ha
    obtain ⟨p, hp, hap⟩ := h.owned a hold
    have hne : p ≠ list := by
      rintro rfl
      exact hkept hap
    exact ⟨p, Finmap.mem_erase.mpr ⟨hne, hp⟩, hap⟩

theorem increment_natCast (n : ℕ) :
    increment (n : ℤ) = if n = intMax then .error .overflow else .ok ((n + 1 : ℕ) : ℤ) := by
  simp only [increment, Nat.cast_inj, Nat.cast_add, Nat.cast_one]

section Calls

variable (malloc : Allocator)

theorem listCreate_represents (h : Represents mem cells store) :
    ∃ cells', Represents (listCreate malloc mem).1 cells'
      (store.insert (listCreate malloc mem).2 []) := by
  have hfresh : malloc.address mem.lists.keys ∉ mem.lists := malloc.not_mem _
  refine ⟨_, @Represents.grow _ _ _ h (malloc.address mem.lists.keys) ⟨0, 0⟩ [] mem.nodes rfl rfl ?_ ?_
    fun _ _ => rfl⟩
  · intro hmem
    exact absurd hmem hfresh
  · intro a ha
    exact absurd ha List.not_mem_nil

theorem listAppend_refines (h : Represents mem cells store) (list target : ℕ) :
    Agree (fun (r s : _ × ℕ) => (∃ cells', Represents r.1 cells' s.1) ∧ r.2 = s.2)
      ((ListCall.append list target).call malloc mem) ((ListCall.append list target).spec malloc store) := by
  simp only [ListCall.call, ListCall.spec, listAppend, h.load]
  cases hload : TetrisMint.load mem.lists list with
  | error e => exact .error e
  | ok l =>
    obtain ⟨-, hl⟩ := load_eq_ok.mp hload
    have hlist : list ∈ mem.lists := Finmap.mem_of_lookup_eq_some hl
    have hfresh : malloc.address mem.nodes.keys ∉ mem.nodes := malloc.not_mem _
    obtain ⟨nodes', head, hlink, hchain, hframe⟩ := @linkNode_eq _ _ l _ target (h.chain list l hl)
      (malloc.ne_null _) hfresh
    simp only [Except.map, ok_bind, hlink, h.length list l hl, increment_natCast, length_targets]
    split_ifs with hmax
    · exact .error _
    · -- the list keeps its nodes and gets one that no list had
      have hgrown : ∀ a ∈ addresses (cells list ++ [(malloc.address mem.nodes.keys, target)]),
          a ∈ mem.nodes → list ∈ mem.lists ∧ a ∈ addresses (cells list) := by
        intro a ha hmem
        rw [addresses_append, List.mem_append] at ha
        refine ⟨hlist, ha.resolve_right ?_⟩
        rw [addresses_cons, addresses_nil, List.mem_singleton]
        rintro rfl
        exact hfresh hmem
      have hrep := @Represents.grow _ _ _ h list ⟨head, ((cells list).length + 1 : ℕ)⟩ _ nodes' hchain
        (by simp) (fun _ a ha => by rw [addresses_append]; exact List.mem_append_left _ ha) hgrown hframe
      rw [targets_append] at hrep
      exact .ok ⟨⟨_, hrep⟩, rfl⟩

theorem listGet_eq (h : Represents mem cells store) (list : ℕ) (index : ℤ) :
    ((ListCall.get list index).call malloc mem).map Prod.snd =
      ((ListCall.get list index).spec malloc store).map Prod.snd := by
  simp only [ListCall.call, ListCall.spec, listGet, h.load]
  cases hload : TetrisMint.load mem.lists list with
  | error e => rfl
  | ok l =>
    obtain ⟨-, hl⟩ := load_eq_ok.mp hload
    have hchain := h.chain list l hl
    simp only [Except.map, ok_bind, h.length list l hl, length_targets]
    split_ifs with hindex
    · rfl
    · cases hcell : (cells list)[index.toNat]? with
      | some cell =>
        obtain ⟨a, x⟩ := cell
        obtain ⟨next, hnode⟩ := load_cell hchain (List.mem_of_getElem? hcell)
        have htarget : (targets (cells list))[index.toNat]? = some x := by
          rw [targets, List.getElem?_map, hcell, Option.map_some]
        simp only [nextNode_eq hchain hcell, ok_bind, hnode, htarget]
      | none =>
        -- only an index below zero gets here, and only when there is no node at all
        have hlen := List.getElem?_eq_none_iff.mp hcell
        have hnil : cells list = [] := by
          apply List.eq_nil_of_length_eq_zero
          omega
        have hzero : index.toNat = 0 := by
          rw [hnil] at hindex
          simp only [List.length_nil, Nat.cast_zero] at hindex
          omega
        have hhead : l.head = 0 := by
          rw [hnil] at hchain
          exact hchain
        rw [hzero, hnil, nextNode, ok_bind, hhead]
        rfl

theorem listSearch_eq (h : Represents mem cells store) (list : ℕ) (matcher : ℕ → Bool) :
    ((ListCall.search list matcher).call malloc mem).map Prod.snd =
      ((ListCall.search list matcher).spec malloc store).map Prod.snd := by
  simp only [ListCall.call, ListCall.spec, listSearch, h.load]
  cases hload : TetrisMint.load mem.lists list with
  | error e => rfl
  | ok l =>
    obtain ⟨-, hl⟩ := load_eq_ok.mp hload
    have hchain := h.chain list l hl
    simp only [Except.map, ok_bind,
      searchNodes_eq matcher hchain (Nat.lt_succ_of_le (Chain.length_le hchain))]

theorem listFree_refines (h : Represents mem cells store) (list : ℕ) :
    Agree (fun (r s : _ × ℕ) => (∃ cells', Represents r.1 cells' s.1) ∧ r.2 = s.2)
      ((ListCall.free list).call malloc mem) ((ListCall.free list).spec malloc store) := by
  simp only [ListCall.call, ListCall.spec, listFree, h.load]
  cases hload : TetrisMint.load mem.lists list with
  | error e => exact .error e
  | ok l =>
    obtain ⟨-, hl⟩ := load_eq_ok.mp hload
    have hchain := h.chain list l hl
    obtain ⟨rest, hfree, hgone, hframe⟩ := freeNodes_eq hchain
      (Nat.lt_succ_of_le (Chain.length_le hchain))
    simp only [Except.map, ok_bind, hfree]
    exact .ok ⟨⟨cells, h.erase (Finmap.mem_of_lookup_eq_some hl) hgone hframe⟩, rfl⟩

theorem call_refines (h : Represents mem cells store) (call : ListCall) :
    Agree (fun (r s : _ × ℕ) => (∃ cells', Represents r.1 cells' s.1) ∧ r.2 = s.2)
      (call.call malloc mem) (call.spec malloc store) := by
  -- a call that only reads is settled by the value that it returns
  have hread {x : Except Fault ℕ} {y : Except Fault (ListStore × ℕ)}
      (hxy : (x.map fun v => (mem, v)).map Prod.snd = y.map Prod.snd)
      (hy : ∀ s, y = .ok s → s.1 = store) :
      Agree (fun (r s : _ × ℕ) => (∃ cells', Represents r.1 cells' s.1) ∧ r.2 = s.2)
        (x.map fun v => (mem, v)) y := by
    cases x with
    | error e =>
      cases y with
      | error e' =>
        rw [show e = e' from Except.error.inj hxy]
        exact .error e'
      | ok s => exact absurd hxy (by simp [Except.map])
    | ok v =>
      cases y with
      | error e' => exact absurd hxy (by simp [Except.map])
      | ok s =>
        refine .ok ⟨⟨cells, ?_⟩, Except.ok.inj hxy⟩
        rw [hy s rfl]
        exact h
  cases call with
  | create =>
    have hcreate := listCreate_represents malloc h
    refine .ok ⟨?_, ?_⟩
    · rw [h.keys]
      exact hcreate
    · rw [h.keys]
      rfl
  | append list target => exact listAppend_refines malloc h list target
  | get list index =>
    apply hread (listGet_eq malloc h list index)
    intro s hs
    simp only [ListCall.spec, bind_eq_ok] at hs
    obtain ⟨xs, -, hs⟩ := hs
    split_ifs at hs
    · rw [← Except.ok.inj hs]
    · cases hx : xs[index.toNat]? with
      | none => simp [hx] at hs
      | some x =>
        rw [hx] at hs
        rw [← Except.ok.inj hs]
  | search list matcher =>
    apply hread (listSearch_eq malloc h list matcher)
    intro s hs
    simp only [ListCall.spec, bind_eq_ok] at hs
    obtain ⟨xs, -, hs⟩ := hs
    rw [← Except.ok.inj hs]
  | free list => exact listFree_refines malloc h list

end Calls

/-- Every node belongs to one list, so there are as many as the lists have entries. -/
theorem Represents.card_nodes (h : Represents mem cells store) :
    mem.nodes.keys.card = ∑ p ∈ store.keys, ((store.lookup p).getD []).length := by
  have hcover : mem.nodes.keys = mem.lists.keys.biUnion fun p => (addresses (cells p)).toFinset := by
    ext a
    simp only [Finset.mem_biUnion, Finmap.mem_keys, List.mem_toFinset]
    constructor
    · exact h.owned a
    · rintro ⟨p, hp, ha⟩
      obtain ⟨l, hl⟩ := Finmap.mem_iff.mp hp
      exact ((h.chain p l hl).ne_null a ha).2
  rw [hcover, h.keys, Finset.card_biUnion]
  · apply Finset.sum_congr rfl
    intro p hp
    obtain ⟨l, hl⟩ := Finmap.mem_iff.mp (Finmap.mem_keys.mp hp)
    rw [List.toFinset_card_of_nodup (Chain.nodup (h.chain p l hl)), length_addresses, h.store, hl,
      Option.map_some, Option.getD_some, length_targets]
  · intro p hp q hq hpq
    rw [Function.onFun, Finset.disjoint_left]
    intro a ha haq
    rw [List.mem_toFinset] at ha haq
    exact h.apart p (Finmap.mem_keys.mp hp) q (Finmap.mem_keys.mp hq) hpq a ha haq

end Refinement

/-- Any calls on any number of lists, from the empty memory on, each with whatever address malloc
hands out then: they return what the same calls on plain lists return, or fail as these do, the
lists hold the same, and the nodes that are live are as many as the lists have entries. -/
theorem list_calls_refine (calls : List (Allocator × ListCall)) :
    Agree (fun t u => t.2.map Call.ret = u.2.map Call.ret ∧
        (∃ cells, Represents t.1 cells u.1) ∧
        t.1.nodes.keys.card = ∑ p ∈ u.1.keys, ((u.1.lookup p).getD []).length)
      (run (recordStep fun mem c => ListCall.call c.1 mem c.2) (⟨∅, ∅⟩, []) calls)
      (run (recordStep fun store c => ListCall.spec c.1 store c.2) (∅, []) calls) := by
  have hstart : Represents ⟨∅, ∅⟩ (fun _ => []) ∅ := by
    refine ⟨fun p => ?_, fun p l hl => ?_, fun p l hl => ?_, fun p hp => ?_, fun a ha => ?_⟩
    · rw [Finmap.lookup_empty, Finmap.lookup_empty, Option.map_none]
    · exact absurd hl (by rw [Finmap.lookup_empty]; simp)
    · exact absurd hl (by rw [Finmap.lookup_empty]; simp)
    · exact absurd hp Finmap.notMem_empty
    · exact absurd ha Finmap.notMem_empty
  have hrun := @Agree.run _ (Allocator × ListCall) _
    (recordStep fun mem c => ListCall.call c.1 mem c.2) _
    (recordStep fun store c => ListCall.spec c.1 store c.2)
    (fun t u => t.2.map Call.ret = u.2.map Call.ret ∧ ∃ cells, Represents t.1 cells u.1) ?_
    (⟨∅, ∅⟩, []) (∅, []) ⟨rfl, _, hstart⟩ calls
  · apply hrun.mono
    rintro t u ⟨hret, cells, h⟩
    exact ⟨hret, ⟨cells, h⟩, h.card_nodes⟩
  · rintro ⟨mem, past⟩ ⟨store, past'⟩ ⟨malloc, call⟩ ⟨hret, cells, h⟩
    apply (call_refines malloc h call).map
    rintro r r' ⟨hrep, hv⟩
    refine ⟨?_, hrep⟩
    rw [List.map_cons, List.map_cons, hret, hv]

end TetrisMint

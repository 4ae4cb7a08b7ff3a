import Mathlib.Data.Finmap
import Mathlib.Data.Finset.Lattice.Fold
import Mathlib.Tactic

/-! Objects of one type in memory that is allocated and freed by hand, and the singly
linked chains that nodes in such memory form. -/
namespace ObjectHeap

/-- The live objects by their addresses. -/
abbrev Heap (α : Type*) := Finmap fun _ : ℕ => α

/-- Where one call of malloc puts a new object: at an address that is neither null nor in use. Each
call may have an allocator of its own, so that the address can depend on all that came before. -/
structure Allocator where
  address : Finset ℕ → ℕ
  ne_null : ∀ used, address used ≠ 0
  fresh : ∀ used, address used ∉ used

/-- There is such an allocator: every new object goes behind all the others. -/
def bumpAllocator : Allocator where
  address used := used.sup id + 1
  ne_null _ := Nat.succ_ne_zero _
  fresh used := by
    intro h
    have hle : used.sup id + 1 ≤ used.sup id := Finset.le_sup (f := id) h
    omega

section Objects

variable {α : Type*} {objects : Heap α}

theorem Allocator.not_mem (m : Allocator) (objects : Heap α) : m.address objects.keys ∉ objects := by
  rw [← Finmap.mem_keys]
  exact m.fresh _

theorem keys_insert (p : ℕ) (a : α) : (objects.insert p a).keys = insert p objects.keys := by
  ext q
  rw [Finmap.mem_keys, Finmap.mem_insert, Finset.mem_insert, Finmap.mem_keys]

theorem keys_insert_of_mem {p : ℕ} (a : α) (h : p ∈ objects) :
    (objects.insert p a).keys = objects.keys := by
  rw [keys_insert]
  exact Finset.insert_eq_of_mem (Finmap.mem_keys.mpr h)

/-- A new object makes one more. -/
theorem card_insert {p : ℕ} (a : α) (h : p ∉ objects) :
    (objects.insert p a).keys.card = objects.keys.card + 1 := by
  rw [keys_insert]
  exact Finset.card_insert_of_notMem (fun hp => h (Finmap.mem_keys.mp hp))

/-- A freed object leaves one less. -/
theorem card_erase {p : ℕ} (h : p ∈ objects) :
    (objects.erase p).keys.card + 1 = objects.keys.card := by
  rw [Finmap.keys_erase]
  exact Finset.card_erase_add_one (Finmap.mem_keys.mpr h)

/-- Storing what an object holds already changes nothing. -/
theorem insert_of_lookup {p : ℕ} {a : α} (h : objects.lookup p = some a) :
    objects.insert p a = objects := by
  apply Finmap.ext_lookup
  intro q
  by_cases hq : q = p
  · rw [hq, Finmap.lookup_insert, h]
  · rw [Finmap.lookup_insert_of_ne _ hq]

/-- An object that is freed again leaves the memory as it was before. -/
theorem erase_insert {p : ℕ} (a : α) (h : p ∉ objects) : (objects.insert p a).erase p = objects := by
  apply Finmap.ext_lookup
  intro q
  by_cases hq : q = p
  · rw [hq, Finmap.lookup_erase, Finmap.lookup_eq_none.mpr h]
  · rw [Finmap.lookup_erase_ne hq, Finmap.lookup_insert_of_ne _ hq]

/-- An object that lives while another one is stored. -/
theorem erase_insert_insert {p q : ℕ} (a b : α) (h : p ∉ objects) (hqp : q ≠ p) :
    ((objects.insert p a).insert q b).erase p = objects.insert q b := by
  rw [Finmap.insert_insert_of_ne _ hqp.symm]
  apply erase_insert
  rw [Finmap.mem_insert]
  exact fun hp => hp.elim hqp.symm h

end Objects

section Chains

structure Node (α : Type*) where
  target : α
  next : ℕ
deriving DecidableEq

variable {α : Type*} {nodes nodes' : Heap (Node α)}

/-- The nodes of `cells`, given by address and target, are linked in this order from `p`
on, and the last of them points to `q`. -/
def Segment (nodes : Heap (Node α)) (q : ℕ) : ℕ → List (ℕ × α) → Prop
  | p, [] => p = q
  | p, (a, x) :: cells =>
    p = a ∧ a ≠ 0 ∧ ∃ next, nodes.lookup a = some ⟨x, next⟩ ∧ Segment nodes q next cells

/-- A segment that ends in null. -/
abbrev Chain (nodes : Heap (Node α)) (p : ℕ) (cells : List (ℕ × α)) : Prop := Segment nodes 0 p cells

def addresses (cells : List (ℕ × α)) : List ℕ := cells.map Prod.fst

def targets (cells : List (ℕ × α)) : List α := cells.map Prod.snd

@[simp] theorem addresses_nil : addresses ([] : List (ℕ × α)) = [] := rfl

@[simp] theorem addresses_cons (a : ℕ) (x : α) (cells : List (ℕ × α)) :
    addresses ((a, x) :: cells) = a :: addresses cells := rfl

@[simp] theorem addresses_append (cells cells' : List (ℕ × α)) :
    addresses (cells ++ cells') = addresses cells ++ addresses cells' := List.map_append

@[simp] theorem length_addresses (cells : List (ℕ × α)) : (addresses cells).length = cells.length :=
  List.length_map _

@[simp] theorem targets_nil : targets ([] : List (ℕ × α)) = [] := rfl

@[simp] theorem targets_cons (a : ℕ) (x : α) (cells : List (ℕ × α)) :
    targets ((a, x) :: cells) = x :: targets cells := rfl

@[simp] theorem targets_append (cells cells' : List (ℕ × α)) :
    targets (cells ++ cells') = targets cells ++ targets cells' := List.map_append

@[simp] theorem length_targets (cells : List (ℕ × α)) : (targets cells).length = cells.length :=
  List.length_map _

theorem segment_append {p q : ℕ} {cells cells' : List (ℕ × α)} :
    Segment nodes q p (cells ++ cells') ↔
      ∃ r, Segment nodes r p cells ∧ Segment nodes q r cells' := by
  induction cells generalizing p with
  | nil =>
    constructor
    · intro h
      exact ⟨p, rfl, h⟩
    · rintro ⟨r, rfl, h⟩
      exact h
  | cons cell cells ih =>
    constructor
    · rintro ⟨hp, hnull, next, hnode, h⟩
      obtain ⟨r, hfront, hback⟩ := ih.mp h
      exact ⟨r, ⟨hp, hnull, next, hnode, hfront⟩, hback⟩
    · rintro ⟨r, ⟨hp, hnull, next, hnode, hfront⟩, hback⟩
      exact ⟨hp, hnull, next, hnode, ih.mpr ⟨r, hfront, hback⟩⟩

/-- A segment looks at its own nodes only. -/
theorem Segment.congr {p q : ℕ} {cells : List (ℕ × α)} (h : Segment nodes q p cells)
    (hsame : ∀ a ∈ addresses cells, nodes'.lookup a = nodes.lookup a) : Segment nodes' q p cells := by
  induction cells generalizing p with
  | nil => exact h
  | cons cell cells ih =>
    obtain ⟨hp, hnull, next, hnode, hrest⟩ := h
    refine ⟨hp, hnull, next, ?_, ih hrest ?_⟩
    · rw [hsame _ (List.mem_cons_self ..)]
      exact hnode
    · intro a ha
      exact hsame a (List.mem_cons_of_mem _ ha)

theorem Segment.ne_null {p q : ℕ} {cells : List (ℕ × α)} (h : Segment nodes q p cells) :
    ∀ a ∈ addresses cells, a ≠ 0 ∧ a ∈ nodes := by
  induction cells generalizing p with
  | nil => simp
  | cons cell cells ih =>
    obtain ⟨-, hnull, next, hnode, hrest⟩ := h
    intro a ha
    rcases List.mem_cons.mp ha with rfl | ha
    · exact ⟨hnull, Finmap.mem_of_lookup_eq_some hnode⟩
    · exact ih hrest a ha

/-- The null pointer is the empty chain. -/
theorem chain_null {cells : List (ℕ × α)} : Chain nodes 0 cells ↔ cells = [] := by
  cases cells with
  | nil => exact ⟨fun _ => rfl, fun _ => rfl⟩
  | cons cell cells =>
    constructor
    · rintro ⟨hp, hnull, -⟩
      exact absurd hp.symm hnull
    · intro h
      exact absurd h (List.cons_ne_nil _ _)

/-- Any other pointer is a first node with a chain behind it. -/
theorem chain_of_ne_null {p : ℕ} {cells : List (ℕ × α)} (h : Chain nodes p cells) (hp : p ≠ 0) :
    ∃ x next rest, cells = (p, x) :: rest ∧ nodes.lookup p = some ⟨x, next⟩ ∧
      Chain nodes next rest := by
  cases cells with
  | nil => exact absurd h hp
  | cons cell rest =>
    obtain ⟨rfl, -, next, hnode, hrest⟩ := h
    exact ⟨cell.2, next, rest, rfl, hnode, hrest⟩

/-- A pointer is the start of one chain at most. -/
theorem Chain.unique {p : ℕ} {cells cells' : List (ℕ × α)} (h : Chain nodes p cells)
    (h' : Chain nodes p cells') : cells = cells' := by
  induction cells generalizing p cells' with
  | nil =>
    rw [show p = 0 from h] at h'
    exact (chain_null.mp h').symm
  | cons cell cells ih =>
    obtain ⟨rfl, hnull, next, hnode, hrest⟩ := h
    obtain ⟨x, next', rest, rfl, hnode', hrest'⟩ := chain_of_ne_null h' hnull
    have hsame : (⟨cell.2, next⟩ : Node α) = ⟨x, next'⟩ := by
      apply Option.some.inj
      rw [← hnode, ← hnode']
    rw [Node.mk.injEq] at hsame
    rw [ih hrest (hsame.2 ▸ hrest'), ← hsame.1]

/-- A chain that ends in null does not come back to a node. -/
theorem Chain.nodup {p : ℕ} {cells : List (ℕ × α)} (h : Chain nodes p cells) :
    (addresses cells).Nodup := by
  induction cells generalizing p with
  | nil => exact List.nodup_nil
  | cons cell cells ih =>
    obtain ⟨rfl, hnull, next, hnode, hrest⟩ := id h
    refine List.nodup_cons.mpr ⟨?_, ih hrest⟩
    -- from the second visit on the chain would be a part of itself
    intro hmem
    obtain ⟨cell', hcell', heq⟩ := List.mem_map.mp hmem
    obtain ⟨front, back, rfl⟩ := List.append_of_mem hcell'
    obtain ⟨r, -, hback⟩ := segment_append.mp hrest
    have hr : r = cell.1 := by
      rw [← heq]
      exact hback.1
    have hlen := congrArg List.length (Chain.unique h (hr ▸ hback))
    simp only [List.length_cons, List.length_append] at hlen
    omega

/-- So it has no more nodes than are live. -/
theorem Chain.length_le {p : ℕ} {cells : List (ℕ × α)} (h : Chain nodes p cells) :
    cells.length ≤ nodes.keys.card := by
  have hsub : (addresses cells).toFinset ⊆ nodes.keys := by
    intro a ha
    rw [List.mem_toFinset] at ha
    exact Finmap.mem_keys.mpr (h.ne_null a ha).2
  calc cells.length
    _ = (addresses cells).toFinset.card := by
      rw [List.toFinset_card_of_nodup (Chain.nodup h), length_addresses]
    _ ≤ nodes.keys.card := Finset.card_le_card hsub

/-- A new node is hung to the last one of a chain. -/
theorem Chain.hang {p a node : ℕ} {x y : α} {front : List (ℕ × α)}
    (h : Chain nodes p (front ++ [(a, x)])) (hnull : node ≠ 0) (hfresh : node ∉ nodes) :
    Chain ((nodes.insert node ⟨y, 0⟩).insert a ⟨x, node⟩) p (front ++ [(a, x)] ++ [(node, y)]) := by
  obtain ⟨r, hfront, rfl, ha, -⟩ := segment_append.mp h
  have hne {b : ℕ} (hb : b ∈ nodes) : b ≠ node := by
    intro hbn
    exact hfresh (hbn ▸ hb)
  -- the last node is none of those before it
  have hlast : r ∉ addresses front := by
    have hnodup := Chain.nodup h
    rw [addresses_append, List.nodup_append] at hnodup
    intro hr
    exact hnodup.2.2 r hr r (List.mem_cons_self ..) rfl
  rw [List.append_assoc]
  refine segment_append.mpr ⟨r, hfront.congr ?_, rfl, ha, node, Finmap.lookup_insert _, rfl, hnull, 0,
    ?_, rfl⟩
  · intro b hb
    have hbr : b ≠ r := fun hbr => hlast (hbr ▸ hb)
    rw [Finmap.lookup_insert_of_ne _ hbr, Finmap.lookup_insert_of_ne _ (hne (hfront.ne_null b hb).2)]
  · have hr : r ∈ nodes := (h.ne_null r (by simp)).2
    rw [Finmap.lookup_insert_of_ne _ (hne hr).symm, Finmap.lookup_insert]

end Chains

end ObjectHeap

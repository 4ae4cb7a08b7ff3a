import TetrisMint.StringArrayBlob

namespace TetrisMint

open CStrings

/-- The loop that fills an array from the front; the caller's strings end in a NUL. -/
def setItems (heap : ℕ → Fresh) : List Bytes → ℕ → StringArray → Except Fault StringArray
  | [], _, arr => .ok arr
  | s :: strs, index, arr => do
    let arr ← stringArraySetItem (heap index) arr index (s ++ [0])
    setItems heap strs (index + 1) arr

def buildStringArray (heap : ℕ → Fresh) (maxStringLength : ℤ) (strs : List Bytes) :
    Except Fault StringArray :=
  setItems heap strs 0 (stringArrayCreate strs.length maxStringLength)

/-- A stored item: its text and the byte that stands where the NUL belongs. -/
abbrev Item := Bytes × UInt8

def Item.bytes (item : Item) : Bytes := item.1 ++ [item.2]

def storedItems (heap : ℕ → Fresh) : ℕ → List Bytes → List Item
  | _, [] => []
  | index, s :: strs => (s, heap index s.length) :: storedItems heap (index + 1) strs

def itemBytes (items : List Item) : Bytes := (items.map Item.bytes).flatten

/-- The bytes that the encoding of the strings occupies. -/
def wireSize (strs : List Bytes) : ℕ := wireHeaderSize + (strs.map fun s => s.length + 1).sum

theorem storedItems_zero (index : ℕ) (strs : List Bytes) :
    storedItems (fun _ _ => 0) index strs = strs.map fun s => (s, 0) := by
  induction strs generalizing index with
  | nil => rfl
  | cons s strs ih => rw [storedItems, ih, List.map_cons]

theorem length_storedItems (heap : ℕ → Fresh) (index : ℕ) (strs : List Bytes) :
    (storedItems heap index strs).length = strs.length := by
  induction strs generalizing index with
  | nil => rfl
  | cons s strs ih => rw [storedItems, List.length_cons, ih, List.length_cons]

theorem getElem_storedItems (heap : ℕ → Fresh) (index : ℕ) (strs : List Bytes) (i : ℕ)
    (h : i < strs.length) (h' : i < (storedItems heap index strs).length) :
    (storedItems heap index strs)[i] = (strs[i], heap (index + i) strs[i].length) := by
  induction strs generalizing index i with
  | nil => exact absurd h (by simp)
  | cons s strs ih =>
    cases i with
    | zero => rfl
    | succ i =>
      have htail := ih (index + 1) i (by simpa using h) (by simpa [storedItems] using h')
      simp only [storedItems, List.getElem_cons_succ, htail]
      rw [Nat.add_right_comm, Nat.add_assoc]

/-- set_item finds a zero where the NUL of each string belongs. -/
def NulsZero (heap : ℕ → Fresh) (strs : List Bytes) : Prop :=
  ∀ i (h : i < strs.length), heap i strs[i].length = 0

theorem nulsZero_zero (strs : List Bytes) : NulsZero (fun _ _ => 0) strs := fun _ _ => rfl

theorem nulsZero_nil (heap : ℕ → Fresh) : NulsZero heap [] := fun _ h => absurd h (by simp)

theorem storedItems_of_nulsZero {heap : ℕ → Fresh} {strs : List Bytes} (h : NulsZero heap strs) :
    storedItems heap 0 strs = strs.map fun s => (s, 0) := by
  apply List.ext_getElem
  · rw [length_storedItems, List.length_map]
  · intro i hi hi'
    rw [List.length_map] at hi'
    rw [getElem_storedItems heap 0 strs i hi' hi, Nat.zero_add, List.getElem_map, h i hi']

theorem itemBytes_cons (item : Item) (items : List Item) :
    itemBytes (item :: items) = item.bytes ++ itemBytes items := rfl

theorem length_itemBytes_storedItems (heap : ℕ → Fresh) (index : ℕ) (strs : List Bytes) :
    (itemBytes (storedItems heap index strs)).length =
      (strs.map fun s => s.length + 1).sum := by
  induction strs generalizing index with
  | nil => rfl
  | cons s strs ih =>
    rw [storedItems, itemBytes_cons, List.length_append, ih, List.map_cons, List.sum_cons]
    simp only [Item.bytes, List.length_append, List.length_singleton]

theorem setItems_eq_ok {heap : ℕ → Fresh} {strs : List Bytes} {index : ℕ} {arr : StringArray}
    {front rest : List (Option Bytes)} (hs : ∀ s ∈ strs, 0 ∉ s) (hfront : front.length = index)
    (harr : arr.strings = front ++ List.replicate strs.length none ++ rest) :
    ((∀ s ∈ strs, s.length < intMax) → ∃ arr', setItems heap strs index arr = .ok arr') ∧
    ∀ arr', setItems heap strs index arr = .ok arr' →
      arr'.maxStringLength = arr.maxStringLength ∧ arr'.length = arr.length ∧
      arr'.strings = front ++ (storedItems heap index strs).map (fun p => some p.bytes) ++ rest := by
  induction strs generalizing index arr front with
  | nil =>
    refine ⟨fun _ => ⟨arr, rfl⟩, ?_⟩
    intro arr' h
    rw [setItems, Except.ok.injEq] at h
    rw [← h]
    exact ⟨rfl, rfl, harr⟩
  | cons s strs ih =>
    have hs0 := hs s (List.mem_cons_self ..)
    have htail (t : Bytes) (ht : t ∈ strs) : 0 ∉ t := hs t (List.mem_cons_of_mem _ ht)
    have hindex : index < arr.strings.length := by
      rw [harr, List.append_assoc, List.length_append, List.length_append, List.length_replicate, hfront,
        List.length_cons]
      omega
    -- the item goes in where the pointers that are still NULL begin
    have hset : arr.strings.set index (some (Item.bytes (s, heap index s.length))) =
        (front ++ [some (Item.bytes (s, heap index s.length))]) ++
          List.replicate strs.length none ++ rest := by
      rw [harr, List.append_assoc, ← hfront, List.set_append_right _ _ (le_refl _), Nat.sub_self,
        List.length_cons, List.replicate_succ, List.cons_append, List.set_cons_zero, List.append_assoc,
        List.append_assoc]
      rfl
    have hfront' : (front ++ [some (Item.bytes (s, heap index s.length))]).length = index + 1 := by
      rw [List.length_append, hfront, List.length_singleton]
    constructor
    · intro hmax
      let arr₁ : StringArray :=
        { arr with
          strings := arr.strings.set index (some (Item.bytes (s, heap index s.length)))
          sized := List.length_set.trans arr.sized }
      have hok : stringArraySetItem (heap index) arr index (s ++ [0]) = .ok arr₁ := by
        apply stringArraySetItem_eq_ok.mpr
        exact ⟨s, [], rfl, hs0, hmax s (List.mem_cons_self ..), hindex, rfl, rfl, rfl⟩
      have hset₁ : arr₁.strings = (front ++ [some (Item.bytes (s, heap index s.length))]) ++
          List.replicate strs.length none ++ rest := hset
      obtain ⟨arr', h'⟩ := (ih htail hfront' hset₁).1 fun t ht => hmax t (List.mem_cons_of_mem _ ht)
      refine ⟨arr', ?_⟩
      rw [setItems, hok]
      exact h'
    · intro arr' h
      cases hcall : stringArraySetItem (heap index) arr index (s ++ [0]) with
      | error e =>
        rw [setItems, hcall] at h
        exact absurd h (by simp [bind, Except.bind])
      | ok arr₁ =>
        rw [setItems, hcall] at h
        obtain ⟨t, rest, hvalue, ht, -, -, hm, hl, hstr⟩ := stringArraySetItem_eq_ok.mp hcall
        -- the caller's string and the one that set_item found end at the same NUL
        have hst : s = t := by
          have hcs := cString_terminated ht rest
          rw [← hvalue, cString_terminated hs0] at hcs
          exact Option.some.inj hcs
        rw [← hst] at hstr
        obtain ⟨hm', hl', hstr'⟩ := (ih htail hfront' (hstr.trans hset)).2 arr' h
        refine ⟨hm'.trans hm, hl'.trans hl, ?_⟩
        rw [hstr', List.append_assoc front]
        rfl

/-- The encoder copies a stored item whole, or leaves the item's object: an item
without its NUL is read within bounds only when its text has the maximum length. -/
theorem strncpy_item {item : Item} {n : ℕ} (h0 : 0 ∉ item.1) (hn : item.1.length ≤ n) :
    (item.2 = 0 ∨ item.1.length = n) ∧ strnlen item.bytes n = some item.1.length ∧
        strncpyBytes item.bytes (item.1.length + 1) = some item.bytes ∨
      ¬(item.2 = 0 ∨ item.1.length = n) ∧
        ∀ len, strnlen item.bytes n = some len → strncpyBytes item.bytes (len + 1) = none := by
  obtain ⟨s, g⟩ := item
  have hle : s.length ≤ n := hn
  have hcopy : strncpyBytes (s ++ [g]) (s.length + 1) = some (s ++ [g]) := strncpyBytes_succ h0 [] g
  by_cases hg : g = 0
  · left
    refine ⟨Or.inl hg, ?_, hcopy⟩
    rw [Item.bytes, hg]
    exact strnlen_terminated h0 [] n hn
  · have hopen : 0 ∉ s ++ [g] := by
      simp only [List.mem_append, List.mem_singleton, not_or]
      exact ⟨h0, fun h => hg h.symm⟩
    have hlen := strnlen_unterminated hopen n
    rw [List.length_append, List.length_singleton] at hlen
    -- without its NUL only strnlen's bound can stop at the end of the text
    by_cases heq : s.length = n
    · left
      refine ⟨Or.inr heq, ?_, hcopy⟩
      rw [Item.bytes, hlen, if_pos (by omega), heq]
    · right
      refine ⟨fun h => h.elim hg heq, ?_⟩
      intro len hsome
      rw [Item.bytes, hlen] at hsome
      split_ifs at hsome
      -- the bound is one more than the text, so the copy wants two bytes more than the text
      apply strncpyBytes_unterminated hopen
      rw [← Option.some.inj hsome, List.length_append, List.length_singleton]
      omega

section Encoder

variable (fresh : Fresh) {maxStringLength : ℤ}

/-- The items that the encoder can read without leaving their objects. -/
def Readable (maxStringLength : ℤ) (item : Item) : Prop :=
  item.2 = 0 ∨ item.1.length = sizeOfInt maxStringLength

theorem wireItem_eq_some {item : Item} {bytes : Bytes} (h0 : 0 ∉ item.1)
    (hn : item.1.length ≤ sizeOfInt maxStringLength) :
    wireItem maxStringLength item.bytes = some bytes ↔
      Readable maxStringLength item ∧ bytes = item.bytes := by
  rw [wireItem, Option.bind_eq_some_iff]
  obtain ⟨hread, hlen, hcopy⟩ | ⟨hread, hfail⟩ := strncpy_item h0 hn
  · constructor
    · rintro ⟨len, hsome, hbytes⟩
      rw [hlen, Option.some.injEq] at hsome
      rw [← hsome, hcopy, Option.some.injEq] at hbytes
      exact ⟨hread, hbytes.symm⟩
    · rintro ⟨-, rfl⟩
      exact ⟨item.1.length, hlen, hcopy⟩
  · constructor
    · rintro ⟨len, hsome, hbytes⟩
      rw [hfail len hsome] at hbytes
      exact absurd hbytes (by simp)
    · rintro ⟨h, -⟩
      exact absurd h hread

/-- All items are copied exactly when all of them are readable. -/
theorem wireItems_eq_some {items : List Item} {copies : List Bytes}
    (hitems : ∀ item ∈ items, 0 ∉ item.1 ∧ item.1.length ≤ sizeOfInt maxStringLength) :
    (items.map fun p => some p.bytes).map (·.bind (wireItem maxStringLength)) = copies.map some ↔
      (∀ item ∈ items, Readable maxStringLength item) ∧ copies = items.map Item.bytes := by
  induction items generalizing copies with
  | nil =>
    constructor
    · intro h
      rw [eq_comm, List.map_nil, List.map_nil, List.map_eq_nil_iff] at h
      exact ⟨by simp, h⟩
    · rintro ⟨-, rfl⟩
      rfl
  | cons item items ih =>
    obtain ⟨⟨h0, hn⟩, hrest⟩ := List.forall_mem_cons.mp hitems
    cases copies with
    | nil => simp
    | cons copy copies =>
      have htail := @ih copies hrest
      simp only [List.map_cons, List.cons.injEq, Option.bind_some, wireItem_eq_some h0 hn, htail,
        List.forall_mem_cons]
      constructor
      · rintro ⟨⟨hread, hcopy⟩, hall, hcopies⟩
        exact ⟨⟨hread, hall⟩, hcopy, hcopies⟩
      · rintro ⟨⟨hread, hall⟩, hcopy, hcopies⟩
        exact ⟨⟨hread, hcopy⟩, hall, hcopies⟩

/-- The encoder either writes the items one after the other, each with the byte
that follows its text, or fails. -/
theorem serializeItems_eq_ok {arr : StringArray} {items : List Item} {blob : Blob}
    (hitems : ∀ item ∈ items, 0 ∉ item.1 ∧ item.1.length ≤ sizeOfInt arr.maxStringLength)
    (harr : arr.strings = items.map fun p => some p.bytes) :
    stringArraySerialize fresh arr = .ok blob ↔
      ((∀ item ∈ items, Readable arr.maxStringLength item) ∧
        wireHeaderSize + (itemBytes items).length < 2 ^ 30) ∧
      blob = writtenBlob fresh (blobSize (wireHeaderSize + (itemBytes items).length))
        (wireHeader arr ++ itemBytes items) := by
  have hlength : (wireHeader arr ++ itemBytes items).length =
      wireHeaderSize + (itemBytes items).length := by
    rw [List.length_append, length_wireHeader]
  rw [stringArraySerialize_eq_ok, harr, ← hlength]
  constructor
  · rintro ⟨copies, hcopies, hfit, hblob⟩
    obtain ⟨hread, rfl⟩ := (wireItems_eq_some hitems).mp hcopies
    exact ⟨⟨hread, hfit⟩, hblob⟩
  · rintro ⟨⟨hread, hfit⟩, hblob⟩
    exact ⟨items.map Item.bytes, (wireItems_eq_some hitems).mpr ⟨hread, rfl⟩, hfit, hblob⟩

end Encoder

end TetrisMint

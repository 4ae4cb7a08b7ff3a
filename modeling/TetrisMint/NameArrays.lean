import TetrisMint.Invitations
import TetrisMint.MessageSizes

/-! Arrays of names that lose nothing on their way, because set_item has found a zero for every
NUL: what they are, what their blob is, and that the blob decodes to them. -/
namespace TetrisMint

open CStrings FallibleRun

/-- An array with the names, each with its NUL. -/
structure HoldsNames (arr : StringArray) (names : List Bytes) : Prop where
  maxStringLength : arr.maxStringLength = playerNameMaxChars
  length : arr.length = names.length
  strings : arr.strings = names.map fun name => some (name ++ [0])

/-- What the blob of such an array holds in front of its leftovers. -/
def nameBytes (names : List Bytes) : Bytes :=
  wireHeader (stringArrayCreate names.length playerNameMaxChars) ++
    itemBytes (names.map fun name => (name, 0))

def nameBlob (fresh : Fresh) (names : List Bytes) : Blob :=
  writtenBlob fresh (blobSize (wireSize names)) (nameBytes names)

section Names

variable {names : List Bytes} {arr : StringArray} (fresh : Fresh)

theorem length_nameBytes (names : List Bytes) : (nameBytes names).length = wireSize names := by
  rw [nameBytes, List.length_append, length_wireHeader, ← storedItems_zero 0 names,
    length_itemBytes_storedItems, wireSize]

theorem length_nameBlob (names : List Bytes) :
    (nameBlob fresh names).bytes.length = blobSize (wireSize names) := by
  apply length_writtenBlob
  rw [length_nameBytes]
  exact (@Doubling.lt_capacity 128 _ (by decide)).le

/-- A name takes its letters and its NUL. -/
theorem length_le_wireSize (names : List Bytes) : names.length ≤ wireSize names := by
  have hone := List.length_le_sum_of_one_le (names.map fun s => s.length + 1) (by simp)
  rw [List.length_map] at hone
  rw [wireSize]
  omega

theorem HoldsNames.stored (h : HoldsNames arr names) :
    arr.strings = (storedItems (fun _ _ => 0) 0 names).map fun p => some p.bytes := by
  rw [h.strings, storedItems_zero, List.map_map]
  rfl

theorem HoldsNames.wireHeader_eq (h : HoldsNames arr names) :
    wireHeader arr = wireHeader (stringArrayCreate names.length playerNameMaxChars) := by
  rw [wireHeader, h.maxStringLength, h.length]
  rfl

variable (hnames : ∀ name ∈ names, IsName name)

include hnames in
/-- The encoder makes this blob of the array. -/
theorem serialize_names (h : HoldsNames arr names) {blob : Blob} :
    stringArraySerialize fresh arr = .ok blob ↔
      wireSize names < 2 ^ 30 ∧ blob = nameBlob fresh names := by
  have hitems : ∀ item ∈ names.map fun name => ((name, 0) : Item),
      0 ∉ item.1 ∧ item.1.length ≤ sizeOfInt arr.maxStringLength := by
    intro item hitem
    obtain ⟨name, hname, rfl⟩ := List.mem_map.mp hitem
    rw [h.maxStringLength]
    exact hnames name hname
  have hstored : arr.strings = (names.map fun name => ((name, 0) : Item)).map
      fun p : Item => some p.bytes := by
    rw [h.strings, List.map_map]
    rfl
  have hread : ∀ item ∈ names.map fun name => ((name, 0) : Item), Readable arr.maxStringLength item := by
    intro item hitem
    obtain ⟨name, -, rfl⟩ := List.mem_map.mp hitem
    exact Or.inl rfl
  have hsize : wireHeaderSize + (itemBytes (names.map fun name => (name, 0))).length = wireSize names := by
    rw [← storedItems_zero 0 names, length_itemBytes_storedItems, wireSize]
  rw [serializeItems_eq_ok fresh hitems hstored, hsize, h.wireHeader_eq, nameBlob, nameBytes]
  constructor
  · rintro ⟨⟨-, hfit⟩, hblob⟩
    exact ⟨hfit, hblob⟩
  · rintro ⟨hfit, hblob⟩
    exact ⟨⟨hread, hfit⟩, hblob⟩

include hnames in
/-- The bytes decode to an array of the same names, whatever stands behind them. -/
theorem deserialize_names (hsize : wireSize names < 2 ^ 30) {heap : ℕ → Fresh}
    (hheap : NulsZero heap names) (length : ℕ) (gap : Bytes) :
    ∃ arr, stringArrayDeserialize heap ⟨length, nameBytes names ++ gap⟩ = .ok arr ∧
      HoldsNames arr names := by
  have hcount := length_le_wireSize names
  have hint : IsInt (names.length : ℤ) := by
    constructor <;> omega
  have hbound : ∀ name ∈ names, 0 ∉ name ∧ (name.length : ℤ) ≤ playerNameMaxChars := by
    intro name hname
    obtain ⟨h0, hlen⟩ := hnames name hname
    exact ⟨h0, by exact_mod_cast hlen⟩
  have hblob : (⟨length, nameBytes names ++ gap⟩ : Blob).bytes =
      wireHeader (stringArrayCreate names.length playerNameMaxChars) ++
        itemBytes (storedItems (fun _ _ => 0) 0 names) ++ gap := by
    rw [storedItems_zero, nameBytes]
  obtain ⟨arr, harr, hmax, hlength, htexts⟩ := (decoded_texts_iff heap
    (by decide : IsInt playerNameMaxChars) hint hbound hsize rfl rfl hblob).mpr fun i h => ⟨rfl, hheap i h⟩
  refine ⟨arr, harr, hmax, hlength, ?_⟩
  -- every item is a text and one byte, and that byte is the NUL of the name
  have hitems := stringArrayDeserialize_items harr
  have hsized : arr.strings.length = names.length := by
    rw [arr.sized, hlength, Int.toNat_natCast]
  apply List.ext_getElem
  · rw [hsized, List.length_map]
  · intro i hi hi'
    rw [List.length_map] at hi'
    obtain ⟨item, hget, htext⟩ := htexts i hi'
    obtain ⟨u, g, hcopy, hu⟩ := hitems _ (List.getElem_mem hi)
    rw [stringArrayGetItem, access_eq_ok, List.getElem?_eq_getElem hi, Option.some.injEq, hcopy,
      Option.some.injEq] at hget
    subst hget
    obtain ⟨rfl, rfl⟩ := cString_snoc hu htext
    rw [hcopy, List.getElem_map]

end Names

end TetrisMint

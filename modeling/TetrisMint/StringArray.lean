import TetrisMint.Board
import TetrisMint.CStrings
import TetrisMint.FallibleRun

namespace TetrisMint

open CStrings FallibleRun

abbrev Bytes := List UInt8

/-- What the bytes of one fresh allocation hold before the program writes them. -/
abbrev Fresh := ℕ → UInt8

def intMax : ℕ := 2147483647

/-- An access that a function of the C library makes, a fault when it leaves its object. -/
def access {α : Type} : Option α → Except Fault α
  | some a => .ok a
  | none => .error .outOfBounds

@[simp] theorem access_some {α : Type} (a : α) : access (some a) = .ok a := rfl

theorem access_eq_ok {α : Type} {o : Option α} {a : α} : access o = .ok a ↔ o = some a := by
  cases o with
  | none => simp [access]
  | some b => simp [access]

/-- A field of type int, as it lies in memory. -/
def intBytes (v : ℤ) : Bytes := leBytes 4 (v % 2 ^ 32).toNat

@[simp] theorem length_intBytes (v : ℤ) : (intBytes v).length = 4 := length_leBytes _ _

def intField (m : Bytes) (off : ℕ) : Option ℤ :=
  (leField m off 4).map fun n : ℕ => if n < 2 ^ 31 then (n : ℤ) else (n : ℤ) - 2 ^ 32

/-- The values that an int can hold. -/
def IsInt (v : ℤ) : Prop := -2 ^ 31 ≤ v ∧ v < 2 ^ 31

instance (v : ℤ) : Decidable (IsInt v) := inferInstanceAs (Decidable (_ ∧ _))

theorem intField_intBytes (front rest : Bytes) {v : ℤ} (hv : IsInt v) :
    intField (front ++ (intBytes v ++ rest)) front.length = some v := by
  obtain ⟨hlow, hhigh⟩ := hv
  rw [intField, intBytes, leField_leBytes, Option.map_some, Option.some.injEq]
  have hword : (v % 2 ^ 32).toNat % 256 ^ 4 = (v % 2 ^ 32).toNat := by
    apply Nat.mod_eq_of_lt
    omega
  rw [hword]
  split_ifs with hsign
  · omega
  · omega

/-- An int that is passed where a size_t is expected. -/
def sizeOfInt (v : ℤ) : ℕ := (v % 2 ^ 64).toNat

theorem sizeOfInt_of_nonneg {v : ℤ} (hv : IsInt v) (h : 0 ≤ v) : sizeOfInt v = v.toNat := by
  have hmod : v % 2 ^ 64 = v := by
    apply Int.emod_eq_of_lt h
    have := hv.2
    omega
  rw [sizeOfInt, hmod]

structure Blob where
  length : ℕ
  bytes : Bytes

/-- The `n` bytes that malloc returns. -/
def malloc (fresh : Fresh) (n : ℕ) : Bytes := (List.range n).map fresh

@[simp] theorem length_malloc (fresh : Fresh) (n : ℕ) : (malloc fresh n).length = n := by
  rw [malloc, List.length_map, List.length_range]

/-- The object grown or cut to `n` bytes; what is new is as fresh as malloc's. -/
def realloc (fresh : Fresh) (m : Bytes) (n : ℕ) : Bytes :=
  m.take n ++ (malloc fresh n).drop m.length

theorem realloc_of_le (fresh : Fresh) {m : Bytes} {n : ℕ} (h : m.length ≤ n) :
    realloc fresh m n = m ++ (malloc fresh n).drop m.length := by
  rw [realloc, List.take_of_length_le h]

def createBlob (fresh : Fresh) (length : ℕ) : Blob := ⟨length, malloc fresh length⟩

def resizeBlob (fresh : Fresh) (blob : Blob) (length : ℕ) : Blob :=
  ⟨length, realloc fresh blob.bytes length⟩

/-- A string array owns one pointer for each index, NULL until the item is set. -/
structure StringArray where
  maxStringLength : ℤ
  length : ℤ
  strings : List (Option Bytes)
  sized : strings.length = length.toNat

def stringArrayCreate (length maxStringLength : ℤ) : StringArray where
  maxStringLength := maxStringLength
  length := length
  strings := List.replicate length.toNat none
  sized := List.length_replicate

/-- Store a copy of `value`. The allocation has one byte more than the copy that
strncpy is asked for, and that byte keeps what malloc left there. -/
def stringArraySetItem (fresh : Fresh) (arr : StringArray) (index : ℕ) (value : Bytes) :
    Except Fault StringArray := do
  let len ← access (strlen value)
  -- the length and the size of the allocation are ints
  if intMax ≤ len then .error .overflow
  else if index < arr.strings.length then
    let item ← access (strncpy (malloc fresh (len + 1)) 0 value len)
    .ok { arr with
      strings := arr.strings.set index (some item)
      sized := List.length_set.trans arr.sized }
  else .error .outOfBounds

def stringArrayGetItem (arr : StringArray) (index : ℕ) : Except Fault (Option Bytes) :=
  access arr.strings[index]?

/-- The pointers are copied to an array of the new length, as many as fit. -/
def stringArrayResize (arr : StringArray) (newLength : ℤ) : StringArray where
  maxStringLength := arr.maxStringLength
  length := newLength
  strings := arr.strings.take newLength.toNat ++
    List.replicate (newLength.toNat - arr.strings.length) none
  sized := by
    rw [List.length_append, List.length_take, List.length_replicate]
    omega

/-- The loop that doubles the blob until `need` is below its length. From 128
bytes on, an int holds only twenty-three doublings. -/
def growBlob (fresh : Fresh) (need : ℕ) : ℕ → Blob → Except Fault Blob
  | 0, _ => .error .nonterminating
  | fuel + 1, blob =>
    if need < blob.length then .ok blob
    else if intMax < 2 * blob.length then .error .overflow
    else growBlob fresh need fuel (resizeBlob fresh blob (2 * blob.length))

def growBound : ℕ := 25

/-- The loop of the encoder over the strings that are left. -/
def serializeStrings (fresh : Fresh) (maxStringLength : ℤ) :
    List (Option Bytes) → Blob → ℕ → Except Fault Blob
  | [], blob, _ => .ok blob
  | none :: _, _, _ => .error .nullDereference
  | some str :: strs, blob, messageIndex => do
    -- no sum wraps in 32 bits: a string is shorter than INT_MAX, the blob at most 2 ^ 30 long
    let len := (← access (strnlen str (sizeOfInt maxStringLength))) + 1
    let blob ← growBlob fresh (messageIndex + len) growBound blob
    let bytes ← access (strncpy blob.bytes messageIndex str len)
    serializeStrings fresh maxStringLength strs { blob with bytes := bytes } (messageIndex + len)

/-- The size of the wire header: two ints. -/
def wireHeaderSize : ℕ := 8

def wireHeader (arr : StringArray) : Bytes := intBytes arr.maxStringLength ++ intBytes arr.length

@[simp] theorem length_wireHeader (arr : StringArray) : (wireHeader arr).length = wireHeaderSize := by
  rw [wireHeader, List.length_append, length_intBytes, length_intBytes, wireHeaderSize]

def stringArraySerialize (fresh : Fresh) (arr : StringArray) : Except Fault Blob := do
  let blob := createBlob fresh 128
  let bytes ← access (store blob.bytes 0 (wireHeader arr))
  serializeStrings fresh arr.maxStringLength arr.strings { blob with bytes := bytes } wireHeaderSize

/-- The loop of the decoder with `count` strings left, the next one at `index`. -/
def deserializeStrings (heap : ℕ → Fresh) (maxStringLength : ℤ) (bytes : Bytes) :
    ℕ → ℕ → ℕ → StringArray → Except Fault StringArray
  | 0, _, _, arr => .ok arr
  | count + 1, index, messageIndex, arr => do
    let stringLength ← access (strnlen (bytes.drop messageIndex) (sizeOfInt maxStringLength))
    let arr ← stringArraySetItem (heap index) arr index (bytes.drop messageIndex)
    deserializeStrings heap maxStringLength bytes count (index + 1)
      (messageIndex + stringLength + 1) arr

/-- Decode a blob. Its length is not looked at: only the end of the object that
holds the bytes stops a read. -/
def stringArrayDeserialize (heap : ℕ → Fresh) (blob : Blob) : Except Fault StringArray := do
  let maxStringLength ← access (intField blob.bytes 0)
  let length ← access (intField blob.bytes 4)
  deserializeStrings heap maxStringLength blob.bytes length.toNat 0 wireHeaderSize
    (stringArrayCreate length maxStringLength)

/-- What a call of set_item does to the array. -/
theorem stringArraySetItem_eq_ok {fresh : Fresh} {arr arr' : StringArray} {index : ℕ}
    {value : Bytes} :
    stringArraySetItem fresh arr index value = .ok arr' ↔
      ∃ s rest, value = s ++ 0 :: rest ∧ 0 ∉ s ∧ s.length < intMax ∧
        index < arr.strings.length ∧ arr'.maxStringLength = arr.maxStringLength ∧
        arr'.length = arr.length ∧
        arr'.strings = arr.strings.set index (some (s ++ [fresh s.length])) := by
  -- strncpy stores the text alone and leaves the last byte of the allocation as it was
  have hcopy (s rest : Bytes) (hs : 0 ∉ s) :
      strncpy (malloc fresh (s.length + 1)) 0 (s ++ 0 :: rest) s.length =
        some (s ++ [fresh s.length]) := by
    have hlast : (malloc fresh (s.length + 1)).drop s.length = [fresh s.length] := by
      rw [malloc, List.range_succ, List.map_append, List.drop_left']
      · rfl
      · rw [List.length_map, List.length_range]
    have hfit : s.length ≤ (malloc fresh (s.length + 1)).length := by
      rw [length_malloc]
      omega
    have hstore := store_after [] hfit
    rw [hlast] at hstore
    rw [strncpy, strncpyBytes_text hs, Option.bind_some]
    exact hstore
  constructor
  · intro h
    cases hlen : strlen value with
    | none =>
      rw [stringArraySetItem, hlen] at h
      exact absurd h (by simp [access, bind, Except.bind])
    | some len =>
      obtain ⟨s, rest, rfl, hs, rfl⟩ := strlen_eq_some hlen
      simp only [stringArraySetItem, hlen, hcopy s rest hs, access_some, bind, Except.bind] at h
      split_ifs at h with hmax hindex
      rw [Except.ok.injEq] at h
      exact ⟨s, rest, rfl, hs, by omega, hindex, h ▸ rfl, h ▸ rfl, h ▸ rfl⟩
  · rintro ⟨s, rest, rfl, hs, hmax, hindex, hm, hl, hstr⟩
    have hroom : ¬intMax ≤ s.length := by omega
    simp only [stringArraySetItem, strlen_terminated hs, hcopy s rest hs, access_some, bind,
      Except.bind, if_neg hroom, if_pos hindex, Except.ok.injEq]
    cases arr'
    simp only at hm hl hstr
    simp only [StringArray.mk.injEq]
    exact ⟨hm.symm, hl.symm, hstr.symm⟩

/-- A string that is stored whole is stored the same way when more memory follows it. -/
theorem stringArraySetItem_append {fresh : Fresh} {arr arr' : StringArray} {index : ℕ}
    {value : Bytes} (rest : Bytes) (h : stringArraySetItem fresh arr index value = .ok arr') :
    stringArraySetItem fresh arr index (value ++ rest) = .ok arr' := by
  obtain ⟨s, tail, rfl, hs, hmax, hindex, hm, hl, hstr⟩ := stringArraySetItem_eq_ok.mp h
  apply stringArraySetItem_eq_ok.mpr
  refine ⟨s, tail ++ rest, ?_, hs, hmax, hindex, hm, hl, hstr⟩
  rw [List.append_assoc, List.cons_append]

section Decoding

variable {heap : ℕ → Fresh} {maxStringLength : ℤ} {bytes : Bytes}

/-- One turn of the decoder's loop: a bounded length, a set_item, and the turns after it. -/
theorem deserializeStrings_succ_eq_ok {count index messageIndex : ℕ} {arr arr' : StringArray} :
    deserializeStrings heap maxStringLength bytes (count + 1) index messageIndex arr = .ok arr' ↔
      ∃ len arr₁, strnlen (bytes.drop messageIndex) (sizeOfInt maxStringLength) = some len ∧
        stringArraySetItem (heap index) arr index (bytes.drop messageIndex) = .ok arr₁ ∧
        deserializeStrings heap maxStringLength bytes count (index + 1) (messageIndex + len + 1)
          arr₁ = .ok arr' := by
  simp only [deserializeStrings, bind_eq_ok, access_eq_ok]
  constructor
  · rintro ⟨len, hlen, arr₁, hcall, h⟩
    exact ⟨len, arr₁, hlen, hcall, h⟩
  · rintro ⟨len, arr₁, hlen, hcall, h⟩
    exact ⟨len, hlen, arr₁, hcall, h⟩

variable (rest : Bytes)

theorem deserializeStrings_append {count index messageIndex : ℕ} {arr arr' : StringArray}
    (h : deserializeStrings heap maxStringLength bytes count index messageIndex arr = .ok arr') :
    deserializeStrings heap maxStringLength (bytes ++ rest) count index messageIndex arr =
      .ok arr' := by
  induction count generalizing index messageIndex arr with
  | zero => exact h
  | succ count ih =>
    obtain ⟨len, arr₁, hlen, hcall, hlater⟩ := deserializeStrings_succ_eq_ok.mp h
    -- a string was found, so the index is inside of the bytes
    obtain ⟨s, tail, hvalue, -⟩ := stringArraySetItem_eq_ok.mp hcall
    have hinside : messageIndex ≤ bytes.length := by
      by_contra hout
      rw [List.drop_of_length_le (by omega)] at hvalue
      exact absurd hvalue (by simp)
    have hdrop : (bytes ++ rest).drop messageIndex = bytes.drop messageIndex ++ rest :=
      List.drop_append_of_le_length hinside
    rw [deserializeStrings_succ_eq_ok, hdrop]
    exact ⟨len, arr₁, strnlen_append rest hlen, stringArraySetItem_append rest hcall, ih hlater⟩

/-- A blob that decodes within its own bytes decodes the same way in a longer buffer. -/
theorem stringArrayDeserialize_append {length length' : ℕ} {arr : StringArray}
    (h : stringArrayDeserialize heap ⟨length, bytes⟩ = .ok arr) :
    stringArrayDeserialize heap ⟨length', bytes ++ rest⟩ = .ok arr := by
  -- both header fields lie inside of the bytes
  have hfield (off : ℕ) (v : ℤ) (hv : intField bytes off = some v) :
      intField (bytes ++ rest) off = some v := by
    obtain ⟨field, hread, hvalue⟩ := Option.map_eq_some_iff.mp hv
    rw [intField, leField_append hread, Option.map_some, hvalue]
  simp only [stringArrayDeserialize, bind_eq_ok, access_eq_ok] at h ⊢
  obtain ⟨maxStringLength, hmax, count, hlength, h⟩ := h
  exact ⟨maxStringLength, hfield _ _ hmax, count, hfield _ _ hlength,
    deserializeStrings_append rest h⟩

end Decoding

end TetrisMint

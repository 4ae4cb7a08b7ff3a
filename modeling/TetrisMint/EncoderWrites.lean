import TetrisMint.StringArrayWire

/-! The encoder of `generic.c` with its own counters, an int for the size of the blob and
an unsigned index into it, and with every write that it makes. -/
namespace TetrisMint

open CStrings Doubling FallibleRun

/-- A write of `size` bytes at `index`, into a blob that is `blobLength` bytes long then. -/
structure BlobWrite where
  index : ℕ
  size : ℕ
  blobLength : ℕ
deriving DecidableEq

/-- The inner loop. The int is converted for the comparison with the unsigned sum. -/
def growMessage (fresh : Fresh) (need : BitVec 32) : ℕ → ℤ → Blob → Except Fault (ℤ × Blob)
  | 0, _, _ => .error .nonterminating
  | fuel + 1, messageSize, blob =>
    if BitVec.ofInt 32 messageSize ≤ need then
      if IsInt (messageSize * 2) then
        growMessage fresh need fuel (messageSize * 2) (resizeBlob fresh blob (messageSize * 2).toNat)
      else .error .overflow
    else .ok (messageSize, blob)

/-- The outer loop over the strings that are left. -/
def encodeStrings (fresh : Fresh) (maxStringLength : ℤ) :
    List (Option Bytes) → ℤ → BitVec 32 → Blob → Except Fault (Blob × List BlobWrite)
  | [], _, _, blob => .ok (blob, [])
  | none :: _, _, _, _ => .error .nullDereference
  | some str :: strs, messageSize, messageIndex, blob => do
    -- the size_t of strnlen is cut to an unsigned int
    let len := BitVec.ofNat 32 ((← access (strnlen str (sizeOfInt maxStringLength))) + 1)
    let (messageSize, blob) ← growMessage fresh (messageIndex + len) growBound messageSize blob
    let bytes ← access (strncpy blob.bytes messageIndex.toNat str len.toNat)
    let (encoded, writes) ← encodeStrings fresh maxStringLength strs messageSize
      (messageIndex + len) { blob with bytes := bytes }
    .ok (encoded, ⟨messageIndex.toNat, len.toNat, blob.length⟩ :: writes)

/-- `string_array_serialize`: the blob and the writes, those of the two header fields first. -/
def encodeStringArray (fresh : Fresh) (arr : StringArray) : Except Fault (Blob × List BlobWrite) := do
  let messageSize := 128
  let blob := createBlob fresh messageSize
  let bytes ← access (store blob.bytes 0 (intBytes arr.maxStringLength))
  let bytes ← access (store bytes 4 (intBytes arr.length))
  let (encoded, writes) ← encodeStrings fresh arr.maxStringLength arr.strings messageSize
    (BitVec.ofNat 32 wireHeaderSize) { blob with bytes := bytes }
  .ok (encoded, ⟨0, 4, blob.length⟩ :: ⟨4, 4, blob.length⟩ :: writes)

/-- The string is there, ends in a NUL and is at most `maxStringLength` bytes long. -/
def HoldsText (maxStringLength : ℤ) (str : Option Bytes) (s : Bytes) : Prop :=
  0 ∉ s ∧ (s.length : ℤ) ≤ maxStringLength ∧ ∃ rest, str = some (s ++ 0 :: rest)

section Growth

variable (fresh : Fresh)

/-- The int and the unsigned sum are compared as the numbers they are. -/
theorem growMessage_eq {need : BitVec 32} {fuel : ℕ} {blob : Blob} (h : blob.length ≤ intMax) :
    growMessage fresh need fuel blob.length blob =
      (growBlob fresh need.toNat fuel blob).map fun grown => ((grown.length : ℤ), grown) := by
  induction fuel generalizing blob with
  | zero => rfl
  | succ fuel ih =>
    rw [intMax] at h
    -- the conversion of a size that is not negative changes nothing
    have hfull : BitVec.ofInt 32 (blob.length : ℤ) ≤ need ↔ ¬need.toNat < blob.length := by
      rw [BitVec.ofInt_natCast]
      bv_omega
    have hint : IsInt ((blob.length : ℤ) * 2) ↔ ¬intMax < 2 * blob.length := by
      rw [IsInt, intMax]
      omega
    rw [growMessage, growBlob]
    by_cases hroom : need.toNat < blob.length
    · rw [if_pos hroom, if_neg (hfull.not.mpr (not_not.mpr hroom))]
      rfl
    · rw [if_neg hroom, if_pos (hfull.mpr hroom)]
      by_cases hlarge : intMax < 2 * blob.length
      · rw [if_pos hlarge, if_neg (hint.not.mpr (not_not.mpr hlarge))]
        rfl
      · have hdouble : (blob.length : ℤ) * 2 = (2 * blob.length : ℕ) := by
          rw [Nat.cast_mul, mul_comm]
          rfl
        rw [if_neg hlarge, if_pos (hint.mpr hlarge), hdouble, Int.toNat_natCast]
        exact @ih (resizeBlob fresh blob (2 * blob.length)) (not_lt.mp hlarge)

/-- Below 2 ^ 29 bytes the blob is at most 2 ^ 29 bytes long. -/
theorem blobSize_le {used : ℕ} (h : used < 2 ^ 29) : blobSize used ≤ 2 ^ 29 :=
  (@capacity_le_iff 128 used 22 (by decide)).mpr h

/-- The counters of the code for a blob that is written up to the end of `front`. -/
theorem growMessage_written {front : Bytes} {len : ℕ} (h : front.length + len < 2 ^ 29) :
    growMessage fresh (BitVec.ofNat 32 front.length + BitVec.ofNat 32 len) growBound
        (blobSize front.length) (writtenBlob fresh (blobSize front.length) front) =
      .ok ((blobSize (front.length + len) : ℤ),
        writtenBlob fresh (blobSize (front.length + len)) front) := by
  have hneed : (BitVec.ofNat 32 front.length + BitVec.ofNat 32 len).toNat = front.length + len := by
    bv_omega
  have hsize : blobSize front.length ≤ intMax := by
    apply (blobSize_le (by omega : front.length < 2 ^ 29)).trans
    decide
  have hgrow := @growBlob_written fresh front front.length (front.length + len) (by omega) (by omega)
    (le_refl _)
  rw [if_pos (by omega)] at hgrow
  have heq := @growMessage_eq fresh (BitVec.ofNat 32 front.length + BitVec.ofNat 32 len) growBound
    (writtenBlob fresh (blobSize front.length) front) hsize
  rw [hneed, hgrow] at heq
  exact heq

end Growth

section Encoder

variable (fresh : Fresh) {maxStringLength : ℤ}

/-- The strings are written one behind the other, each below the length that the blob has
grown to before. -/
theorem encodeStrings_eq {strs : List (Option Bytes)} {items : List Bytes} {front : Bytes}
    (hitems : strs.map (·.bind (wireItem maxStringLength)) = items.map some)
    (hsize : (front ++ items.flatten).length < 2 ^ 29) :
    ∃ writes, encodeStrings fresh maxStringLength strs (blobSize front.length)
        (BitVec.ofNat 32 front.length) (writtenBlob fresh (blobSize front.length) front) =
          .ok (writtenBlob fresh (blobSize (front ++ items.flatten).length)
            (front ++ items.flatten), writes) ∧
      (∀ w ∈ writes, w.index + w.size ≤ w.blobLength) ∧
      (writes.map BlobWrite.size).sum = items.flatten.length := by
  -- `front` is what has been written so far, header included
  induction strs generalizing items front with
  | nil =>
    rw [List.map_nil, eq_comm, List.map_eq_nil_iff] at hitems
    rw [hitems, List.flatten_nil, List.append_nil]
    exact ⟨[], rfl, by simp, rfl⟩
  | cons str strs ih =>
    cases items with
    | nil => exact absurd hitems (by simp)
    | cons item items =>
      rw [List.map_cons, List.map_cons, List.cons.injEq] at hitems
      obtain ⟨hitem, hrest⟩ := hitems
      obtain ⟨str, rfl, hwire⟩ := Option.bind_eq_some_iff.mp hitem
      obtain ⟨len, hlen, hcopy⟩ := Option.bind_eq_some_iff.mp hwire
      obtain ⟨hlength, hwritten⟩ := strncpy_grown fresh front hcopy
      rw [List.flatten_cons, ← List.append_assoc] at hsize ⊢
      have hfit : front.length + (len + 1) < 2 ^ 29 := by
        rw [List.length_append, hlength] at hsize
        omega
      obtain ⟨writes, hwrites, hin, hsum⟩ := @ih items (front ++ item) hrest hsize
      -- below 2 ^ 29 the unsigned counters do not wrap
      have hindex : (BitVec.ofNat 32 front.length).toNat = front.length := by
        rw [BitVec.toNat_ofNat]
        omega
      have hcount : (BitVec.ofNat 32 (len + 1)).toNat = len + 1 := by
        rw [BitVec.toNat_ofNat]
        omega
      have hnext : BitVec.ofNat 32 front.length + BitVec.ofNat 32 (len + 1) =
          BitVec.ofNat 32 (front ++ item).length := by
        rw [hlength]
        exact (BitVec.ofNat_add front.length (len + 1)).symm
      refine ⟨⟨front.length, len + 1, blobSize (front.length + (len + 1))⟩ :: writes, ?_, ?_, ?_⟩
      · simp only [encodeStrings, hlen, access_some, ok_bind, growMessage_written fresh hfit, hindex,
          hcount, hwritten, writtenBlob_length]
        rw [hnext, ← hlength]
        exact congrArg (· >>= _) hwrites
      · rw [List.forall_mem_cons]
        exact ⟨(@lt_capacity 128 _ (by decide)).le, hin⟩
      · rw [List.map_cons, List.sum_cons, hsum, List.length_append, length_strncpyBytes hcopy]

/-- The array as a whole, header fields included. -/
theorem encodeStringArray_eq {arr : StringArray} {items : List Bytes}
    (hitems : arr.strings.map (·.bind (wireItem arr.maxStringLength)) = items.map some)
    (hsize : (wireHeader arr ++ items.flatten).length < 2 ^ 29) :
    ∃ writes, encodeStringArray fresh arr =
        .ok (writtenBlob fresh (blobSize (wireHeader arr ++ items.flatten).length)
          (wireHeader arr ++ items.flatten), writes) ∧
      (∀ w ∈ writes, w.index + w.size ≤ w.blobLength) ∧
      (writes.map BlobWrite.size).sum = (wireHeader arr ++ items.flatten).length := by
  have hfirst : store (createBlob fresh 128).bytes 0 (intBytes arr.maxStringLength) =
      some (writtenBlob fresh 128 (intBytes arr.maxStringLength)).bytes := by
    apply @store_written fresh [] 128
    rw [length_intBytes]
    decide
  have hsecond : store (writtenBlob fresh 128 (intBytes arr.maxStringLength)).bytes 4
      (intBytes arr.length) = some (writtenBlob fresh 128 (wireHeader arr)).bytes := by
    -- the second field goes in right behind the first
    have hroom : (intBytes arr.maxStringLength).length + (intBytes arr.length).length ≤ 128 := by
      rw [length_intBytes, length_intBytes]
      decide
    have h := store_written fresh hroom
    rw [length_intBytes] at h
    exact h
  have hstart : blobSize (wireHeader arr).length = 128 := by
    rw [length_wireHeader]
    rfl
  obtain ⟨writes, hwrites, hin, hsum⟩ := encodeStrings_eq fresh hitems hsize
  rw [hstart, length_wireHeader] at hwrites
  refine ⟨⟨0, 4, 128⟩ :: ⟨4, 4, 128⟩ :: writes, ?_, ?_, ?_⟩
  · simp only [encodeStringArray, hfirst, hsecond, access_some, ok_bind]
    exact congrArg (· >>= _) hwrites
  · rw [List.forall_mem_cons, List.forall_mem_cons]
    exact ⟨by decide, by decide, hin⟩
  · rw [List.map_cons, List.map_cons, List.sum_cons, List.sum_cons, hsum, List.length_append,
      length_wireHeader]
    show 4 + (4 + items.flatten.length) = 8 + items.flatten.length
    omega

end Encoder

section Texts

/-- What is copied of a terminated string is the text with its NUL. -/
theorem wireItem_of_holdsText {maxStringLength : ℤ} (hmax : IsInt maxStringLength)
    {str : Option Bytes} {s : Bytes} (h : HoldsText maxStringLength str s) :
    str.bind (wireItem maxStringLength) = some (s ++ [0]) := by
  obtain ⟨h0, hlen, rest, rfl⟩ := h
  have hbound : s.length ≤ sizeOfInt maxStringLength := by
    rw [sizeOfInt_of_nonneg hmax (by omega)]
    omega
  rw [Option.bind_some, wireItem, strnlen_terminated h0 rest _ hbound, Option.bind_some,
    strncpyBytes_succ h0 rest 0]

theorem wireItems_of_holdsText {maxStringLength : ℤ} (hmax : IsInt maxStringLength)
    {stored : List (Option Bytes)} {strs : List Bytes}
    (h : List.Forall₂ (HoldsText maxStringLength) stored strs) :
    stored.map (·.bind (wireItem maxStringLength)) = (strs.map (· ++ [0])).map some := by
  induction h with
  | nil => rfl
  | cons hstr _ ih =>
    rw [List.map_cons, List.map_cons, List.map_cons, wireItem_of_holdsText hmax hstr, ih]

theorem length_wireHeader_texts (arr : StringArray) (strs : List Bytes) :
    (wireHeader arr ++ (strs.map (· ++ [0])).flatten).length = wireSize strs := by
  rw [List.length_append, length_wireHeader, wireSize, List.length_flatten, List.map_map]
  congr 2
  apply List.map_congr_left
  intro s _
  exact List.length_append

end Texts

/-- An array of terminated strings that takes less than 2 ^ 29 bytes is encoded: every write
stays below the length that the blob has then, the writes add up to the encoding, which the
blob begins with, and the blob is a doubling of 128 bytes that is longer than the encoding. -/
theorem encoder_layout (fresh : Fresh) {arr : StringArray} {strs : List Bytes}
    (hmax : IsInt arr.maxStringLength)
    (hstrs : List.Forall₂ (HoldsText arr.maxStringLength) arr.strings strs)
    (hsize : wireSize strs < 2 ^ 29) :
    ∃ blob writes, encodeStringArray fresh arr = .ok (blob, writes) ∧
      stringArraySerialize fresh arr = .ok blob ∧
      (∀ w ∈ writes, ∀ i, w.index ≤ i → i < w.index + w.size → i < w.blobLength) ∧
      (writes.map BlobWrite.size).sum = wireSize strs ∧
      intBytes arr.maxStringLength ++ intBytes arr.length ++ (strs.map (· ++ [0])).flatten <+:
        blob.bytes ∧
      blob.bytes.length = blob.length ∧ (∃ k, blob.length = 128 * 2 ^ k) ∧
      wireSize strs < blob.length := by
  have hitems := wireItems_of_holdsText hmax hstrs
  have hlength := length_wireHeader_texts arr strs
  obtain ⟨writes, hwrites, hin, hsum⟩ := encodeStringArray_eq fresh hitems (hlength ▸ hsize)
  rw [hlength] at hwrites hsum
  have hroom : wireSize strs < blobSize (wireSize strs) := lt_capacity (by decide)
  refine ⟨_, writes, hwrites, ?_, ?_, hsum, ?_, ?_, ⟨_, rfl⟩, hroom⟩
  · apply (stringArraySerialize_eq_ok fresh).mpr
    exact ⟨_, hitems, by omega, by rw [hlength]⟩
  · intro w hw i _ hi
    exact hi.trans_le (hin w hw)
  · exact List.prefix_append _ _
  · exact length_writtenBlob fresh (by omega)

/-- Two names in a list for names of at most 15 bytes. -/
theorem encoder_layout_two_names : ∃ blob writes,
    encodeStringArray (fun _ => 7) ⟨15, 2, [some [66, 111, 98, 0], some [65, 0, 9]], rfl⟩ =
        .ok (blob, writes) ∧
      intBytes 15 ++ intBytes 2 ++ [66, 111, 98, 0, 65, 0] <+: blob.bytes ∧ 14 < blob.length := by
  obtain ⟨blob, writes, hencode, -, -, -, hprefix, -, -, hlarger⟩ := @encoder_layout (fun _ => 7)
    ⟨15, 2, [some [66, 111, 98, 0], some [65, 0, 9]], rfl⟩ [[66, 111, 98], [65]] (by decide)
    (.cons ⟨by decide, by decide, [], rfl⟩ (.cons ⟨by decide, by decide, [9], rfl⟩ .nil)) (by decide)
  exact ⟨blob, writes, hencode, hprefix, hlarger⟩

end TetrisMint

import TetrisMint.Doubling
import TetrisMint.StringArray

/-! The blob of the encoder byte for byte: how far it grows, and what stands behind
the strings. -/
namespace TetrisMint

open CStrings Doubling FallibleRun

/-- A blob of `n` bytes of which the first ones have been written. -/
def writtenBlob (fresh : Fresh) (n : ℕ) (front : Bytes) : Blob :=
  ⟨n, front ++ (malloc fresh n).drop front.length⟩

/-- What the encoder copies of a stored string. -/
def wireItem (maxStringLength : ℤ) (str : Bytes) : Option Bytes :=
  (strnlen str (sizeOfInt maxStringLength)).bind fun len => strncpyBytes str (len + 1)

/-- The length of the blob when `used` bytes of it are written. -/
def blobSize (used : ℕ) : ℕ := capacity 128 used

section Growth

variable (fresh : Fresh) {front : Bytes} {n used need k fuel : ℕ}

theorem malloc_take {n m : ℕ} (h : n ≤ m) : (malloc fresh m).take n = malloc fresh n := by
  rw [malloc, malloc, ← List.map_take, List.take_range, Nat.min_eq_left h]

@[simp] theorem writtenBlob_length : (writtenBlob fresh n front).length = n := rfl

theorem length_writtenBlob (h : front.length ≤ n) : (writtenBlob fresh n front).bytes.length = n := by
  rw [writtenBlob, List.length_append, List.length_drop, length_malloc]
  omega

/-- A larger blob shows behind its front what was there before in all of its memory. -/
theorem resizeBlob_written {m : ℕ} (hfront : front.length ≤ n) (h : n ≤ m) :
    resizeBlob fresh (writtenBlob fresh n front) m = writtenBlob fresh m front := by
  have hlen := length_writtenBlob fresh hfront
  have hsplit : (malloc fresh n).drop front.length ++ (malloc fresh m).drop n =
      (malloc fresh m).drop front.length := by
    calc (malloc fresh n).drop front.length ++ (malloc fresh m).drop n
        = (malloc fresh n ++ (malloc fresh m).drop n).drop front.length := by
          rw [List.drop_append_of_le_length (by rwa [length_malloc])]
      _ = (malloc fresh m).drop front.length := by
          rw [← malloc_take fresh h, List.take_append_drop]
  rw [resizeBlob, realloc_of_le fresh (by rwa [hlen]), hlen]
  simp only [writtenBlob, List.append_assoc, hsplit]

/-- The loop doubles up to the first length above `need`, unless an int cannot hold it. -/
theorem growBlob_doubles (hk : k ≤ (need / 128).size) (hint : k ≤ 23) (hfuel : 24 ≤ fuel + k)
    (hfront : front.length ≤ 128 * 2 ^ k) :
    growBlob fresh need fuel (writtenBlob fresh (128 * 2 ^ k) front) =
      if need < 2 ^ 30 then .ok (writtenBlob fresh (blobSize need) front) else .error .overflow := by
  have hlimit : need < 2 ^ 30 ↔ (need / 128).size ≤ 23 := @lt_mul_pow_iff 128 need 23 (by decide)
  induction fuel generalizing k with
  | zero => omega
  | succ fuel ih =>
    have hroom : need < (writtenBlob fresh (128 * 2 ^ k) front).length ↔ (need / 128).size ≤ k :=
      lt_mul_pow_iff (by decide)
    have hpow : 2 * (writtenBlob fresh (128 * 2 ^ k) front).length = 128 * 2 ^ (k + 1) := by
      rw [writtenBlob_length, pow_succ]
      ring
    rw [growBlob]
    by_cases hlast : (need / 128).size ≤ k
    · have hreached : blobSize need = 128 * 2 ^ k := by
        rw [blobSize, capacity, le_antisymm hlast hk]
      rw [if_pos (hroom.mpr hlast), if_pos (hlimit.mpr (hlast.trans hint)), hreached]
    · rw [if_neg (mt hroom.mp hlast)]
      rcases Nat.eq_or_lt_of_le hint with rfl | hless
      · -- only the largest blob cannot be doubled
        rw [if_pos (by rw [hpow]; decide), if_neg (mt hlimit.mp hlast)]
      · have hbound : 2 ^ (k + 1) ≤ 2 ^ 23 := Nat.pow_le_pow_right (by decide) hless
        rw [if_neg (by rw [hpow, intMax]; omega), hpow, resizeBlob_written fresh hfront (by omega)]
        exact ih (by omega) hless (by omega) (by omega)

theorem growBlob_written (hused : used < 2 ^ 30) (hneed : used ≤ need)
    (hfront : front.length ≤ used) :
    growBlob fresh need growBound (writtenBlob fresh (blobSize used) front) =
      if need < 2 ^ 30 then .ok (writtenBlob fresh (blobSize need) front) else .error .overflow := by
  have hlimit : (used / 128).size ≤ 23 := (@lt_mul_pow_iff 128 used 23 (by decide)).mp hused
  apply growBlob_doubles fresh
  · exact Nat.size_le_size (Nat.div_le_div_right hneed)
  · exact hlimit
  · rw [growBound]
    omega
  · exact hfront.trans (@lt_capacity 128 used (by decide)).le

/-- Writing behind the front makes the front longer. -/
theorem store_written {bytes : Bytes} (hroom : front.length + bytes.length ≤ n) :
    store (writtenBlob fresh n front).bytes front.length bytes =
      some (writtenBlob fresh n (front ++ bytes)).bytes := by
  have hgap : bytes.length ≤ ((malloc fresh n).drop front.length).length := by
    rw [List.length_drop, length_malloc]
    omega
  rw [writtenBlob, store_after front hgap, List.drop_drop, writtenBlob, List.length_append]

theorem strncpy_written {str item : Bytes} (hitem : strncpyBytes str k = some item)
    (hroom : front.length + item.length ≤ n) :
    strncpy (writtenBlob fresh n front).bytes front.length str k =
      some (writtenBlob fresh n (front ++ item)).bytes := by
  rw [strncpy, hitem, Option.bind_some, store_written fresh hroom]

/-- Once the blob has grown to what a copy needs, the copy goes in behind the front. -/
theorem strncpy_grown {str item : Bytes} (front : Bytes) (hitem : strncpyBytes str k = some item) :
    (front ++ item).length = front.length + k ∧
      strncpy (writtenBlob fresh (blobSize (front.length + k)) front).bytes front.length str k =
        some (writtenBlob fresh (blobSize (front.length + k)) (front ++ item)).bytes := by
  have hsize := length_strncpyBytes hitem
  have hroom : front.length + item.length ≤ blobSize (front.length + k) := by
    rw [hsize]
    exact (@lt_capacity 128 _ (by decide)).le
  exact ⟨by rw [List.length_append, hsize], strncpy_written fresh hitem hroom⟩

end Growth

section Encoder

variable (fresh : Fresh) {maxStringLength : ℤ}

/-- One turn: the copy of the string stays within its object and fits. -/
theorem serializeStrings_some_eq_ok {str front : Bytes} {strs : List (Option Bytes)} {blob : Blob}
    (hfront : front.length < 2 ^ 30) :
    serializeStrings fresh maxStringLength (some str :: strs)
        (writtenBlob fresh (blobSize front.length) front) front.length = .ok blob ↔
      ∃ item, wireItem maxStringLength str = some item ∧ (front ++ item).length < 2 ^ 30 ∧
        serializeStrings fresh maxStringLength strs
          (writtenBlob fresh (blobSize (front ++ item).length) (front ++ item))
          (front ++ item).length = .ok blob := by
  have hgrow (len : ℕ) := @growBlob_written fresh front front.length (front.length + (len + 1))
    hfront (by omega) (le_refl _)
  simp only [serializeStrings, bind_eq_ok, access_eq_ok, wireItem, Option.bind_eq_some_iff]
  constructor
  · rintro ⟨len, hlen, grown, hgrown, bytes, hcopy, h⟩
    rw [hgrow] at hgrown
    split_ifs at hgrown with hfit
    rw [Except.ok.injEq] at hgrown
    obtain ⟨item, hitem, -⟩ := Option.bind_eq_some_iff.mp hcopy
    obtain ⟨hlength, hwritten⟩ := strncpy_grown fresh front hitem
    rw [← hgrown, hwritten, Option.some.injEq] at hcopy
    refine ⟨item, ⟨len, hlen, hitem⟩, by rwa [hlength], ?_⟩
    rw [← hgrown, ← hcopy] at h
    rw [hlength]
    exact h
  · rintro ⟨item, ⟨len, hlen, hitem⟩, hfit, h⟩
    obtain ⟨hlength, hwritten⟩ := strncpy_grown fresh front hitem
    rw [hlength] at hfit h
    exact ⟨len, hlen, _, by rw [hgrow, if_pos hfit], _, hwritten, h⟩

/-- Encoding the strings that are left: it returns when every copy is within its object and
all of them fit, and writes the copies one after the other. -/
theorem serializeStrings_eq_ok {strs : List (Option Bytes)} {front : Bytes}
    (hfront : front.length < 2 ^ 30) {blob : Blob} :
    serializeStrings fresh maxStringLength strs (writtenBlob fresh (blobSize front.length) front)
        front.length = .ok blob ↔
      ∃ items : List Bytes, strs.map (·.bind (wireItem maxStringLength)) = items.map some ∧
        (front ++ items.flatten).length < 2 ^ 30 ∧
        blob = writtenBlob fresh (blobSize (front ++ items.flatten).length) (front ++ items.flatten) := by
  induction strs generalizing front with
  | nil =>
    rw [serializeStrings, Except.ok.injEq]
    constructor
    · intro h
      refine ⟨[], rfl, ?_⟩
      rw [List.flatten_nil, List.append_nil]
      exact ⟨hfront, h.symm⟩
    · rintro ⟨items, hitems, -, rfl⟩
      rw [List.map_nil, eq_comm, List.map_eq_nil_iff] at hitems
      rw [hitems, List.flatten_nil, List.append_nil]
  | cons str strs ih =>
    cases str with
    | none =>
      -- strnlen of a null pointer
      rw [serializeStrings]
      constructor
      · intro h
        exact absurd h (by simp)
      · rintro ⟨items, hitems, -⟩
        cases items with
        | nil => exact absurd hitems (by simp)
        | cons item items => exact absurd hitems (by simp)
    | some str =>
      rw [serializeStrings_some_eq_ok fresh hfront]
      constructor
      · rintro ⟨item, hitem, hfit, h⟩
        obtain ⟨items, hitems, htotal, hblob⟩ := (ih hfit).mp h
        refine ⟨item :: items, ?_, ?_⟩
        · rw [List.map_cons, hitems, List.map_cons, Option.bind_some, hitem]
        · rw [List.flatten_cons, ← List.append_assoc]
          exact ⟨htotal, hblob⟩
      · rintro ⟨items, hitems, htotal, hblob⟩
        cases items with
        | nil => exact absurd hitems (by simp)
        | cons item items =>
          rw [List.map_cons, List.map_cons, List.cons.injEq, Option.bind_some] at hitems
          rw [List.flatten_cons, ← List.append_assoc] at htotal hblob
          -- a part of what fits in the end fits
          have hfit : (front ++ item).length < 2 ^ 30 := by
            rw [List.length_append] at htotal
            omega
          exact ⟨item, hitems.1, hfit, (ih hfit).mpr ⟨items, hitems.2, htotal, hblob⟩⟩

/-- Encoding an array: the header, the copies of its strings, and behind them whatever the
memory of the blob held. -/
theorem stringArraySerialize_eq_ok {arr : StringArray} {blob : Blob} :
    stringArraySerialize fresh arr = .ok blob ↔
      ∃ items : List Bytes, arr.strings.map (·.bind (wireItem arr.maxStringLength)) = items.map some ∧
        (wireHeader arr ++ items.flatten).length < 2 ^ 30 ∧
        blob = writtenBlob fresh (blobSize (wireHeader arr ++ items.flatten).length)
          (wireHeader arr ++ items.flatten) := by
  have hsize : blobSize (wireHeader arr).length = 128 := by
    rw [length_wireHeader]
    rfl
  have hheader : store (createBlob fresh 128).bytes 0 (wireHeader arr) =
      some (writtenBlob fresh 128 (wireHeader arr)).bytes := by
    apply @store_written fresh [] 128
    rw [length_wireHeader]
    decide
  have hfront : (wireHeader arr).length < 2 ^ 30 := by
    rw [length_wireHeader]
    decide
  rw [← serializeStrings_eq_ok fresh hfront, stringArraySerialize, hsize]
  rw [hheader, access_some, ok_bind, length_wireHeader]
  rfl

end Encoder

end TetrisMint

import TetrisMint.StringArrayWire

namespace TetrisMint

open CStrings FallibleRun

/-- Build an array, encode it and decode the blob. Each `Fresh` is what one
allocation finds in its memory: `built` and `decoded` for the items that
set_item copies on the two sides, `blobFresh` for the blob. -/
def stringArrayRoundTrip (built : ℕ → Fresh) (blobFresh : Fresh) (decoded : ℕ → Fresh)
    (maxStringLength : ℤ) (strs : List Bytes) : Except Fault StringArray := do
  let arr ← buildStringArray built maxStringLength strs
  let blob ← stringArraySerialize blobFresh arr
  stringArrayDeserialize decoded blob

/-- The array that comes back has the maximum, the length and the strings that went in. -/
def SurvivesWire (built : ℕ → Fresh) (blobFresh : Fresh) (decoded : ℕ → Fresh)
    (maxStringLength : ℤ) (strs : List Bytes) : Prop :=
  ∃ arr, stringArrayRoundTrip built blobFresh decoded maxStringLength strs = .ok arr ∧
    arr.maxStringLength = maxStringLength ∧ arr.length = strs.length ∧
    ∀ i (h : i < strs.length), ∃ item,
      stringArrayGetItem arr i = .ok (some item) ∧ cString item = some strs[i]

section Decoder

variable (heap : ℕ → Fresh) {maxStringLength : ℤ} {mem : Bytes}

/-- The decoder sets the items from `index` on and nothing else. -/
theorem deserializeStrings_frame {count index messageIndex : ℕ} {arr arr' : StringArray}
    (h : deserializeStrings heap maxStringLength mem count index messageIndex arr = .ok arr') :
    arr'.maxStringLength = arr.maxStringLength ∧ arr'.length = arr.length ∧
      ∀ i < index, arr'.strings[i]? = arr.strings[i]? := by
  induction count generalizing index messageIndex arr with
  | zero =>
    rw [deserializeStrings, Except.ok.injEq] at h
    rw [← h]
    exact ⟨rfl, rfl, fun _ _ => rfl⟩
  | succ count ih =>
    obtain ⟨len, arr₁, -, hcall, hlater⟩ := deserializeStrings_succ_eq_ok.mp h
    obtain ⟨s, rest, -, -, -, -, hm, hl, hstr⟩ := stringArraySetItem_eq_ok.mp hcall
    obtain ⟨hm', hl', hkeep⟩ := ih hlater
    refine ⟨hm'.trans hm, hl'.trans hl, ?_⟩
    intro i hi
    rw [hkeep i (by omega), hstr, List.getElem?_set_ne (by omega)]

section Items

variable {items : List Item} {front gap s : Bytes} {g : UInt8}

/-- Where the decoder has read the items in front, the next item follows. -/
theorem drop_item (hmem : mem = front ++ itemBytes ((s, g) :: items) ++ gap) :
    mem.drop front.length = s ++ g :: (itemBytes items ++ gap) := by
  rw [hmem, itemBytes_cons, List.append_assoc front, List.drop_left, Item.bytes]
  simp only [List.append_assoc, List.cons_append, List.nil_append]

theorem items_behind (hmem : mem = front ++ itemBytes ((s, g) :: items) ++ gap) :
    mem = (front ++ (s ++ [g])) ++ itemBytes items ++ gap := by
  rw [hmem, itemBytes_cons, Item.bytes]
  simp only [List.append_assoc]

theorem length_front_item (front s : Bytes) (g : UInt8) :
    (front ++ (s ++ [g])).length = front.length + s.length + 1 := by
  simp only [List.length_append, List.length_singleton]
  omega

end Items

/-- A turn that finds a text with its NUL stores it and ends right behind it. -/
theorem deserializeStrings_turn {index k : ℕ} {s rest : Bytes} {arr : StringArray}
    (hdrop : mem.drop k = s ++ 0 :: rest) (hs : 0 ∉ s)
    (hmax : s.length ≤ sizeOfInt maxStringLength) (hint : s.length < intMax)
    (hindex : index < arr.strings.length) :
    ∃ arr₁ : StringArray, arr₁.strings = arr.strings.set index (some (s ++ [heap index s.length])) ∧
      ∀ count arr', deserializeStrings heap maxStringLength mem count (index + 1)
          (k + s.length + 1) arr₁ = .ok arr' →
        deserializeStrings heap maxStringLength mem (count + 1) index k arr = .ok arr' := by
  let arr₁ : StringArray :=
    { arr with
      strings := arr.strings.set index (some (s ++ [heap index s.length]))
      sized := List.length_set.trans arr.sized }
  refine ⟨arr₁, rfl, ?_⟩
  intro count arr' hlater
  apply deserializeStrings_succ_eq_ok.mpr
  refine ⟨s.length, arr₁, ?_, ?_, hlater⟩
  · rw [hdrop]
    exact strnlen_terminated hs _ _ hmax
  · apply stringArraySetItem_eq_ok.mpr
    exact ⟨s, _, hdrop, hs, hint, hindex, rfl, rfl, rfl⟩

/-- The texts that the decoder finds are the items' texts exactly when every item
ends in a NUL, both in the blob and in its copy. -/
theorem deserializeStrings_texts_iff {items : List Item} {index : ℕ} {front gap : Bytes}
    {arr : StringArray} (hmem : mem = front ++ itemBytes items ++ gap)
    (hitems : ∀ item ∈ items, 0 ∉ item.1 ∧ item.1.length ≤ sizeOfInt maxStringLength ∧
      item.1.length < intMax)
    (harr : arr.strings.length = index + items.length) :
    (∃ arr', deserializeStrings heap maxStringLength mem items.length index front.length arr =
        .ok arr' ∧
      ∀ i (h : i < items.length), ∃ copy, arr'.strings[index + i]? = some (some copy) ∧
        cString copy = some items[i].1) ↔
    ∀ i (h : i < items.length), items[i].2 = 0 ∧ heap (index + i) items[i].1.length = 0 := by
  induction items generalizing index front arr with
  | nil =>
    refine ⟨fun _ i h => absurd h (by simp), fun _ => ⟨arr, rfl, fun i h => absurd h (by simp)⟩⟩
  | cons item items ih =>
    obtain ⟨s, g⟩ := item
    obtain ⟨hs, hmax, hint⟩ := hitems _ (List.mem_cons_self ..)
    simp only at hs hmax hint
    have hrest (p : Item) (hp : p ∈ items) := hitems p (List.mem_cons_of_mem _ hp)
    have hdrop := drop_item hmem
    have hmem₁ := items_behind hmem
    have hfront₁ := length_front_item front s g
    have hindex : index < arr.strings.length := by
      rw [harr, List.length_cons]
      omega
    constructor
    · rintro ⟨arr', hdec, htexts⟩
      rw [List.length_cons, deserializeStrings_succ_eq_ok] at hdec
      obtain ⟨len, arr₁, hlen, hcall, hlater⟩ := hdec
      obtain ⟨t, tail, hvalue, ht, -, -, -, -, hstr⟩ := stringArraySetItem_eq_ok.mp hcall
      -- the later turns leave this item alone
      obtain ⟨-, -, hkeep⟩ := deserializeStrings_frame heap hlater
      obtain ⟨copy, hcopy, htext⟩ := htexts 0 (by simp)
      rw [Nat.add_zero, hkeep index (by omega), hstr, List.getElem?_set_self hindex,
        Option.some.injEq, Option.some.injEq] at hcopy
      rw [← hcopy, List.getElem_cons_zero] at htext
      -- the copy is cut at the first NUL of the blob, so the text and its NUL stand there
      obtain ⟨rfl, hend⟩ := cString_snoc ht htext
      have hg : g = 0 := by
        have hbytes := hdrop.symm.trans hvalue
        rw [List.append_cancel_left_eq, List.cons.injEq] at hbytes
        exact hbytes.1
      have hlen' := strnlen_terminated hs (itemBytes items ++ gap) _ hmax
      rw [hdrop, hg, hlen', Option.some.injEq] at hlen
      have harr₁ : arr₁.strings.length = index + 1 + items.length := by
        rw [hstr, List.length_set, harr, List.length_cons]
        omega
      rw [← hlen, ← hfront₁] at hlater
      have hnext := (ih hmem₁ hrest harr₁).mp ⟨arr', hlater, fun i h => by
        have htext := htexts (i + 1) (by simpa using h)
        rw [← Nat.add_assoc, Nat.add_right_comm] at htext
        exact htext⟩
      intro i h
      cases i with
      | zero => exact ⟨hg, hend⟩
      | succ i =>
        have hi := hnext i (by simpa using h)
        rw [Nat.add_right_comm, Nat.add_assoc] at hi
        exact hi
    · intro hzero
      obtain ⟨hg, hend⟩ := hzero 0 (by simp)
      simp only [List.getElem_cons_zero, Nat.add_zero] at hg hend
      rw [hg] at hdrop
      obtain ⟨arr₁, hstr, hturn⟩ := deserializeStrings_turn heap hdrop hs hmax hint hindex
      have harr₁ : arr₁.strings.length = index + 1 + items.length := by
        rw [hstr, List.length_set, harr, List.length_cons]
        omega
      obtain ⟨arr', hdec, htexts⟩ := (ih hmem₁ hrest harr₁).mpr fun i h => by
        have hi := hzero (i + 1) (by simpa using h)
        rw [← Nat.add_assoc, Nat.add_right_comm] at hi
        exact hi
      rw [hfront₁] at hdec
      refine ⟨arr', hturn items.length arr' hdec, ?_⟩
      · intro i h
        cases i with
        | zero =>
          obtain ⟨-, -, hkeep⟩ := deserializeStrings_frame heap hdec
          refine ⟨s ++ [heap index s.length], ?_, ?_⟩
          · rw [Nat.add_zero, hkeep index (by omega), hstr]
            exact List.getElem?_set_self hindex
          · rw [hend]
            exact cString_terminated hs []
        | succ i =>
          have hi := htexts i (by simpa using h)
          rw [Nat.add_right_comm, Nat.add_assoc] at hi
          exact hi

/-- Strings that all have their NUL are decoded within the bytes they take. -/
theorem deserializeStrings_returns {strs : List Bytes} {index : ℕ} {front gap : Bytes}
    {arr : StringArray} (hmem : mem = front ++ itemBytes (strs.map fun s => (s, 0)) ++ gap)
    (hstrs : ∀ s ∈ strs, 0 ∉ s ∧ s.length ≤ sizeOfInt maxStringLength ∧ s.length < intMax)
    (harr : arr.strings.length = index + strs.length) :
    ∃ arr', deserializeStrings heap maxStringLength mem strs.length index front.length arr =
      .ok arr' := by
  induction strs generalizing index front arr with
  | nil => exact ⟨arr, rfl⟩
  | cons s strs ih =>
    obtain ⟨hs, hmax, hint⟩ := hstrs s (List.mem_cons_self ..)
    rw [List.length_cons] at harr
    have hindex : index < arr.strings.length := by omega
    obtain ⟨arr₁, hstr, hturn⟩ :=
      deserializeStrings_turn heap (drop_item hmem) hs hmax hint hindex
    have harr₁ : arr₁.strings.length = index + 1 + strs.length := by
      rw [hstr, List.length_set, harr]
      omega
    obtain ⟨arr', hrest⟩ :=
      ih (items_behind hmem) (fun p hp => hstrs p (List.mem_cons_of_mem _ hp)) harr₁
    rw [length_front_item] at hrest
    exact ⟨arr', hturn strs.length arr' hrest⟩

end Decoder

section Wire

variable {arr : StringArray} {items : List Item}

/-- Encoding an array whose items are known writes the header and then the items. -/
theorem stringArraySerialize_cases (fresh : Fresh)
    (hitems : ∀ item ∈ items,
      0 ∉ item.1 ∧ item.1.length ≤ sizeOfInt arr.maxStringLength)
    (harr : arr.strings = items.map fun p => some p.bytes) :
    (((∀ item ∈ items, Readable arr.maxStringLength item) ∧
        wireHeaderSize + (itemBytes items).length < 2 ^ 30) ∧
      ∃ blob gap, stringArraySerialize fresh arr = .ok blob ∧
        blob.bytes = wireHeader arr ++ itemBytes items ++ gap) ∨
    (¬((∀ item ∈ items, Readable arr.maxStringLength item) ∧
        wireHeaderSize + (itemBytes items).length < 2 ^ 30) ∧
      ∃ e, stringArraySerialize fresh arr = .error e) := by
  have hok (blob : Blob) := @serializeItems_eq_ok fresh arr items blob hitems harr
  by_cases hall : (∀ item ∈ items, Readable arr.maxStringLength item) ∧
      wireHeaderSize + (itemBytes items).length < 2 ^ 30
  · left
    exact ⟨hall, _, _, (hok _).mpr ⟨hall, rfl⟩, rfl⟩
  · right
    refine ⟨hall, ?_⟩
    cases hser : stringArraySerialize fresh arr with
    | error e => exact ⟨e, rfl⟩
    | ok blob => exact absurd ((hok blob).mp hser).1 hall

/-- Decoding reads back the header and walks over the rest. -/
theorem stringArrayDeserialize_eq (heap : ℕ → Fresh) {blob : Blob} {body : Bytes}
    (hmax : IsInt arr.maxStringLength) (hlength : IsInt arr.length)
    (hblob : blob.bytes = wireHeader arr ++ body) :
    stringArrayDeserialize heap blob =
      deserializeStrings heap arr.maxStringLength blob.bytes arr.length.toNat 0 wireHeaderSize
        (stringArrayCreate arr.length arr.maxStringLength) := by
  -- the two fields hold what the encoder has written there
  have hfirst : intField blob.bytes 0 = some arr.maxStringLength := by
    rw [hblob, wireHeader, List.append_assoc]
    exact intField_intBytes [] _ hmax
  have hsecond : intField blob.bytes 4 = some arr.length := by
    have hfield := intField_intBytes (intBytes arr.maxStringLength) body hlength
    rw [length_intBytes] at hfield
    rw [hblob, wireHeader, List.append_assoc]
    exact hfield
  rw [stringArrayDeserialize, hfirst, hsecond]
  rfl

end Wire

section Claimed

variable {built : ℕ → Fresh} {maxStringLength : ℤ} {strs : List Bytes}

theorem buildStringArray_eq_ok (hstrs : ∀ s ∈ strs, 0 ∉ s) :
    ((∀ s ∈ strs, s.length < intMax) →
      ∃ arr, buildStringArray built maxStringLength strs = .ok arr) ∧
    ∀ arr, buildStringArray built maxStringLength strs = .ok arr →
      arr.maxStringLength = maxStringLength ∧ arr.length = strs.length ∧
      arr.strings = (storedItems built 0 strs).map fun p => some p.bytes := by
  have hempty : (stringArrayCreate strs.length maxStringLength).strings =
      [] ++ List.replicate strs.length none ++ [] := by
    simp only [stringArrayCreate, Int.toNat_natCast, List.nil_append, List.append_nil]
  have hset := @setItems_eq_ok built strs 0 _ [] [] hstrs rfl hempty
  simp only [List.nil_append, List.append_nil] at hset
  exact hset

theorem storedItems_bound (hmax : IsInt maxStringLength)
    (hstrs : ∀ s ∈ strs, 0 ∉ s ∧ (s.length : ℤ) ≤ maxStringLength) :
    ∀ item ∈ storedItems built 0 strs,
      item.1 ∈ strs ∧ 0 ∉ item.1 ∧ item.1.length ≤ sizeOfInt maxStringLength := by
  intro item hi
  obtain ⟨i, h, rfl⟩ := List.getElem_of_mem hi
  have h' : i < strs.length := by
    rw [length_storedItems] at h
    exact h
  rw [getElem_storedItems built 0 strs i h' h]
  obtain ⟨h0, hlen⟩ := hstrs _ (List.getElem_mem h')
  refine ⟨List.getElem_mem h', h0, ?_⟩
  rw [sizeOfInt_of_nonneg hmax (by omega)]
  change strs[i].length ≤ maxStringLength.toNat
  omega

theorem length_lt_intMax {s : Bytes} (hs : s ∈ strs) (hsize : wireSize strs < 2 ^ 30) :
    s.length < intMax := by
  have hle : s.length + 1 ≤ (strs.map fun s => s.length + 1).sum :=
    List.le_sum_of_mem (List.mem_map.mpr ⟨s, hs, rfl⟩)
  rw [wireSize] at hsize
  rw [intMax]
  omega

/-- Decoding the encoded array gives back the texts exactly when every NUL is in place. -/
theorem decoded_texts_iff {arr : StringArray} {blob : Blob} {gap : Bytes} (decoded : ℕ → Fresh)
    (hmax : IsInt maxStringLength) (hlength : IsInt strs.length)
    (hstrs : ∀ s ∈ strs, 0 ∉ s ∧ (s.length : ℤ) ≤ maxStringLength)
    (hsize : wireSize strs < 2 ^ 30) (hm : arr.maxStringLength = maxStringLength)
    (hl : arr.length = strs.length)
    (hblob : blob.bytes = wireHeader arr ++ itemBytes (storedItems built 0 strs) ++ gap) :
    (∃ arr', stringArrayDeserialize decoded blob = .ok arr' ∧
      arr'.maxStringLength = maxStringLength ∧ arr'.length = strs.length ∧
      ∀ i (h : i < strs.length), ∃ item,
        stringArrayGetItem arr' i = .ok (some item) ∧ cString item = some strs[i]) ↔
      ∀ i (h : i < strs.length), built i strs[i].length = 0 ∧ decoded i strs[i].length = 0 := by
  -- the wire holds an item for each string, so the condition is one on the strings
  let items := storedItems built 0 strs
  have hcount : items.length = strs.length := length_storedItems built 0 strs
  have hitem (i : ℕ) (h : i < items.length) (h' : i < strs.length) :
      items[i] = (strs[i], built i strs[i].length) := by
    have hget := getElem_storedItems built 0 strs i h' h
    rw [Nat.zero_add] at hget
    exact hget
  have hbound (item : Item) (hi : item ∈ items) :
      0 ∉ item.1 ∧ item.1.length ≤ sizeOfInt maxStringLength ∧ item.1.length < intMax := by
    obtain ⟨hmem, h0, hle⟩ := storedItems_bound hmax hstrs item hi
    exact ⟨h0, hle, length_lt_intMax hmem hsize⟩
  have harr : (stringArrayCreate strs.length maxStringLength).strings.length =
      0 + items.length := by
    rw [stringArrayCreate, List.length_replicate, hcount]
    omega
  have hiff := deserializeStrings_texts_iff decoded hblob hbound harr
  rw [length_wireHeader] at hiff
  have hrun : stringArrayDeserialize decoded blob =
      deserializeStrings decoded maxStringLength blob.bytes items.length 0 wireHeaderSize
        (stringArrayCreate strs.length maxStringLength) := by
    rw [stringArrayDeserialize_eq decoded (hm.symm ▸ hmax) (hl.symm ▸ hlength)
      (hblob.trans (List.append_assoc ..)), hm, hl, Int.toNat_natCast, hcount]
  simp only [hrun]
  constructor
  · rintro ⟨arr', hdec, -, -, htexts⟩
    have hzero := hiff.mp ⟨arr', hdec, fun i hi => by
      have h : i < strs.length := hcount ▸ hi
      obtain ⟨copy, hget, htext⟩ := htexts i h
      rw [hitem i hi h, Nat.zero_add]
      exact ⟨copy, access_eq_ok.mp hget, htext⟩⟩
    intro i h
    have hi : i < items.length := hcount.symm ▸ h
    have hends := hzero i hi
    rw [hitem i hi h, Nat.zero_add] at hends
    exact hends
  · intro hzero
    obtain ⟨arr', hdec, htexts⟩ := hiff.mpr fun i hi => by
      have h : i < strs.length := hcount ▸ hi
      rw [hitem i hi h, Nat.zero_add]
      exact hzero i h
    obtain ⟨hm', hl', -⟩ := deserializeStrings_frame decoded hdec
    refine ⟨arr', hdec, hm', hl', ?_⟩
    intro i h
    have hi : i < items.length := hcount.symm ▸ h
    obtain ⟨copy, hget, htext⟩ := htexts i hi
    rw [Nat.zero_add] at hget
    rw [hitem i hi h] at htext
    exact ⟨copy, access_eq_ok.mpr hget, htext⟩

end Claimed

/-- A string array survives the wire exactly when its encoding is shorter than
2 ^ 30 bytes and every byte that an item's NUL was meant for was zero already in
the memory that malloc returned, for the array that is sent and for the one that is decoded. -/
theorem string_array_survives_iff (built : ℕ → Fresh) (blobFresh : Fresh) (decoded : ℕ → Fresh)
    {maxStringLength : ℤ} {strs : List Bytes} (hmax : IsInt maxStringLength)
    (hlength : IsInt strs.length)
    (hstrs : ∀ s ∈ strs, 0 ∉ s ∧ (s.length : ℤ) ≤ maxStringLength) :
    SurvivesWire built blobFresh decoded maxStringLength strs ↔
      wireSize strs < 2 ^ 30 ∧
        ∀ i (h : i < strs.length), built i strs[i].length = 0 ∧ decoded i strs[i].length = 0 := by
  obtain ⟨hreturns, hbuilt⟩ :=
    @buildStringArray_eq_ok built maxStringLength strs fun s h => (hstrs s h).1
  have hbound := @storedItems_bound built maxStringLength strs hmax hstrs
  have hsize : wireHeaderSize + (itemBytes (storedItems built 0 strs)).length = wireSize strs := by
    rw [wireSize, length_itemBytes_storedItems]
  cases hbuild : buildStringArray built maxStringLength strs with
  | error e =>
    -- an item that set_item cannot store is too long for the encoding as well
    constructor
    · rintro ⟨arr', hround, -⟩
      rw [stringArrayRoundTrip, hbuild] at hround
      exact absurd hround (by simp [bind, Except.bind])
    · rintro ⟨hlt, -⟩
      obtain ⟨arr, hok⟩ := hreturns fun s h => length_lt_intMax h hlt
      rw [hbuild] at hok
      exact absurd hok (by simp)
  | ok arr =>
    obtain ⟨hm, hl, hstrings⟩ := hbuilt arr hbuild
    have hitems (item : Item) (hi : item ∈ storedItems built 0 strs) :
        0 ∉ item.1 ∧ item.1.length ≤ sizeOfInt arr.maxStringLength := by
      rw [hm]
      exact (hbound item hi).2
    obtain ⟨⟨hread, hlt⟩, blob, gap, hser, hblob⟩ | ⟨hbad, e, herr⟩ :=
      stringArraySerialize_cases blobFresh hitems hstrings
    · rw [hsize] at hlt
      have hiff := decoded_texts_iff decoded hmax hlength hstrs hlt hm hl hblob
      have hround : stringArrayRoundTrip built blobFresh decoded maxStringLength strs =
          stringArrayDeserialize decoded blob := by
        rw [stringArrayRoundTrip, hbuild]
        simp only [bind, Except.bind, hser]
      rw [SurvivesWire, hround, hiff]
      exact ⟨fun h => ⟨hlt, h⟩, fun h => h.2⟩
    · constructor
      · rintro ⟨arr', hround, -⟩
        rw [stringArrayRoundTrip, hbuild] at hround
        exact absurd hround (by simp [bind, Except.bind, herr])
      · rintro ⟨hlt, hzero⟩
        -- with every NUL in place and room for all bytes the encoder cannot fail
        refine absurd ⟨?_, ?_⟩ hbad
        · intro item hi
          obtain ⟨i, h, rfl⟩ := List.getElem_of_mem hi
          have h' : i < strs.length := by
            rw [length_storedItems] at h
            exact h
          rw [getElem_storedItems built 0 strs i h' h, Nat.zero_add]
          exact Or.inl (hzero i h').1
        · rw [hsize]
          exact hlt

/-- With zeroed memory the strings come back, whatever the blob held. -/
theorem string_array_survives_zeroed :
    SurvivesWire (fun _ _ => 0) (fun _ => 85) (fun _ _ => 0) 15 [[65, 66], []] := by
  have hstrs : ∀ s ∈ ([[65, 66], []] : List Bytes), 0 ∉ s ∧ (s.length : ℤ) ≤ 15 := by decide
  apply (string_array_survives_iff _ _ _ (by decide) (by decide) hstrs).mpr
  exact ⟨by decide, fun _ _ => ⟨rfl, rfl⟩⟩

/-- One string of one character, and memory that malloc has used before: the
encoder reads past the two bytes that set_item allocated. -/
theorem string_array_lost_without_terminator :
    (∀ s ∈ ([[65]] : List Bytes), 0 ∉ s ∧ (s.length : ℤ) ≤ 15) ∧
      ¬SurvivesWire (fun _ _ => 85) (fun _ => 85) (fun _ _ => 85) 15 [[65]] := by
  refine ⟨by decide, ?_⟩
  rintro ⟨decodedArr, hround, -⟩
  obtain ⟨arr, hbuild⟩ : ∃ arr, buildStringArray (fun _ _ => 85) 15 [[65]] = .ok arr := ⟨_, rfl⟩
  obtain ⟨hm, -, hstrings⟩ := (buildStringArray_eq_ok (by decide)).2 arr hbuild
  have hitems : ∀ item ∈ ([([65], 85)] : List Item),
      0 ∉ item.1 ∧ item.1.length ≤ sizeOfInt arr.maxStringLength := by
    rw [hm]
    decide
  obtain ⟨⟨hread, -⟩, -⟩ | ⟨-, e, herr⟩ := stringArraySerialize_cases (fun _ => 85) hitems hstrings
  · have hitem := hread _ (List.mem_singleton_self _)
    rw [Readable, hm] at hitem
    exact absurd hitem (by decide)
  · rw [stringArrayRoundTrip, hbuild] at hround
    exact absurd hround (by simp [bind, Except.bind, herr])

end TetrisMint

import TetrisMint.Message
import TetrisMint.StringArrayBlob

/-! What of its memory the encoder sends: the blob goes out whole, and behind the strings
stands what malloc and realloc have left there. -/
namespace TetrisMint

open CStrings Doubling FallibleRun

/-- An array goes to a socket. `fresh` is what the memory of the blob held. -/
def sendStringArray (fresh : Fresh) (arr : StringArray) (requestId : ℤ) (messageType : UInt8) :
    Except Fault Bytes := do
  let blob ← stringArraySerialize fresh arr
  messageBlob blob requestId messageType

/-- The bytes that the encoder takes for a string. -/
def encodedItemSize (maxStringLength : ℤ) (str : Option Bytes) : ℕ :=
  ((str.bind fun s => strnlen s (sizeOfInt maxStringLength)).getD 0) + 1

def encodedSize (arr : StringArray) : ℕ :=
  wireHeaderSize + (arr.strings.map (encodedItemSize arr.maxStringLength)).sum

/-- Every string is set and ends in a NUL. -/
def Terminated (arr : StringArray) : Prop := ∀ str ∈ arr.strings, ∃ s : Bytes, str = some s ∧ 0 ∈ s

/-- The blob is sent with its whole length. -/
theorem messageBlob_written (fresh : Fresh) {front : Bytes} {n : ℕ} (h : front.length ≤ n)
    (requestId : ℤ) (messageType : UInt8) : messageBlob (writtenBlob fresh n front) requestId messageType =
      .ok (messageNbytes (writtenBlob fresh n front).bytes requestId messageType) := by
  have hfull := length_writtenBlob fresh h
  rw [messageBlob, writtenBlob_length, bytesAt, if_pos hfull.ge, List.take_of_length_le hfull.le,
    access_some, ok_bind]

section Encoded

variable {maxStringLength : ℤ} {strs : List (Option Bytes)}

theorem exists_wireItems (hstrs : ∀ str ∈ strs, ∃ s : Bytes, str = some s ∧ 0 ∈ s) :
    ∃ items : List Bytes, strs.map (·.bind (wireItem maxStringLength)) = items.map some ∧
      items.flatten.length = (strs.map (encodedItemSize maxStringLength)).sum := by
  induction strs with
  | nil => exact ⟨[], rfl, rfl⟩
  | cons str strs ih =>
    rw [List.forall_mem_cons] at hstrs
    obtain ⟨⟨s, rfl, h0⟩, hrest⟩ := hstrs
    obtain ⟨items, hitems, hlen⟩ := ih hrest
    obtain ⟨len, hsome⟩ := strnlen_of_mem h0 (sizeOfInt maxStringLength)
    obtain ⟨item, hitem⟩ := strncpyBytes_of_mem h0 (len + 1)
    refine ⟨item :: items, ?_, ?_⟩
    · rw [List.map_cons, List.map_cons, hitems, Option.bind_some, wireItem, hsome, Option.bind_some,
        hitem]
    · rw [List.flatten_cons, List.length_append, length_strncpyBytes hitem, hlen, List.map_cons,
        List.sum_cons, encodedItemSize, Option.bind_some, hsome, Option.getD_some]

/-- Terminated strings are sent exactly when they fit a blob, header and leftovers included. -/
theorem sendStringArray_eq_ok {arr : StringArray} (harr : Terminated arr) :
    ∃ front : Bytes, front.length = encodedSize arr ∧
      ∀ fresh requestId messageType sent,
        sendStringArray fresh arr requestId messageType = .ok sent ↔ encodedSize arr < 2 ^ 30 ∧
          sent = messageNbytes (writtenBlob fresh (blobSize (encodedSize arr)) front).bytes
            requestId messageType := by
  obtain ⟨items, hitems, hlen⟩ := @exists_wireItems arr.maxStringLength arr.strings harr
  have hsize : (wireHeader arr ++ items.flatten).length = encodedSize arr := by
    rw [List.length_append, length_wireHeader, hlen, encodedSize]
  refine ⟨wireHeader arr ++ items.flatten, hsize, ?_⟩
  intro fresh requestId messageType sent
  have hroom : (wireHeader arr ++ items.flatten).length ≤ blobSize (encodedSize arr) :=
    hsize ▸ (@lt_capacity 128 _ (by decide)).le
  simp only [sendStringArray, bind_eq_ok, stringArraySerialize_eq_ok]
  constructor
  · rintro ⟨blob, ⟨items', hitems', hfit, rfl⟩, hsent⟩
    have hsame : items' = items := by
      apply List.map_injective_iff.mpr (Option.some_injective _)
      rw [← hitems', hitems]
    subst hsame
    rw [hsize] at hfit hsent
    rw [messageBlob_written fresh hroom, Except.ok.injEq] at hsent
    exact ⟨hfit, hsent.symm⟩
  · rintro ⟨hfit, rfl⟩
    refine ⟨_, ⟨items, hitems, by rwa [hsize], rfl⟩, ?_⟩
    rw [hsize, messageBlob_written fresh hroom]

end Encoded

/-- Of every array that can be sent at all, two contents of the memory that the blob is made of
show in the bytes that are sent: they are the same for all contents only when nothing is sent,
because the strings fit no blob. -/
theorem sent_bytes_leak (arr : StringArray) (harr : Terminated arr) (requestId : ℤ)
    (messageType : UInt8) :
    (∀ fresh fresh' sent sent', sendStringArray fresh arr requestId messageType = .ok sent →
        sendStringArray fresh' arr requestId messageType = .ok sent' → sent = sent') ↔
      2 ^ 30 ≤ encodedSize arr := by
  obtain ⟨front, hfront, hsend⟩ := sendStringArray_eq_ok harr
  constructor
  · intro hsame
    by_contra hfit
    rw [not_le] at hfit
    let fresh (b : UInt8) : Fresh := fun _ => b
    have hequal := hsame (fresh 0) (fresh 1) _ _ ((hsend _ _ _ _).mpr ⟨hfit, rfl⟩)
      ((hsend _ _ _ _).mpr ⟨hfit, rfl⟩)
    -- the payloads end with the memory behind the strings, which is never empty
    have hmore : front.length < blobSize (encodedSize arr) := hfront ▸ lt_capacity (by decide)
    have hbyte (b : UInt8) : (writtenBlob (fresh b) (blobSize (encodedSize arr)) front).bytes[front.length]? =
        some b := by
      rw [writtenBlob, List.getElem?_append_right (le_refl _), Nat.sub_self, List.getElem?_drop,
        Nat.add_zero, malloc, List.getElem?_map, List.getElem?_range hmore]
      rfl
    have hbytes : (writtenBlob (fresh 0) (blobSize (encodedSize arr)) front).bytes =
        (writtenBlob (fresh 1) (blobSize (encodedSize arr)) front).bytes := by
      apply (List.append_inj hequal ?_).2
      simp only [List.length_append, length_headerFields]
    have hclash := hbyte 0
    rw [hbytes, hbyte 1] at hclash
    exact absurd hclash (by decide)
  · intro hlarge fresh fresh' sent sent' h
    exact absurd ((hsend _ _ _ _).mp h).1 (not_lt.mpr hlarge)

/-- The list of a single player. -/
def oneName : StringArray := ⟨15, 1, [some [66, 111, 98, 0]], rfl⟩

theorem terminated_oneName : Terminated oneName := by
  intro str hstr
  rw [List.mem_singleton.mp hstr]
  exact ⟨[66, 111, 98, 0], rfl, by decide⟩

theorem sent_bytes_leak_one_name : Terminated oneName ∧
    ¬∀ fresh fresh' sent sent', sendStringArray fresh oneName 0 msgTypeListResponse = .ok sent →
      sendStringArray fresh' oneName 0 msgTypeListResponse = .ok sent' → sent = sent' := by
  refine ⟨terminated_oneName, ?_⟩
  rw [sent_bytes_leak oneName terminated_oneName]
  decide

/-- The last byte that is sent is what the memory held. -/
theorem sent_byte_leaked : Terminated oneName ∧ ∃ sent sent',
    sendStringArray (fun _ => 0) oneName 0 msgTypeListResponse = .ok sent ∧
      sendStringArray (fun _ => 83) oneName 0 msgTypeListResponse = .ok sent' ∧
      (sent.length, sent[139]?) = (140, some 0) ∧ sent'[139]? = some 83 := by
  constructor
  · exact terminated_oneName
  · obtain ⟨sent, hsent, hlast⟩ : ∃ sent, sendStringArray (fun _ => 0) oneName 0 msgTypeListResponse =
        .ok sent ∧ (sent.length, sent[139]?) = (140, some 0) := by
      apply exists_ok_of_map fun sent : Bytes => (sent.length, sent[139]?)
      decide +kernel
    obtain ⟨sent', hsent', hlast'⟩ : ∃ sent,
        sendStringArray (fun _ => 83) oneName 0 msgTypeListResponse = .ok sent ∧
          sent[139]? = some 83 := by
      apply exists_ok_of_map fun sent : Bytes => sent[139]?
      decide +kernel
    exact ⟨sent, sent', hsent, hsent', hlast, hlast'⟩

end TetrisMint

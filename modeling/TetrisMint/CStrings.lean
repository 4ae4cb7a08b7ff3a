import Mathlib.Data.List.TakeWhile
import Mathlib.Tactic

/-! Byte strings as a C program sees them. A pointer into an object is the list
of the bytes from there to the end of the object, so reading past the object is
the empty list, and every function here answers `none` for such a read. -/

namespace CStrings

/-- The `n` low bytes of `v`, least significant first. -/
def leBytes : ℕ → ℕ → List UInt8
  | 0, _ => []
  | n + 1, v => UInt8.ofNat v :: leBytes n (v / 256)

def leNat : List UInt8 → ℕ
  | [] => 0
  | b :: bs => b.toNat + 256 * leNat bs

@[simp] theorem length_leBytes (n v : ℕ) : (leBytes n v).length = n := by
  induction n generalizing v with
  | zero => rfl
  | succ n ih => rw [leBytes, List.length_cons, ih]

/-- A field that is written and read back keeps its value modulo its width. -/
theorem leNat_leBytes (n v : ℕ) : leNat (leBytes n v) = v % 256 ^ n := by
  induction n generalizing v with
  | zero =>
    rw [pow_zero, Nat.mod_one]
    rfl
  | succ n ih =>
    have hlow : (UInt8.ofNat v).toNat = v % 256 := rfl
    calc leNat (leBytes (n + 1) v) = v % 256 + 256 * (v / 256 % 256 ^ n) := by
          rw [leBytes, leNat, ih, hlow]
      _ = v % (256 * 256 ^ n) := (Nat.mod_mul).symm
      _ = v % 256 ^ (n + 1) := by rw [pow_succ, Nat.mul_comm]

theorem leBytes_leNat (bs : List UInt8) : leBytes bs.length (leNat bs) = bs := by
  induction bs with
  | nil => rfl
  | cons b bs ih =>
    have hb := b.toNat_lt
    have hlow : UInt8.ofNat (b.toNat + 256 * leNat bs) = b := by
      apply UInt8.toNat_inj.mp
      change (b.toNat + 256 * leNat bs) % 256 = b.toNat
      omega
    have hhigh : (b.toNat + 256 * leNat bs) / 256 = leNat bs := by omega
    rw [List.length_cons, leNat, leBytes, hlow, hhigh, ih]

/-- The unsigned field of `n` bytes at offset `off`. -/
def leField (m : List UInt8) (off n : ℕ) : Option ℕ :=
  if off + n ≤ m.length then some (leNat ((m.drop off).take n)) else none

/-- A field that lies within the bytes is the field of a longer buffer. -/
theorem leField_append {m : List UInt8} {off n v : ℕ} (h : leField m off n = some v)
    (rest : List UInt8) : leField (m ++ rest) off n = some v := by
  rw [leField] at h
  split_ifs at h with hfit
  have hdrop : n ≤ (m.drop off).length := by
    rw [List.length_drop]
    omega
  have hle : off ≤ m.length := by omega
  rw [leField, List.drop_append_of_le_length hle, List.take_append_of_le_length hdrop, if_pos]
  · exact h
  · rw [List.length_append]
    omega

theorem leField_leBytes (front rest : List UInt8) (n v : ℕ) :
    leField (front ++ (leBytes n v ++ rest)) front.length n = some (v % 256 ^ n) := by
  have htake : (leBytes n v ++ rest).take n = leBytes n v := by
    apply List.take_left'
    exact length_leBytes n v
  rw [leField, if_pos, List.drop_left, htake, leNat_leBytes]
  simp only [List.length_append, length_leBytes]
  omega

/-- A field has the value whose bytes stand at its offset, and no other. -/
theorem leField_eq_some_iff {m : List UInt8} {off n v : ℕ} (hn : 0 < n) (hv : v < 256 ^ n) :
    leField m off n = some v ↔ (m.drop off).take n = leBytes n v := by
  rw [leField]
  constructor
  · intro h
    split_ifs at h with hfit
    have hlen : ((m.drop off).take n).length = n := by
      rw [List.length_take, List.length_drop]
      omega
    calc (m.drop off).take n = leBytes n (leNat ((m.drop off).take n)) := by
          conv_lhs => rw [← leBytes_leNat ((m.drop off).take n), hlen]
      _ = leBytes n v := by rw [Option.some.inj h]
  · intro h
    have hlen := congrArg List.length h
    rw [List.length_take, List.length_drop, length_leBytes] at hlen
    rw [if_pos (by omega), h, leNat_leBytes, Nat.mod_eq_of_lt hv]

def strlen : List UInt8 → Option ℕ
  | [] => none
  | b :: bs => if b = 0 then some 0 else (strlen bs).map (· + 1)

def strnlen : List UInt8 → ℕ → Option ℕ
  | _, 0 => some 0
  | [], _ + 1 => none
  | b :: bs, n + 1 => if b = 0 then some 0 else (strnlen bs n).map (· + 1)

/-- The `n` bytes that memcpy reads. -/
def bytesAt (m : List UInt8) (n : ℕ) : Option (List UInt8) :=
  if n ≤ m.length then some (m.take n) else none

/-- The `n` bytes that `strncpy` stores: the string, cut after `n` bytes or
padded with zeros. -/
def strncpyBytes : List UInt8 → ℕ → Option (List UInt8)
  | _, 0 => some []
  | [], _ + 1 => none
  | b :: bs, n + 1 =>
    if b = 0 then some (List.replicate (n + 1) 0) else (strncpyBytes bs n).map (b :: ·)

/-- Store `bytes` at offset `off` of an object. -/
def store (m : List UInt8) (off : ℕ) (bytes : List UInt8) : Option (List UInt8) :=
  if off + bytes.length ≤ m.length then
    some (m.take off ++ bytes ++ m.drop (off + bytes.length))
  else none

def strncpy (dst : List UInt8) (off : ℕ) (src : List UInt8) (n : ℕ) : Option (List UInt8) :=
  (strncpyBytes src n).bind (store dst off)

/-- Whether two strings compare equal, read from the front until they differ. -/
def strEq : List UInt8 → List UInt8 → Option Bool
  | a :: as, b :: bs =>
    if a = b then (if a = 0 then some true else strEq as bs) else some false
  | _, _ => none

/-- White space, as isspace has it. -/
def isSpace (b : UInt8) : Bool := b == 32 || (9 ≤ b && b ≤ 13)

def scanWord : ℕ → List UInt8 → Option (List UInt8)
  | 0, _ => some []
  | _ + 1, [] => none
  | n + 1, b :: bs => if b = 0 ∨ isSpace b then some [] else (scanWord n bs).map (b :: ·)

/-- The word that sscanf finds for `%ns`, empty when the string has none. -/
def sscanfWord (n : ℕ) (bs : List UInt8) : Option (List UInt8) := scanWord n (bs.dropWhile isSpace)

/-- The text of a NUL-terminated string. -/
def cString (m : List UInt8) : Option (List UInt8) := (strlen m).map m.take

section Terminated

variable {s : List UInt8} (hs : 0 ∉ s) (rest : List UInt8)

include hs in
theorem strlen_terminated : strlen (s ++ 0 :: rest) = some s.length := by
  induction s with
  | nil => rfl
  | cons b s ih =>
    have hb : b ≠ 0 := fun h => hs (h ▸ List.mem_cons_self ..)
    have htail := ih (fun h => hs (List.mem_cons_of_mem _ h))
    rw [List.cons_append, strlen, if_neg hb, htail]
    rfl

include hs in
theorem cString_terminated : cString (s ++ 0 :: rest) = some s := by
  rw [cString, strlen_terminated hs, Option.map_some, List.take_left]

include hs in
theorem strnlen_terminated (n : ℕ) (hn : s.length ≤ n) :
    strnlen (s ++ 0 :: rest) n = some s.length := by
  induction s generalizing n with
  | nil =>
    cases n with
    | zero => rfl
    | succ n => rfl
  | cons b s ih =>
    cases n with
    | zero => exact absurd hn (by simp)
    | succ n =>
      have hb : b ≠ 0 := fun h => hs (h ▸ List.mem_cons_self ..)
      have htail := ih (fun h => hs (List.mem_cons_of_mem _ h)) n (by simpa using hn)
      rw [List.cons_append, strnlen, if_neg hb, htail]
      rfl

include hs in
/-- What has no NUL is copied byte by byte, and the copy goes on behind it. -/
theorem strncpyBytes_append (n : ℕ) :
    strncpyBytes (s ++ rest) (s.length + n) = (strncpyBytes rest n).map (s ++ ·) := by
  induction s with
  | nil =>
    rw [List.nil_append, List.length_nil, Nat.zero_add]
    cases strncpyBytes rest n <;> rfl
  | cons b s ih =>
    have hb : b ≠ 0 := fun h => hs (h ▸ List.mem_cons_self ..)
    have htail := ih (fun h => hs (List.mem_cons_of_mem _ h))
    rw [List.cons_append, List.length_cons, Nat.add_right_comm, strncpyBytes, if_neg hb, htail,
      Option.map_map]
    rfl

include hs in
theorem strncpyBytes_text : strncpyBytes (s ++ rest) s.length = some s := by
  have hnone : strncpyBytes rest 0 = some [] := by cases rest <;> rfl
  have h := strncpyBytes_append hs rest 0
  rwa [Nat.add_zero, hnone, Option.map_some, List.append_nil] at h

include hs in
/-- A text that is shorter than the copy is filled up with zeros. -/
theorem strncpyBytes_padded {n : ℕ} (hn : s.length ≤ n) :
    strncpyBytes (s ++ 0 :: rest) n = some (s ++ List.replicate (n - s.length) 0) := by
  have hfill : strncpyBytes (0 :: rest) (n - s.length) = some (List.replicate (n - s.length) 0) := by
    cases n - s.length <;> rfl
  have h := strncpyBytes_append hs (0 :: rest) (n - s.length)
  rwa [Nat.add_sub_cancel' hn, hfill, Option.map_some] at h

include hs in
/-- A copy to the start of an array keeps what the array holds behind it. -/
theorem strncpy_start {dst : List UInt8} {n : ℕ} (hn : s.length ≤ n) (hdst : n ≤ dst.length) :
    strncpy dst 0 (s ++ 0 :: rest) n =
      some (s ++ List.replicate (n - s.length) 0 ++ dst.drop n) := by
  have hlen : (s ++ List.replicate (n - s.length) (0 : UInt8)).length = n := by
    rw [List.length_append, List.length_replicate]
    omega
  rw [strncpy, strncpyBytes_padded hs rest hn, Option.bind_some, store, if_pos (by omega),
    Nat.zero_add, hlen, List.take_zero, List.nil_append]

include hs in
/-- Asked for one byte more, the copy ends with the byte after the text. -/
theorem strncpyBytes_succ (g : UInt8) :
    strncpyBytes (s ++ g :: rest) (s.length + 1) = some (s ++ [g]) := by
  have hlast : strncpyBytes (g :: rest) 1 = some [g] := by
    rw [strncpyBytes]
    split_ifs with hg
    · rw [hg]
      rfl
    · cases rest <;> rfl
  rw [strncpyBytes_append hs (g :: rest) 1, hlast, Option.map_some]

include hs in
/-- A text that no NUL follows inside its object has no length. -/
theorem strlen_unterminated : strlen s = none := by
  induction s with
  | nil => rfl
  | cons b s ih =>
    have hb : b ≠ 0 := fun h => hs (h ▸ List.mem_cons_self ..)
    rw [strlen, if_neg hb, ih (fun h => hs (List.mem_cons_of_mem _ h))]
    rfl

include hs in
theorem strnlen_unterminated (n : ℕ) :
    strnlen s n = if n ≤ s.length then some n else none := by
  induction s generalizing n with
  | nil =>
    cases n with
    | zero => rfl
    | succ n => rfl
  | cons b s ih =>
    have hb : b ≠ 0 := fun h => hs (h ▸ List.mem_cons_self ..)
    cases n with
    | zero => rfl
    | succ n =>
      rw [strnlen, if_neg hb, ih (fun h => hs (List.mem_cons_of_mem _ h)), List.length_cons]
      simp only [Nat.add_le_add_iff_right]
      split_ifs <;> rfl

include hs in
/-- A copy that is asked for more than an unterminated object leaves it. -/
theorem strncpyBytes_unterminated {n : ℕ} (hn : s.length < n) : strncpyBytes s n = none := by
  induction s generalizing n with
  | nil =>
    cases n with
    | zero => exact absurd hn (by simp)
    | succ n => rfl
  | cons b s ih =>
    cases n with
    | zero => exact absurd hn (by simp)
    | succ n =>
      have hb : b ≠ 0 := fun h => hs (h ▸ List.mem_cons_self ..)
      have htail := ih (fun h => hs (List.mem_cons_of_mem _ h)) (by simpa using hn)
      rw [strncpyBytes, if_neg hb, htail]
      rfl

end Terminated

section Bounded

variable {m : List UInt8} {n : ℕ}

theorem length_strncpyBytes {bytes : List UInt8} (h : strncpyBytes m n = some bytes) :
    bytes.length = n := by
  induction m generalizing n bytes with
  | nil =>
    cases n with
    | zero => rw [← Option.some.inj h]; rfl
    | succ n => exact absurd h (by simp [strncpyBytes])
  | cons b m ih =>
    cases n with
    | zero => rw [← Option.some.inj h]; rfl
    | succ n =>
      rw [strncpyBytes] at h
      split_ifs at h with hb
      · rw [← Option.some.inj h, List.length_replicate]
      · obtain ⟨tail, htail, rfl⟩ := Option.map_eq_some_iff.mp h
        rw [List.length_cons, ih htail]

/-- Where a NUL stands in the object, no bound lets a copy leave it. -/
theorem strncpyBytes_of_mem (h : 0 ∈ m) (n : ℕ) : ∃ bytes, strncpyBytes m n = some bytes := by
  induction m generalizing n with
  | nil => exact absurd h (by simp)
  | cons b m ih =>
    cases n with
    | zero => exact ⟨[], rfl⟩
    | succ n =>
      by_cases hb : b = 0
      · exact ⟨_, by rw [strncpyBytes, if_pos hb]⟩
      · have htail : 0 ∈ m := (List.mem_cons.mp h).resolve_left fun h0 => hb h0.symm
        obtain ⟨bytes, hbytes⟩ := ih htail n
        exact ⟨_, by rw [strncpyBytes, if_neg hb, hbytes, Option.map_some]⟩

theorem strnlen_of_mem (h : 0 ∈ m) (n : ℕ) : ∃ len, strnlen m n = some len := by
  induction m generalizing n with
  | nil => exact absurd h (by simp)
  | cons b m ih =>
    cases n with
    | zero => exact ⟨0, rfl⟩
    | succ n =>
      by_cases hb : b = 0
      · exact ⟨_, by rw [strnlen, if_pos hb]⟩
      · have htail : 0 ∈ m := (List.mem_cons.mp h).resolve_left fun h0 => hb h0.symm
        obtain ⟨len, hlen⟩ := ih htail n
        exact ⟨_, by rw [strnlen, if_neg hb, hlen, Option.map_some]⟩

end Bounded

/-- Where a string has a length, a text without NUL and its terminator stand. -/
theorem strlen_eq_some {m : List UInt8} {n : ℕ} (h : strlen m = some n) :
    ∃ s rest, m = s ++ 0 :: rest ∧ 0 ∉ s ∧ s.length = n := by
  induction m generalizing n with
  | nil => exact absurd h (by simp [strlen])
  | cons b m ih =>
    rw [strlen] at h
    split_ifs at h with hb
    · refine ⟨[], m, by rw [hb]; rfl, by simp, ?_⟩
      exact (Option.some.inj h)
    · obtain ⟨k, hk, hn⟩ := Option.map_eq_some_iff.mp h
      obtain ⟨s, rest, hm, hs, hlen⟩ := ih hk
      refine ⟨b :: s, rest, by rw [hm]; rfl, ?_, ?_⟩
      · rw [List.mem_cons, not_or]
        exact ⟨fun h0 => hb h0.symm, hs⟩
      · rw [List.length_cons, hlen]
        exact hn

/-- The text of an object that ends right after its first NUL or before it. -/
theorem cString_snoc {t s : List UInt8} {b : UInt8} (ht : 0 ∉ t)
    (h : cString (t ++ [b]) = some s) : t = s ∧ b = 0 := by
  by_cases hb : b = 0
  · rw [hb, cString_terminated ht] at h
    exact ⟨Option.some.inj h, hb⟩
  · have hnone : 0 ∉ t ++ [b] := by
      simp only [List.mem_append, List.mem_singleton, not_or]
      exact ⟨ht, fun h0 => hb h0.symm⟩
    rw [cString, strlen_unterminated hnone] at h
    exact absurd h (by simp)

/-- A bounded length that stays in its object does not see what follows the object. -/
theorem strnlen_append {m : List UInt8} {n k : ℕ} (rest : List UInt8)
    (h : strnlen m n = some k) : strnlen (m ++ rest) n = some k := by
  induction m generalizing n k with
  | nil =>
    cases n with
    | zero =>
      rw [← h]
      cases rest <;> rfl
    | succ n => exact absurd h (by simp [strnlen])
  | cons b m ih =>
    cases n with
    | zero => exact h
    | succ n =>
      rw [strnlen] at h
      rw [List.cons_append, strnlen]
      split_ifs at h ⊢ with hb
      · exact h
      · obtain ⟨j, hj, rfl⟩ := Option.map_eq_some_iff.mp h
        rw [ih hj]
        rfl

/-- Bytes stored right after a written front. -/
theorem store_after (front : List UInt8) {gap bytes : List UInt8} (h : bytes.length ≤ gap.length) :
    store (front ++ gap) front.length bytes =
      some (front ++ bytes ++ gap.drop bytes.length) := by
  have hfit : front.length + bytes.length ≤ (front ++ gap).length := by
    rw [List.length_append]
    omega
  rw [store, if_pos hfit, List.take_left, List.drop_append]
  simp

/-- A word that ends within a string is the same when more memory follows. -/
theorem scanWord_returns_iff (n : ℕ) (bs : List UInt8) : (∃ word, scanWord n bs = some word) ↔
    n ≤ bs.length ∨ ∃ b ∈ bs, b = 0 ∨ isSpace b = true := by
  induction bs generalizing n with
  | nil =>
    cases n with
    | zero => simp [scanWord]
    | succ n => simp [scanWord]
  | cons b bs ih =>
    cases n with
    | zero => simp [scanWord]
    | succ n =>
      rw [scanWord, List.length_cons, Nat.succ_le_succ_iff]
      by_cases hb : b = 0 ∨ isSpace b = true
      · rw [if_pos hb]
        constructor
        · exact fun _ => Or.inr ⟨b, List.mem_cons_self .., hb⟩
        · exact fun _ => ⟨[], rfl⟩
      · have htail : (∃ c ∈ b :: bs, c = 0 ∨ isSpace c = true) ↔ ∃ c ∈ bs, c = 0 ∨ isSpace c = true := by
          constructor
          · rintro ⟨c, hc, hstop⟩
            rcases List.mem_cons.mp hc with rfl | hc
            · exact absurd hstop hb
            · exact ⟨c, hc, hstop⟩
          · rintro ⟨c, hc, hstop⟩
            exact ⟨c, List.mem_cons_of_mem b hc, hstop⟩
        rw [if_neg hb, htail, ← ih n]
        simp

/-- A word that ends within the bytes is the word of a longer buffer. -/
theorem scanWord_append {n : ℕ} {bs word : List UInt8} (h : scanWord n bs = some word)
    (rest : List UInt8) : scanWord n (bs ++ rest) = some word := by
  induction bs generalizing n word with
  | nil =>
    cases n with
    | zero => exact h
    | succ n => exact absurd h (by simp [scanWord])
  | cons b bs ih =>
    cases n with
    | zero => exact h
    | succ n =>
      rw [List.cons_append]
      rw [scanWord] at h ⊢
      split_ifs at h ⊢ with hb
      · exact h
      · obtain ⟨tail, htail, hword⟩ := Option.map_eq_some_iff.mp h
        rw [ih htail, Option.map_some, hword]

theorem sscanfWord_append {n : ℕ} {bs word : List UInt8} (h : sscanfWord (n + 1) bs = some word)
    (rest : List UInt8) : sscanfWord (n + 1) (bs ++ rest) = some word := by
  rw [sscanfWord] at h
  have hne : (bs.dropWhile isSpace).isEmpty ≠ true := by
    intro hempty
    rw [List.isEmpty_iff.mp hempty] at h
    exact absurd h (by simp [scanWord])
  rw [sscanfWord, List.dropWhile_append, if_neg hne]
  exact scanWord_append h rest

theorem sscanfWord_of_mem {bs : List UInt8} (h : 0 ∈ bs) (n : ℕ) :
    ∃ word, sscanfWord n bs = some word := by
  -- a NUL is no white space, so it is not skipped
  have h0 : 0 ∈ bs.dropWhile isSpace := by
    rw [← @List.takeWhile_append_dropWhile _ isSpace bs] at h
    rcases List.mem_append.mp h with hin | hin
    · exact absurd (List.mem_takeWhile_imp hin) (by decide)
    · exact hin
  exact (scanWord_returns_iff n _).mpr (Or.inr ⟨0, h0, Or.inl rfl⟩)

section Words

variable {s rest : List UInt8} (hs : ∀ b ∈ s, b ≠ 0 ∧ isSpace b = false)

include hs in
/-- A word is scanned up to the NUL behind it. -/
theorem scanWord_text {n : ℕ} (hn : s.length ≤ n) : scanWord n (s ++ 0 :: rest) = some s := by
  induction s generalizing n with
  | nil =>
    cases n with
    | zero => rfl
    | succ n => rfl
  | cons b s ih =>
    cases n with
    | zero => exact absurd hn (by simp)
    | succ n =>
      obtain ⟨hb, htail⟩ := List.forall_mem_cons.mp hs
      have hgo : ¬(b = 0 ∨ isSpace b = true) := by
        rw [hb.2]
        simp [hb.1]
      rw [List.cons_append, scanWord, if_neg hgo, ih htail (by simpa using hn), Option.map_some]

include hs in
theorem sscanfWord_text {n : ℕ} (hn : s.length ≤ n) : sscanfWord n (s ++ 0 :: rest) = some s := by
  -- there is no white space to skip
  have hskip : (s ++ 0 :: rest).dropWhile isSpace = s ++ 0 :: rest := by
    cases s with
    | nil => rfl
    | cons b s =>
      apply List.dropWhile_cons_of_neg
      rw [(hs b (List.mem_cons_self ..)).2]
      exact Bool.false_ne_true
  rw [sscanfWord, hskip]
  exact scanWord_text hs hn

end Words

/-- Two texts compare equal when they are. -/
theorem strEq_terminated {s t : List UInt8} (hs : 0 ∉ s) (ht : 0 ∉ t) :
    strEq (s ++ [0]) (t ++ [0]) = some (decide (s = t)) := by
  induction s generalizing t with
  | nil =>
    cases t with
    | nil => rfl
    | cons b t =>
      have hb : (0 : UInt8) ≠ b := fun h => ht (h ▸ List.mem_cons_self ..)
      rw [List.nil_append, List.cons_append, strEq, if_neg hb]
      simp
  | cons a s ih =>
    have ha : a ≠ 0 := fun h => hs (h ▸ List.mem_cons_self ..)
    cases t with
    | nil =>
      rw [List.nil_append, List.cons_append, strEq, if_neg ha]
      simp
    | cons b t =>
      rw [List.cons_append, List.cons_append, strEq, if_neg ha]
      split_ifs with hab
      · rw [ih (fun h => hs (List.mem_cons_of_mem _ h)) fun h => ht (List.mem_cons_of_mem _ h)]
        simp [hab]
      · simp [hab]

/-- What compares equal to a text starts with it and its NUL. -/
theorem strEq_eq_true {s m : List UInt8} (h : strEq (s ++ [0]) m = some true) (hs : 0 ∉ s) :
    ∃ rest, m = s ++ 0 :: rest := by
  induction s generalizing m with
  | nil =>
    cases m with
    | nil => exact absurd h (by simp [strEq])
    | cons b m =>
      by_cases hb : (0 : UInt8) = b
      · exact ⟨m, by rw [hb]; rfl⟩
      · rw [List.nil_append, strEq, if_neg hb] at h
        exact absurd h (by simp)
  | cons a s ih =>
    have ha : a ≠ 0 := fun h => hs (h ▸ List.mem_cons_self ..)
    cases m with
    | nil => exact absurd h (by simp [strEq])
    | cons b m =>
      by_cases hab : a = b
      · rw [List.cons_append, strEq, if_pos hab, if_neg ha] at h
        obtain ⟨rest, hrest⟩ := ih h fun h0 => hs (List.mem_cons_of_mem _ h0)
        exact ⟨rest, by rw [hrest, hab]; rfl⟩
      · rw [List.cons_append, strEq, if_neg hab] at h
        exact absurd h (by simp)

theorem zero_not_mem_scanWord {n : ℕ} {bs word : List UInt8} (h : scanWord n bs = some word) :
    0 ∉ word := by
  induction n generalizing bs word with
  | zero =>
    rw [scanWord, Option.some.injEq] at h
    exact h ▸ List.not_mem_nil
  | succ n ih =>
    cases bs with
    | nil => exact absurd h (by simp [scanWord])
    | cons b bs =>
      rw [scanWord] at h
      split_ifs at h with hend
      · rw [Option.some.injEq] at h
        exact h ▸ List.not_mem_nil
      · obtain ⟨word', hword', rfl⟩ := Option.map_eq_some_iff.mp h
        intro hmem
        rcases List.mem_cons.mp hmem with hb | htail
        · exact hend (Or.inl hb.symm)
        · exact ih hword' htail

theorem length_scanWord {n : ℕ} {bs word : List UInt8} (h : scanWord n bs = some word) :
    word.length ≤ n := by
  induction n generalizing bs word with
  | zero =>
    rw [scanWord, Option.some.injEq] at h
    rw [← h]
    exact Nat.zero_le _
  | succ n ih =>
    cases bs with
    | nil => exact absurd h (by simp [scanWord])
    | cons b bs =>
      rw [scanWord] at h
      split_ifs at h
      · rw [← Option.some.inj h]
        exact Nat.zero_le _
      · obtain ⟨word', hword', rfl⟩ := Option.map_eq_some_iff.mp h
        exact Nat.succ_le_succ (ih hword')

theorem length_sscanfWord {n : ℕ} {bs word : List UInt8} (h : sscanfWord n bs = some word) :
    word.length ≤ n := length_scanWord h

/-- The word that sscanf stores is a text. -/
theorem zero_not_mem_sscanfWord {n : ℕ} {bs word : List UInt8} (h : sscanfWord n bs = some word) :
    0 ∉ word := zero_not_mem_scanWord h

end CStrings

import TetrisMint.Drawing

/-! The windows of the points and of the lines in `render.c`. They are erased with the layout only, so
a number is printed over the start of the one that stands there. -/
namespace TetrisMint

/-- `%d`. -/
def decimal (n : ℤ) : List UInt8 :=
  (if n < 0 then [45] else []) ++
    if n = 0 then [48] else (Nat.digits 10 n.natAbs).reverse.map fun d => UInt8.ofNat (48 + d)

/-- "POINTS". -/
def pointsLabel : List UInt8 := [80, 79, 73, 78, 84, 83]

/-- "LINES". -/
def linesLabel : List UInt8 := [76, 73, 78, 69, 83]

def werase (win : Canvas) : Canvas := { win with glyphs := fun _ => ⟨.char 32, 0⟩ }

/-- The window of the points or of the lines: its label, and the number on the next line. -/
def renderNumberWindow (label : List UInt8) (n : ℤ) (win : Canvas) : Canvas :=
  box (mvwprintw win 1 1 (label ++ 10 :: 32 :: decimal n))

/-- A text over the start of another. -/
def overwrite (text row : List UInt8) : List UInt8 := text ++ row.drop text.length

/-- The frame, the label and, under it, a row of characters. -/
def numberPicture (label row : List UInt8) : ℤ × ℤ → Glyph := framed 4 8 fun p =>
  ⟨.char ((if p.1 = 1 then label else row).getD (p.2 - 1).toNat 32), 0⟩

/-- The row stands under the label, as far as the frame leaves room for it. -/
def HoldsRow (win : Canvas) (row : List UInt8) : Prop :=
  ∀ k : ℕ, k < 6 → win.glyphs (2, 1 + k) = ⟨.char (row.getD k 32), 0⟩

section Texts

theorem getD_overwrite (text row : List UInt8) (k : ℕ) :
    (overwrite text row).getD k 32 = if k < text.length then text.getD k 32 else row.getD k 32 := by
  simp only [overwrite, List.getD_eq_getElem?_getD]
  split_ifs with hk
  · rw [List.getElem?_append_left hk]
  · rw [List.getElem?_append_right (by omega), List.getElem?_drop]
    congr 2
    omega

/-- Nothing is left of a row that is not longer than the text. -/
theorem overwrite_eq_iff {text row : List UInt8} : overwrite text row = text ↔ row.length ≤ text.length := by
  rw [overwrite, List.append_right_eq_self, List.drop_eq_nil_iff]

/-- The digits of a number are on one line. -/
theorem decimal_newline (n : ℤ) : 10 ∉ decimal n := by
  intro hc
  rw [decimal, List.mem_append] at hc
  rcases hc with hsign | hdigits
  · split_ifs at hsign
    · exact absurd (List.mem_singleton.mp hsign) (by decide)
    · exact absurd hsign List.not_mem_nil
  · split_ifs at hdigits
    · exact absurd (List.mem_singleton.mp hdigits) (by decide)
    · obtain ⟨d, hd, hdigit⟩ := List.mem_map.mp hdigits
      have hlt : d < 10 := Nat.digits_lt_base (by decide) (List.mem_reverse.mp hd)
      interval_cases d <;> exact absurd hdigit (by decide)

/-- A larger number has no fewer digits. -/
theorem decimal_length_mono {m n : ℤ} (hm : 0 ≤ m) (h : m ≤ n) :
    (decimal m).length ≤ (decimal n).length := by
  have hsign {k : ℤ} (hk : 0 ≤ k) : (if k < 0 then [(45 : UInt8)] else []) = [] := if_neg (by omega)
  rw [decimal, decimal, hsign hm, hsign (hm.trans h), List.nil_append, List.nil_append]
  split_ifs with hm0 hn0
  · exact le_rfl
  · rw [List.length_map, List.length_reverse]
    exact List.length_pos_of_ne_nil (Nat.digits_ne_nil_iff_ne_zero.mpr (by omega))
  · omega
  · rw [List.length_map, List.length_map, List.length_reverse, List.length_reverse]
    exact Nat.le_length_digits_le 10 m.natAbs n.natAbs (by omega)

end Texts

section Windows

variable {win : Canvas} {label row : List UInt8}

theorem werase_holdsRow (win : Canvas) : HoldsRow (werase win) [] := fun _ _ => rfl

/-- What stood under the label is written over from its start on. -/
theorem renderNumberWindow_eq (hlabel : label.length ≤ 6) (hnewline : 10 ∉ label)
    (hheight : win.height = 4) (hwidth : win.width = 8) (hrow : HoldsRow win row) (n : ℤ) :
    Pictured (renderNumberWindow label n win) 4 8 (numberPicture label (overwrite (decimal n) row)) := by
  let text := 32 :: decimal n
  let labelled := win.printed label 1 1
  let cleared := wclrtoeol labelled 1 (1 + label.length)
  let numbered := cleared.printed (text.take 8) 2 0
  have htext : 10 ∉ text.take 8 := by
    intro hc
    rcases List.mem_cons.mp (List.mem_of_mem_take hc) with hspace | hdigit
    · exact absurd hspace (by decide)
    · exact decimal_newline n hdigit
  have hlen : (text.take 8).length ≤ 8 := List.length_take_le 8 text
  have hcleared : cleared.height = 4 ∧ cleared.width = 8 := ⟨hheight, hwidth⟩
  -- the label, the newline, what fits in the next line and the rest of the number
  obtain ⟨y, x, hy, hsplit⟩ : ∃ y x, (3 ≤ y ∨ text.drop 8 = []) ∧
      mvwprintw win 1 1 (label ++ 10 :: text) = ((text.drop 8).foldl waddch (numbered, y, x)).1 := by
    have hfirst : (label ++ 10 :: text).foldl waddch (win, 1, 1) = text.foldl waddch (cleared, 2, 0) := by
      rw [List.foldl_append, foldl_waddch hnewline ⟨by omega, by omega, by omega, by omega⟩ (by omega),
        if_pos (by omega), List.foldl_cons, waddch, if_pos rfl]
      rfl
    have hsecond : text.foldl waddch (cleared, 2, 0) = (text.drop 8).foldl waddch (numbered,
        if 0 + ((text.take 8).length : ℤ) < cleared.width then (2, 0 + ((text.take 8).length : ℤ))
        else (2 + 1, 0)) := by
      conv_lhs => rw [← List.take_append_drop 8 text, List.foldl_append]
      rw [foldl_waddch htext ⟨by omega, by omega, by omega, by omega⟩ (by omega)]
    refine ⟨_, _, ?_, by rw [mvwprintw, if_pos ⟨by omega, by omega, by omega, by omega⟩, hfirst, hsecond]⟩
    by_cases hfull : 8 ≤ text.length
    · left
      have hwhole : (text.take 8).length = 8 := by rw [List.length_take, min_eq_left hfull]
      rw [hwhole, hcleared.2, if_neg (by decide)]
      exact le_rfl
    · exact Or.inr (List.drop_eq_nil_of_le (by omega))
  rw [renderNumberWindow, hsplit]
  obtain ⟨hheight', hwidth', habove⟩ := @foldl_waddch_above numbered (text.drop 8) y x
  have hsize : numbered.height = 4 ∧ numbered.width = 8 := hcleared
  refine ⟨hheight'.trans hsize.1, hwidth'.trans hsize.2, ?_⟩
  rintro p ⟨hpy, hpy', hpx, hpx'⟩
  simp only [box, numberPicture, framed, hheight', hwidth', hsize.1, hsize.2] at hpy' hpx' ⊢
  cases hframe : frame 4 8 p with
  | some ink => rfl
  | none =>
    obtain ⟨htop, hbottom, hleft, hright⟩ := frame_eq_none hframe
    -- the rest of the number comes behind these lines
    have hrest : ((text.drop 8).foldl waddch (numbered, y, x)).1.glyphs p = numbered.glyphs p := by
      rcases hy with hy | hnil
      · exact habove p (by omega)
      · rw [hnil, List.foldl_nil]
    obtain ⟨k, hk⟩ : ∃ k : ℕ, p.2 = 1 + (k : ℤ) := ⟨(p.2 - 1).toNat, by omega⟩
    have hindex : (p.2 - 1).toNat = k := by omega
    have hcolumn : p.2.toNat = k + 1 := by omega
    have hline : p.1 = 1 ∨ p.1 = 2 := by omega
    simp only [hrest, hindex]
    rcases hline with hfirst | hsecond
    · rw [if_pos hfirst, List.getD_eq_getElem?_getD]
      have hother : textAt (text.take 8) 2 0 p = none := if_neg (by omega)
      simp only [numbered, Canvas.printed, hother, cleared, wclrtoeol]
      split_ifs with hclear
      · rw [List.getElem?_eq_none (by omega)]
        rfl
      · have hletter : textAt label 1 1 p = label[k]? := by rw [textAt, if_pos ⟨hfirst, by omega⟩, hindex]
        simp only [labelled, Canvas.printed, hletter]
        rw [List.getElem?_eq_getElem (by omega)]
        rfl
    · rw [if_neg (by omega), getD_overwrite]
      have hdigit : textAt (text.take 8) 2 0 p = (decimal n)[k]? := by
        rw [textAt, if_pos ⟨hsecond, by omega⟩, sub_zero, hcolumn, List.getElem?_take_of_lt (by omega),
          List.getElem?_cons_succ]
      simp only [numbered, Canvas.printed, hdigit]
      split_ifs with hmore
      · rw [List.getElem?_eq_getElem hmore, List.getD_eq_getElem?_getD, List.getElem?_eq_getElem hmore]
        rfl
      · rw [List.getElem?_eq_none (by omega)]
        have hkept : labelled.glyphs p = win.glyphs p := by
          have hlabel : textAt label 1 1 p = none := if_neg (by omega)
          simp only [labelled, Canvas.printed, hlabel]
        have hp : p = (2, 1 + (k : ℤ)) := Prod.ext hsecond hk
        simp only [cleared, wclrtoeol, if_neg (show ¬(p.1 = 1 ∧ 1 + (label.length : ℤ) ≤ p.2) by omega),
          hkept]
        rw [hp]
        exact hrow k (by omega)

/-- A number that does not go down is shown as it is. -/
theorem renderNumberWindow_grown (hlabel : label.length ≤ 6) (hnewline : 10 ∉ label) {m n : ℤ}
    (hm : 0 ≤ m) (h : m ≤ n) (hheight : win.height = 4) (hwidth : win.width = 8)
    (hrow : HoldsRow win (decimal m)) :
    Pictured (renderNumberWindow label n win) 4 8 (numberPicture label (decimal n)) := by
  have hshown := renderNumberWindow_eq hlabel hnewline hheight hwidth hrow n
  rwa [overwrite_eq_iff.mpr (decimal_length_mono hm h)] at hshown

/-- After 1250 points 100 points look like 1000. -/
example : overwrite (decimal 100) (decimal 1250) = decimal 1000 := by decide

/-- The row can be read off its picture. -/
theorem Pictured.holdsRow (h : Pictured win 4 8 (numberPicture label row)) : HoldsRow win row := by
  intro k hk
  have hframe : frame 4 8 (2, 1 + (k : ℤ)) = none := by
    unfold frame
    simp only
    rw [if_neg (by omega), if_neg (by omega), if_neg (by omega)]
  have hindex : ((1 : ℤ) + k - 1).toNat = k := by omega
  rw [h.glyphs _ ⟨by simp only; omega, by simp only [h.height]; omega, by simp only; omega,
    by simp only [h.width]; omega⟩, numberPicture, framed, hframe]
  simp only [hindex]
  rfl

end Windows

end TetrisMint

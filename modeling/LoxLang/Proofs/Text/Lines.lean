import LoxLang.Text.Lines

/-!
The lines of texts that are put together from others. A text that is empty or ends with a line feed is
finished: whatever is joined to it begins a line of its own, so lines are counted part by part.
-/

namespace LoxLang.Text

/-- A line without its terminator. -/
def row (line : List Char) : List Char :=
  if line.getLast? = some '\n' then line.dropLast else line

/-- The lines of a text without their terminators. -/
def rows (cs : List Char) : List (List Char) :=
  (lines cs).map row

/-- What is joined to the text begins a line of its own. -/
def Finished (cs : List Char) : Prop :=
  cs = [] ∨ cs.getLast? = some '\n'

instance (cs : List Char) : Decidable (Finished cs) :=
  inferInstanceAs (Decidable (_ ∨ _))

@[simp] theorem row_line (l : List Char) : row (l ++ ['\n']) = l := by
  simp [row]

theorem row_rest {l : List Char} (h : '\n' ∉ l) : row l = l := by
  refine if_neg fun hlast => h ?_
  exact List.mem_of_getLast? hlast

@[simp] theorem finished_nil : Finished [] := .inl rfl

@[simp] theorem finished_line (cs : List Char) : Finished (cs ++ ['\n']) := .inr (by simp)

theorem Finished.append {cs ds : List Char} (hcs : Finished cs) (hds : Finished ds) :
    Finished (cs ++ ds) := by
  rcases hds with rfl | hds
  · simpa using hcs
  · exact .inr (by simp [List.getLast?_append, hds])

theorem Finished.of_append {cs ds : List Char} (h : Finished (cs ++ ds)) : Finished ds := by
  cases hlast : ds.getLast? with
  | none => exact .inl (List.getLast?_eq_none_iff.mp hlast)
  | some c =>
    have hne : ds ≠ [] := by
      rintro rfl
      simp at hlast
    exact .inr (by simpa [Finished, hne, List.getLast?_append, hlast] using h)

/-! ### Cutting -/

theorem splitLine_line {l : List Char} (h : '\n' ∉ l) (ds : List Char) :
    splitLine (l ++ '\n' :: ds) = (l ++ ['\n'], ds) := by
  induction l with
  | nil => rfl
  | cons c l ih =>
    obtain ⟨hc, hl⟩ := not_or.mp (mt List.mem_cons.mpr h)
    simp [splitLine, Ne.symm hc, ih hl]

theorem splitLine_rest {l : List Char} (h : '\n' ∉ l) : splitLine l = (l, []) := by
  induction l with
  | nil => rfl
  | cons c l ih =>
    obtain ⟨hc, hl⟩ := not_or.mp (mt List.mem_cons.mpr h)
    simp [splitLine, Ne.symm hc, ih hl]

/-- The bound on the number of lines is never met. -/
theorem linesFrom_eq_lines {n : Nat} {cs : List Char} (h : cs.length ≤ n) : linesFrom n cs = lines cs := by
  suffices ∀ n m (cs : List Char), cs.length ≤ n → cs.length ≤ m → linesFrom n cs = linesFrom m cs from
    this _ _ _ h (Nat.le_refl _)
  intro n
  induction n with
  | zero =>
    intro m cs hn _
    obtain rfl := List.length_eq_zero_iff.mp (Nat.le_zero.mp hn)
    cases m <;> rfl
  | succ n ih =>
    intro m cs hn hm
    cases cs with
    | nil => cases m <;> rfl
    | cons c cs =>
      cases m with
      | zero => simp at hm
      | succ m =>
        have hrest := length_splitLine_le (c :: cs)
        simp only [List.length_cons] at hn hm hrest
        simp only [linesFrom, List.cons.injEq, true_and]
        exact ih m _ (by omega) (by omega)

@[simp] theorem lines_nil : lines [] = [] := rfl

theorem lines_of_splitLine {c : Char} {cs line rest : List Char}
    (h : splitLine (c :: cs) = (line, rest)) : lines (c :: cs) = line :: lines rest := by
  have hrest := length_splitLine_le (c :: cs)
  rw [h] at hrest
  simp only [lines, List.length_cons, linesFrom, h]
  rw [linesFrom_eq_lines (by simpa using hrest)]
  rfl

theorem lines_line {l : List Char} (h : '\n' ∉ l) (ds : List Char) :
    lines (l ++ '\n' :: ds) = (l ++ ['\n']) :: lines ds := by
  have hsplit := splitLine_line h ds
  cases l with
  | nil => exact lines_of_splitLine hsplit
  | cons c l => exact lines_of_splitLine hsplit

theorem lines_rest {l : List Char} (hne : l ≠ []) (h : '\n' ∉ l) : lines l = [l] := by
  have hsplit := splitLine_rest h
  cases l with
  | nil => exact absurd rfl hne
  | cons c l => exact lines_of_splitLine hsplit

/-- Lines as a text is cut into them: only the last one can be without its line feed. -/
inductive Cut : List (List Char) → Prop where
  | nil : Cut []
  | rest {l : List Char} : l ≠ [] → '\n' ∉ l → Cut [l]
  | line {l : List Char} {ls : List (List Char)} : '\n' ∉ l → Cut ls → Cut ((l ++ ['\n']) :: ls)

theorem cut_lines (cs : List Char) : Cut (lines cs) := by
  induction h : cs.length using Nat.strongRecOn generalizing cs with
  | _ n ih =>
    subst h
    by_cases hnl : '\n' ∈ cs
    · obtain ⟨l, ds, rfl, hl⟩ := List.eq_append_cons_of_mem hnl
      rw [lines_line hl]
      exact .line hl (ih _ (by simp; omega) ds rfl)
    · cases cs with
      | nil => exact .nil
      | cons c cs =>
        rw [lines_rest (by simp) hnl]
        exact .rest (by simp) hnl

namespace Cut

variable {l : List Char} {ls : List (List Char)}

theorem lines_flatten (h : Cut ls) : lines ls.flatten = ls := by
  induction h with
  | nil => rfl
  | rest hne hl => simpa using lines_rest hne hl
  | @line l ls hl _ ih => simpa [ih] using lines_line hl ls.flatten

theorem tail (h : Cut (l :: ls)) : Cut ls := by
  cases h with
  | rest => exact .nil
  | line _ h => exact h

theorem ne_nil (h : Cut (l :: ls)) : l ≠ [] := by
  cases h with
  | rest hne => exact hne
  | line => simp

theorem lines_head (h : Cut (l :: ls)) : lines l = [l] := by
  cases h with
  | rest hne hl => exact lines_rest hne hl
  | line hl => exact lines_line hl []

/-- A line with another one behind it is finished. -/
theorem finished (h : Cut (l :: ls)) (hne : ls ≠ []) : Finished l := by
  cases h with
  | rest => exact absurd rfl hne
  | line => exact finished_line _

theorem lines_append (h : Cut ls) (hfin : Finished ls.flatten) (ds : List Char) :
    lines (ls.flatten ++ ds) = ls ++ lines ds := by
  induction h with
  | nil => rfl
  | @rest l hne hl =>
    rcases hfin with hnil | hlast
    · exact absurd (by simpa using hnil) hne
    · exact absurd (List.mem_of_getLast? (by simpa using hlast)) hl
  | @line l ls hl _ ih =>
    have hrest := ih (by simpa using hfin.of_append)
    simpa [hrest] using lines_line hl (ls.flatten ++ ds)

/-- A line feed behind an unfinished text ends its last line. -/
theorem rows_close (h : Cut ls) (hfin : ¬Finished ls.flatten) :
    rows (ls.flatten ++ ['\n']) = ls.map row := by
  induction h with
  | nil => exact absurd finished_nil hfin
  | @rest l hne hl => simp [rows, lines_line hl [], row_rest hl]
  | @line l ls hl hcut ih =>
    have hunfinished : ¬Finished ls.flatten := fun hfinished =>
      hfin (by simpa using (finished_line l).append hfinished)
    simpa [rows, lines_line hl] using ih hunfinished

/-- There is one line more than there are line feeds before the last character. -/
theorem length_eq (h : Cut ls) (hne : ls ≠ []) : ls.length = ls.flatten.dropLast.count '\n' + 1 := by
  induction h with
  | nil => exact absurd rfl hne
  | @rest l _ hl =>
    have hnone : '\n' ∉ l.dropLast := fun h => hl (List.dropLast_subset l h)
    simp [List.count_eq_zero.mpr hnone]
  | @line l ls hl hcut ih =>
    have hnone : l.count '\n' = 0 := List.count_eq_zero.mpr hl
    by_cases hls : ls = []
    · simp [hls, hnone]
    · have hflat : ls.flatten ≠ [] := by
        have hpos := congrArg List.length hcut.lines_flatten
        intro hnil
        rw [hnil] at hpos
        exact hls (List.length_eq_zero_iff.mp hpos.symm)
      rw [List.flatten_cons, List.dropLast_append_of_ne_nil hflat, List.count_append, List.count_append,
        hnone, List.length_cons, ih hls]
      simp
      omega

end Cut

theorem length_lines {cs : List Char} (h : cs ≠ []) : (lines cs).length = cs.dropLast.count '\n' + 1 := by
  have hflat := flatten_lines cs
  have hne : lines cs ≠ [] := fun hnil => h (by rw [← hflat, hnil]; rfl)
  simpa [hflat] using (cut_lines cs).length_eq hne

theorem lines_append {cs : List Char} (h : Finished cs) (ds : List Char) :
    lines (cs ++ ds) = lines cs ++ lines ds := by
  have hflat := flatten_lines cs
  simpa [hflat] using (cut_lines cs).lines_append (by rwa [hflat]) ds

theorem rows_append {cs : List Char} (h : Finished cs) (ds : List Char) :
    rows (cs ++ ds) = rows cs ++ rows ds := by
  simp [rows, lines_append h]

theorem rows_close {cs : List Char} (h : ¬Finished cs) : rows (cs ++ ['\n']) = rows cs := by
  have hflat := flatten_lines cs
  simpa [hflat, rows] using (cut_lines cs).rows_close (by rwa [hflat])

end LoxLang.Text

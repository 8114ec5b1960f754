/-!
Lines with their terminators: every line but the last ends with its line feed, and no line is empty, so
joining the lines gives the text back.
-/

namespace LoxLang.Text

/-- The characters up to and including the first line feed, and the rest. -/
def splitLine : List Char → List Char × List Char
  | [] => ([], [])
  | c :: cs =>
    if c = '\n' then ([c], cs)
    else
      let (line, rest) := splitLine cs
      (c :: line, rest)

/-- Cuts a text into lines; the first argument bounds their number. -/
def linesFrom : Nat → List Char → List (List Char)
  | n + 1, c :: cs =>
    let (line, rest) := splitLine (c :: cs)
    line :: linesFrom n rest
  | _, _ => []

/-- The lines of a text with their terminators. -/
def lines (cs : List Char) : List (List Char) :=
  linesFrom cs.length cs

theorem splitLine_append (cs : List Char) : (splitLine cs).1 ++ (splitLine cs).2 = cs := by
  induction cs with
  | nil => rfl
  | cons c cs ih =>
    by_cases h : c = '\n'
    · simp [splitLine, h]
    · simp [splitLine, h, ih]

theorem length_splitLine_le (cs : List Char) : (splitLine cs).2.length ≤ cs.length - 1 := by
  induction cs with
  | nil => simp [splitLine]
  | cons c cs ih =>
    by_cases h : c = '\n'
    · simp [splitLine, h]
    · simp only [splitLine, h, ↓reduceIte]
      simp only [List.length_cons]
      omega

theorem flatten_linesFrom (n : Nat) (cs : List Char) (h : cs.length ≤ n) :
    (linesFrom n cs).flatten = cs := by
  induction n generalizing cs with
  | zero => cases cs with
    | nil => rfl
    | cons c cs => simp at h
  | succ n ih => cases cs with
    | nil => rfl
    | cons c cs =>
      have hlen := length_splitLine_le (c :: cs)
      have hrest : (splitLine (c :: cs)).2.length ≤ n := by
        simp only [List.length_cons] at hlen h
        omega
      simp only [linesFrom, List.flatten_cons, ih _ hrest]
      exact splitLine_append (c :: cs)

/-- Joining the lines gives the text back. -/
theorem flatten_lines (cs : List Char) : (lines cs).flatten = cs :=
  flatten_linesFrom _ _ (Nat.le_refl _)

end LoxLang.Text

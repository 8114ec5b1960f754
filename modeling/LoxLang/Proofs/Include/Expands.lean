import LoxLang.Include.Expansion
import LoxLang.Proofs.Text.Lines
import Mathlib.Data.List.Forall2

/-!
What an expansion is made of. A text begins with a heading of blank lines and directives. Of every line of
the heading the expansion says what has become of it, and the rest of the text follows unchanged.
-/

namespace LoxLang.Include

open Text (Cut Finished row rows)

/-- A line that is blank or a directive. -/
def isHeading (line : List Char) : Bool :=
  (Text.trim line).isEmpty || (Directive.parse? line).isSome

/-- The lines at the beginning of a text whose directives are replaced. -/
def heading (text : List Char) : List (List Char) :=
  (Text.lines text).takeWhile isHeading

/-- The directive on a line of the heading. -/
def directiveAt (text : List Char) (line : Nat) : Option Directive :=
  (heading text)[line]?.bind Directive.parse?

/-- The line that an origin is if it is one of the text itself. -/
def Origin.own? (o : Origin) : Option Nat :=
  match o.file with
  | none => some o.line
  | some _ => none

@[simp] theorem Origin.own?_none (l : Nat) : Origin.own? ⟨none, l⟩ = some l := rfl

@[simp] theorem Origin.own?_some (path : String) (l : Nat) : Origin.own? ⟨some path, l⟩ = none := rfl

theorem own_range' (start length : Nat) :
    ((List.range' start length).map fun i => (⟨none, i⟩ : Origin)).filterMap Origin.own? =
      List.range' start length := by
  simp [List.filterMap_map, Function.comp_def]

/-- What is left of lines, of which the first is line `own` of its file, case by case. -/
inductive Expands (named : Directive → Except Fault (String × Expansion)) :
    Nat → List (List Char) → Expansion → Prop where
  | nil {own : Nat} : Expands named own [] ⟨[], 0, []⟩
  | blank {own : Nat} {line : List Char} {rest : List (List Char)} {e : Expansion} :
    Text.trim line = [] → Expands named (own + 1) rest e →
      Expands named own (line :: rest) ⟨line ++ e.source, e.addedLines, ⟨none, own⟩ :: e.origins⟩
  | directive {own : Nat} {line : List Char} {rest : List (List Char)} {e : Expansion}
    {directive : Directive} {path : String} {included : Expansion} :
    Directive.parse? line = some directive → named directive = .ok (path, included) →
      Expands named (own + 1) rest e →
        Expands named own (line :: rest)
          ⟨(splice path own included).source ++ e.source,
            (splice path own included).addedLines + e.addedLines,
            (splice path own included).origins ++ e.origins⟩
  | body {own : Nat} {line : List Char} {rest : List (List Char)} :
    isHeading line = false →
      Expands named own (line :: rest)
        ⟨(line :: rest).flatten, 0, (List.range' own (line :: rest).length).map fun i => ⟨none, i⟩⟩

section

variable {named : Directive → Except Fault (String × Expansion)} {own : Nat} {line : List Char}
  {ls : List (List Char)} {e : Expansion}

theorem expands_of_ok (h : expandLines named own ls = .ok e) : Expands named own ls e := by
  induction ls generalizing own e with
  | nil =>
    cases h
    exact .nil
  | cons line rest ih =>
    unfold expandLines at h
    split at h
    next hblank =>
      cases hrest : expandLines named (own + 1) rest with
      | error f => simp [hrest, bind, Except.bind] at h
      | ok e' =>
        simp only [hrest, bind, Except.bind, pure, Except.pure, Except.ok.injEq] at h
        subst h
        exact .blank (List.isEmpty_iff.mp hblank) (ih hrest)
    next hblank =>
      split at h
      next d hd =>
        cases hnamed : named d with
        | error f => simp [hnamed, bind, Except.bind] at h
        | ok r =>
          obtain ⟨path, included⟩ := r
          cases hrest : expandLines named (own + 1) rest with
          | error f => simp [hnamed, hrest, bind, Except.bind] at h
          | ok e' =>
            simp only [hnamed, hrest, bind, Except.bind, pure, Except.pure, Except.ok.injEq] at h
            subst h
            exact .directive hd hnamed (ih hrest)
      next hd =>
        simp only [Except.ok.injEq] at h
        subst h
        exact .body (by simp [isHeading, hd, hblank])

/-- Blank lines are no directives. -/
theorem parse?_of_blank (h : Text.trim line = []) : Directive.parse? line = none := by
  unfold Directive.parse?
  rw [h]
  rfl

/-- The cases are all there is to an expansion. -/
theorem Expands.expandLines_eq (h : Expands named own ls e) : expandLines named own ls = .ok e := by
  induction h with
  | nil => rfl
  | blank hblank _ ih => simp [expandLines, hblank, ih, bind, Except.bind, pure, Except.pure]
  | @directive own line _ _ d _ _ hd hnamed _ ih =>
    have hblank : Text.trim line ≠ [] := fun h => by simp [parse?_of_blank h] at hd
    simp [expandLines, hblank, hd, hnamed, ih, bind, Except.bind, pure, Except.pure]
  | body hbody =>
    obtain ⟨hblank, hd⟩ := Bool.or_eq_false_iff.mp hbody
    simp [expandLines, hblank, Option.isNone_iff_eq_none.mp (Option.isSome_eq_false_iff.mp hd)]

theorem isHeading_of_blank (h : Text.trim line = []) : isHeading line = true := by
  simp [isHeading, h]

theorem isHeading_of_directive {d : Directive} (h : Directive.parse? line = some d) :
    isHeading line = true := by
  simp [isHeading, h]

end

/-! ### Counting lines -/

theorem lineCount_append {cs : List Char} (h : Finished cs) (ds : List Char) :
    lineCount (cs ++ ds) = lineCount cs + lineCount ds := by
  simp [lineCount, Text.lines_append h]

@[simp] theorem length_rows (cs : List Char) : (rows cs).length = lineCount cs := by
  simp [rows, lineCount]

theorem lineCount_eq_zero {cs : List Char} : lineCount cs = 0 ↔ cs = [] := by
  constructor
  · intro h
    have hflat := Text.flatten_lines cs
    rw [List.length_eq_zero_iff.mp h] at hflat
    exact hflat.symm
  · rintro rfl
    rfl

theorem finished_splice (path : String) (own : Nat) (e : Expansion) :
    Finished (splice path own e).source := by
  by_cases h : e.source.getLast? = some '\n'
  · have hsource : (splice path own e).source = e.source := if_pos h
    rw [hsource]
    exact .inr h
  · simp [splice, h]

/-- What is spliced in has the lines of the expansion, or one empty line. -/
theorem rows_splice (path : String) (own : Nat) (e : Expansion) :
    rows (splice path own e).source = if e.source = [] then [[]] else rows e.source := by
  by_cases hnil : e.source = []
  · simp [splice, hnil]
    decide
  · by_cases hlast : e.source.getLast? = some '\n'
    · simp [splice, hlast, hnil]
    · simpa [splice, hlast, hnil] using Text.rows_close (not_or.mpr ⟨hnil, hlast⟩)

theorem lineCount_splice (path : String) (own : Nat) (e : Expansion) :
    lineCount (splice path own e).source = 1 + (splice path own e).addedLines := by
  rw [← length_rows, rows_splice]
  by_cases h : e.source = []
  · simp [splice, h, lineCount]
  · have hpos := mt lineCount_eq_zero.mp h
    simp only [h, ↓reduceIte, length_rows, splice]
    omega

/-- A relation holds between lines, of which the first is line `own` of its file, and where they stand, but
for the directives of their heading; and between the lines that are spliced in for these and what are then
their origins. -/
structure Related (R : List Char → Origin → Prop) (named : Directive → Except Fault (String × Expansion))
    (own : Nat) (ls : List (List Char)) : Prop where
  lines : ∀ i line, ls[i]? = some line → (ls.takeWhile isHeading)[i]?.bind Directive.parse? = none →
    R (row line) ⟨none, own + i⟩
  spliced : ∀ i line d path included, (ls.takeWhile isHeading)[i]? = some line →
    Directive.parse? line = some d → named d = .ok (path, included) →
      List.Forall₂ R (rows (splice path (own + i) included).source)
        (splice path (own + i) included).origins

theorem Related.tail {R : List Char → Origin → Prop}
    {named : Directive → Except Fault (String × Expansion)} {own : Nat} {line : List Char}
    {rest : List (List Char)} (h : Related R named own (line :: rest)) (hheading : isHeading line = true) :
    Related R named (own + 1) rest where
  lines i l hl hnone := by
    simpa only [Nat.add_assoc, Nat.add_comm 1] using
      h.lines (i + 1) l hl (by simpa [hheading] using hnone)
  spliced i l d path included hl := by
    simpa only [Nat.add_assoc, Nat.add_comm 1] using
      h.spliced (i + 1) l d path included (by simpa [hheading] using hl)

/-- The lines that are spliced in and their origins are those of the expansion, told from outside. -/
theorem forall₂_splice {R R' : List Char → Origin → Prop} {path : String} {own : Nat} {e : Expansion}
    (h : List.Forall₂ R (rows e.source) e.origins)
    (hmoved : ∀ line o, R line o → R' line ⟨some (o.file.getD path), o.line⟩)
    (hempty : e.source = [] → R' [] ⟨none, own⟩) :
    List.Forall₂ R' (rows (splice path own e).source) (splice path own e).origins := by
  have hlength : e.origins.length = lineCount e.source := by
    rw [← h.length_eq, length_rows]
  rw [rows_splice]
  by_cases hnil : e.source = []
  · have hnone : e.origins = [] := by
      rw [hnil] at hlength
      exact List.length_eq_zero_iff.mp hlength
    simpa [splice, hnil, hnone] using hempty hnil
  · have hsome : e.origins ≠ [] := fun hnone => by
      rw [hnone] at hlength
      exact hnil (lineCount_eq_zero.mp hlength.symm)
    simp only [splice, hnil, hsome, List.isEmpty_iff, ↓reduceIte, List.forall₂_map_right_iff]
    exact h.imp hmoved

theorem length_splice {path : String} {own : Nat} {e : Expansion}
    (h : e.origins.length = lineCount e.source) :
    (splice path own e).origins.length = lineCount (splice path own e).source := by
  have hany : List.Forall₂ (fun _ _ => True) (rows e.source) e.origins :=
    List.forall₂_iff_get.mpr ⟨by rw [length_rows, h], fun _ _ _ => trivial⟩
  have hsplice : List.Forall₂ (fun _ _ => True) (rows (splice path own e).source)
      (splice path own e).origins :=
    forall₂_splice hany (fun _ _ _ => trivial) fun _ => trivial
  rw [← hsplice.length_eq, length_rows]

/-- Of the text itself only an empty line comes from what is spliced in. -/
theorem own_splice (path : String) (own : Nat) (e : Expansion) :
    (splice path own e).origins.filterMap Origin.own? = if e.origins = [] then [own] else [] := by
  by_cases h : e.origins = []
  · simp [splice, h, Origin.own?]
  · simp [splice, h, Origin.own?, List.filterMap_map, Function.comp_def]

namespace Expands

variable {named : Directive → Except Fault (String × Expansion)} {own : Nat} {line : List Char}
  {ls rest : List (List Char)} {e : Expansion}

theorem eq_nil_iff (h : Expands named own ls e) (hcut : Cut ls) : e.source = [] ↔ ls = [] := by
  cases h with
  | nil => simp
  | blank _ _ =>
    have hne := hcut.ne_nil
    simp [hne]
  | @directive _ _ _ _ _ path included _ _ =>
    have hne : (splice path own included).source ≠ [] := fun h => by
      have := lineCount_splice path own included
      rw [h] at this
      simp [lineCount] at this
      omega
    simp [hne]
  | body _ =>
    have hne := hcut.ne_nil
    simp [hne]

/-- A blank line of the heading is cut off the expansion as it was cut off the text. -/
theorem lines_blank (h : Expands named own rest e) (hcut : Cut (line :: rest)) :
    Text.lines (line ++ e.source) = line :: Text.lines e.source := by
  by_cases hrest : rest = []
  · subst hrest
    rw [(h.eq_nil_iff hcut.tail).mpr rfl]
    simpa using hcut.lines_flatten
  · have hline : Text.lines line = [line] := hcut.lines_head
    rw [Text.lines_append (hcut.finished hrest), hline, List.singleton_append]

/-- An expansion has the lines of the text and those that were added. -/
theorem lineCount_source (h : Expands named own ls e) (hcut : Cut ls) :
    lineCount e.source = ls.length + e.addedLines := by
  induction h with
  | nil => rfl
  | blank _ hrest ih =>
    have hlines := ih hcut.tail
    simp only [lineCount, hrest.lines_blank hcut, List.length_cons] at hlines ⊢
    omega
  | @directive own _ _ e _ path included _ _ _ ih =>
    have hlines := ih hcut.tail
    rw [lineCount_append (finished_splice path own included), lineCount_splice, hlines, List.length_cons]
    dsimp only
    omega
  | body _ => exact congrArg List.length hcut.lines_flatten

/-- Every line of an expansion stands in a relation to its origin if the lines of the text do, and what is
spliced in for the directives of its heading. -/
theorem forall₂_origins {R : List Char → Origin → Prop} (h : Expands named own ls e) (hcut : Cut ls)
    (hrel : Related R named own ls) : List.Forall₂ R (rows e.source) e.origins := by
  induction h with
  | nil => exact .nil
  | @blank own line _ e hblank hrest ih =>
    have hlines : rows (line ++ e.source) = row line :: rows e.source := by
      simp [rows, hrest.lines_blank hcut]
    rw [hlines]
    have hheading := isHeading_of_blank hblank
    exact .cons (hrel.lines 0 line rfl (by simp [hheading, parse?_of_blank hblank]))
      (ih hcut.tail (hrel.tail hheading))
  | @directive own line _ e d path included hd hnamed hrest ih =>
    have hheading := isHeading_of_directive hd
    rw [Text.rows_append (finished_splice path own included)]
    exact List.rel_append (hrel.spliced 0 line d path included (by simp [hheading]) hd hnamed)
      (ih hcut.tail (hrel.tail hheading))
  | @body own line rest hbody =>
    have hlines : rows (line :: rest).flatten = (line :: rest).map row :=
      congrArg (List.map row) hcut.lines_flatten
    rw [hlines, List.forall₂_map_left_iff, List.forall₂_map_right_iff, List.forall₂_iff_get]
    refine ⟨by simp, fun i hi _ => ?_⟩
    simpa using hrel.lines i _ (List.getElem?_eq_getElem hi) (by simp [hbody])

/-- The line of the text with number `i` is still there: it is no directive, or a directive that stands for
nothing. -/
def Stays (named : Directive → Except Fault (String × Expansion)) (ls : List (List Char)) (i : Nat) : Prop :=
  i < ls.length ∧ ∀ d, (ls.takeWhile isHeading)[i]?.bind Directive.parse? = some d →
    ∃ path included, named d = .ok (path, included) ∧ included.origins = []

theorem stays_succ (hheading : isHeading line = true) {i : Nat} :
    Stays named (line :: rest) (i + 1) ↔ Stays named rest i := by
  simp [Stays, hheading]

/-- Every directive of the heading has been replaced. -/
theorem named_of_heading (h : Expands named own ls e) {i : Nat} {d : Directive}
    (hd : (ls.takeWhile isHeading)[i]?.bind Directive.parse? = some d) : ∃ r, named d = .ok r := by
  induction h generalizing i with
  | nil => simp at hd
  | blank hblank _ ih =>
    rw [List.takeWhile_cons_of_pos (isHeading_of_blank hblank)] at hd
    cases i with
    | zero => simp [parse?_of_blank hblank] at hd
    | succ i => exact ih hd
  | directive hparse hnamed _ ih =>
    rw [List.takeWhile_cons_of_pos (isHeading_of_directive hparse)] at hd
    cases i with
    | zero =>
      obtain rfl := Option.some.inj (hparse.symm.trans hd)
      exact ⟨_, hnamed⟩
    | succ i => exact ih hd
  | body hbody => simp [hbody] at hd

/-- The lines that an expansion has from the text itself are in order. -/
theorem pairwise_own (h : Expands named own ls e) :
    (∀ l ∈ e.origins.filterMap Origin.own?, own ≤ l) ∧
      (e.origins.filterMap Origin.own?).Pairwise (· < ·) := by
  induction h with
  | nil => exact ⟨by simp, .nil⟩
  | @blank own _ _ e _ _ ih =>
    obtain ⟨hle, hpairwise⟩ := ih
    rw [List.filterMap_cons_some (Origin.own?_none own)]
    refine ⟨fun l hl => ?_, .cons hle hpairwise⟩
    rcases List.mem_cons.mp hl with rfl | hl
    · exact Nat.le_refl _
    · exact Nat.le_of_succ_le (hle l hl)
  | @directive own _ _ e _ path included _ _ _ ih =>
    obtain ⟨hle, hpairwise⟩ := ih
    have hspliced : ∀ l ∈ (splice path own included).origins.filterMap Origin.own?, l = own := by
      rw [own_splice]
      split <;> simp
    rw [List.filterMap_append]
    refine ⟨fun l hl => ?_, List.pairwise_append.mpr ⟨?_, hpairwise, fun l hl l' hl' => ?_⟩⟩
    · rcases List.mem_append.mp hl with hl | hl
      · exact Nat.le_of_eq (hspliced l hl).symm
      · exact Nat.le_of_succ_le (hle l hl)
    · rw [own_splice]
      split <;> simp
    · rw [hspliced l hl]
      exact hle l' hl'
  | @body own line rest _ =>
    rw [own_range']
    exact ⟨fun l hl => (List.mem_range'_1.mp hl).1, List.pairwise_lt_range'⟩

/-- What an expansion has from the text itself are the lines that stay. -/
theorem mem_own (h : Expands named own ls e) (l : Nat) :
    l ∈ e.origins.filterMap Origin.own? ↔ ∃ i, l = own + i ∧ Stays named ls i := by
  induction h with
  | nil => simp [Stays]
  | @blank own line rest e hblank _ ih =>
    have hheading := isHeading_of_blank hblank
    have hstays : Stays named (line :: rest) 0 :=
      ⟨by simp, fun d hd => absurd hd (by simp [hheading, parse?_of_blank hblank])⟩
    rw [List.filterMap_cons_some (Origin.own?_none own), List.mem_cons, ih]
    constructor
    · rintro (rfl | ⟨i, rfl, hi⟩)
      · exact ⟨0, rfl, hstays⟩
      · exact ⟨i + 1, by omega, (stays_succ hheading).mpr hi⟩
    · rintro ⟨i, rfl, hi⟩
      cases i with
      | zero => exact .inl rfl
      | succ i => exact .inr ⟨i, by omega, (stays_succ hheading).mp hi⟩
  | @directive own line rest e d path included hd hnamed _ ih =>
    have hheading := isHeading_of_directive hd
    have hstays : Stays named (line :: rest) 0 ↔ included.origins = [] := by
      simp [Stays, hheading, hd, hnamed]
    have hspliced : l ∈ (splice path own included).origins.filterMap Origin.own? ↔
        l = own ∧ included.origins = [] := by
      rw [own_splice]
      split <;> simp_all
    rw [List.filterMap_append, List.mem_append, hspliced, ih]
    constructor
    · rintro (⟨rfl, hempty⟩ | ⟨i, rfl, hi⟩)
      · exact ⟨0, rfl, hstays.mpr hempty⟩
      · exact ⟨i + 1, by omega, (stays_succ hheading).mpr hi⟩
    · rintro ⟨i, rfl, hi⟩
      cases i with
      | zero => exact .inl ⟨rfl, hstays.mp hi⟩
      | succ i => exact .inr ⟨i, by omega, (stays_succ hheading).mp hi⟩
  | @body own line rest hbody =>
    rw [own_range', List.mem_range'_1]
    simp only [Stays, List.takeWhile_cons_of_neg (Bool.not_eq_true _ ▸ hbody)]
    constructor
    · rintro ⟨hle, hlt⟩
      exact ⟨l - own, by omega, by omega, by simp⟩
    · rintro ⟨i, rfl, hi, _⟩
      omega

/-- Behind the heading every line comes from the text itself; it stands lower by the lines that were
added. -/
theorem origin_behind (h : Expands named own ls e) (hcut : Cut ls)
    (hcount : ∀ d path included, named d = .ok (path, included) →
      included.origins.length = lineCount included.source)
    {n : Nat} (hle : (ls.takeWhile isHeading).length + e.addedLines ≤ n) (hlt : n < lineCount e.source) :
    e.origins[n]? = some ⟨none, own + n - e.addedLines⟩ := by
  rw [h.lineCount_source hcut] at hlt
  induction h generalizing n with
  | nil => simp at hlt
  | @blank own line rest e hblank _ ih =>
    simp only [List.takeWhile_cons_of_pos (isHeading_of_blank hblank), List.length_cons] at hle hlt
    obtain ⟨n, rfl⟩ : ∃ m, n = m + 1 := ⟨n - 1, by omega⟩
    have hrest := ih hcut.tail (n := n) (by omega) (by omega)
    simpa [Nat.add_assoc, Nat.add_comm 1] using hrest
  | @directive own line rest e d path included hd hnamed _ ih =>
    have hlength : (splice path own included).origins.length = 1 + (splice path own included).addedLines := by
      rw [length_splice (hcount d path included hnamed), lineCount_splice]
    simp only [List.takeWhile_cons_of_pos (isHeading_of_directive hd), List.length_cons] at hle hlt
    have hrest := ih hcut.tail (n := n - (splice path own included).origins.length) (by omega) (by omega)
    rw [List.getElem?_append_right (by omega), hrest]
    congr 2
    dsimp only
    omega
  | @body own line rest _ =>
    simp only [List.length_cons] at hlt
    simp [hlt]

end Expands

end LoxLang.Include

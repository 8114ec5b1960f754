import LoxLang.Proofs.Include.Nesting

/-!
Texts that have nothing to expand. The first line of such a text that is not blank is no directive. Every
expansion is one: what is spliced in for a directive is one by itself, and the line feed that may have to be
added behind it changes no line but for its terminator. And it is expanded to itself, wherever it stands,
before any directive is come to.
-/

namespace LoxLang

namespace Text

/-! ### Terminators -/

theorem trim_line (l : List Char) : trim (l ++ ['\n']) = trim l := by
  have hblank : isBlank '\n' = true := by decide
  unfold trim trimStart
  rw [List.dropWhile_append]
  split
  next hall =>
    rw [List.isEmpty_iff.mp hall, List.dropWhile_cons_of_pos hblank, List.dropWhile_nil]
  next =>
    simp [trimEnd, hblank]

/-- A line is blank or not, and a directive or not, whether its terminator is there or not. -/
theorem trim_row (line : List Char) : trim (row line) = trim line := by
  unfold row
  split
  next hlast =>
    obtain ⟨l, rfl⟩ := List.getLast?_eq_some_iff.mp hlast
    rw [List.dropLast_concat, trim_line]
  next => rfl

end Text

namespace Include

open Text (Cut rows row)

theorem parse?_row (line : List Char) : Directive.parse? (row line) = Directive.parse? line := by
  unfold Directive.parse?
  rw [Text.trim_row]

/-! ### Lines without directives at their beginning -/

def isSolid (line : List Char) : Bool :=
  !(Text.trim line).isEmpty

/-- The first of the lines that is not blank is no directive, if there is one. -/
def Bare (ls : List (List Char)) : Prop :=
  ∀ line ∈ ls.find? isSolid, Directive.parse? line = none

instance (ls : List (List Char)) : Decidable (Bare ls) :=
  inferInstanceAs (Decidable (∀ line ∈ ls.find? isSolid, Directive.parse? line = none))

section

variable {line : List Char} {ls ms : List (List Char)}

theorem isSolid_of_directive {d : Directive} (h : Directive.parse? line = some d) : isSolid line = true := by
  cases hline : isSolid line with
  | true => rfl
  | false =>
    have hblank : Text.trim line = [] := by simpa [isSolid] using hline
    simp [parse?_of_blank hblank] at h

theorem bare_blank (hblank : Text.trim line = []) : Bare (line :: ls) ↔ Bare ls := by
  simp [Bare, isSolid, hblank]

theorem bare_solid (hsolid : isSolid line = true) : Bare (line :: ls) ↔ Directive.parse? line = none := by
  simp [Bare, hsolid]

theorem Bare.append (hls : Bare ls) (hms : Bare ms) : Bare (ls ++ ms) := by
  intro line hline
  rw [List.find?_append] at hline
  cases hfirst : ls.find? isSolid with
  | none =>
    rw [hfirst] at hline
    exact hms line hline
  | some first =>
    rw [hfirst] at hline
    exact hls line (hfirst ▸ hline)

theorem bare_map_row : Bare (ls.map row) ↔ Bare ls := by
  have hsolid : isSolid ∘ row = isSolid := funext fun line => by simp [isSolid, Text.trim_row]
  unfold Bare
  rw [List.find?_map, hsolid]
  simp [parse?_row]

end

/-! ### Expansions are bare -/

theorem bare_splice {e : Expansion} (h : Bare (Text.lines e.source)) (path : String) (own : Nat) :
    Bare (Text.lines (splice path own e).source) := by
  have hrows : Bare (rows (splice path own e).source) := by
    rw [rows_splice]
    split
    · exact (bare_blank rfl).mpr nofun
    · exact bare_map_row.mpr h
  exact bare_map_row.mp hrows

/-- An expansion is bare if what is spliced in for its directives is. -/
theorem Expands.bare {named : Directive → Except Fault (String × Expansion)} {own : Nat}
    {ls : List (List Char)} {e : Expansion} (h : Expands named own ls e) (hcut : Cut ls)
    (hnamed : ∀ d path included, named d = .ok (path, included) → Bare (Text.lines included.source)) :
    Bare (Text.lines e.source) := by
  induction h with
  | nil => nofun
  | blank hblank hrest ih =>
    rw [hrest.lines_blank hcut, bare_blank hblank]
    exact ih hcut.tail
  | @directive own _ _ _ d path included _ hincluded _ ih =>
    rw [Text.lines_append (finished_splice path own included)]
    exact (bare_splice (hnamed d path included hincluded) path own).append (ih hcut.tail)
  | body hbody =>
    obtain ⟨hblank, hparse⟩ := Bool.or_eq_false_iff.mp hbody
    rw [hcut.lines_flatten, bare_solid (by simp [isSolid, hblank])]
    exact Option.not_isSome_iff_eq_none.mp (Bool.eq_false_iff.mp hparse)

section

variable {s : Source} {n : Nat} {directory : String} {chain : List String} {text : List Char}

/-- Every expansion is bare: those of the texts that are spliced in are, by induction on how deep they may be
nested. -/
theorem bare_of_expandFrom {e : Expansion} (h : expandFrom s n directory chain text = .ok e) :
    Bare (Text.lines e.source) := by
  induction n generalizing directory chain text e with
  | zero => cases h
  | succ n ih =>
    refine (expands_of_expandFrom h).bare (Text.cut_lines text) fun d path included hincluded => ?_
    obtain ⟨t, _, hexpand⟩ := included_eq_ok hincluded
    exact ih hexpand

/-! ### Bare texts are expanded to themselves -/

/-- The lines of a text by themselves: they are their own origins. -/
def unexpanded (own : Nat) (ls : List (List Char)) : Expansion :=
  ⟨ls.flatten, 0, (List.range' own ls.length).map fun i => ⟨none, i⟩⟩

theorem Bare.expands {named : Directive → Except Fault (String × Expansion)} {own : Nat}
    {ls : List (List Char)} (h : Bare ls) : Expands named own ls (unexpanded own ls) := by
  induction ls generalizing own with
  | nil => exact .nil
  | cons line rest ih =>
    by_cases hblank : Text.trim line = []
    · exact .blank hblank (ih ((bare_blank hblank).mp h))
    · have hsolid : isSolid line = true := by simp [isSolid, hblank]
      exact .body (by simp [isHeading, hblank, (bare_solid hsolid).mp h])

theorem Bare.expandFrom (h : Bare (Text.lines text)) :
    Include.expandFrom s (n + 1) directory chain text = .ok (unexpanded 0 (Text.lines text)) :=
  expandFrom_of_expands rfl h.expands

/-- No directive is come to, whatever could be done with directives. -/
theorem Bare.not_reached {done : Directive → Prop} {ls : List (List Char)} {d : Directive} (h : Bare ls) :
    ¬Reached done ls d := by
  intro hd
  induction hd with
  | here hparse | behind hparse _ _ _ => simp [(bare_solid (isSolid_of_directive hparse)).mp h] at hparse
  | blank hblank _ ih => exact ih ((bare_blank hblank).mp h)

end

end Include

end LoxLang

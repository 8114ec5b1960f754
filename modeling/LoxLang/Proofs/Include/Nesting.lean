import LoxLang.Proofs.Include.Origins
import Mathlib.Data.Set.Finite.List
import Mathlib.Data.Fintype.Card

/-!
How deep includes nest. Expanding a text ends exactly if it comes to finitely many paths: among the files
that are being expanded none has the path of another, so there are not more of them than paths. A higher
bound on the nesting than it takes to end changes nothing.
-/

namespace LoxLang.Include

/-- The bound on the nesting was not met. -/
def Ended {α : Type} (r : Except Fault α) : Prop :=
  ∀ f, r = .error f → f.cause ≠ .exhausted

@[simp] theorem ended_ok {α : Type} (a : α) : Ended (.ok a : Except Fault α) := by
  simp [Ended]

@[simp] theorem ended_error {α : Type} (f : Fault) :
    Ended (.error f : Except Fault α) ↔ f.cause ≠ .exhausted := by
  simp [Ended]

/-! ### The directives that an expansion comes to -/

/-- Lines are expanded up to a directive if all directives in front of it are done. -/
inductive Reached (done : Directive → Prop) : List (List Char) → Directive → Prop where
  | here {line : List Char} {rest : List (List Char)} {d : Directive} :
    Directive.parse? line = some d → Reached done (line :: rest) d
  | blank {line : List Char} {rest : List (List Char)} {d : Directive} :
    Text.trim line = [] → Reached done rest d → Reached done (line :: rest) d
  | behind {line : List Char} {rest : List (List Char)} {d d' : Directive} :
    Directive.parse? line = some d' → done d' → Reached done rest d → Reached done (line :: rest) d

/-- The directive has been replaced. -/
def Replaced (named : Directive → Except Fault (String × Expansion)) (d : Directive) : Prop :=
  ∃ r, named d = .ok r

section

variable {named named' : Directive → Except Fault (String × Expansion)} {own : Nat}
  {line : List Char} {ls rest : List (List Char)} {d : Directive}

theorem Reached.mono {done done' : Directive → Prop} (h : Reached done ls d)
    (hdone : ∀ d, done d → done' d) : Reached done' ls d := by
  induction h with
  | here hd => exact .here hd
  | blank hblank _ ih => exact .blank hblank ih
  | behind hd' hdone' _ ih => exact .behind hd' (hdone _ hdone') ih

/-- The expansion of lines is fixed by what the directives stand for that it comes to. -/
theorem expandLines_congr (h : ∀ d, Reached (Replaced named) ls d → named' d = named d) :
    expandLines named' own ls = expandLines named own ls := by
  induction ls generalizing own with
  | nil => rfl
  | cons line rest ih =>
    unfold expandLines
    split
    next hblank => rw [ih fun d hd => h d (.blank (List.isEmpty_iff.mp hblank) hd)]
    next hblank =>
      split
      next d hd =>
        rw [h d (.here hd)]
        cases hnamed : named d with
        | error f => rfl
        | ok r => rw [ih fun d' hd' => h d' (.behind hd ⟨r, hnamed⟩ hd')]
      next => rfl

theorem ended_blank (hblank : Text.trim line = []) :
    Ended (expandLines named own (line :: rest)) ↔ Ended (expandLines named (own + 1) rest) := by
  rw [expandLines, hblank]
  cases hrun : expandLines named (own + 1) rest <;> simp [bind, Except.bind, pure, Except.pure]

theorem ended_directive (hd : Directive.parse? line = some d) :
    Ended (expandLines named own (line :: rest)) ↔
      Ended (named d) ∧ (Replaced named d → Ended (expandLines named (own + 1) rest)) := by
  have hblank : (Text.trim line).isEmpty = false := by
    rw [Bool.eq_false_iff]
    intro hblank
    simp [parse?_of_blank (List.isEmpty_iff.mp hblank)] at hd
  rw [expandLines, hblank, hd]
  cases hnamed : named d with
  | error f => simp [bind, Except.bind, Replaced, hnamed]
  | ok r =>
    cases hrun : expandLines named (own + 1) rest <;>
      simp [bind, Except.bind, pure, Except.pure, Replaced, hnamed]

/-- The expansion of lines ends if that of every directive does which it comes to. -/
theorem expandLines_ended (h : ∀ d, Reached (Replaced named) ls d → Ended (named d)) :
    Ended (expandLines named own ls) := by
  induction ls generalizing own with
  | nil => exact ended_ok _
  | cons line rest ih =>
    by_cases hblank : Text.trim line = []
    · rw [ended_blank hblank]
      exact ih fun d hd => h d (.blank hblank hd)
    · cases hparse : Directive.parse? line with
      | none =>
        have hbody : isHeading line = false := by simp [isHeading, hblank, hparse]
        rw [(Expands.body hbody).expandLines_eq]
        exact ended_ok _
      | some d =>
        rw [ended_directive hparse]
        constructor
        · exact h d (.here hparse)
        · intro hdone
          exact ih fun d' hd' => h d' (.behind hparse hdone hd')

/-- If the expansion of lines ends, so does that of every directive that it comes to. -/
theorem ended_of_reached (h : Ended (expandLines named own ls)) (hd : Reached (Replaced named) ls d) :
    Ended (named d) := by
  induction hd generalizing own with
  | here hparse => exact ((ended_directive hparse).mp h).1
  | blank hblank _ ih => exact ih ((ended_blank hblank).mp h)
  | behind hparse hdone _ ih => exact ih (((ended_directive hparse).mp h).2 hdone)

end

/-! ### The bound on the nesting -/

section

variable {s : Source} {n m : Nat} {directory : String} {chain : List String} {text : List Char}

/-- A source has a text for a directive or a fault of its own. -/
theorem ended_fetch (s : Source) (directory : String) (d : Directive) : Ended (s.fetch directory d) := by
  have hfile : ∀ path, Ended (s.file path) := by
    intro path
    unfold Source.file
    split <;> simp
  have hbundled : ∀ name, Ended (Source.bundledLibrary name) := by
    intro name
    unfold Source.bundledLibrary
    dsimp only
    split <;> simp
  cases d with
  | path raw => exact hfile _
  | library name =>
    simp only [Source.fetch, Source.library]
    split
    · exact hbundled name
    · split
      · exact hfile _
      · exact hfile _
      · exact hbundled name

theorem ended_map {α β : Type} {r : Except Fault α} (f : α → β) : Ended (r.map f) ↔ Ended r := by
  cases r <;> simp [Except.map]

/-- A directive ends without a text, or at a text that is being expanded, or as the expansion of its text
does. -/
theorem included_eq_match (s : Source) (n : Nat) (directory : String) (chain : List String)
    (d : Directive) : included s n directory chain d =
      match s.fetch directory d with
      | .error f => .error f
      | .ok (path, t) =>
        if chain.any (Path.same · path) then .error ⟨.circular, path⟩
        else (expandFrom s n (home directory (some path)) (path :: chain) t.toList).map fun e =>
          (path, e) := by
  unfold included
  cases hfetch : s.fetch directory d with
  | error f => rfl
  | ok r =>
    obtain ⟨path, t⟩ := r
    simp only [bind, Except.bind, home]
    split
    · rfl
    · cases expandFrom s n ((Path.parent? path).getD "") (path :: chain) t.toList <;> rfl

theorem included_congr {d : Directive} (h : Ended (included s n directory chain d))
    (hmore : ∀ directory chain text, Ended (expandFrom s n directory chain text) →
      expandFrom s m directory chain text = expandFrom s n directory chain text) :
    included s m directory chain d = included s n directory chain d := by
  rw [included_eq_match] at h ⊢
  rw [included_eq_match]
  cases hfetch : s.fetch directory d with
  | error f => rfl
  | ok r =>
    dsimp only
    split
    next => rfl
    next hchain =>
      rw [hfetch] at h
      dsimp only at h
      rw [if_neg hchain, ended_map] at h
      rw [hmore _ _ _ h]

/-- With a higher bound an expansion that has ended stays the same. -/
theorem expandFrom_more (h : Ended (expandFrom s n directory chain text)) (hle : n ≤ m) :
    expandFrom s m directory chain text = expandFrom s n directory chain text := by
  induction n generalizing m directory chain text with
  | zero => simp [expandFrom] at h
  | succ n ih =>
    obtain ⟨m, rfl⟩ : ∃ k, m = k + 1 := ⟨m - 1, by omega⟩
    change Ended (expandLines (included s n directory chain) 0 (Text.lines text)) at h
    change expandLines (included s m directory chain) 0 (Text.lines text) =
      expandLines (included s n directory chain) 0 (Text.lines text)
    apply expandLines_congr
    intro d hd
    exact included_congr (ended_of_reached h hd) fun _ _ _ hended => ih hended (by omega)

theorem included_more {d : Directive} (h : Ended (included s n directory chain d)) (hle : n ≤ m) :
    included s m directory chain d = included s n directory chain d :=
  included_congr h fun _ _ _ hended => expandFrom_more hended hle

end

/-! ### The paths that an expansion comes to -/

/-- A directive can be replaced, with some bound on the nesting. -/
def Done (s : Source) (directory : String) (chain : List String) (d : Directive) : Prop :=
  ∃ n, Replaced (included s n directory chain) d

/-- The expansion of a text of a directory, inside the files `chain`, comes to a file with some path. -/
inductive Asks (s : Source) : String → List String → List Char → String → Prop where
  | file {directory : String} {chain : List String} {text : List Char} {d : Directive} {path t : String} :
    Reached (Done s directory chain) (Text.lines text) d → s.fetch directory d = .ok (path, t) →
      Asks s directory chain text path
  | inside {directory : String} {chain : List String} {text : List Char} {d : Directive}
    {path t q : String} :
    Reached (Done s directory chain) (Text.lines text) d → s.fetch directory d = .ok (path, t) →
      chain.any (Path.same · path) = false →
        Asks s (home directory (some path)) (path :: chain) t.toList q → Asks s directory chain text q

section

variable {s : Source} {n : Nat} {directory : String} {chain : List String} {text : List Char}

/-- What is done with some bound is done with every one for which the expansion ends. -/
theorem Reached.replaced {ls : List (List Char)} {d : Directive} {own : Nat}
    (h : Reached (Done s directory chain) ls d)
    (hended : Ended (expandLines (included s n directory chain) own ls)) :
    Reached (Replaced (included s n directory chain)) ls d := by
  induction h generalizing own with
  | here hparse => exact .here hparse
  | blank hblank _ ih => exact .blank hblank (ih ((ended_blank hblank).mp hended))
  | @behind line rest d d' hparse hdone _ ih =>
    obtain ⟨hfirst, hrest⟩ := (ended_directive hparse).mp hended
    obtain ⟨m, r, hr⟩ := hdone
    have hreplaced : Replaced (included s n directory chain) d' := by
      rcases Nat.le_total n m with hle | hle
      · exact ⟨r, (included_more hfirst hle).symm.trans hr⟩
      · exact ⟨r, (included_more (hr ▸ ended_ok r) hle).trans hr⟩
    exact .behind hparse hreplaced (ih (hrest hreplaced))

theorem Reached.mem {done : Directive → Prop} {ls : List (List Char)} {d : Directive}
    (h : Reached done ls d) : d ∈ ls.filterMap Directive.parse? := by
  induction h with
  | here hparse => simp [hparse]
  | blank hblank _ ih => simpa [parse?_of_blank hblank] using ih
  | behind hparse _ _ ih => simp [hparse, ih]

/-- The texts of directives are expanded with the next lower bound. -/
theorem ended_inside {d : Directive} {path t : String}
    (hended : Ended (expandFrom s (n + 1) directory chain text))
    (hd : Reached (Done s directory chain) (Text.lines text) d)
    (hfetch : s.fetch directory d = .ok (path, t)) (hchain : chain.any (Path.same · path) = false) :
    Ended (expandFrom s n (home directory (some path)) (path :: chain) t.toList) := by
  have hlines : Ended (expandLines (included s n directory chain) 0 (Text.lines text)) := hended
  have hincluded : Ended (included s n directory chain d) :=
    ended_of_reached hlines (hd.replaced hlines)
  rw [included_eq_match, hfetch] at hincluded
  simpa [hchain, ended_map] using hincluded

/-- An expansion that ends has come to finitely many paths. -/
theorem asks_finite (hended : Ended (expandFrom s n directory chain text)) :
    {path | Asks s directory chain text path}.Finite := by
  induction n generalizing directory chain text with
  | zero => simp [expandFrom] at hended
  | succ n ih =>
    -- The lines are finitely many, and each of them asks for one path and for those of its text.
    let asked (d : Directive) : Set String := {q | ∃ path t, s.fetch directory d = .ok (path, t) ∧
      (q = path ∨ Reached (Done s directory chain) (Text.lines text) d ∧
        chain.any (Path.same · path) = false ∧
          Asks s (home directory (some path)) (path :: chain) t.toList q)}
    have hasked : ∀ d, (asked d).Finite := by
      intro d
      cases hfetch : s.fetch directory d with
      | error f => simp [asked, hfetch]
      | ok r =>
        obtain ⟨path, t⟩ := r
        by_cases hinside : Reached (Done s directory chain) (Text.lines text) d ∧
            chain.any (Path.same · path) = false
        · obtain ⟨hd, hnew⟩ := hinside
          apply ((ih (ended_inside hended hd hfetch hnew)).insert path).subset
          rintro q ⟨path', t', hfetch', hq⟩
          obtain ⟨rfl, rfl⟩ := Prod.mk.inj (Except.ok.inj (hfetch.symm.trans hfetch'))
          exact hq.imp_right fun h => h.2.2
        · apply (Set.finite_singleton path).subset
          rintro q ⟨path', t', hfetch', hq⟩
          obtain ⟨rfl, rfl⟩ := Prod.mk.inj (Except.ok.inj (hfetch.symm.trans hfetch'))
          exact hq.resolve_right fun h => hinside ⟨h.1, h.2.1⟩
    apply ((List.finite_toSet ((Text.lines text).filterMap Directive.parse?)).biUnion
      fun d _ => hasked d).subset
    intro q hq
    cases hq with
    | file hd hfetch => exact Set.mem_biUnion hd.mem ⟨_, _, hfetch, .inl rfl⟩
    | inside hd hfetch hnew hq => exact Set.mem_biUnion hd.mem ⟨_, _, hfetch, .inr ⟨hd, hnew, hq⟩⟩

/-- As long as no path comes twice, there are fewer files being expanded than paths. -/
theorem ended_of_card {paths : Finset String} {n : Nat}
    (hpaths : ∀ path, Asks s directory chain text path → path ∈ paths) (hchain : ∀ path ∈ chain, path ∈ paths)
    (hnodup : chain.Nodup) (hcard : paths.card < chain.length + n) :
    Ended (expandFrom s n directory chain text) := by
  induction n generalizing directory chain text with
  | zero =>
    have hle : chain.length ≤ paths.card := by
      rw [← List.toFinset_card_of_nodup hnodup]
      exact Finset.card_le_card fun path hpath => hchain path (List.mem_toFinset.mp hpath)
    omega
  | succ n ih =>
    change Ended (expandLines (included s n directory chain) 0 (Text.lines text))
    apply expandLines_ended
    intro d hreplaced
    have hd : Reached (Done s directory chain) (Text.lines text) d :=
      hreplaced.mono fun _ hdone => ⟨n, hdone⟩
    rw [included_eq_match]
    cases hfetch : s.fetch directory d with
    | error f => simpa [hfetch] using ended_fetch s directory d
    | ok r =>
      obtain ⟨path, t⟩ := r
      dsimp only
      split
      next => simp
      next hnew =>
        have hnew : chain.any (Path.same · path) = false := Bool.eq_false_iff.mpr hnew
        rw [ended_map]
        apply ih
        · exact fun q hq => hpaths q (.inside hd hfetch hnew hq)
        · intro q hq
          rcases List.mem_cons.mp hq with rfl | hq
          · exact hpaths q (.file hd hfetch)
          · exact hchain q hq
        · constructor
          · rintro q hq rfl
            have hsame := List.any_eq_false.mp hnew path hq
            simp [Path.same] at hsame
          · exact hnodup
        · rw [List.length_cons]
          omega

/-- The expansion of a text ends exactly if it comes to finitely many paths. -/
theorem ended_iff_finite : (∃ n, Ended (expandFrom s n directory [] text)) ↔
    {path | Asks s directory [] text path}.Finite := by
  constructor
  · rintro ⟨n, hended⟩
    exact asks_finite hended
  · intro hfinite
    exact ⟨hfinite.toFinset.card + 1, ended_of_card (fun path hpath => hfinite.mem_toFinset.mpr hpath)
      (by simp) .nil (by simp)⟩

/-! ### Paths of limited length -/

/-- What has a text is a file that can be read, or a library that comes with the language. -/
theorem Asks.readable {path : String} (h : Asks s directory chain text path) :
    (∃ t, s.files.readText path = .ok t) ∨ path ∈ bundled.map fun l => "<" ++ l.1 ++ ">" := by
  induction h with
  | inside _ _ _ _ ih => exact ih
  | @file _ _ _ _ path t _ hfetch =>
    have hholds : s.Holds [] (some path) t.toList := Source.holds_of_fetch hfetch
    generalize t.toList = cs at hholds
    cases hholds with
    | file hread => exact .inl ⟨_, hread⟩
    | bundled hlookup =>
      obtain ⟨front, back, hbundled, -⟩ := List.lookup_eq_some_iff.mp hlookup
      exact .inr (by simp [hbundled])

theorem finite_short (limit : Nat) : {path : String | path.utf8ByteSize < limit}.Finite := by
  have hbyte : Finite UInt8 := Finite.of_injective UInt8.toFin fun b c h => UInt8.toFin_inj.mp h
  let bytes (path : String) : List UInt8 := path.toByteArray.data.toList
  have hinjective : Function.Injective bytes := by
    intro a b h
    exact String.toByteArray_inj.mp (ByteArray.ext (Array.toList_inj.mp h))
  exact (List.finite_length_lt UInt8 limit).preimage hinjective.injOn

/-- Where no path is longer than a limit, every expansion ends. -/
theorem ended_of_limited {limit : Nat} (hlimit : ∀ path t, s.files.readText path = .ok t →
    path.utf8ByteSize < limit) (directory : String) (text : List Char) :
    ∃ n, Ended (expandFrom s n directory [] text) := by
  have hbundled := List.finite_toSet (bundled.map fun l => "<" ++ l.1 ++ ">")
  apply ended_iff_finite.mpr
  apply ((finite_short limit).union hbundled).subset
  intro path hpath
  exact hpath.readable.imp_left fun ⟨t, hread⟩ => hlimit path t hread

end

end LoxLang.Include

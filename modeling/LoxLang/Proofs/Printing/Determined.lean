import Mathlib.Data.List.GetD
import LoxLang.Proofs.Printing.Readback

/-!
The dump of a program tells its trees apart. The names in it are identifiers and the numbers are not NaNs, because
they come from tokens; so only a string or an infinite number can be mistaken for something else.
-/

namespace LoxLang

open Lexis (Lexeme)

/-- Neither a string nor an infinite number. -/
def Constant.Telling : Constant → Prop
  | string _ => False
  | number (.float x) => x.isInfinite = false
  | _ => True

instance : DecidablePred Constant.Telling
  | .nil => .isTrue trivial
  | .bool _ => .isTrue trivial
  | .number (.int _) => .isTrue trivial
  | .number (.float x) => inferInstanceAs (Decidable (x.isInfinite = false))
  | .string _ => .isFalse id

theorem Constant.Telling.isFinite {c : Constant} (h : c.Telling)
    (hcomparable : ∀ n, c = .number n → n.IsComparable) : c.IsFinite := by
  cases c with
  | nil => trivial
  | bool b => trivial
  | number n =>
    have hn := hcomparable n rfl
    cases n with
    | int i => trivial
    | float x => exact Binary64.isFinite_iff.mpr ⟨hn, h⟩
  | string s => exact h

/-! ### Statements inside others -/

mutual

/-- The statement and every statement in it. -/
def Stmt.parts (s : Stmt) : List Stmt :=
  s ::
    match s with
    | .block body => Stmt.allParts body
    | .ifThen _ thenBranch => thenBranch.parts
    | .ifElse _ thenBranch elseBranch => thenBranch.parts ++ elseBranch.parts
    | .loop _ body _ => body.parts
    | .function declaration => declaration.parts
    | .classDecl _ _ methods => FunctionDecl.allParts methods
    | _ => []

def Stmt.allParts : List Stmt → List Stmt
  | [] => []
  | s :: rest => s.parts ++ Stmt.allParts rest

def FunctionDecl.parts : FunctionDecl → List Stmt
  | ⟨_, _, _, body⟩ => Stmt.allParts body

def FunctionDecl.allParts : List FunctionDecl → List Stmt
  | [] => []
  | m :: rest => m.parts ++ FunctionDecl.allParts rest

end

/-- What occurs in the statement is among the occurrences and the constants. -/
structure Stmt.Within (t : Stmt) (qs : List Occurrence) (cs : List Constant) : Prop where
  occurrences : ∃ nest, t.occurrences nest ⊆ qs
  constants : t.constants ⊆ cs

namespace Stmt.Within

variable {t : Stmt} {q : Occurrence} {qs rs : List Occurrence} {cs ds : List Constant}

theorem refl (t : Stmt) (nest : List (List Ident)) : t.Within (t.occurrences nest) t.constants :=
  ⟨⟨nest, List.Subset.refl _⟩, List.Subset.refl _⟩

theorem left (h : t.Within qs cs) : t.Within (qs ++ rs) (cs ++ ds) := by
  obtain ⟨nest, hqs⟩ := h.occurrences
  exact ⟨⟨nest, List.subset_append_of_subset_left rs hqs⟩, List.subset_append_of_subset_left ds h.constants⟩

theorem right (h : t.Within rs ds) : t.Within (qs ++ rs) (cs ++ ds) := by
  obtain ⟨nest, hrs⟩ := h.occurrences
  exact ⟨⟨nest, List.subset_append_of_subset_right qs hrs⟩, List.subset_append_of_subset_right cs h.constants⟩

theorem back (h : t.Within rs cs) : t.Within (qs ++ rs) cs := by
  obtain ⟨nest, hrs⟩ := h.occurrences
  exact ⟨⟨nest, List.subset_append_of_subset_right qs hrs⟩, h.constants⟩

theorem skip (h : t.Within qs cs) : t.Within (q :: qs) cs := by
  obtain ⟨nest, hqs⟩ := h.occurrences
  exact ⟨⟨nest, List.subset_cons_of_subset q hqs⟩, h.constants⟩

end Stmt.Within

mutual

theorem Stmt.within_parts (nest : List (List Ident)) : ∀ {s t : Stmt}, t ∈ s.parts →
    t.Within (s.occurrences nest) s.constants
  | s, t, ht => by
    rw [Stmt.parts.eq_def] at ht
    rcases List.mem_cons.mp ht with rfl | hinner
    · exact .refl t nest
    cases s with
    | block body => exact Stmt.within_allParts _ hinner
    | ifThen c s => exact (Stmt.within_parts nest hinner).right
    | ifElse c a b =>
      rcases List.mem_append.mp hinner with ha | hb
      · exact (Stmt.within_parts nest ha).left.right
      · exact (Stmt.within_parts nest hb).right.right
    | loop c body k =>
      have hbody := Stmt.within_parts nest hinner
      cases k with
      | none => exact hbody.right
      | some k => exact hbody.right.right
    | function d => exact (FunctionDecl.within_parts nest hinner).skip
    | classDecl name clause methods =>
      cases clause with
      | none => exact (FunctionDecl.within_allParts _ hinner).skip
      | some superclass => exact (FunctionDecl.within_allParts _ hinner).skip.skip
    | _ => cases hinner

theorem Stmt.within_allParts (nest : List (List Ident)) : ∀ {body : List Stmt} {t : Stmt},
    t ∈ Stmt.allParts body → t.Within (Stmt.allOccurrences nest body) (Stmt.allConstants body)
  | [], _, ht => by cases ht
  | s :: rest, t, ht => by
    rcases List.mem_append.mp ht with hs | hrest
    · exact (Stmt.within_parts nest hs).left
    · exact (Stmt.within_allParts nest hrest).right

theorem FunctionDecl.within_parts (nest : List (List Ident)) : ∀ {d : FunctionDecl} {t : Stmt},
    t ∈ d.parts → t.Within (d.occurrences nest) d.constants
  | ⟨_, _, _, _⟩, _, ht => (Stmt.within_allParts _ ht).back

theorem FunctionDecl.within_allParts (nest : List (List Ident)) : ∀ {methods : List FunctionDecl} {t : Stmt},
    t ∈ FunctionDecl.allParts methods →
      t.Within (FunctionDecl.allOccurrences nest methods) (FunctionDecl.allConstants methods)
  | [], _, ht => by cases ht
  | m :: rest, t, ht => by
    rcases List.mem_append.mp ht with hm | hrest
    · exact (FunctionDecl.within_parts nest hm).skip.left
    · exact (FunctionDecl.within_allParts nest hrest).right

end

/-! ### Statements of a program -/

/-- An identifier token is spelled like an identifier. -/
theorem identifier_lexeme {source : String} {t : Token} (ht : t ∈ tokens source)
    (hkind : t.kind = .identifier) : Lexeme .identifier t.lexeme.toList := by
  obtain ⟨item, hitem, htoken⟩ := List.mem_filterMap.mp ht
  obtain ⟨parts, -, hparts, hfits⟩ := (scan_scans source).parts [] rfl
  rw [hparts] at hitem
  rcases List.mem_append.mp hitem with hpart | hlast
  · obtain ⟨part, hpart, hsame⟩ := List.mem_filterMap.mp hpart
    obtain ⟨front, rest, hsplit⟩ := List.append_of_mem hpart
    have hlexeme := hfits front part rest hsplit
    cases part with
    | gap text => cases hsame
    | fault text d =>
      cases hsame
      cases htoken
    | token u =>
      cases hsame
      cases htoken
      exact hkind ▸ hlexeme.lexeme
  · cases List.mem_singleton.mp hlast
    cases htoken
    cases hkind

variable {source source' : String} {first first' : NodeId} {s t : Stmt}

theorem legible_of_parse (hclean : (parse (tokens source) first).faults = [])
    (hs : s ∈ Stmt.allParts (parse (tokens source) first).statements) (htelling : ∀ c ∈ s.constants, c.Telling) :
    ∃ nest, Legible (s.occurrences nest) s.constants := by
  obtain ⟨⟨nest, hoccurrences⟩, hconstants⟩ := Stmt.within_allParts [] hs
  refine ⟨nest, fun q hq => ?_, fun c hc => (htelling c hc).isFinite ?_⟩
  · have hspelled := occurrences_spelled hclean
    obtain ⟨u, hu, hident⟩ := List.mem_map.mp (hspelled.subset (List.mem_map_of_mem (hoccurrences hq)))
    obtain ⟨hu, hkind⟩ := List.mem_filter.mp hu
    rw [← hident]
    exact identifier_lexeme hu (by simpa using hkind)
  · rintro n rfl
    exact constants_comparable hclean (hconstants hc)

/-- Statements of programs without faults of grammar, in which there are no strings and no infinite numbers, are
printed with the same text only if they are the same but for the identities of their nodes and the places where
they are written. -/
theorem text_determines_statement (hclean : (parse (tokens source) first).faults = [])
    (hclean' : (parse (tokens source') first').faults = [])
    (hs : s ∈ Stmt.allParts (parse (tokens source) first).statements)
    (ht : t ∈ Stmt.allParts (parse (tokens source') first').statements)
    (hstelling : ∀ c ∈ s.constants, c.Telling) (httelling : ∀ c ∈ t.constants, c.Telling) :
    s.text = t.text ↔ s.Alike .any t := by
  constructor
  · intro htext
    obtain ⟨nest, hslegible⟩ := legible_of_parse hclean hs hstelling
    obtain ⟨nest', htlegible⟩ := legible_of_parse hclean' ht httelling
    have hchars : s.form.chars = t.form.chars := by
      rw [← s.text_toList, ← t.text_toList, htext]
    have hform : s.form = t.form :=
      Form.chars_inj (Stmt.form_clear hslegible) (Stmt.form_clear htlegible) hchars
    have hread := Stmt.ofForm_form hslegible
    rw [hform] at hread
    exact hread.common (Stmt.ofForm_form htlegible)
  · exact fun h => h.text_eq

/-- A class, and the same class in another program, where it is laid out in another way. -/
theorem text_determines_class :
    let p := parse (tokens "var b; class A < B \x7b init(x) \x7b this.y = super.f(x, -1.5); \x7d \x7d") 0
    let q := parse (tokens "class A < B\n\x7b init(x) // x\n\x7b this.y=super . f(x,-1.50); \x7d\x7d") 7
    let s := (Stmt.allParts p.statements).getD 1 default
    let t := (Stmt.allParts q.statements).getD 0 default
    p.faults = [] ∧ q.faults = [] ∧ s ∈ Stmt.allParts p.statements ∧ t ∈ Stmt.allParts q.statements ∧
      (∀ c ∈ s.constants, c.Telling) ∧ (∀ c ∈ t.constants, c.Telling) ∧
        s.text = "(class A < B (fun init(x) (; (set this y (call (super f) x (- 1.5))))))" ∧
          t.text = s.text ∧ s.Alike .any t := by
  intro p q s t
  have hp : p.faults = [] := by decide +kernel
  have hq : q.faults = [] := by decide +kernel
  have hs : s ∈ Stmt.allParts p.statements := by
    have hlength : 1 < (Stmt.allParts p.statements).length := by decide +kernel
    have hget : s = (Stmt.allParts p.statements)[1] := List.getD_eq_getElem _ _ hlength
    exact hget ▸ List.getElem_mem hlength
  have ht : t ∈ Stmt.allParts q.statements := by
    have hlength : 0 < (Stmt.allParts q.statements).length := by decide +kernel
    have hget : t = (Stmt.allParts q.statements)[0] := List.getD_eq_getElem _ _ hlength
    exact hget ▸ List.getElem_mem hlength
  have hstelling : ∀ c ∈ s.constants, c.Telling := by decide +kernel
  have httelling : ∀ c ∈ t.constants, c.Telling := by decide +kernel
  have hstext : s.text = "(class A < B (fun init(x) (; (set this y (call (super f) x (- 1.5))))))" := by
    decide +kernel
  have httext : t.text = s.text := by decide +kernel
  have hsame := (text_determines_statement hp hq hs ht hstelling httelling).mp httext.symm
  exact ⟨hp, hq, hs, ht, hstelling, httelling, hstext, httext, hsame⟩

end LoxLang

import LoxLang.Proofs.Session.Alike
import LoxLang.Proofs.Token.Layout

/-!
Programs in other layouts. Parsing looks at the kinds, the texts and the literals of the tokens; where they
stand, it only hands on. So all layouts of the same lexemes parse to the same program but for the places in it.
-/

namespace LoxLang

open Lexis (LaidOut)

/-- The same code in other places. -/
def Skew.elsewhere : Skew :=
  ⟨Eq, fun _ _ => True⟩

/-- What has been parsed is the same but for the places. -/
structure Parse.Alike (p q : Parse) : Prop where
  statements : List.Forall₂ (Stmt.Alike .elsewhere) p.statements q.statements
  faults : List.Forall₂ (Diagnostic.Alike .elsewhere) p.faults q.faults
  nextId : p.nextId = q.nextId

/-! ### Tokens in no particular place -/

/-- The tokens, each in a line of its own. -/
def listed (ts : List Token) : List Token :=
  ts.mapIdx fun i t => { t with span := ⟨⟨i, 0⟩, ⟨i, 1⟩⟩ }

/-- Where a token of the list begins or ends in the text. -/
def placeIn (ts : List Token) (p : Position) : Position :=
  match ts[p.line]? with
  | some t => if p.column = 0 then t.span.start else t.span.stop
  | none => p

theorem listed_placed (ts : List Token) : (listed ts).map (Token.placed (placeIn ts)) = ts := by
  apply List.ext_getElem
  · simp [listed]
  · intro i _ hi
    simp [listed, Token.placed, placeIn, hi]

section Listed

variable {ts us : List Token}

theorem listed_congr (h : ts.map Token.word = us.map Token.word) : listed ts = listed us := by
  have hlength : ts.length = us.length := by
    simpa using congrArg List.length h
  apply List.ext_getElem
  · simpa [listed] using hlength
  · intro i hi hi'
    have hts : i < ts.length := by simpa [listed] using hi
    have hus : i < us.length := hlength ▸ hts
    have hword : (ts.map Token.word)[i]? = (us.map Token.word)[i]? := by rw [h]
    obtain ⟨hkind, hlexeme, hliteral⟩ : ts[i].kind = us[i].kind ∧ ts[i].lexeme = us[i].lexeme ∧
        ts[i].literal = us[i].literal := by
      simpa [hts, hus, Token.word] using hword
    simp [listed, hkind, hlexeme, hliteral]

theorem Ended.listed (h : Ended ts) : Ended (listed ts) := by
  obtain ⟨last, hkind, front, rfl⟩ := h
  refine ⟨{ last with span := ⟨⟨front.length, 0⟩, ⟨front.length, 1⟩⟩ }, hkind, LoxLang.listed front, ?_⟩
  exact List.mapIdx_concat.symm

/-- Parsing hands on the places of the tokens and sees nothing else of them. -/
theorem parse_alike (hts : Ended ts) (h : ts.map Token.word = us.map Token.word) (first : NodeId) :
    (parse ts first).Alike (parse us first) := by
  have hus := listed_congr h
  have hleft := parse_placed hts.listed first (placeIn ts)
  have hright := parse_placed (hus ▸ hts.listed) first (placeIn us)
  rw [listed_placed] at hleft
  rw [listed_placed, ← hus] at hright
  rw [hleft, hright]
  refine ⟨?_, Session.diagnostics_alike (fun _ => trivial) _, rfl⟩
  have halike := Move.stmts_alike (v := .along first (placeIn ts)) (w := .along first (placeIn us)) rfl
    (parse (listed ts) 0).statements
  refine Stmt.allAlike_imp halike ⟨?_, fun _ => trivial⟩
  rintro i j _ ⟨k, rfl, rfl⟩
  rfl

end Listed

/-- Layout makes no difference to the tokens of a text, nor to what they parse to. A text without faults, and
the same tokens with single spaces between them, are layouts of their lexemes; every layout is scanned without
faults into the same kinds, texts and literals, and parses to the same program but for the places in it. -/
theorem tokens_do_not_depend_on_layout {source : String} (h : lexicalFaults source = []) :
    (lexicalFaults (spaced source) = [] ∧
      (tokens (spaced source)).map Token.word = (tokens source).map Token.word) ∧
    LaidOut (lexemes (tokens source)) source.toList ∧
    ∀ text : String, LaidOut (lexemes (tokens source)) text.toList →
      (lexicalFaults text = [] ∧ (tokens text).map Token.word = (tokens source).map Token.word) ∧
      ∀ first, (parse (tokens text) first).Alike (parse (tokens source) first) := by
  have hsource := laidOut_iff.mpr ⟨h, rfl⟩
  have hwords : ∀ text : String, LaidOut (lexemes (tokens source)) text.toList →
      lexicalFaults text = [] ∧ (tokens text).map Token.word = (tokens source).map Token.word := by
    intro text htext
    obtain ⟨hfaults, hlexemes⟩ := laidOut_iff.mp htext
    exact ⟨hfaults, by rw [words_eq, words_eq, hlexemes]⟩
  have hspaced : LaidOut (lexemes (tokens source)) (spaced source).toList := by
    unfold spaced
    rw [String.toList_intercalate]
    exact Lexis.laidOut_spaced hsource.lexeme_of_mem
  refine ⟨hwords _ hspaced, hsource, fun text htext => ⟨hwords text htext, fun first => ?_⟩⟩
  exact parse_alike (Session.ended_tokens text) (hwords text htext).2 first

/-- A string that looks like a comment, an operator of two characters, and a point behind an integer. -/
def crowded : String :=
  "a==\"// \n\"/1.b;"

theorem tokens_do_not_depend_on_layout_of_crowded :
    let text := "a== // a comment\n\"// \n\"/**//1\t.b;"
    lexicalFaults crowded = [] ∧ spaced crowded = "a == \"// \n\" / 1 . b ;" ∧
      (tokens "a == \"// \n\" / 1 . b ;").map Token.word = (tokens crowded).map Token.word ∧
      LaidOut (lexemes (tokens crowded)) text.toList ∧
      (parse (tokens text) 0).Alike (parse (tokens crowded) 0) := by
  intro text
  have hclean : lexicalFaults crowded = [] := by decide +kernel
  have hspaced : spaced crowded = "a == \"// \n\" / 1 . b ;" := by decide +kernel
  have htext : LaidOut (lexemes (tokens crowded)) text.toList :=
    laidOut_iff.mpr ⟨by decide +kernel, by decide +kernel⟩
  obtain ⟨⟨_, hwords⟩, _, hlayouts⟩ := tokens_do_not_depend_on_layout hclean
  exact ⟨hclean, hspaced, hspaced ▸ hwords, htext, (hlayouts text htext).2 0⟩

end LoxLang

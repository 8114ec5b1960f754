import LoxLang.Proofs.Native.Readback
import LoxLang.Proofs.Printing.Forms
import LoxLang.Proofs.Printing.Literals
import LoxLang.Proofs.Renaming.Occurrences
import LoxLang.Proofs.Token.Respelled

/-!
Legible trees. Their names are identifiers, and their constants are neither strings nor numbers that are not
finite. Every word that they are printed with is then free of marks, and a number can be told from a name by the
character that it begins with.
-/

namespace LoxLang

open Lexis (Lexeme)

/-- Not a string, and a finite number if it is one. -/
def Constant.IsFinite : Constant → Prop
  | string _ => False
  | number (.float x) => x.isFinite = true
  | _ => True

/-- The identifiers and the constants of a tree can be told from what is printed for them. -/
structure Legible (qs : List Occurrence) (cs : List Constant) : Prop where
  names : ∀ q ∈ qs, Lexeme .identifier q.ident.name.toList
  constants : ∀ c ∈ cs, c.IsFinite

namespace Legible

variable {q : Occurrence} {qs rs : List Occurrence} {cs ds : List Constant}

theorem subset (h : Legible rs ds) (hqs : qs ⊆ rs) (hcs : cs ⊆ ds) : Legible qs cs :=
  ⟨fun q hq => h.names q (hqs hq), fun c hc => h.constants c (hcs hc)⟩

theorem left (h : Legible (qs ++ rs) (cs ++ ds)) : Legible qs cs :=
  h.subset (List.subset_append_left qs rs) (List.subset_append_left cs ds)

theorem right (h : Legible (qs ++ rs) (cs ++ ds)) : Legible rs ds :=
  h.subset (List.subset_append_right qs rs) (List.subset_append_right cs ds)

theorem front (h : Legible (qs ++ rs) cs) : Legible qs cs :=
  h.subset (List.subset_append_left qs rs) (List.Subset.refl cs)

theorem back (h : Legible (qs ++ rs) cs) : Legible rs cs :=
  h.subset (List.subset_append_right qs rs) (List.Subset.refl cs)

theorem head (h : Legible (q :: qs) cs) : Lexeme .identifier q.ident.name.toList :=
  h.names q List.mem_cons_self

theorem tail (h : Legible (q :: qs) cs) : Legible qs cs :=
  h.subset (List.subset_cons_self q qs) (List.Subset.refl cs)

end Legible

/-! ### Words of legible trees -/

instance : DecidablePred Unmarked :=
  fun word => List.decidableBAll (fun c => isMark c = false) word.toList

theorem isMark_of_wordChar {c : Char} (h : Lexer.isWordChar c = true) : isMark c = false := by
  by_contra hmark
  simp only [isMark, Bool.not_eq_false, Bool.or_eq_true, beq_iff_eq] at hmark
  rcases hmark with (rfl | rfl) | rfl <;> exact absurd h (by decide)

theorem unmarked_identifier {word : String} (h : Lexeme .identifier word.toList) : Unmarked word := by
  obtain ⟨c, rest, hword, hc, hrest, -⟩ := Lexer.identifier_shape h
  have hfirst : Lexer.isWordChar c = true := (Lexer.isWordChar_iff c).mpr (.inl hc)
  intro d hd
  rw [hword] at hd
  rcases List.mem_cons.mp hd with rfl | hmem
  · exact isMark_of_wordChar hfirst
  · exact isMark_of_wordChar (hrest d hmem)

theorem isMark_of_numberChar {c : Char} (h : Decimal.NumberChar c) : isMark c = false := by
  rcases h with hdigit | hsign
  · exact isMark_of_wordChar (by simp [Lexer.isWordChar, Char.isAlphanum, hdigit])
  · simp only [List.mem_cons, List.not_mem_nil, or_false] at hsign
    rcases hsign with rfl | rfl | rfl | rfl <;> rfl

/-- What numbers begin with, and names do not. -/
def beginsNumber (c : Char) : Bool :=
  c.isDigit || c == '-'

theorem beginsNumber_of_initial {c : Char} (h : Lexis.Initial c) : beginsNumber c = false := by
  have hdigit : c.isDigit = false := by
    rw [Bool.eq_false_iff]
    exact fun hc => Lexis.not_digit_of_initial h ((Lexer.isDigit_iff c).mp hc)
  have hsign : c ≠ '-' := by
    rintro rfl
    exact absurd h (by decide)
  simp [beginsNumber, hdigit, hsign]

/-- The text of a number with digits. -/
structure Number.Written (cs : List Char) : Prop where
  begins : Lexer.Begins beginsNumber cs = true
  chars : ∀ c ∈ cs, Decimal.NumberChar c

namespace Number.Written

variable {cs : List Char}

theorem digits (hbegins : Lexer.Begins Char.isDigit cs = true) (hchars : ∀ c ∈ cs, Decimal.NumberChar c) :
    Written cs := by
  cases cs with
  | nil => cases hbegins
  | cons c cs =>
    have hdigit : c.isDigit = true := hbegins
    exact ⟨by simp [Lexer.Begins, beginsNumber, hdigit], hchars⟩

theorem minus (hchars : ∀ c ∈ cs, Decimal.NumberChar c) : Written ('-' :: cs) :=
  ⟨rfl, List.forall_mem_cons.mpr ⟨.inr (by decide), hchars⟩⟩

theorem int (n : Int) : Written (intText n).toList := by
  have hdigits : ∀ c ∈ (natText n.natAbs).toList, Decimal.NumberChar c :=
    fun c hc => .inl (Datum.natText_isDigit n.natAbs c hc)
  unfold intText
  split
  · rw [String.toList_append]
    exact minus hdigits
  · obtain ⟨c, cs, hcs, hc⟩ := Datum.natText_toList n.natAbs
    exact digits (by simp [hcs, Lexer.Begins, hc]) hdigits

theorem float {x : Binary64} (hfinite : x.isFinite = true) : Written x.text.toList := by
  have hnumeral := FloatNotation.printed.decimal_numeral (Decimal.shortest FloatNotation.printed.tie x)
  rw [Binary64.text, Binary64.write_finite _ hfinite]
  cases x.isNegative with
  | true => exact minus hnumeral.chars
  | false => exact digits hnumeral.begins hnumeral.chars

end Number.Written

namespace Constant.IsFinite

variable {n : Number} {c : Constant}

theorem written (h : (Constant.number n).IsFinite) : Number.Written n.text.toList := by
  cases n with
  | int i => exact .int i.toInt
  | float x => exact .float h

theorem comparable (h : (Constant.number n).IsFinite) : n.IsComparable := by
  cases n with
  | int i => trivial
  | float x => exact (Binary64.isFinite_iff.mp h).1

theorem unmarked (h : c.IsFinite) : Unmarked c.text := by
  cases c with
  | nil => decide
  | bool b => cases b <;> decide
  | number n => exact fun c hc => isMark_of_numberChar (h.written.chars c hc)
  | string s => cases h

end Constant.IsFinite

/-! ### Forms of legible trees -/

theorem Form.Clear.node {head : String} {parts : List Form} (hhead : Unmarked head) (hparts : Form.AllClear parts) :
    (Form.node "" head parts).Clear :=
  ⟨by decide, hhead, hparts⟩

theorem Form.clear_signature {name : Ident} (hname : Unmarked name.name) {parameters : List Ident}
    (hparameters : ∀ p ∈ parameters, Unmarked p.name) : (Form.signature name parameters).Clear := by
  cases parameters with
  | nil => exact ⟨hname, by decide, trivial⟩
  | cons first rest =>
    obtain ⟨hfirst, hrest⟩ := List.forall_mem_cons.mp hparameters
    refine ⟨hname, hfirst, Form.allClear_iff.mpr fun f hf => ?_⟩
    obtain ⟨p, hp, rfl⟩ := List.mem_map.mp hf
    exact hrest p hp

theorem UnaryOp.unmarked (op : UnaryOp) : Unmarked op.symbol := by
  cases op <;> decide

theorem BinaryOp.unmarked (op : BinaryOp) : Unmarked op.symbol := by
  cases op with
  | equal => decide
  | notEqual => decide
  | order c => cases c <;> decide
  | arithmetic op => cases op <;> decide

theorem LogicalOp.unmarked (op : LogicalOp) : Unmarked op.symbol := by
  cases op <;> decide

variable {nest : List (List Ident)}

mutual

theorem Expr.form_clear : ∀ {e : Expr}, Legible (e.occurrences nest) e.constants → e.form.Clear
  | .constant _, h => (h.constants _ List.mem_cons_self).unmarked
  | .grouping _, h => .node (by decide) ⟨Expr.form_clear h, trivial⟩
  | .unary op _ _, h => .node op.unmarked ⟨Expr.form_clear h, trivial⟩
  | .binary _ op _ _, h => .node op.unmarked ⟨Expr.form_clear h.left, Expr.form_clear h.right, trivial⟩
  | .logical _ op _, h => .node op.unmarked ⟨Expr.form_clear h.left, Expr.form_clear h.right, trivial⟩
  | .read _, h => unmarked_identifier h.head
  | .assign _ _, h => .node (by decide) ⟨unmarked_identifier h.head, Expr.form_clear h.tail, trivial⟩
  | .call _ _ _, h => .node (by decide) ⟨Expr.form_clear h.left, Expr.allForms_clear h.right⟩
  | .get _ _, h => .node (by decide) ⟨Expr.form_clear h.front, unmarked_identifier h.back.head, trivial⟩
  | .set _ _ _, h =>
    .node (by decide)
      ⟨Expr.form_clear h.left, unmarked_identifier h.right.head, Expr.form_clear h.right.tail, trivial⟩
  | .this _ _, _ => (by decide : Unmarked thisName)
  | .super _ _ _, h => .node (by decide) ⟨unmarked_identifier h.head, trivial⟩

theorem Expr.allForms_clear : ∀ {es : List Expr}, Legible (Expr.allOccurrences nest es) (Expr.allConstants es) →
    Form.AllClear (Expr.allForms es)
  | [], _ => trivial
  | _ :: _, h => ⟨Expr.form_clear h.left, Expr.allForms_clear h.right⟩

end

mutual

theorem Stmt.form_clear : ∀ {nest : List (List Ident)} {s : Stmt},
    Legible (s.occurrences nest) s.constants → s.form.Clear
  | _, .expression _, h => .node (by decide) ⟨Expr.form_clear h, trivial⟩
  | _, .print _, h => .node (by decide) ⟨Expr.form_clear h, trivial⟩
  | _, .var _ none, h => .node (by decide) ⟨unmarked_identifier h.head, trivial⟩
  | _, .var _ (some _), h => .node (by decide) ⟨unmarked_identifier h.head, Expr.form_clear h.tail, trivial⟩
  | _, .block _, h => .node (by decide) (Stmt.allForms_clear h)
  | _, .ifThen _ _, h => .node (by decide) ⟨Expr.form_clear h.left, Stmt.form_clear h.right, trivial⟩
  | _, .ifElse _ _ _, h =>
    .node (by decide)
      ⟨Expr.form_clear h.left, Stmt.form_clear h.right.left, Stmt.form_clear h.right.right, trivial⟩
  | _, .loop _ _ none, h => .node (by decide) ⟨Expr.form_clear h.left, Stmt.form_clear h.right, trivial⟩
  | _, .loop _ _ (some _), h =>
    .node (by decide)
      ⟨Expr.form_clear h.left, Stmt.form_clear h.right.right, Expr.form_clear h.right.left, trivial⟩
  | _, .breakLoop _, _ => .node (by decide) trivial
  | _, .continueLoop _, _ => .node (by decide) trivial
  | _, .function _, h => FunctionDecl.form_clear h.head h.tail
  | _, .returnValue _ none, _ => .node (by decide) trivial
  | _, .returnValue _ (some _), h => .node (by decide) ⟨Expr.form_clear h, trivial⟩
  | _, .classDecl _ none _, h =>
    .node (by decide) ⟨unmarked_identifier h.head, FunctionDecl.allForms_clear h.tail⟩
  | _, .classDecl _ (some _) _, h =>
    .node (by decide)
      ⟨unmarked_identifier h.head, (by decide : Unmarked "<"), unmarked_identifier h.tail.head,
        FunctionDecl.allForms_clear h.tail.tail⟩

theorem FunctionDecl.form_clear : ∀ {nest : List (List Ident)} {d : FunctionDecl},
    Lexeme .identifier d.name.name.toList → Legible (d.occurrences nest) d.constants → d.form.Clear
  | _, ⟨_, _, parameters, _⟩, hname, h => by
    have hparameters : ∀ p ∈ parameters, Unmarked p.name :=
      fun p hp => unmarked_identifier (h.front.names _ (List.mem_map_of_mem hp))
    exact .node (by decide)
      ⟨Form.clear_signature (unmarked_identifier hname) hparameters, Stmt.allForms_clear h.back⟩

theorem Stmt.allForms_clear : ∀ {nest : List (List Ident)} {body : List Stmt},
    Legible (Stmt.allOccurrences nest body) (Stmt.allConstants body) → Form.AllClear (Stmt.allForms body)
  | _, [], _ => trivial
  | _, _ :: _, h => ⟨Stmt.form_clear h.left, Stmt.allForms_clear h.right⟩

theorem FunctionDecl.allForms_clear : ∀ {nest : List (List Ident)} {methods : List FunctionDecl},
    Legible (FunctionDecl.allOccurrences nest methods) (FunctionDecl.allConstants methods) →
      Form.AllClear (FunctionDecl.allForms methods)
  | _, [], _ => trivial
  | _, _ :: _, h => ⟨FunctionDecl.form_clear h.head h.left.tail, FunctionDecl.allForms_clear h.right⟩

end

end LoxLang

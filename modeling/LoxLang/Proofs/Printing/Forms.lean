import Mathlib.Data.List.Basic
import LoxLang.Syntax.Printer

/-!
Bracketed forms, and syntax trees as such forms. A form is a word, or a head in brackets with further forms behind
it, each behind a space; a name may stand right in front of the opening bracket. If no space and no bracket is part
of a word, a text says where each word ends, and it is the text of one form only. The head says what kind of node a
tree has, except that operators of one and of two operands share the minus sign.
-/

namespace LoxLang

/-- What a syntax tree is printed as. -/
inductive Form where
  | word (text : String)
  | node (name head : String) (parts : List Form)

/-- The characters that end a word. -/
def isMark (c : Char) : Bool :=
  c == ' ' || c == '(' || c == ')'

namespace Form

mutual

@[simp]
def chars : Form → List Char
  | word text => text.toList
  | node name head parts => name.toList ++ '(' :: (head.toList ++ (listChars parts ++ [')']))

/-- The forms, each behind a space. -/
@[simp]
def listChars : List Form → List Char
  | [] => []
  | f :: rest => ' ' :: (f.chars ++ listChars rest)

end

@[simp]
theorem listChars_append (fs gs : List Form) : listChars (fs ++ gs) = listChars fs ++ listChars gs := by
  induction fs with
  | nil => simp
  | cons f fs ih => simp [ih]

/-- Words with a space between any two of them are the first one and the others, each behind a space. -/
theorem intercalate_words (word : String) (rest : List String) : (" ".intercalate (word :: rest)).toList =
    word.toList ++ listChars (rest.map Form.word) := by
  induction rest generalizing word with
  | nil => simp
  | cons next rest ih => simp_all

end Form

/-! ### Words without marks -/

/-- No mark is part of the word. -/
def Unmarked (word : String) : Prop :=
  ∀ c ∈ word.toList, isMark c = false

mutual

/-- No word of the form has a mark in it. -/
def Form.Clear : Form → Prop
  | .word text => Unmarked text
  | .node name head parts => Unmarked name ∧ Unmarked head ∧ Form.AllClear parts

def Form.AllClear : List Form → Prop
  | [] => True
  | f :: rest => f.Clear ∧ Form.AllClear rest

end

namespace Form

theorem allClear_iff {fs : List Form} : AllClear fs ↔ ∀ f ∈ fs, f.Clear := by
  induction fs with
  | nil => simp [AllClear]
  | cons f fs ih => simp [AllClear, ih]

variable {a b r s : List Char}

/-- A run of characters that are no marks ends where a mark stands. -/
theorem unmarked_append_inj (ha : ∀ c ∈ a, isMark c = false) (hb : ∀ c ∈ b, isMark c = false)
    (hr : ∀ c ∈ r.head?, isMark c = true) (hs : ∀ c ∈ s.head?, isMark c = true) (h : a ++ r = b ++ s) :
    a = b ∧ r = s := by
  induction a generalizing b with
  | nil =>
    cases b with
    | nil => exact ⟨rfl, h⟩
    | cons d b =>
      have hmark : isMark d = true := hr d (by simp_all)
      simp_all
  | cons c a ih =>
    cases b with
    | nil =>
      have hmark : isMark c = true := hs c (by simp [← show c :: (a ++ r) = s from h])
      simp_all
    | cons d b =>
      obtain ⟨rfl, htail⟩ := List.cons.inj h
      obtain ⟨rfl, hrest⟩ := ih (fun c hc => ha c (by simp [hc])) (fun c hc => hb c (by simp [hc])) htail
      exact ⟨rfl, hrest⟩

/-- The text goes on behind a form, or ends. -/
def Ended (r : List Char) : Prop :=
  ∀ c ∈ r.head?, c = ' ' ∨ c = ')'

theorem Ended.marked (hr : Ended r) : ∀ c ∈ r.head?, isMark c = true := by
  intro c hc
  rcases hr c hc with rfl | rfl <;> simp [isMark]

theorem ended_listChars (fs : List Form) (r : List Char) : Ended (listChars fs ++ ')' :: r) := by
  cases fs <;> simp [Ended]

/-- A word is not the beginning of a form in brackets. -/
theorem word_ne_node {word name : String} (hword : Unmarked word) (hname : Unmarked name) (hr : Ended r) :
    word.toList ++ r ≠ name.toList ++ '(' :: s := by
  intro h
  obtain ⟨-, rfl⟩ := unmarked_append_inj hword hname hr.marked (by simp [isMark]) h
  simp [Ended] at hr

mutual

/-- The text of a form is not the beginning of the text of another form. -/
theorem chars_append_inj : ∀ {f g : Form}, f.Clear → g.Clear → ∀ {r s : List Char}, Ended r → Ended s →
    f.chars ++ r = g.chars ++ s → f = g ∧ r = s
  | .word _, .word _, hf, hg, _, _, hr, hs, h => by
    obtain ⟨hword, hrest⟩ := unmarked_append_inj hf hg hr.marked hs.marked h
    exact ⟨congrArg Form.word (String.toList_inj.mp hword), hrest⟩
  | .word _, .node .., hf, hg, _, _, hr, _, h => by
    rw [chars, chars, List.append_assoc, List.cons_append] at h
    exact absurd h (word_ne_node hf hg.1 hr)
  | .node .., .word _, hf, hg, _, _, _, hs, h => by
    rw [chars, chars, List.append_assoc, List.cons_append] at h
    exact absurd h.symm (word_ne_node hg hf.1 hs)
  | .node _ _ fs, .node _ _ gs, hf, hg, r, s, _, _, h => by
    simp only [chars, List.append_assoc, List.cons_append, List.nil_append] at h
    obtain ⟨hname, hbody⟩ := unmarked_append_inj hf.1 hg.1 (by simp [isMark]) (by simp [isMark]) h
    obtain ⟨hhead, hparts⟩ := unmarked_append_inj hf.2.1 hg.2.1 (ended_listChars fs r).marked
      (ended_listChars gs s).marked (List.cons.inj hbody).2
    obtain ⟨rfl, hrest⟩ := listChars_append_inj hf.2.2 hg.2.2 hparts
    rw [String.toList_inj.mp hname, String.toList_inj.mp hhead]
    exact ⟨rfl, hrest⟩

theorem listChars_append_inj : ∀ {fs gs : List Form}, AllClear fs → AllClear gs → ∀ {r s : List Char},
    listChars fs ++ ')' :: r = listChars gs ++ ')' :: s → fs = gs ∧ r = s
  | [], [], _, _, _, _, h => by simpa using h
  | [], _ :: _, _, _, _, _, h => by simp at h
  | _ :: _, [], _, _, _, _, h => by simp at h
  | _ :: fs, _ :: gs, hf, hg, r, s, h => by
    simp only [listChars, List.cons_append, List.append_assoc, List.cons.injEq, true_and] at h
    obtain ⟨rfl, hrest⟩ := chars_append_inj hf.1 hg.1 (ended_listChars fs r) (ended_listChars gs s) h
    obtain ⟨rfl, hbehind⟩ := listChars_append_inj hf.2 hg.2 hrest
    exact ⟨rfl, hbehind⟩

end

/-- Forms without marks in their words can be told from their texts. -/
theorem chars_inj {f g : Form} (hf : f.Clear) (hg : g.Clear) (h : f.chars = g.chars) : f = g := by
  have hend : Ended [] := by simp [Ended]
  exact (chars_append_inj hf hg hend hend (congrArg (· ++ []) h)).1

end Form

/-! ### Forms of trees -/

mutual

def Expr.form : Expr → Form
  | .constant value => .word value.text
  | .grouping inner => .node "" "group" [inner.form]
  | .unary op _ operand => .node "" op.symbol [operand.form]
  | .binary left op _ right => .node "" op.symbol [left.form, right.form]
  | .logical left op right => .node "" op.symbol [left.form, right.form]
  | .read target => .word target.ident.name
  | .assign target value => .node "" "=" [.word target.ident.name, value.form]
  | .call callee _ arguments => .node "" "call" (callee.form :: Expr.allForms arguments)
  | .get object property => .node "" "." [object.form, .word property.name]
  | .set object property value => .node "" "set" [object.form, .word property.name, value.form]
  | .this _ _ => .word thisName
  | .super _ _ method => .node "" "super" [.word method.name]

def Expr.allForms : List Expr → List Form
  | [] => []
  | e :: rest => e.form :: Expr.allForms rest

end

/-- The name of a function with its parameters in brackets. -/
def Form.signature (name : Ident) : List Ident → Form
  | [] => .node name.name "" []
  | first :: rest => .node name.name first.name (rest.map fun p => .word p.name)

/-- The superclass of a class, behind its name. -/
def Form.clause : Option Reference → List Form
  | none => []
  | some superclass => [.word "<", .word superclass.ident.name]

mutual

def Stmt.form : Stmt → Form
  | .expression e => .node "" ";" [e.form]
  | .print e => .node "" "print" [e.form]
  | .var name none => .node "" "var" [.word name.name]
  | .var name (some e) => .node "" "var" [.word name.name, e.form]
  | .block body => .node "" "block" (Stmt.allForms body)
  | .ifThen condition thenBranch => .node "" "if" [condition.form, thenBranch.form]
  | .ifElse condition thenBranch elseBranch =>
    .node "" "if-else" [condition.form, thenBranch.form, elseBranch.form]
  | .loop condition body none => .node "" "while" [condition.form, body.form]
  | .loop condition body (some increment) =>
    .node "" "while" [condition.form, body.form, increment.form]
  | .breakLoop _ => .node "" "break" []
  | .continueLoop _ => .node "" "continue" []
  | .function declaration => declaration.form
  | .returnValue _ none => .node "" "return" []
  | .returnValue _ (some e) => .node "" "return" [e.form]
  | .classDecl name superclass methods =>
    .node "" "class" (.word name.name :: (Form.clause superclass ++ FunctionDecl.allForms methods))

def FunctionDecl.form : FunctionDecl → Form
  | ⟨_, name, parameters, body⟩ => .node "" "fun" (Form.signature name parameters :: Stmt.allForms body)

def Stmt.allForms : List Stmt → List Form
  | [] => []
  | s :: rest => s.form :: Stmt.allForms rest

def FunctionDecl.allForms : List FunctionDecl → List Form
  | [] => []
  | m :: rest => m.form :: FunctionDecl.allForms rest

end

/-! ### The printed text is that of the form -/

open Form (chars listChars)

mutual

theorem Expr.text_toList : ∀ e : Expr, e.text.toList = e.form.chars
  | .constant _ => by simp [Expr.text, Expr.form]
  | .grouping inner => by simp [Expr.text, Expr.form, inner.text_toList]
  | .unary _ _ operand => by simp [Expr.text, Expr.form, operand.text_toList]
  | .binary left _ _ right => by
    simp [Expr.text, Expr.form, left.text_toList, right.text_toList]
  | .logical left _ right => by
    simp [Expr.text, Expr.form, left.text_toList, right.text_toList]
  | .read _ => by simp [Expr.text, Expr.form]
  | .assign _ value => by simp [Expr.text, Expr.form, value.text_toList]
  | .call callee _ arguments => by
    simp [Expr.text, Expr.form, callee.text_toList, Expr.listText_toList arguments]
  | .get object _ => by simp [Expr.text, Expr.form, object.text_toList]
  | .set object _ value => by
    simp [Expr.text, Expr.form, object.text_toList, value.text_toList]
  | .this _ _ => by simp [Expr.text, Expr.form]
  | .super _ _ _ => by simp [Expr.text, Expr.form]

theorem Expr.listText_toList : ∀ es : List Expr, (Expr.listText es).toList = listChars (Expr.allForms es)
  | [] => by simp [Expr.listText, Expr.allForms]
  | e :: rest => by
    simp [Expr.listText, Expr.allForms, e.text_toList, Expr.listText_toList rest]

end

theorem Form.signature_chars (name : Ident) (parameters : List Ident) :
    (name.name ++ "(" ++ " ".intercalate (parameters.map Ident.name) ++ ")").toList =
      (Form.signature name parameters).chars := by
  cases parameters with
  | nil => simp [Form.signature]
  | cons first rest =>
    have hwords := Form.intercalate_words first.name (rest.map Ident.name)
    simp_all [Form.signature, Function.comp_def]

mutual

theorem Stmt.text_toList : ∀ s : Stmt, s.text.toList = s.form.chars
  | .expression e => by simp [Stmt.text, Stmt.form, e.text_toList]
  | .print e => by simp [Stmt.text, Stmt.form, e.text_toList]
  | .var _ none => by simp [Stmt.text, Stmt.form]
  | .var _ (some e) => by simp [Stmt.text, Stmt.form, e.text_toList]
  | .block body => by simp [Stmt.text, Stmt.form, Stmt.listText_toList body]
  | .ifThen c s => by simp [Stmt.text, Stmt.form, c.text_toList, s.text_toList]
  | .ifElse c s t => by
    simp [Stmt.text, Stmt.form, c.text_toList, s.text_toList, t.text_toList]
  | .loop c s none => by simp [Stmt.text, Stmt.form, c.text_toList, s.text_toList]
  | .loop c s (some k) => by
    simp [Stmt.text, Stmt.form, c.text_toList, s.text_toList, k.text_toList]
  | .breakLoop _ => by simp [Stmt.text, Stmt.form]
  | .continueLoop _ => by simp [Stmt.text, Stmt.form]
  | .function d => by simp [Stmt.text, Stmt.form, d.text_toList]
  | .returnValue _ none => by simp [Stmt.text, Stmt.form]
  | .returnValue _ (some e) => by simp [Stmt.text, Stmt.form, e.text_toList]
  | .classDecl _ none methods => by
    simp [Stmt.text, Stmt.form, Form.clause, FunctionDecl.listText_toList methods]
  | .classDecl _ (some _) methods => by
    simp [Stmt.text, Stmt.form, Form.clause, FunctionDecl.listText_toList methods]

theorem FunctionDecl.text_toList : ∀ d : FunctionDecl, d.text.toList = d.form.chars
  | ⟨_, name, parameters, body⟩ => by
    have hsignature := Form.signature_chars name parameters
    simp_all [FunctionDecl.text, FunctionDecl.form, Stmt.listText_toList body]

theorem Stmt.listText_toList : ∀ body : List Stmt,
    (Stmt.listText body).toList = listChars (Stmt.allForms body)
  | [] => by simp [Stmt.listText, Stmt.allForms]
  | s :: rest => by
    simp [Stmt.listText, Stmt.allForms, s.text_toList, Stmt.listText_toList rest]

theorem FunctionDecl.listText_toList : ∀ methods : List FunctionDecl,
    (FunctionDecl.listText methods).toList = listChars (FunctionDecl.allForms methods)
  | [] => by simp [FunctionDecl.listText, FunctionDecl.allForms]
  | m :: rest => by
    simp [FunctionDecl.listText, FunctionDecl.allForms, m.text_toList,
      FunctionDecl.listText_toList rest]

end

end LoxLang

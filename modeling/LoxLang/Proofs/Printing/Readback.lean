import LoxLang.Proofs.Printing.Legible
import LoxLang.Proofs.Syntax.Alike

/-!
Printed trees read back. The head of a form and the number of its parts say which node was printed, and a word
says by its first character whether it is a number. What is read has identities and places of its own; but for
these, it is the tree that was printed. Trees that differ only in these are printed with the same text, and two of
them that are both the same as a third one are the same.
-/

namespace LoxLang

open Lexis (Lexeme)

/-- Identities and places make no difference. -/
def Skew.any : Skew :=
  ⟨fun _ _ => True, fun _ _ => True⟩

/-! ### The printed text -/

section Text

variable {S : Skew}

theorem Ident.allAlike_names {xs ys : List Ident} (h : List.Forall₂ (Ident.Alike S) xs ys) :
    xs.map Ident.name = ys.map Ident.name := by
  induction h with
  | nil => rfl
  | cons hx _ ih => simp [hx.name, ih]

mutual

theorem Expr.Alike.text_eq : ∀ {a b : Expr}, a.Alike S b → a.text = b.text
  | .constant _, _, .constant _ => rfl
  | .grouping _, _, .grouping h => by simp [Expr.text, h.text_eq]
  | .unary .., _, .unary _ _ h => by simp [Expr.text, h.text_eq]
  | .binary .., _, .binary _ h _ h' => by simp [Expr.text, h.text_eq, h'.text_eq]
  | .logical .., _, .logical _ h h' => by simp [Expr.text, h.text_eq, h'.text_eq]
  | .read _, _, .read hr => by simp [Expr.text, hr.ident.name]
  | .assign .., _, .assign hr h => by simp [Expr.text, hr.ident.name, h.text_eq]
  | .call .., _, .call h _ hs => by simp [Expr.text, h.text_eq, Expr.listText_eq hs]
  | .get .., _, .get h hx => by simp [Expr.text, h.text_eq, hx.name]
  | .set .., _, .set h hx h' => by simp [Expr.text, h.text_eq, hx.name, h'.text_eq]
  | .this .., _, .this _ _ => rfl
  | .super .., _, .super _ _ hx => by simp [Expr.text, hx.name]

theorem Expr.listText_eq : ∀ {as bs : List Expr}, List.Forall₂ (Expr.Alike S) as bs →
    Expr.listText as = Expr.listText bs
  | [], _, .nil => rfl
  | _ :: _, _, .cons h hs => by simp [Expr.listText, h.text_eq, Expr.listText_eq hs]

end

mutual

theorem Stmt.Alike.text_eq : ∀ {a b : Stmt}, a.Alike S b → a.text = b.text
  | .expression _, _, .expression h => by simp [Stmt.text, h.text_eq]
  | .print _, _, .print h => by simp [Stmt.text, h.text_eq]
  | .var _ none, _, .var hx .none => by simp [Stmt.text, hx.name]
  | .var _ (some _), _, .var hx (.some h) => by simp [Stmt.text, hx.name, h.text_eq]
  | .block _, _, .block hs => by simp [Stmt.text, Stmt.listText_eq hs]
  | .ifThen .., _, .ifThen hc h => by simp [Stmt.text, hc.text_eq, h.text_eq]
  | .ifElse .., _, .ifElse hc h h' => by simp [Stmt.text, hc.text_eq, h.text_eq, h'.text_eq]
  | .loop _ _ none, _, .loop hc h .none => by simp [Stmt.text, hc.text_eq, h.text_eq]
  | .loop _ _ (some _), _, .loop hc h (.some hk) => by simp [Stmt.text, hc.text_eq, h.text_eq, hk.text_eq]
  | .breakLoop _, _, .breakLoop _ => rfl
  | .continueLoop _, _, .continueLoop _ => rfl
  | .function _, _, .function h => by simp [Stmt.text, h.text_eq]
  | .returnValue _ none, _, .returnValue _ .none => rfl
  | .returnValue _ (some _), _, .returnValue _ (.some h) => by simp [Stmt.text, h.text_eq]
  | .classDecl _ none _, _, .classDecl hx .none hs => by
    simp [Stmt.text, hx.name, FunctionDecl.listText_eq hs]
  | .classDecl _ (some _) _, _, .classDecl hx (.some hr) hs => by
    simp [Stmt.text, hx.name, hr.ident.name, FunctionDecl.listText_eq hs]

theorem Stmt.listText_eq : ∀ {as bs : List Stmt}, List.Forall₂ (Stmt.Alike S) as bs →
    Stmt.listText as = Stmt.listText bs
  | [], _, .nil => rfl
  | _ :: _, _, .cons h hs => by simp [Stmt.listText, h.text_eq, Stmt.listText_eq hs]

theorem FunctionDecl.Alike.text_eq : ∀ {f g : FunctionDecl}, f.Alike S g → f.text = g.text
  | ⟨_, _, _, _⟩, _, .mk _ hx hps hs => by
    simp [FunctionDecl.text, hx.name, Ident.allAlike_names hps, Stmt.listText_eq hs]

theorem FunctionDecl.listText_eq : ∀ {fs gs : List FunctionDecl}, List.Forall₂ (FunctionDecl.Alike S) fs gs →
    FunctionDecl.listText fs = FunctionDecl.listText gs
  | [], _, .nil => rfl
  | _ :: _, _, .cons h hs => by simp [FunctionDecl.listText, h.text_eq, FunctionDecl.listText_eq hs]

end

end Text

/-! ### Trees that are the same as a third one -/

theorem Ident.Alike.common {a b c : Ident} (h : a.Alike .any c) (h' : b.Alike .any c) : a.Alike .any b :=
  ⟨h.name.trans h'.name.symm, trivial⟩

theorem Reference.Alike.common {a b c : Reference} (h : a.Alike .any c) (h' : b.Alike .any c) :
    a.Alike .any b :=
  ⟨trivial, h.ident.common h'.ident⟩

theorem Ident.allAlike_common {xs ys zs : List Ident} (h : List.Forall₂ (Ident.Alike .any) xs zs)
    (h' : List.Forall₂ (Ident.Alike .any) ys zs) : List.Forall₂ (Ident.Alike .any) xs ys := by
  induction h generalizing ys with
  | nil =>
    cases h'
    exact .nil
  | cons hx _ ih =>
    cases h' with
    | cons hy hys => exact .cons (hx.common hy) (ih hys)

mutual

theorem Expr.Alike.common : ∀ {a b c : Expr}, a.Alike .any c → b.Alike .any c → a.Alike .any b
  | .constant _, _, _, .constant value, .constant _ => .constant value
  | .grouping _, _, _, .grouping h, .grouping h' => .grouping (h.common h')
  | .unary .., _, _, .unary op _ h, .unary _ _ h' => .unary op trivial (h.common h')
  | .binary .., _, _, .binary op hl _ hr, .binary _ hl' _ hr' =>
    .binary op (hl.common hl') trivial (hr.common hr')
  | .logical .., _, _, .logical op hl hr, .logical _ hl' hr' => .logical op (hl.common hl') (hr.common hr')
  | .read _, _, _, .read hr, .read hr' => .read (hr.common hr')
  | .assign .., _, _, .assign hr h, .assign hr' h' => .assign (hr.common hr') (h.common h')
  | .call .., _, _, .call h _ hs, .call h' _ hs' => .call (h.common h') trivial (Expr.allAlike_common hs hs')
  | .get .., _, _, .get h hx, .get h' hx' => .get (h.common h') (hx.common hx')
  | .set .., _, _, .set ho hx h, .set ho' hx' h' => .set (ho.common ho') (hx.common hx') (h.common h')
  | .this .., _, _, .this _ _, .this _ _ => .this trivial trivial
  | .super .., _, _, .super _ _ hx, .super _ _ hx' => .super trivial trivial (hx.common hx')

theorem Expr.allAlike_common : ∀ {as bs cs : List Expr}, List.Forall₂ (Expr.Alike .any) as cs →
    List.Forall₂ (Expr.Alike .any) bs cs → List.Forall₂ (Expr.Alike .any) as bs
  | [], _, _, .nil, .nil => .nil
  | _ :: _, _, _, .cons h hs, .cons h' hs' => .cons (h.common h') (Expr.allAlike_common hs hs')

end

mutual

theorem Stmt.Alike.common : ∀ {a b c : Stmt}, a.Alike .any c → b.Alike .any c → a.Alike .any b
  | .expression _, _, _, .expression h, .expression h' => .expression (h.common h')
  | .print _, _, _, .print h, .print h' => .print (h.common h')
  | .var _ none, _, _, .var hx .none, .var hx' .none => .var (hx.common hx') .none
  | .var _ (some _), _, _, .var hx (.some h), .var hx' (.some h') => .var (hx.common hx') (.some (h.common h'))
  | .block _, _, _, .block hs, .block hs' => .block (Stmt.allAlike_common hs hs')
  | .ifThen .., _, _, .ifThen hc h, .ifThen hc' h' => .ifThen (hc.common hc') (h.common h')
  | .ifElse .., _, _, .ifElse hc hs ht, .ifElse hc' hs' ht' =>
    .ifElse (hc.common hc') (hs.common hs') (ht.common ht')
  | .loop _ _ none, _, _, .loop hc h .none, .loop hc' h' .none => .loop (hc.common hc') (h.common h') .none
  | .loop _ _ (some _), _, _, .loop hc h (.some hk), .loop hc' h' (.some hk') =>
    .loop (hc.common hc') (h.common h') (.some (hk.common hk'))
  | .breakLoop _, _, _, .breakLoop _, .breakLoop _ => .breakLoop trivial
  | .continueLoop _, _, _, .continueLoop _, .continueLoop _ => .continueLoop trivial
  | .function _, _, _, .function h, .function h' => .function (h.common h')
  | .returnValue _ none, _, _, .returnValue _ .none, .returnValue _ .none => .returnValue trivial .none
  | .returnValue _ (some _), _, _, .returnValue _ (.some h), .returnValue _ (.some h') =>
    .returnValue trivial (.some (h.common h'))
  | .classDecl _ none _, _, _, .classDecl hx .none hs, .classDecl hx' .none hs' =>
    .classDecl (hx.common hx') .none (FunctionDecl.allAlike_common hs hs')
  | .classDecl _ (some _) _, _, _, .classDecl hx (.some hr) hs, .classDecl hx' (.some hr') hs' =>
    .classDecl (hx.common hx') (.some (hr.common hr')) (FunctionDecl.allAlike_common hs hs')

theorem Stmt.allAlike_common : ∀ {as bs cs : List Stmt}, List.Forall₂ (Stmt.Alike .any) as cs →
    List.Forall₂ (Stmt.Alike .any) bs cs → List.Forall₂ (Stmt.Alike .any) as bs
  | [], _, _, .nil, .nil => .nil
  | _ :: _, _, _, .cons h hs, .cons h' hs' => .cons (h.common h') (Stmt.allAlike_common hs hs')

theorem FunctionDecl.Alike.common : ∀ {f g d : FunctionDecl}, f.Alike .any d → g.Alike .any d → f.Alike .any g
  | ⟨_, _, _, _⟩, _, _, .mk _ hx hps hs, .mk _ hx' hps' hs' =>
    .mk trivial (hx.common hx') (Ident.allAlike_common hps hps') (Stmt.allAlike_common hs hs')

theorem FunctionDecl.allAlike_common : ∀ {fs gs ds : List FunctionDecl},
    List.Forall₂ (FunctionDecl.Alike .any) fs ds → List.Forall₂ (FunctionDecl.Alike .any) gs ds →
      List.Forall₂ (FunctionDecl.Alike .any) fs gs
  | [], _, _, .nil, .nil => .nil
  | _ :: _, _, _, .cons h hs, .cons h' hs' => .cons (h.common h') (FunctionDecl.allAlike_common hs hs')

end

/-! ### Reading expressions -/

/-- The name that a word spells. -/
def Form.ident : Form → Ident
  | .word text => ⟨text, default⟩
  | .node _ _ _ => default

/-- The expression that is printed as a word. -/
def Expr.ofWord (word : String) : Expr :=
  if Lexer.Begins beginsNumber word.toList then
    .constant (.number ((Native.readNumber word).toOption.getD default))
  else
    match TokenKind.ofWord word with
    | .kwNil => .constant .nil
    | .kwTrue => .constant (.bool true)
    | .kwFalse => .constant (.bool false)
    | .kwThis => .this 0 default
    | _ => .read ⟨0, ⟨word, default⟩⟩

def BinaryOp.ofSymbol : String → BinaryOp
  | "==" => .equal
  | "!=" => .notEqual
  | "<" => .order .less
  | "<=" => .order .lessEqual
  | ">" => .order .greater
  | ">=" => .order .greaterEqual
  | "+" => .arithmetic .add
  | "-" => .arithmetic .sub
  | "*" => .arithmetic .mul
  | "/" => .arithmetic .div
  | "\\" => .arithmetic .floorDiv
  | "%" => .arithmetic .rem
  | _ => .arithmetic .pow

/-- The expression that is printed with a head in front of some forms. What the forms are as expressions has
been read already. -/
def Expr.ofParts (head : String) (parts : List Form) (exprs : List Expr) : Expr :=
  match head, parts, exprs with
  | "group", _, [e] => .grouping e
  | "super", [x], _ => .super 0 default x.ident
  | "=", [x, _], [_, e] => .assign ⟨0, x.ident⟩ e
  | "call", _, f :: es => .call f default es
  | ".", [_, x], [e, _] => .get e x.ident
  | "set", [_, x, _], [e, _, e'] => .set e x.ident e'
  | "!", _, [e] => .unary .not default e
  | "-", _, [e] => .unary .negate default e
  | "and", _, [e, e'] => .logical e .and e'
  | "or", _, [e, e'] => .logical e .or e'
  | symbol, _, [e, e'] => .binary e (.ofSymbol symbol) default e'
  | _, _, _ => default

theorem Expr.ofParts_unary (op : UnaryOp) (parts : List Form) (e : Expr) :
    ofParts op.symbol parts [e] = .unary op default e := by
  cases op <;> simp [ofParts, UnaryOp.symbol]

theorem Expr.ofParts_logical (op : LogicalOp) (parts : List Form) (e e' : Expr) :
    ofParts op.symbol parts [e, e'] = .logical e op e' := by
  cases op <;> simp [ofParts, LogicalOp.symbol]

/-- No operator between two operands is written like the head of another form with two parts. -/
theorem Expr.ofParts_binary (op : BinaryOp) (parts : List Form) (e e' : Expr) :
    ofParts op.symbol parts [e, e'] = .binary e op default e' := by
  cases op with
  | equal => simp [ofParts, BinaryOp.symbol, BinaryOp.ofSymbol]
  | notEqual => simp [ofParts, BinaryOp.symbol, BinaryOp.ofSymbol]
  | order c => cases c <;> simp [ofParts, BinaryOp.symbol, Comparison.symbol, BinaryOp.ofSymbol]
  | arithmetic op => cases op <;> simp [ofParts, BinaryOp.symbol, Arithmetic.symbol, BinaryOp.ofSymbol]

mutual

def Expr.ofForm : Form → Expr
  | .word text => .ofWord text
  | .node _ head parts => .ofParts head parts (Expr.ofForms parts)

def Expr.ofForms : List Form → List Expr
  | [] => []
  | f :: rest => Expr.ofForm f :: Expr.ofForms rest

end

theorem Expr.ofWord_identifier {word : String} (h : Lexeme .identifier word.toList) :
    ofWord word = .read ⟨0, ⟨word, default⟩⟩ := by
  obtain ⟨c, rest, hword, hc, -, hkind⟩ := Lexer.identifier_shape h
  rw [String.ofList_toList] at hkind
  have hbegins : Lexer.Begins beginsNumber word.toList = false := by
    rw [hword]
    exact beginsNumber_of_initial hc
  simp [ofWord, hbegins, hkind]

theorem Expr.ofWord_constant {c : Constant} (h : c.IsFinite) : ofWord c.text = .constant c := by
  cases c with
  | nil => rfl
  | bool b => cases b <;> rfl
  | number n =>
    obtain ⟨r, hr, hread⟩ := Native.readNumber_printed n (a := "") (b := "") (by simp) (by simp)
    obtain rfl : r = n := by
      cases hr with
      | same => rfl
      | nan hx =>
        have hcomparable := h.comparable
        simp_all [Number.IsComparable]
    have htext : Native.readNumber r.text = .ok r := by simpa using hread
    have hbegins : Lexer.Begins beginsNumber r.text.toList = true := h.written.begins
    simp [ofWord, Constant.text, htext, hbegins, Except.toOption]
  | string s => cases h

variable {nest : List (List Ident)}

mutual

theorem Expr.ofForm_form : ∀ {e : Expr}, Legible (e.occurrences nest) e.constants →
    e.Alike .any (Expr.ofForm e.form)
  | .constant value, h => by
    have hread := Expr.ofWord_constant (h.constants _ List.mem_cons_self)
    rw [Expr.form, Expr.ofForm, hread]
    exact .constant value
  | .grouping _, h => .grouping (Expr.ofForm_form h)
  | .unary op _ _, h => by
    rw [Expr.form, Expr.ofForm, Expr.ofForms, Expr.ofForms, Expr.ofParts_unary]
    exact .unary op trivial (Expr.ofForm_form h)
  | .binary _ op _ _, h => by
    rw [Expr.form, Expr.ofForm, Expr.ofForms, Expr.ofForms, Expr.ofForms, Expr.ofParts_binary]
    exact .binary op (Expr.ofForm_form h.left) trivial (Expr.ofForm_form h.right)
  | .logical _ op _, h => by
    rw [Expr.form, Expr.ofForm, Expr.ofForms, Expr.ofForms, Expr.ofForms, Expr.ofParts_logical]
    exact .logical op (Expr.ofForm_form h.left) (Expr.ofForm_form h.right)
  | .read _, h => by
    have hread := Expr.ofWord_identifier h.head
    rw [Expr.form, Expr.ofForm, ← Occurrence.ident, hread]
    exact .read ⟨trivial, rfl, trivial⟩
  | .assign _ _, h => .assign ⟨trivial, rfl, trivial⟩ (Expr.ofForm_form h.tail)
  | .call _ _ _, h => .call (Expr.ofForm_form h.left) trivial (Expr.ofForms_forms h.right)
  | .get _ _, h => .get (Expr.ofForm_form h.front) ⟨rfl, trivial⟩
  | .set _ _ _, h => .set (Expr.ofForm_form h.left) ⟨rfl, trivial⟩ (Expr.ofForm_form h.right.tail)
  | .this _ _, _ => .this trivial trivial
  | .super _ _ _, _ => .super trivial trivial ⟨rfl, trivial⟩

theorem Expr.ofForms_forms : ∀ {es : List Expr}, Legible (Expr.allOccurrences nest es) (Expr.allConstants es) →
    List.Forall₂ (Expr.Alike .any) es (Expr.ofForms (Expr.allForms es))
  | [], _ => .nil
  | _ :: _, h => .cons (Expr.ofForm_form h.left) (Expr.ofForms_forms h.right)

end

/-! ### Reading statements -/

/-- The name and the parameters of a function. -/
def Form.names : Form → Ident × List Ident
  | .word _ => default
  | .node name head parts =>
    (⟨name, default⟩, if head = "" then [] else ⟨head, default⟩ :: parts.map Form.ident)

/-- The declaration of a function that a statement is. -/
def Stmt.declaration : Stmt → FunctionDecl
  | .function declaration => declaration
  | _ => default

/-- The statement that is printed with a head in front of some forms. What the forms are as statements has
been read already. -/
def Stmt.ofParts (head : String) (parts : List Form) (stmts : List Stmt) : Stmt :=
  match head, parts, stmts with
  | ";", [e], _ => .expression (.ofForm e)
  | "print", [e], _ => .print (.ofForm e)
  | "var", [x], _ => .var x.ident none
  | "var", [x, e], _ => .var x.ident (some (.ofForm e))
  | "block", _, body => .block body
  | "if", [c, _], [_, s] => .ifThen (.ofForm c) s
  | "if-else", [c, _, _], [_, s, t] => .ifElse (.ofForm c) s t
  | "while", [c, _], [_, s] => .loop (.ofForm c) s none
  | "while", [c, _, k], [_, s, _] => .loop (.ofForm c) s (some (.ofForm k))
  | "break", _, _ => .breakLoop default
  | "continue", _, _ => .continueLoop default
  | "fun", signature :: _, _ :: body => .function ⟨0, signature.names.1, signature.names.2, body⟩
  | "return", [], _ => .returnValue default none
  | "return", [e], _ => .returnValue default (some (.ofForm e))
  | "class", x :: .word _ :: c :: _, _ :: _ :: _ :: methods =>
    .classDecl x.ident (some ⟨0, c.ident⟩) (methods.map Stmt.declaration)
  | "class", x :: _, _ :: methods => .classDecl x.ident none (methods.map Stmt.declaration)
  | _, _, _ => default

mutual

def Stmt.ofForm : Form → Stmt
  | .word _ => default
  | .node _ head parts => .ofParts head parts (Stmt.ofForms parts)

def Stmt.ofForms : List Form → List Stmt
  | [] => []
  | f :: rest => Stmt.ofForm f :: Stmt.ofForms rest

end

theorem Form.names_signature (name : Ident) {parameters : List Ident}
    (h : ∀ p ∈ parameters, Lexeme .identifier p.name.toList) : (Form.signature name parameters).names =
      (⟨name.name, default⟩, parameters.map fun p => ⟨p.name, default⟩) := by
  cases parameters with
  | nil => rfl
  | cons first rest =>
    have hfirst : first.name ≠ "" := by
      intro hempty
      exact (h first List.mem_cons_self).ne_nil (by simp [hempty])
    simp [Form.signature, Form.names, hfirst, Form.ident, Function.comp_def]

/-- The first method of a class is not taken for the word in front of a superclass. -/
theorem Stmt.ofParts_class (name : String) (methods : List FunctionDecl) (s : Stmt) (stmts : List Stmt) :
    ofParts "class" (.word name :: FunctionDecl.allForms methods) (s :: stmts) =
      .classDecl ⟨name, default⟩ none (stmts.map Stmt.declaration) := by
  cases methods with
  | nil => rfl
  | cons m rest =>
    obtain ⟨id, name, parameters, body⟩ := m
    rfl

mutual

theorem Stmt.ofForm_form : ∀ {nest : List (List Ident)} {s : Stmt},
    Legible (s.occurrences nest) s.constants → s.Alike .any (Stmt.ofForm s.form)
  | _, .expression _, h => .expression (Expr.ofForm_form h)
  | _, .print _, h => .print (Expr.ofForm_form h)
  | _, .var _ none, _ => .var ⟨rfl, trivial⟩ .none
  | _, .var _ (some _), h => .var ⟨rfl, trivial⟩ (.some (Expr.ofForm_form h.tail))
  | _, .block _, h => .block (Stmt.ofForms_forms h)
  | _, .ifThen _ _, h => .ifThen (Expr.ofForm_form h.left) (Stmt.ofForm_form h.right)
  | _, .ifElse _ _ _, h =>
    .ifElse (Expr.ofForm_form h.left) (Stmt.ofForm_form h.right.left) (Stmt.ofForm_form h.right.right)
  | _, .loop _ _ none, h => .loop (Expr.ofForm_form h.left) (Stmt.ofForm_form h.right) .none
  | _, .loop _ _ (some _), h =>
    .loop (Expr.ofForm_form h.left) (Stmt.ofForm_form h.right.right) (.some (Expr.ofForm_form h.right.left))
  | _, .breakLoop _, _ => .breakLoop trivial
  | _, .continueLoop _, _ => .continueLoop trivial
  | _, .function _, h => by
    obtain ⟨d, hread, halike⟩ := FunctionDecl.ofForm_form h.tail
    rw [Stmt.form, hread]
    exact .function halike
  | _, .returnValue _ none, _ => .returnValue trivial .none
  | _, .returnValue _ (some _), h => .returnValue trivial (.some (Expr.ofForm_form h))
  | _, .classDecl name none methods, h => by
    have hread : Stmt.ofForm (Stmt.classDecl name none methods).form = _ :=
      Stmt.ofParts_class name.name methods _ (Stmt.ofForms (FunctionDecl.allForms methods))
    rw [hread]
    exact .classDecl ⟨rfl, trivial⟩ .none (FunctionDecl.ofForms_forms h.tail)
  | _, .classDecl _ (some _) _, h =>
    .classDecl ⟨rfl, trivial⟩ (.some ⟨trivial, rfl, trivial⟩) (FunctionDecl.ofForms_forms h.tail.tail)

theorem FunctionDecl.ofForm_form : ∀ {nest : List (List Ident)} {d : FunctionDecl},
    Legible (d.occurrences nest) d.constants →
      ∃ d' : FunctionDecl, Stmt.ofForm d.form = .function d' ∧ d.Alike .any d'
  | _, ⟨_, name, parameters, _⟩, h => by
    have hparameters : ∀ p ∈ parameters, Lexeme .identifier p.name.toList :=
      fun p hp => h.front.names _ (List.mem_map_of_mem hp)
    refine ⟨_, rfl, ?_⟩
    rw [Form.names_signature name hparameters]
    refine .mk trivial ⟨rfl, trivial⟩ ?_ (Stmt.ofForms_forms h.back)
    exact List.forall₂_map_right_iff.mpr (List.forall₂_same.mpr fun p _ => ⟨rfl, trivial⟩)

theorem Stmt.ofForms_forms : ∀ {nest : List (List Ident)} {body : List Stmt},
    Legible (Stmt.allOccurrences nest body) (Stmt.allConstants body) →
      List.Forall₂ (Stmt.Alike .any) body (Stmt.ofForms (Stmt.allForms body))
  | _, [], _ => .nil
  | _, _ :: _, h => .cons (Stmt.ofForm_form h.left) (Stmt.ofForms_forms h.right)

theorem FunctionDecl.ofForms_forms : ∀ {nest : List (List Ident)} {methods : List FunctionDecl},
    Legible (FunctionDecl.allOccurrences nest methods) (FunctionDecl.allConstants methods) →
      List.Forall₂ (FunctionDecl.Alike .any) methods
        ((Stmt.ofForms (FunctionDecl.allForms methods)).map Stmt.declaration)
  | _, [], _ => .nil
  | _, _ :: _, h => by
    obtain ⟨d, hread, halike⟩ := FunctionDecl.ofForm_form h.left.tail
    rw [FunctionDecl.allForms, Stmt.ofForms, hread]
    exact .cons halike (FunctionDecl.ofForms_forms h.right)

end

end LoxLang

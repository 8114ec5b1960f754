import LoxLang.Proofs.Grammar.Sound.Statements
import LoxLang.Proofs.Scope.Rules
import LoxLang.Proofs.Token.Words

/-!
The identifiers of a program, in the order of the text. Each of them is one of the tokens, so no two of them
stand at one place. That is why the places alone tell which of them belong to a variable.
-/

namespace LoxLang

open Grammar

/-! ### Occurrences -/

/-- An identifier in a program. If it is that of a variable, it stands in a nest of scopes, innermost first,
each given by the names that are declared in it; the global scope is not among them. -/
inductive Occurrence where
  /-- A variable or a parameter is declared, in the innermost scope of the nest. -/
  | declared (name : Ident) (nest : List (List Ident))
  /-- A variable is mentioned. -/
  | mention (reference : Reference) (nest : List (List Ident))
  /-- The name of a function, of a class, of a method or of a property. -/
  | other (name : Ident)
deriving DecidableEq

namespace Occurrence

def ident : Occurrence → Ident
  | declared name _ => name
  | mention reference _ => reference.ident
  | other name => name

/-- A variable that is not global. -/
def IsLocal (d : Ident) : Occurrence → Prop
  | declared name nest => name = d ∧ nest ≠ []
  | _ => False

/-- The occurrence is the declaration, or the resolver has found that it refers to the name of the declaration
in the scope of the declaration. -/
def BoundTo (d : Ident) (lookups : List Lookup) : Occurrence → Prop
  | declared name _ => name = d
  | mention reference nest => reference.ident.name = d.name ∧
    ∃ l ∈ lookups, l.reference = reference ∧ l.hops.any fun hops => d ∈ nest.getD hops []
  | other _ => False

instance (d : Ident) : DecidablePred (IsLocal d)
  | declared _ _ => inferInstanceAs (Decidable (_ ∧ _))
  | mention _ _ => .isFalse id
  | other _ => .isFalse id

instance (d : Ident) (lookups : List Lookup) : DecidablePred (BoundTo d lookups)
  | declared name _ => inferInstanceAs (Decidable (name = d))
  | mention reference nest => inferInstanceAs (Decidable (reference.ident.name = d.name ∧
    ∃ l ∈ lookups, l.reference = reference ∧ l.hops.any fun hops => d ∈ nest.getD hops []))
  | other _ => .isFalse id

end Occurrence

mutual

def Expr.occurrences (nest : List (List Ident)) : Expr → List Occurrence
  | .constant _ => []
  | .grouping inner => inner.occurrences nest
  | .unary _ _ operand => operand.occurrences nest
  | .binary left _ _ right => left.occurrences nest ++ right.occurrences nest
  | .logical left _ right => left.occurrences nest ++ right.occurrences nest
  | .read target => [.mention target nest]
  | .assign target value => .mention target nest :: value.occurrences nest
  | .call callee _ arguments => callee.occurrences nest ++ Expr.allOccurrences nest arguments
  | .get object property => object.occurrences nest ++ [.other property]
  | .set object property value => object.occurrences nest ++ .other property :: value.occurrences nest
  | .this _ _ => []
  | .super _ _ method => [.other method]

def Expr.allOccurrences (nest : List (List Ident)) : List Expr → List Occurrence
  | [] => []
  | e :: rest => e.occurrences nest ++ Expr.allOccurrences nest rest

end

mutual

def Stmt.occurrences (nest : List (List Ident)) : Stmt → List Occurrence
  | .expression e => e.occurrences nest
  | .print e => e.occurrences nest
  | .var name none => [.declared name nest]
  | .var name (some e) => .declared name nest :: e.occurrences nest
  | .block body => Stmt.allOccurrences (body.flatMap Stmt.declares :: nest) body
  | .ifThen condition thenBranch => condition.occurrences nest ++ thenBranch.occurrences nest
  | .ifElse condition thenBranch elseBranch =>
    condition.occurrences nest ++ (thenBranch.occurrences nest ++ elseBranch.occurrences nest)
  | .loop condition body none => condition.occurrences nest ++ body.occurrences nest
  | .loop condition body (some increment) =>
    condition.occurrences nest ++ (increment.occurrences nest ++ body.occurrences nest)
  | .breakLoop _ => []
  | .continueLoop _ => []
  | .function declaration => .other declaration.name :: declaration.occurrences nest
  | .returnValue _ none => []
  | .returnValue _ (some e) => e.occurrences nest
  | .classDecl name none methods => .other name :: FunctionDecl.allOccurrences ([] :: nest) methods
  | .classDecl name (some superclass) methods =>
    .other name :: .mention superclass nest :: FunctionDecl.allOccurrences ([] :: [] :: nest) methods

def Stmt.allOccurrences (nest : List (List Ident)) : List Stmt → List Occurrence
  | [] => []
  | s :: rest => s.occurrences nest ++ Stmt.allOccurrences nest rest

/-- The occurrences behind the name of a function; its parameters and its body share one scope. -/
def FunctionDecl.occurrences (nest : List (List Ident)) : FunctionDecl → List Occurrence
  | ⟨_, _, parameters, body⟩ =>
    parameters.map (.declared · ((parameters ++ body.flatMap Stmt.declares) :: nest)) ++
      Stmt.allOccurrences ((parameters ++ body.flatMap Stmt.declares) :: nest) body

def FunctionDecl.allOccurrences (nest : List (List Ident)) : List FunctionDecl → List Occurrence
  | [] => []
  | m :: rest => .other m.name :: m.occurrences nest ++ FunctionDecl.allOccurrences nest rest

end

/-! ### Occurrences and tokens -/

/-- The identifiers among the tokens. -/
def identifiers (ts : List Token) : List Ident :=
  (ts.filter (·.kind = .identifier)).map Grammar.ident

/-- The occurrences are identifiers of the tokens, in their order. -/
def Spelled (qs : List Occurrence) (ts : List Token) : Prop :=
  (qs.map Occurrence.ident).Sublist (identifiers ts)

namespace Spelled

variable {q : Occurrence} {qs rs : List Occurrence} {t : Token} {ts us : List Token}

theorem nil : Spelled [] ts :=
  List.nil_sublist _

/-- Further tokens make no difference. -/
theorem among (h : Spelled qs ts) (hts : ts.Sublist us) : Spelled qs us :=
  List.Sublist.trans h ((hts.filter _).map _)

theorem skip (t : Token) (h : Spelled qs ts) : Spelled qs (t :: ts) :=
  h.among (List.sublist_cons_self t ts)

theorem cons (hkind : t.kind = .identifier) (hq : q.ident = Grammar.ident t) (h : Spelled qs ts) :
    Spelled (q :: qs) (t :: ts) := by
  unfold Spelled identifiers at *
  rw [List.filter_cons_of_pos (by simpa using hkind), List.map_cons, List.map_cons, hq]
  exact h.cons_cons _

theorem append (h : Spelled qs ts) (h' : Spelled rs us) : Spelled (qs ++ rs) (ts ++ us) := by
  unfold Spelled identifiers at *
  rw [List.filter_append, List.map_append, List.map_append]
  exact List.Sublist.append h h'

theorem before (h : Spelled qs ts) (us : List Token) : Spelled qs (ts ++ us) :=
  h.among (List.sublist_append_left ts us)

theorem behind (ts : List Token) (h : Spelled qs us) : Spelled qs (ts ++ us) :=
  h.among (List.sublist_append_right ts us)

end Spelled

namespace Grammar

/-! ### Expressions -/

mutual

theorem Expression.spelled (nest : List (List Ident)) : ∀ {ts : List Token} {e : Expr}, Expression ts e →
    Spelled (e.occurrences nest) ts
  | _, _, .value h => h.spelled nest List.suffix_rfl
  | _, _, .assign _ hname _ h => .cons hname rfl ((h.spelled nest).skip _)
  | _, _, .set hobject _ hname _ h =>
    (hobject.spelled nest).append (.skip _ (.cons hname rfl ((h.spelled nest).skip _)))
termination_by structural _ _ h => h

theorem Chain.spelled (nest : List (List Ident)) : ∀ {T : List Tier} {ts : List Token} {e : Expr},
    Chain T ts e → T <:+ tiers → Spelled (e.occurrences nest) ts
  | _, _, _, .operand h, _ => h.spelled nest
  | _, _, _, .single h, hT => h.spelled nest ((List.suffix_cons _ _).trans hT)
  | _, _, _, .join (f := f) hleft hf hright, hT => by
    have hl := hleft.spelled nest hT
    have hr := (hright.spelled nest ((List.suffix_cons _ _).trans hT)).skip
    cases tiers_node _ (hT.subset List.mem_cons_self) _ hf with
    | binary op => exact hl.append (hr _)
    | logical op => exact hl.append (hr _)
termination_by structural _ _ _ h => h

theorem Unary.spelled (nest : List (List Ident)) : ∀ {ts : List Token} {e : Expr}, Unary ts e →
    Spelled (e.occurrences nest) ts
  | _, _, .apply _ h => (h.spelled nest).skip _
  | _, _, .call h => h.spelled nest
termination_by structural _ _ h => h

theorem Call.spelled (nest : List (List Ident)) : ∀ {ts : List Token} {e : Expr}, Call ts e →
    Spelled (e.occurrences nest) ts
  | _, _, .primary h => h.spelled nest
  | _, _, .call hcallee _ harguments _ _ =>
    (hcallee.spelled nest).append (((harguments.spelled nest).before _).skip _)
  | _, _, .get hobject _ hname => (hobject.spelled nest).append (.skip _ (.cons hname rfl .nil))
termination_by structural _ _ h => h

theorem Primary.spelled (nest : List (List Ident)) : ∀ {ts : List Token} {e : Expr}, Primary ts e →
    Spelled (e.occurrences nest) ts
  | _, _, .constant _ => .nil
  | _, _, .literal _ => .nil
  | _, _, .this _ _ => .nil
  | _, _, .name _ hname => .cons hname rfl .nil
  | _, _, .grouping _ h _ => ((h.spelled nest).before _).skip _
  | _, _, .super _ _ _ hname => .skip _ (.skip _ (.cons hname rfl .nil))
termination_by structural _ _ h => h

theorem ArgumentList.spelled (nest : List (List Ident)) : ∀ {ts : List Token} {es : List Expr},
    ArgumentList ts es → Spelled (Expr.allOccurrences nest es) ts
  | _, _, .none => .nil
  | _, _, .some h => h.spelled nest
termination_by structural _ _ h => h

theorem Arguments.spelled (nest : List (List Ident)) : ∀ {ts : List Token} {es : List Expr},
    Arguments ts es → Spelled (Expr.allOccurrences nest es) ts
  | _, _, .last h => by
    rw [Expr.allOccurrences, Expr.allOccurrences, List.append_nil]
    exact h.spelled nest
  | _, _, .more h _ hrest => (h.spelled nest).append ((hrest.spelled nest).skip _)
termination_by structural _ _ h => h

end

/-! ### Clauses -/

section Clauses

variable (nest : List (List Ident)) {ts : List Token}

theorem VarDeclaration.spelled {s : Stmt} (h : VarDeclaration ts s) : Spelled (s.occurrences nest) ts := by
  cases h with
  | mk _ hname hvalue _ =>
    cases hvalue with
    | none => exact .skip _ (.cons hname rfl .nil)
    | some _ h => exact .skip _ (.cons hname rfl (((h.spelled nest).before _).skip _))

theorem ForInitializer.spelled {s : Stmt} (h : ForInitializer ts (some s)) :
    Spelled (s.occurrences nest) ts := by
  cases h with
  | var h => exact h.spelled nest
  | expression h _ => exact (h.spelled nest).before _

theorem Parameters.spelled {names : List Ident} (h : Parameters ts names) :
    Spelled (names.map (.declared · nest)) ts := by
  induction h with
  | last hname => exact .cons hname rfl .nil
  | more hname _ _ ih => exact .cons hname rfl (ih.skip _)

theorem ParameterList.spelled {names : List Ident} (h : ParameterList ts names) :
    Spelled (names.map (.declared · nest)) ts := by
  cases h with
  | none => exact .nil
  | some h => exact h.spelled nest

/-- The tree of a loop, whose increment is written in front of the body. -/
theorem loop_spelled {condition increment body : List Token} {c : Expr} {k : Option Expr} {s : Stmt}
    (hc : Spelled (c.occurrences nest) condition) (hk : Optional increment k)
    (hs : Spelled (s.occurrences nest) body) :
    Spelled (Stmt.occurrences nest (.loop c s k)) (condition ++ (increment ++ body)) := by
  cases hk with
  | none => exact hc.append hs
  | some hk => exact hc.append ((hk.spelled nest).append hs)

theorem forTree_spelled {initializer condition increment body : List Token} {i : Option Stmt}
    {c k : Option Expr} {s : Stmt} (hi : ForInitializer initializer i) (hc : Optional condition c)
    (hk : Optional increment k) (hs : ∀ nest, Spelled (s.occurrences nest) body) :
    Spelled (Stmt.occurrences nest (forTree i c k s))
      (initializer ++ (condition ++ (increment ++ body))) := by
  have hcondition : ∀ nest, Spelled (Expr.occurrences nest (c.getD (.constant (.bool true)))) condition := by
    intro nest
    cases hc with
    | none => exact .nil
    | some h => exact h.spelled nest
  cases i with
  | none => exact .behind _ (loop_spelled nest (hcondition nest) hk (hs nest))
  | some i =>
    refine (hi.spelled _).append ?_
    rw [Stmt.allOccurrences, Stmt.allOccurrences, List.append_nil]
    exact loop_spelled _ (hcondition _) hk (hs _)

end Clauses

/-! ### Statements -/

mutual

theorem Statement.spelled (nest : List (List Ident)) : ∀ {flag : Bool} {ts : List Token} {s : Stmt},
    Statement flag ts s → Spelled (s.occurrences nest) ts
  | _, _, _, .expression h _ => (h.spelled nest).before _
  | _, _, _, .print _ h _ => ((h.spelled nest).before _).skip _
  | _, _, _, .returnValue _ .none _ => .nil
  | _, _, _, .returnValue _ (.some h) _ => ((h.spelled nest).before _).skip _
  | _, _, _, .breakLoop _ _ => .nil
  | _, _, _, .continueLoop _ _ => .nil
  | _, _, _, .block _ h => (h.spelled _).skip _
  | _, _, _, .ifThen _ _ hc _ h => .skip _ (.skip _ ((hc.spelled nest).append ((h.spelled nest).skip _)))
  | _, _, _, .ifElse _ _ hc _ h _ h' =>
    have hbranches := (h.spelled nest).append ((h'.spelled nest).skip _)
    .skip _ (.skip _ ((hc.spelled nest).append (hbranches.skip _)))
  | _, _, _, .whileLoop _ _ hc _ h =>
    .skip _ (.skip _ ((hc.spelled nest).append ((h.spelled nest).skip _)))
  | _, _, _, .forLoop _ _ hi hc _ hk _ h => by
    refine .skip _ (.skip _ ((forTree_spelled nest hi hc hk fun nest => h.spelled nest).among ?_))
    exact .append_left (.append_left (.cons _ (.append_left (List.sublist_cons_self _ _) _)) _) _
termination_by structural _ _ _ h => h

theorem Block.spelled (nest : List (List Ident)) : ∀ {ts : List Token} {body : List Stmt}, Block ts body →
    Spelled (Stmt.allOccurrences nest body) ts
  | _, _, .mk h _ => (h.spelled nest).before _
termination_by structural _ _ h => h

theorem Declarations.spelled (nest : List (List Ident)) : ∀ {ts : List Token} {body : List Stmt},
    Declarations ts body → Spelled (Stmt.allOccurrences nest body) ts
  | _, _, .nil => .nil
  | _, _, .cons h hrest => (h.spelled nest).append (hrest.spelled nest)
termination_by structural _ _ h => h

theorem Declaration.spelled (nest : List (List Ident)) : ∀ {ts : List Token} {s : Stmt}, Declaration ts s →
    Spelled (s.occurrences nest) ts
  | _, _, .statement h => h.spelled nest
  | _, _, .var h => h.spelled nest
  | _, _, .function _ h => (h.spelled nest).skip _
  | _, _, .classDecl _ hname .none _ hmethods _ =>
    .skip _ (.cons hname rfl (.skip _ ((hmethods.spelled ([] :: nest)).before _)))
  | _, _, .classDecl _ hname (.some _ _ hclause) _ hmethods _ =>
    have hbody := ((hmethods.spelled ([] :: [] :: nest)).before _).skip _
    .skip _ (.cons hname rfl (.skip _ (.cons hclause rfl hbody)))
termination_by structural _ _ h => h

theorem Function.spelled (nest : List (List Ident)) : ∀ {ts : List Token} {d : FunctionDecl}, Function ts d →
    Spelled (.other d.name :: d.occurrences nest) ts
  | _, _, .mk _ hname _ hparameters _ _ _ h =>
    .cons hname rfl (.skip _ ((hparameters.spelled _).append (((h.spelled _).skip _).skip _)))
termination_by structural _ _ h => h

theorem Methods.spelled (nest : List (List Ident)) : ∀ {ts : List Token} {ds : List FunctionDecl},
    Methods ts ds → Spelled (FunctionDecl.allOccurrences nest ds) ts
  | _, _, .nil => .nil
  | _, _, .cons h hrest => (h.spelled nest).append (hrest.spelled nest)
termination_by structural _ _ h => h

end

end Grammar

/-- The identifiers of a program without faults of grammar are those of its tokens, in their order. -/
theorem occurrences_spelled {source : String} {first : NodeId}
    (hclean : (parse (tokens source) first).faults = []) :
    Spelled (Stmt.allOccurrences [] (parse (tokens source) first).statements) (tokens source) := by
  obtain ⟨line, hlast, _⟩ := tokens_last source
  rw [hlast] at hclean
  have hprogram := Grammar.program_of_parse (fun t ht => (tokens_front source t ht).1) rfl first
    hclean
  rw [← hlast] at hprogram
  generalize (parse (tokens source) first).statements = body at hprogram ⊢
  generalize tokens source = ts at hprogram ⊢
  cases hprogram with
  | mk hbody _ => exact (hbody.spelled []).before _

end LoxLang

import Mathlib.Data.List.Nodup
import LoxLang.Proofs.Renaming.Code
import LoxLang.Proofs.Renaming.Occurrences
import LoxLang.Proofs.Scope.Addressed
import LoxLang.Proofs.Syntax.Move

/-!
Programs in which a variable is renamed. A variable is declared in one scope, which declares no name twice, so
a name in that scope belongs to it if the resolver finds it there. If just those names are spelled otherwise,
the program is renamed in the scopes of the variable and nowhere else.
-/

namespace LoxLang

/-! ### Scopes declare names once -/

/-- No rule is broken at the sites. -/
def Lawful (sites : List Site) : Prop :=
  ∀ site ∈ sites, ∀ v, ¬site.Breaks v

namespace Lawful

variable {site : Site} {as bs : List Site} {around : Surroundings} {earlier : List String}

theorem head (h : Lawful (site :: as)) : ∀ v, ¬site.Breaks v :=
  h site List.mem_cons_self

theorem tail (h : Lawful (site :: as)) : Lawful as :=
  fun s hs => h s (List.mem_cons_of_mem site hs)

theorem left (h : Lawful (as ++ bs)) : Lawful as :=
  fun s hs => h s (List.mem_append_left bs hs)

theorem right (h : Lawful (as ++ bs)) : Lawful bs :=
  fun s hs => h s (List.mem_append_right as hs)

/-- A scope takes a name only if it does not have it. -/
theorem declares {x : Ident} (h : Lawful (⟨around, earlier, .declaration x⟩ :: as)) (hin : around.InScope)
    (hearlier : earlier.Nodup) : (earlier ++ [x.name]).Nodup := by
  refine List.nodup_append.mpr ⟨hearlier, List.pairwise_singleton _ _, ?_⟩
  rintro y hy z hz rfl
  obtain rfl := List.mem_singleton.mp hz
  exact h.head _ (.redeclared hin hy)

theorem parameters {names : List Ident} (h : Lawful (Site.declarations around earlier names))
    (hin : around.InScope) (hearlier : earlier.Nodup) : (earlier ++ names.map Ident.name).Nodup := by
  induction names generalizing earlier with
  | nil => rwa [List.map_nil, List.append_nil]
  | cons x rest ih =>
    have hrest := ih h.tail (h.declares hin hearlier)
    rwa [List.append_assoc] at hrest

end Lawful

theorem Surroundings.InScope.cons {around : Surroundings} (h : around.InScope) (e : Enclosure) :
    Surroundings.InScope (e :: around) := by
  obtain ⟨e', he', hopens⟩ := h
  exact ⟨e', List.mem_cons_of_mem e he', hopens⟩

theorem Stmt.declares_distinct {around : Surroundings} (hin : around.InScope) : ∀ {s : Stmt}
    {earlier : List String}, Lawful (s.sites around earlier) → earlier.Nodup →
      (earlier ++ s.declares.map Ident.name).Nodup
  | .var _ none, _, h, hearlier => h.tail.declares hin hearlier
  | .var _ (some _), _, h, hearlier => h.tail.declares hin hearlier
  | .function _, _, h, hearlier => h.tail.declares hin hearlier
  | .classDecl _ none _, _, h, hearlier => h.tail.declares hin hearlier
  | .classDecl _ (some _) _, _, h, hearlier => h.tail.declares hin hearlier
  | .ifThen _ thenBranch, _, h, hearlier => declares_distinct hin (s := thenBranch) h.tail.right hearlier
  | .ifElse _ thenBranch elseBranch, _, h, hearlier => by
    have hthen := declares_distinct hin (s := thenBranch) h.tail.right.left hearlier
    have helse := declares_distinct hin (s := elseBranch) h.tail.right.right hthen
    rw [List.append_assoc, ← List.map_append] at helse
    exact helse
  | .loop _ body none, _, h, hearlier => declares_distinct (hin.cons .loop) (s := body) h.tail.right hearlier
  | .loop _ body (some _), _, h, hearlier =>
    declares_distinct (hin.cons .loop) (s := body) h.tail.right.left hearlier
  | .expression _, _, _, hearlier | .print _, _, _, hearlier | .block _, _, _, hearlier
  | .breakLoop _, _, _, hearlier | .continueLoop _, _, _, hearlier | .returnValue _ _, _, _, hearlier => by
    simpa [Stmt.declares] using hearlier

theorem Stmt.allDeclares_distinct {around : Surroundings} (hin : around.InScope) {body : List Stmt}
    {earlier : List String} (h : Lawful (Stmt.allSites around earlier body)) (hearlier : earlier.Nodup) :
    (earlier ++ (body.flatMap Stmt.declares).map Ident.name).Nodup := by
  induction body generalizing earlier with
  | nil => rwa [List.flatMap_nil, List.map_nil, List.append_nil]
  | cons s rest ih =>
    have hrest := ih h.right (Stmt.declares_distinct hin h.left hearlier)
    rwa [List.append_assoc, ← List.map_append, ← List.flatMap_cons] at hrest

/-- The innermost scope of a nest declares no name twice, and it declares some names. -/
def Scoped (nest : List (List Ident)) (xs : List Ident) : Prop :=
  ∀ names ∈ nest.head?, (names.map Ident.name).Nodup ∧ xs ⊆ names

theorem Scoped.global (xs : List Ident) : Scoped [] xs := by
  rintro names ⟨⟩

theorem Scoped.subset {nest : List (List Ident)} {xs ys : List Ident} (h : Scoped nest ys) (hxs : xs ⊆ ys) :
    Scoped nest xs :=
  fun names hnames => ⟨(h names hnames).1, List.Subset.trans hxs (h names hnames).2⟩

theorem Scoped.push {nest : List (List Ident)} {xs : List Ident} (h : (xs.map Ident.name).Nodup) :
    Scoped (xs :: nest) xs := by
  rintro names ⟨⟩
  exact ⟨h, List.Subset.refl xs⟩

/-! ### Names -/

/-- The scopes that declare the variable. -/
def Marks.ofNest (d : Ident) (nest : List (List Ident)) : Marks :=
  nest.map fun names => decide (d ∈ names)

theorem Marks.reach_ofNest (d : Ident) (nest : List (List Ident)) (hops : Option Nat) :
    (Marks.ofNest d nest).reach hops = hops.any fun hops => d ∈ nest.getD hops [] := by
  cases hops with
  | none => rfl
  | some k =>
    simp only [Marks.reach, Marks.ofNest, Option.any_some, List.getD_eq_getElem?_getD, List.getElem?_map]
    cases nest[k]? <;> simp

/-- The variable that is declared at `d`, in the scope at the head of `home`, is renamed by a way to move code
that keeps lines. The lookups are those of a program. -/
structure Respelling (R : Renaming) (d : Ident) (home : List (List Ident)) (lookups : List Lookup)
    (v : Move) : Prop where
  old : R.old = d.name
  home : home ≠ []
  shift : v.shift = 0
  line : ∀ p : Position, p.SameLine (v.place p)
  found : ∀ l ∈ lookups, R.distance l.reference.id l.hops
  once : ∀ l ∈ lookups, ∀ k ∈ lookups, l.reference = k.reference → l.hops = k.hops

/-- An identifier is spelled by its new name if it belongs to the variable. -/
structure Occurrence.Respelled (R : Renaming) (d : Ident) (home : List (List Ident)) (lookups : List Lookup)
    (v : Move) (q : Occurrence) : Prop where
  fresh : q.ident.name ≠ R.new
  place : q.ident = d → q = .declared d home
  spell : v.spell q.ident.position q.ident.name = if q.BoundTo d lookups then R.new else q.ident.name

namespace Respelling

variable {R : Renaming} {d x : Ident} {r : Reference} {home nest : List (List Ident)} {lookups : List Lookup}
  {v : Move} (hv : Respelling R d home lookups v)

include hv

theorem reference (hq : (Occurrence.mention r nest).Respelled R d home lookups v) {hops : Option Nat}
    (hr : ⟨r, hops⟩ ∈ lookups) : r.Renamed R (Marks.ofNest d nest) (v.reference r) := by
  have hbound : (Occurrence.mention r nest).BoundTo d lookups ↔
      (Marks.ofNest d nest).reach hops = true ∧ r.ident.name = R.old := by
    rw [Marks.reach_ofNest, hv.old]
    constructor
    · rintro ⟨hname, l, hl, hreference, hreach⟩
      obtain rfl : l.hops = hops := hv.once l hl _ hr hreference
      exact ⟨hreach, hname⟩
    · rintro ⟨hreach, hname⟩
      exact ⟨hname, _, hr, rfl, hreach⟩
  refine ⟨?_, hops, hv.found _ hr, ?_, fun _ => hq.fresh, hv.line _⟩
  · exact (congrArg (r.id + ·) hv.shift).symm
  · refine hq.spell.trans ?_
    unfold Renaming.name
    simp only [hbound]
    rfl

/-- A name that is not that of the variable, in a scope that declares it. -/
theorem apart (hx : x ≠ d) (hscope : Scoped nest [x]) : R.name (Marks.ofNest d nest).own x.name = x.name := by
  refine if_neg ?_
  rintro ⟨hown, hname⟩
  cases nest with
  | nil => cases hown
  | cons names nest =>
    obtain ⟨hdistinct, hmem⟩ := hscope names rfl
    have hd : d ∈ names := by simpa [Marks.own, Marks.ofNest] using hown
    exact hx (List.inj_on_of_nodup_map hdistinct (hmem List.mem_cons_self) hd (hname.trans hv.old))

theorem declared (hq : (Occurrence.declared x nest).Respelled R d home lookups v) (hscope : Scoped nest [x]) :
    x.Renamed R (Marks.ofNest d nest).own (v.ident x) := by
  refine ⟨hq.spell.trans ?_, fun _ => hq.fresh, hv.line _⟩
  by_cases hx : x = d
  · subst hx
    obtain rfl : nest = home := (Occurrence.declared.inj (hq.place rfl)).2
    cases nest with
    | nil => exact absurd rfl hv.home
    | cons names nest =>
      have hmem := (hscope names rfl).2 List.mem_cons_self
      have hown : (Marks.ofNest x (names :: nest)).own = true := decide_eq_true hmem
      exact (if_pos rfl).trans (if_pos ⟨hown, hv.old.symm⟩).symm
  · refine Eq.trans ?_ (hv.apart hx hscope).symm
    exact if_neg hx

theorem kept (hq : (Occurrence.other x).Respelled R d home lookups v) : x.Kept (v.ident x) :=
  ⟨(hq.spell.trans (if_neg id)).symm, hv.line _⟩

/-- Functions and classes are not renamed in the scopes that declare them. -/
theorem other (hq : (Occurrence.other x).Respelled R d home lookups v) (hscope : Scoped nest [x]) :
    x.Renamed R (Marks.ofNest d nest).own (v.ident x) := by
  refine ⟨(hv.kept hq).name.symm.trans ?_, fun _ => hq.fresh, hv.line _⟩
  refine (hv.apart (fun hx => ?_) hscope).symm
  cases hq.place hx

end Respelling

/-! ### Programs -/

namespace Respelling

variable {R : Renaming} {d : Ident} {home : List (List Ident)} {n : Notes} {v : Move}

section Expressions

variable {nest : List (List Ident)} {scopes : List Scope}

mutual

theorem expr (hv : Respelling R d home n.lookups v) : ∀ {e : Expr}, e.Addressed n scopes →
    (∀ q ∈ e.occurrences nest, q.Respelled R d home n.lookups v) →
      e.Renamed R (Marks.ofNest d nest) (v.expr e)
  | .constant value, _, _ => .constant value
  | .grouping _, he, hq => .grouping (hv.expr he hq)
  | .unary op _ _, he, hq => .unary op (hv.line _) (hv.expr he hq)
  | .binary _ op _ _, he, hq =>
    have hq := List.forall_mem_append.mp hq
    .binary op (hv.expr he.1 hq.1) (hv.line _) (hv.expr he.2 hq.2)
  | .logical _ op _, he, hq =>
    have hq := List.forall_mem_append.mp hq
    .logical op (hv.expr he.1 hq.1) (hv.expr he.2 hq.2)
  | .read _, he, hq => .read (hv.reference (hq _ List.mem_cons_self) he.2.2)
  | .assign _ _, he, hq =>
    have hq := List.forall_mem_cons.mp hq
    .assign (hv.reference hq.1 he.2.2) (hv.expr he.2.1 hq.2)
  | .call .., he, hq =>
    have hq := List.forall_mem_append.mp hq
    .call (hv.expr he.1 hq.1) (hv.line _) (hv.exprs he.2 hq.2)
  | .get _ _, he, hq =>
    have hq := List.forall_mem_append.mp hq
    .get (hv.expr he hq.1) (hv.kept (hq.2 _ List.mem_cons_self))
  | .set .., he, hq =>
    have hq := List.forall_mem_append.mp hq
    have hvalue := List.forall_mem_cons.mp hq.2
    .set (hv.expr he.2 hq.1) (hv.kept hvalue.1) (hv.expr he.1 hvalue.2)
  | .this id _, he, _ => by
    have hid : id + v.shift = id := congrArg (id + ·) hv.shift
    rw [Move.expr, hid]
    exact .this (hv.found _ he.1) (hv.line _)
  | .super id _ _, he, hq => by
    have hid : id + v.shift = id := congrArg (id + ·) hv.shift
    rw [Move.expr, hid]
    exact .super (hv.found _ he.1) (hv.line _) (hv.kept (hq _ List.mem_cons_self))

theorem exprs (hv : Respelling R d home n.lookups v) : ∀ {es : List Expr}, Expr.AllAddressed n scopes es →
    (∀ q ∈ Expr.allOccurrences nest es, q.Respelled R d home n.lookups v) →
      List.Forall₂ (Expr.Renamed R (Marks.ofNest d nest)) es (v.exprs es)
  | [], _, _ => .nil
  | _ :: _, he, hq =>
    have hq := List.forall_mem_append.mp hq
    .cons (hv.expr he.1 hq.1) (hv.exprs he.2 hq.2)

end

end Expressions

mutual

theorem stmt (hv : Respelling R d home n.lookups v) : ∀ {s : Stmt} {nest : List (List Ident)}
    {scopes : List Scope} {around : Surroundings} {earlier : List String}, s.Addressed n scopes →
      Lawful (s.sites around earlier) → Scoped nest s.declares →
        (∀ q ∈ s.occurrences nest, q.Respelled R d home n.lookups v) →
          Stmt.Renamed R (Marks.ofNest d nest) s (v.stmt s)
  | .expression _, _, _, _, _, hs, _, _, hq => .expression (hv.expr hs hq)
  | .print _, _, _, _, _, hs, _, _, hq => .print (hv.expr hs hq)
  | .var _ none, _, _, _, _, _, _, hscope, hq => .var (hv.declared (hq _ List.mem_cons_self) hscope) .none
  | .var _ (some _), _, _, _, _, hs, _, hscope, hq =>
    have hq := List.forall_mem_cons.mp hq
    .var (hv.declared hq.1 hscope) (.some (hv.expr hs.2.2 hq.2))
  | .block _, _, _, around, _, hs, hsites, _, hq => by
    have hin : Surroundings.InScope (.block :: around) := ⟨_, List.mem_cons_self, rfl⟩
    have hdistinct := Stmt.allDeclares_distinct hin hsites.tail .nil
    rw [List.nil_append] at hdistinct
    exact .block _ (hv.stmts hs hsites.tail (.push hdistinct) hq)
  | .ifThen .., _, _, _, _, hs, hsites, hscope, hq =>
    have hq := List.forall_mem_append.mp hq
    .ifThen (hv.expr hs.1 hq.1) (hv.stmt hs.2.2 hsites.tail.right hscope hq.2)
  | .ifElse .., _, _, _, _, hs, hsites, hscope, hq =>
    have hq := List.forall_mem_append.mp hq
    have hbranches := List.forall_mem_append.mp hq.2
    have hthen := hv.stmt hs.2.1.2 hsites.tail.right.left
      (hscope.subset (List.subset_append_left _ _)) hbranches.1
    have helse := hv.stmt hs.2.2.2 hsites.tail.right.right
      (hscope.subset (List.subset_append_right _ _)) hbranches.2
    .ifElse (hv.expr hs.1 hq.1) hthen helse
  | .loop _ _ none, _, _, _, _, hs, hsites, hscope, hq =>
    have hq := List.forall_mem_append.mp hq
    .loop (hv.expr hs.1 hq.1) (hv.stmt hs.2.2 hsites.tail.right hscope hq.2) .none
  | .loop _ _ (some _), _, _, _, _, hs, hsites, hscope, hq =>
    have hq := List.forall_mem_append.mp hq
    have hclauses := List.forall_mem_append.mp hq.2
    .loop (hv.expr hs.1 hq.1) (hv.stmt hs.2.1.2 hsites.tail.right.left hscope hclauses.2)
      (.some (hv.expr hs.2.2 hclauses.1))
  | .breakLoop _, _, _, _, _, _, _, _, _ => .breakLoop (hv.line _)
  | .continueLoop _, _, _, _, _, _, _, _, _ => .continueLoop (hv.line _)
  | .function ⟨_, _, _, _⟩, _, _, _, _, hs, hsites, hscope, hq =>
    have hq := List.forall_mem_cons.mp hq
    .function (hv.function hs.2.2.2 hsites.tail.tail ⟨_, List.mem_cons_self, rfl⟩ (hv.kept hq.1) hq.2)
      (hv.other hq.1 hscope)
  | .returnValue _ none, _, _, _, _, _, _, _, _ => .returnValue (hv.line _) .none
  | .returnValue _ (some _), _, _, _, _, hs, _, _, hq => .returnValue (hv.line _) (.some (hv.expr hs hq))
  | .classDecl _ none _, _, _, _, _, hs, hsites, hscope, hq =>
    have hq := List.forall_mem_cons.mp hq
    .classDecl (hv.kept hq.1) (hv.other hq.1 hscope) .none (hv.functions hs.2.2 hsites.tail.tail hq.2)
  | .classDecl _ (some _) _, _, _, _, _, hs, hsites, hscope, hq => by
    have hq := List.forall_mem_cons.mp hq
    have hclause := List.forall_mem_cons.mp hq.2
    have hmethods := hv.functions hs.2.2.2 hsites.tail.tail.tail.tail hclause.2
    rw [Marks.ofNest, List.map_cons, decide_eq_false List.not_mem_nil] at hmethods
    exact .classDecl (hv.kept hq.1) (hv.other hq.1 hscope) (.some (hv.reference hclause.1 hs.2.2.1.2.2))
      hmethods

theorem stmts (hv : Respelling R d home n.lookups v) : ∀ {body : List Stmt} {nest : List (List Ident)}
    {scopes : List Scope} {around : Surroundings} {earlier : List String},
    Stmt.AllAddressed n scopes body → Lawful (Stmt.allSites around earlier body) →
      Scoped nest (body.flatMap Stmt.declares) →
        (∀ q ∈ Stmt.allOccurrences nest body, q.Respelled R d home n.lookups v) →
          Stmt.AllRenamed R (Marks.ofNest d nest) body (v.stmts body)
  | [], _, _, _, _, _, _, _, _ => .nil
  | _ :: _, _, _, _, _, hs, hsites, hscope, hq =>
    have hq := List.forall_mem_append.mp hq
    .cons (hv.stmt hs.1 hsites.left (hscope.subset (List.subset_append_left _ _)) hq.1)
      (hv.stmts hs.2 hsites.right (hscope.subset (List.subset_append_right _ _)) hq.2)

theorem function (hv : Respelling R d home n.lookups v) : ∀ {f : FunctionDecl} {nest : List (List Ident)}
    {scopes : List Scope} {around : Surroundings}, f.Addressed n scopes → Lawful (f.sites around) →
      around.InScope → f.name.Kept (v.ident f.name) →
        (∀ q ∈ f.occurrences nest, q.Respelled R d home n.lookups v) →
          FunctionDecl.Renamed R (Marks.ofNest d nest) f (v.function f)
  | ⟨id, _, parameters, body⟩, nest, _, _, hf, hsites, hin, hname, hq => by
    have hid : id + v.shift = id := congrArg (id + ·) hv.shift
    have hq := List.forall_mem_append.mp hq
    have hparameters := hsites.left.parameters hin .nil
    rw [List.nil_append] at hparameters
    have hdistinct := Stmt.allDeclares_distinct hin hsites.right hparameters
    rw [← List.map_append] at hdistinct
    have hscope : Scoped ((parameters ++ body.flatMap Stmt.declares) :: nest)
        (parameters ++ body.flatMap Stmt.declares) := .push hdistinct
    rw [Move.function, hid]
    refine .mk _ hname ?_ (hv.stmts hf.2 hsites.right (hscope.subset (List.subset_append_right _ _)) hq.2)
    refine List.forall₂_map_right_iff.mpr (List.forall₂_same.mpr fun p hp => ?_)
    refine hv.declared (hq.1 _ (List.mem_map_of_mem hp)) (hscope.subset ?_)
    exact List.cons_subset.mpr ⟨List.mem_append_left _ hp, List.nil_subset _⟩

theorem functions (hv : Respelling R d home n.lookups v) : ∀ {fs : List FunctionDecl}
    {nest : List (List Ident)} {scopes : List Scope} {around : Surroundings},
    FunctionDecl.AllAddressed n scopes fs →
      Lawful (FunctionDecl.allSites around fs) →
        (∀ q ∈ FunctionDecl.allOccurrences ([] :: nest) fs, q.Respelled R d home n.lookups v) →
          FunctionDecl.AllRenamed R (false :: Marks.ofNest d nest) fs (v.functions fs)
  | [], _, _, _, _, _, _ => .nil
  | ⟨_, name, _, _⟩ :: _, _, _, around, hfs, hsites, hq => by
    have hq := List.forall_mem_append.mp hq
    have hfirst := List.forall_mem_cons.mp hq.1
    have hin : Surroundings.InScope (.method name :: around) := ⟨_, List.mem_cons_self, rfl⟩
    have hmethod := hv.function hfs.1.2 hsites.left hin (hv.kept hfirst.1) hfirst.2
    rw [Marks.ofNest, List.map_cons, decide_eq_false List.not_mem_nil] at hmethod
    exact .cons hmethod (hv.functions hfs.2 hsites.right hq.2)

end

end Respelling

end LoxLang

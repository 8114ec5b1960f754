import LoxLang.Proofs.Evaluation.Steps
import LoxLang.Session

/-!
Code that is alike does the same. The proof follows evaluation step by step; both runs take the same branch
everywhere, because what a branch depends on is the same in both.
-/

namespace LoxLang

open Exec (Alike)

/-- Statements that ended in the same way, with values that are alike. -/
inductive Completion.Alike (S : Skew) : Completion → Completion → Prop where
  | normal : Alike S .normal .normal
  | returned {v w : Value} : v.Alike S w → Alike S (.returned v) (.returned w)
  | broke : Alike S .broke .broke
  | continued : Alike S .continued .continued

theorem ofConstant_alike (S : Skew) (value : Constant) :
    (Value.ofConstant value).Alike S (Value.ofConstant value) := by
  cases value <;> exact .data trivial

variable {S : Skew} {K : Backdrop}

mutual

theorem evaluate_alike (hS : S.Faithful) : ∀ (n : Nat) {e e' : Expr}, e.Alike S e' →
    Alike S K (Value.Alike S) (evaluate n e) (evaluate n e')
  | 0, _, _, _ => .exhausted
  | n + 1, _, _, h => by
    cases h with
    | constant value => exact .pure (ofConstant_alike S value)
    | grouping h => exact evaluate_alike hS n h
    | unary op hp h => exact .bind (evaluate_alike hS n h) fun _ _ hv => Exec.unary_alike op hp hv
    | binary op h hp h' =>
      refine .bind (evaluate_alike hS n h) fun a a' ha => ?_
      exact .bind (evaluate_alike hS n h') fun b b' hb => Exec.binary_alike hS op hp ha hb
    | logical op h h' =>
      refine .bind (evaluate_alike hS n h) fun a a' ha => ?_
      rw [ha.isTruthy]
      split
      · exact .pure ha
      · exact evaluate_alike hS n h'
    | read hr => exact Exec.read_alike hr
    | assign hr h =>
      refine .bind (evaluate_alike hS n h) fun v w hvw => ?_
      exact .bind (Exec.assign_alike hr hvw) fun _ _ _ => .pure hvw
    | call hf hp hs =>
      refine .bind (evaluate_alike hS n hf) fun f g hfg => ?_
      exact .bind (evaluateAll_alike hS n hs) fun vs ws hvs => call_alike hS n hfg hvs hp
    | get h hx => exact .bind (evaluate_alike hS n h) fun v w hvw => Exec.property_alike hvw hx
    | set h hx h' =>
      refine .bind (evaluate_alike hS n h) fun v w hvw => ?_
      cases hvw with
      | function => exact .fail hx.position _
      | arrayMethod => exact .fail hx.position _
      | data =>
        cases v with
        | object id =>
          refine .bind (evaluate_alike hS n h') fun a b hab => ?_
          rw [hx.name]
          refine .bind (.modify fun _ _ hm => { hm with heap := hm.heap.setField id _ hab }) ?_
          exact fun _ _ _ => .pure hab
        | _ => exact .fail hx.position _
    | this hi hp => exact Exec.read_alike ⟨hi, rfl, hp⟩
    | super hi hp hx => exact Exec.superMethod_alike hi hp hx

theorem evaluateAll_alike (hS : S.Faithful) : ∀ (n : Nat) {es es' : List Expr},
    List.Forall₂ (Expr.Alike S) es es' →
      Alike S K (List.Forall₂ (Value.Alike S)) (evaluateAll n es) (evaluateAll n es')
  | 0, _, _, _ => .exhausted
  | _ + 1, _, _, .nil => .pure .nil
  | n + 1, _, _, .cons h hs => by
    refine .bind (evaluate_alike hS n h) fun v w hvw => ?_
    exact .bind (evaluateAll_alike hS n hs) fun vs ws hvs => .pure (.cons hvw hvs)

theorem call_alike (hS : S.Faithful) : ∀ (n : Nat) {f g : Value}, f.Alike S g →
    ∀ {vs ws : List Value}, List.Forall₂ (Value.Alike S) vs ws → ∀ {p q : Position}, S.place p q →
      Alike S K (Value.Alike S) (call n f vs p) (call n g ws q)
  | 0, _, _, _, _, _, _, _, _, _ => by
    unfold call
    exact .exhausted
  | n + 1, f, _, hfg, vs, ws, hvs, _, _, hp => by
    refine .get_bind fun m m' hm => ?_
    rw [Exec.arity?_alike hm.heap hfg, hvs.length_eq]
    cases Exec.arity? m'.heap _ with
    | none => exact .fail hp _
    | some arity =>
      dsimp only
      split
      · exact .fail hp _
      · cases hfg with
        | function hfg => exact invoke_alike hS n hfg hvs
        | arrayMethod id m hq => exact Exec.callArrayMethod_alike id m hq hvs
        | data =>
          cases f with
          | native f => exact Exec.callNative_alike hS f hvs hp
          | cls id => exact instantiate_alike hS n id hvs
          | function f => contradiction
          | arrayMethod id m p => contradiction
          | _ => exact .fail hp _

theorem instantiate_alike (hS : S.Faithful) : ∀ (n : Nat) (id : ClassId) {vs ws : List Value},
    List.Forall₂ (Value.Alike S) vs ws →
      Alike S K (Value.Alike S) (instantiate n id vs) (instantiate n id ws)
  | 0, _, _, _, _ => by
    unfold instantiate
    exact .exhausted
  | n + 1, id, vs, ws, hvs => by
    refine Alike.bind (R := (· = ·)) (.updateHeap fun _ _ hh => hh.newObject id) ?_
    rintro object _ rfl
    refine .get_bind fun m m' hm => ?_
    have hmethod := hm.heap.contents.method? id initializerName
    generalize m.heap.method? id initializerName = f at hmethod
    generalize m'.heap.method? id initializerName = g at hmethod
    cases hmethod with
    | none => exact .pure (.data trivial)
    | some hfg =>
      refine Alike.bind (.updateHeap fun _ _ hh => hh.bind hfg object) fun f g hfg => ?_
      exact .bind (invoke_alike hS n hfg hvs) fun _ _ _ => .pure (.data trivial)

theorem invoke_alike (hS : S.Faithful) : ∀ (n : Nat) {f g : Closure}, f.Alike S g →
    ∀ {vs ws : List Value}, List.Forall₂ (Value.Alike S) vs ws →
      Alike S K (Value.Alike S) (invoke n f vs) (invoke n g ws)
  | 0, _, _, _, _, _, _ => by
    unfold invoke
    exact .exhausted
  | n + 1, f, g, hfg, vs, ws, hvs => by
    have hbindings := Exec.argumentBindings_alike hfg.declaration.parameters hvs
    unfold invoke
    rw [hfg.frame, hfg.isInitializer]
    refine .bind (Exec.newFrame_alike g.frame hbindings) ?_
    rintro frame _ rfl
    refine .bind (.inFrame frame (executeAll_alike hS n hfg.declaration.body)) ?_
    intro completion completion' hcompletion
    split
    · refine .get_bind fun m m' hm => ?_
      have hthis := hm.heap.ownValue? g.frame thisName
      generalize m.heap.ownValue? g.frame thisName = a at hthis
      generalize m'.heap.ownValue? g.frame thisName = b at hthis
      cases hthis with
      | none => exact .pure (.data trivial)
      | some hab => exact .pure hab
    · cases hcompletion with
      | returned hvw => exact .pure hvw
      | _ => exact .pure (.data trivial)

theorem execute_alike (hS : S.Faithful) : ∀ (n : Nat) {s t : Stmt}, s.Alike S t →
    Alike S K (Completion.Alike S) (execute n s) (execute n t)
  | 0, _, _, _ => .exhausted
  | n + 1, _, _, h => by
    cases h with
    | expression h => exact .bind (evaluate_alike hS n h) fun _ _ _ => .pure .normal
    | print h =>
      refine .bind (evaluate_alike hS n h) fun v w hvw => ?_
      refine .bind (.modify fun m m' hm => ?_) fun _ _ _ => .pure .normal
      refine { hm with output := ?_ }
      rw [hm.heap.text hvw]
      simp only [Machine.print, hm.output, Array.push_append]
    | var hx h =>
      cases h with
      | none =>
        rw [execute, execute, hx.name]
        exact .bind (Exec.define_alike _ (.data trivial)) fun _ _ _ => .pure .normal
      | some h =>
        refine .bind (evaluate_alike hS n h) fun v w hvw => ?_
        rw [hx.name]
        exact .bind (Exec.define_alike _ hvw) fun _ _ _ => .pure .normal
    | block hs =>
      refine .get_bind fun m m' hm => ?_
      rw [hm.current]
      refine .bind (Exec.newFrame_alike m'.current .nil) ?_
      rintro frame _ rfl
      exact .inFrame frame (executeAll_alike hS n hs)
    | ifThen hc h =>
      refine .bind (evaluate_alike hS n hc) fun v w hvw => ?_
      rw [hvw.isTruthy]
      split
      · exact execute_alike hS n h
      · exact .pure .normal
    | ifElse hc h h' =>
      refine .bind (evaluate_alike hS n hc) fun v w hvw => ?_
      rw [hvw.isTruthy]
      split
      · exact execute_alike hS n h
      · exact execute_alike hS n h'
    | loop hc h hi => exact loop_alike hS n hc h hi
    | breakLoop => exact .pure .broke
    | continueLoop => exact .pure .continued
    | function h =>
      refine .get_bind fun m m' hm => ?_
      rw [hm.current, h.name.name]
      refine .bind (Exec.define_alike _ (.function ⟨h, rfl, rfl⟩)) fun _ _ _ => .pure .normal
    | returnValue hp h =>
      cases h with
      | none => exact .pure (.returned (.data trivial))
      | some h => exact .bind (evaluate_alike hS n h) fun v w hvw => .pure (.returned hvw)
    | classDecl hx hr hs =>
      cases hr with
      | none => exact .bind (Exec.declareClass_alike hx none hs) fun _ _ _ => .pure .normal
      | some hr =>
        refine .bind (Exec.superclassOf_alike hr) ?_
        rintro c _ rfl
        exact .bind (Exec.declareClass_alike hx (some c) hs) fun _ _ _ => .pure .normal

theorem loop_alike (hS : S.Faithful) : ∀ (n : Nat) {c d : Expr}, c.Alike S d →
    ∀ {a b : Stmt}, a.Alike S b → ∀ {i j : Option Expr}, Option.Rel (Expr.Alike S) i j →
      Alike S K (Completion.Alike S) (loop n c a i) (loop n d b j)
  | 0, _, _, _, _, _, _, _, _, _ => by
    unfold loop
    exact .exhausted
  | n + 1, c, d, hc, a, b, h, i, j, hi => by
    refine .bind (evaluate_alike hS n hc) fun v w hvw => ?_
    rw [hvw.isTruthy]
    split
    · refine .bind (execute_alike hS n h) fun completion completion' hcompletion => ?_
      have hagain := loop_alike hS n hc h hi
      cases hcompletion with
      | broke => exact .pure .normal
      | returned hvw => exact .pure (.returned hvw)
      | normal =>
        cases hi with
        | none => exact hagain
        | some h' => exact .bind (evaluate_alike hS n h') fun _ _ _ => hagain
      | continued =>
        cases hi with
        | none => exact hagain
        | some h' => exact .bind (evaluate_alike hS n h') fun _ _ _ => hagain
    · exact .pure .normal

theorem executeAll_alike (hS : S.Faithful) : ∀ (n : Nat) {as bs : List Stmt},
    List.Forall₂ (Stmt.Alike S) as bs →
      Alike S K (Completion.Alike S) (executeAll n as) (executeAll n bs)
  | 0, _, _, _ => .exhausted
  | _ + 1, _, _, .nil => .pure .normal
  | n + 1, _, _, .cons h hs => by
    refine .bind (execute_alike hS n h) fun completion completion' hcompletion => ?_
    cases hcompletion with
    | normal => exact executeAll_alike hS n hs
    | returned hvw => exact .pure (.returned hvw)
    | broke => exact .pure .broke
    | continued => exact .pure .continued

end

/-- Programs that are alike do the same. -/
theorem executeProgram_alike (hS : S.Faithful) (steps : Nat) {as bs : List Stmt}
    (has : List.Forall₂ (Stmt.Alike S) as bs) :
    Alike S K (fun _ _ => True) (executeProgram steps as) (executeProgram steps bs) := by
  induction has with
  | nil => exact .pure trivial
  | cons h _ ih => exact .bind (execute_alike hS steps h) fun _ _ _ => ih

end LoxLang

import LoxLang.Proofs.Renaming.Steps
import LoxLang.Session

/-!
Renamed code does the same. The proof follows evaluation step by step. Both runs take the same branch
everywhere, and where one of them makes a scope the other makes one with the same marks.
-/

namespace LoxLang

open Exec (Renames)

/-- Statements that ended in the same way. -/
inductive Completion.Renamed (R : Renaming) (w : Marking) : Completion → Completion → Prop where
  | normal : Renamed R w .normal .normal
  | returned {v u : Value} : v.Renamed R w u → Renamed R w (.returned v) (.returned u)
  | broke : Renamed R w .broke .broke
  | continued : Renamed R w .continued .continued

theorem ofConstant_renamed (R : Renaming) (w : Marking) (value : Constant) :
    (Value.ofConstant value).Renamed R w (Value.ofConstant value) := by
  cases value <;> exact .data trivial

theorem allRenamed_grow {R : Renaming} {w w' : Marking} (hw : w <+: w') {vs us : List Value}
    (h : List.Forall₂ (Value.Renamed R w) vs us) : List.Forall₂ (Value.Renamed R w') vs us :=
  h.imp fun _ _ hvu => Value.renamed_grow hw hvu

variable {R : Renaming}

mutual

theorem evaluate_renames : ∀ (n : Nat) {w : Marking} {μ : Marks} {e e' : Expr}, e.Renamed R μ e' →
    Renames R w μ (Value.Renamed R) (evaluate n e) (evaluate n e')
  | 0, _, _, _, _, _ => .exhausted
  | n + 1, w, _, _, _, h => by
    cases h with
    | constant value => exact .pure (ofConstant_renamed R w value)
    | grouping h => exact evaluate_renames n h
    | unary op hp h => exact .bind (evaluate_renames n h) fun _ _ _ _ hv => Exec.unary_renames op hp hv
    | binary op h hp h' =>
      refine .bind (evaluate_renames n h) fun w₁ _ a a' ha => ?_
      refine .bind (evaluate_renames n h') fun w₂ hw b b' hb => ?_
      exact Exec.binary_renames op hp (Value.renamed_grow hw ha) hb
    | logical op h h' =>
      refine .bind (evaluate_renames n h) fun w₁ _ a a' ha => ?_
      rw [ha.isTruthy]
      split
      · exact .pure ha
      · exact evaluate_renames n h'
    | read hr => exact Exec.read_renames hr
    | assign hr h =>
      refine .bind (evaluate_renames n h) fun w₁ _ v u hvu => ?_
      exact .bind (Exec.assign_renames hr hvu) fun w₂ hw _ _ _ => .pure (Value.renamed_grow hw hvu)
    | call hf hp hs =>
      refine .bind (evaluate_renames n hf) fun w₁ _ f g hfg => ?_
      refine .bind (evaluateAll_renames n hs) fun w₂ hw vs us hvs => ?_
      exact call_renames n (Value.renamed_grow hw hfg) hvs hp
    | get h hx => exact .bind (evaluate_renames n h) fun _ _ v u hvu => Exec.property_renames hvu hx
    | set h hx h' =>
      refine .bind (evaluate_renames n h) fun w₁ _ v u hvu => ?_
      cases hvu with
      | function => exact .fail hx.line (.same _)
      | arrayMethod => exact .fail hx.line (.same _)
      | data =>
        cases v with
        | object id =>
          refine .bind (evaluate_renames n h') fun w₂ _ a b hab => ?_
          rw [hx.name]
          refine .bind (.modify fun m m' hm _ => ⟨{ hm with heap := ?_ }, rfl⟩) ?_
          · exact hm.heap.withContents rfl rfl (hm.heap.contents.setField id _ hab)
          · exact fun w₃ hw _ _ _ => .pure (Value.renamed_grow hw hab)
        | _ => exact .fail hx.line (.same _)
    | this hi hp => exact Exec.this_renames hi hp
    | super hi hp hx => exact Exec.superMethod_renames hi hp hx

theorem evaluateAll_renames : ∀ (n : Nat) {w : Marking} {μ : Marks} {es es' : List Expr},
    List.Forall₂ (Expr.Renamed R μ) es es' →
      Renames R w μ (fun w' => List.Forall₂ (Value.Renamed R w')) (evaluateAll n es) (evaluateAll n es')
  | 0, _, _, _, _, _ => .exhausted
  | _ + 1, _, _, _, _, .nil => .pure .nil
  | n + 1, _, _, _, _, .cons h hs => by
    refine .bind (evaluate_renames n h) fun w₁ _ v u hvu => ?_
    refine .bind (evaluateAll_renames n hs) fun w₂ hw vs us hvs => ?_
    exact .pure (.cons (Value.renamed_grow hw hvu) hvs)

theorem call_renames : ∀ (n : Nat) {w : Marking} {μ : Marks} {f g : Value}, f.Renamed R w g →
    ∀ {vs us : List Value}, List.Forall₂ (Value.Renamed R w) vs us → ∀ {p q : Position}, p.SameLine q →
      Renames R w μ (Value.Renamed R) (call n f vs p) (call n g us q)
  | 0, _, _, _, _, _, _, _, _, _, _, _ => by
    unfold call
    exact .exhausted
  | n + 1, _, _, f, _, hfg, vs, us, hvs, _, _, hp => by
    refine .get_bind fun m m' hm _ => ?_
    rw [Exec.arity?_renamed hm.heap hfg, hvs.length_eq]
    cases Exec.arity? m'.heap _ with
    | none => exact .fail hp (.same _)
    | some arity =>
      dsimp only
      split
      · exact .fail hp (.same _)
      · cases hfg with
        | function hfg => exact invoke_renames n hfg hvs
        | arrayMethod id m hq => exact Exec.callArrayMethod_renames id m hq hvs
        | data =>
          cases f with
          | native f => exact Exec.callNative_renames f hvs hp
          | cls id => exact instantiate_renames n id hvs
          | function f => contradiction
          | arrayMethod id m p => contradiction
          | _ => exact .fail hp (.same _)

theorem instantiate_renames : ∀ (n : Nat) {w : Marking} {μ : Marks} (id : ClassId) {vs us : List Value},
    List.Forall₂ (Value.Renamed R w) vs us →
      Renames R w μ (Value.Renamed R) (instantiate n id vs) (instantiate n id us)
  | 0, _, _, _, _, _, _ => by
    unfold instantiate
    exact .exhausted
  | n + 1, w, _, id, vs, us, hvs => by
    refine Renames.bind (P := fun _ a b => a = b) (.updateHeap fun h h' hh => ?_) ?_
    · have hnew := hh.contents.newObject id
      exact ⟨w, List.prefix_rfl, hnew.1, hh.withContents rfl rfl hnew.2⟩
    rintro w₁ hw₁ object _ rfl
    refine .get_bind fun m m' hm _ => ?_
    have hmethod := hm.heap.contents.method? id initializerName
    generalize m.heap.method? id initializerName = f at hmethod
    generalize m'.heap.method? id initializerName = g at hmethod
    cases hmethod with
    | none => exact .pure (.data trivial)
    | some hfg =>
      refine Renames.bind (P := (Closure.Renamed R · [])) (.updateHeap fun _ _ hh => hh.bind hfg object)
        fun w₂ hw₂ f g hfg => ?_
      refine .bind (invoke_renames n hfg (allRenamed_grow (hw₁.trans hw₂) hvs)) fun _ _ _ _ _ => ?_
      exact .pure (.data trivial)

theorem invoke_renames : ∀ (n : Nat) {w : Marking} {μ : Marks} {f g : Closure}, f.Renamed R w [] g →
    ∀ {vs us : List Value}, List.Forall₂ (Value.Renamed R w) vs us →
      Renames R w μ (Value.Renamed R) (invoke n f vs) (invoke n g us)
  | 0, _, _, _, _, _, _, _, _ => by
    unfold invoke
    exact .exhausted
  | n + 1, w, _, f, g, hfg, vs, us, hvs => by
    obtain ⟨ν, hν, hdeclaration⟩ := hfg.declaration
    obtain ⟨marked, hparameters, hbody⟩ := hdeclaration.scope
    unfold invoke
    rw [← hfg.frame, ← hfg.isInitializer]
    refine .bind (Exec.newFrame_renames hν marked (Exec.argumentBindings_renamed hparameters hvs)) ?_
    rintro w₁ _ frame _ ⟨rfl, hframe⟩
    refine .bind (.inFrame hframe (executeAll_renames n hbody)) ?_
    intro w₂ _ completion completion' hcompletion
    split
    · refine .get_bind fun m m' hm _ => ?_
      have hthis := hm.heap.ownValue?_fixed R.old_plain.1.symm R.new_plain.1.symm f.frame
      generalize m.heap.ownValue? f.frame thisName = a at hthis
      generalize m'.heap.ownValue? f.frame thisName = b at hthis
      cases hthis with
      | none => exact .pure (.data trivial)
      | some hab => exact .pure hab
    · cases hcompletion with
      | returned hvu => exact .pure hvu
      | _ => exact .pure (.data trivial)

theorem execute_renames : ∀ (n : Nat) {w : Marking} {μ : Marks} {s t : Stmt}, Stmt.Renamed R μ s t →
    Renames R w μ (Completion.Renamed R) (execute n s) (execute n t)
  | 0, _, _, _, _, _ => .exhausted
  | n + 1, w, _, _, _, h => by
    cases h with
    | expression h => exact .bind (evaluate_renames n h) fun _ _ _ _ _ => .pure .normal
    | print h =>
      refine .bind (evaluate_renames n h) fun w₁ _ v u hvu => ?_
      refine .bind (.modify fun m m' hm _ => ⟨{ hm with output := ?_ }, rfl⟩) fun _ _ _ _ _ => .pure .normal
      rw [hm.heap.text hvu]
      simp only [Machine.print, hm.output]
    | var hx h =>
      cases h with
      | none => exact .bind (Exec.define_renames hx (.data trivial)) fun _ _ _ _ _ => .pure .normal
      | some h =>
        refine .bind (evaluate_renames n h) fun w₁ _ v u hvu => ?_
        exact .bind (Exec.define_renames hx hvu) fun _ _ _ _ _ => .pure .normal
    | block marked hs =>
      refine .get_bind fun m m' hm hμ => ?_
      rw [← hm.current]
      refine .bind (Exec.newFrame_renames hμ marked .nil) ?_
      rintro w₁ _ frame _ ⟨rfl, hframe⟩
      exact .inFrame hframe (executeAll_renames n hs)
    | ifThen hc h =>
      refine .bind (evaluate_renames n hc) fun w₁ _ v u hvu => ?_
      rw [hvu.isTruthy]
      split
      · exact execute_renames n h
      · exact .pure .normal
    | ifElse hc h h' =>
      refine .bind (evaluate_renames n hc) fun w₁ _ v u hvu => ?_
      rw [hvu.isTruthy]
      split
      · exact execute_renames n h
      · exact execute_renames n h'
    | loop hc h hi => exact loop_renames n hc h hi
    | breakLoop => exact .pure .broke
    | continueLoop => exact .pure .continued
    | function h hx =>
      refine .get_bind fun m m' hm hμ => ?_
      rw [← hm.current]
      refine .bind (Exec.define_renames hx (.function ⟨rfl, rfl, _, hμ, h⟩)) fun _ _ _ _ _ => .pure .normal
    | returnValue hp h =>
      cases h with
      | none => exact .pure (.returned (.data trivial))
      | some h => exact .bind (evaluate_renames n h) fun _ _ v u hvu => .pure (.returned hvu)
    | classDecl hx hx' hr hs =>
      cases hr with
      | none =>
        refine .bind (Exec.declareClass_renames hx hx' (c := none) rfl hs) fun _ _ _ _ _ => ?_
        exact .pure .normal
      | some hr =>
        refine .bind (Exec.superclassOf_renames hr) ?_
        rintro w₁ _ c _ rfl
        refine .bind (Exec.declareClass_renames hx hx' (c := some c) rfl hs) fun _ _ _ _ _ => ?_
        exact .pure .normal

theorem loop_renames : ∀ (n : Nat) {w : Marking} {μ : Marks} {c d : Expr}, c.Renamed R μ d →
    ∀ {a b : Stmt}, Stmt.Renamed R μ a b → ∀ {i j : Option Expr}, Option.Rel (Expr.Renamed R μ) i j →
      Renames R w μ (Completion.Renamed R) (loop n c a i) (loop n d b j)
  | 0, _, _, _, _, _, _, _, _, _, _, _ => by
    unfold loop
    exact .exhausted
  | n + 1, _, _, c, d, hc, a, b, h, i, j, hi => by
    refine .bind (evaluate_renames n hc) fun w₁ _ v u hvu => ?_
    rw [hvu.isTruthy]
    split
    · refine .bind (execute_renames n h) fun w₂ _ completion completion' hcompletion => ?_
      have hagain : ∀ {w : Marking}, Renames R w _ (Completion.Renamed R) (loop n c a i) (loop n d b j) :=
        loop_renames n hc h hi
      cases hcompletion with
      | broke => exact .pure .normal
      | returned hvu => exact .pure (.returned hvu)
      | normal =>
        cases hi with
        | none => exact hagain
        | some h' => exact .bind (evaluate_renames n h') fun _ _ _ _ _ => hagain
      | continued =>
        cases hi with
        | none => exact hagain
        | some h' => exact .bind (evaluate_renames n h') fun _ _ _ _ _ => hagain
    · exact .pure .normal

theorem executeAll_renames : ∀ (n : Nat) {w : Marking} {μ : Marks} {as bs : List Stmt},
    Stmt.AllRenamed R μ as bs → Renames R w μ (Completion.Renamed R) (executeAll n as) (executeAll n bs)
  | 0, _, _, _, _, _ => .exhausted
  | _ + 1, _, _, _, _, .nil => .pure .normal
  | n + 1, _, _, _, _, .cons h hs => by
    refine .bind (execute_renames n h) fun w₁ _ completion completion' hcompletion => ?_
    cases hcompletion with
    | normal => exact executeAll_renames n hs
    | returned hvu => exact .pure (.returned hvu)
    | broke => exact .pure .broke
    | continued => exact .pure .continued

end

/-- Programs that differ by a renaming do the same. -/
theorem executeProgram_renames (steps : Nat) {w : Marking} {μ : Marks} {as bs : List Stmt}
    (has : Stmt.AllRenamed R μ as bs) :
    Renames R w μ (fun _ _ _ => True) (executeProgram steps as) (executeProgram steps bs) := by
  induction as generalizing w bs with
  | nil =>
    obtain ⟨⟩ := has
    exact .pure trivial
  | cons a as ih =>
    obtain _ | ⟨h, hs⟩ := has
    exact .bind (execute_renames steps h) fun w₁ _ _ _ _ => ih hs

end LoxLang

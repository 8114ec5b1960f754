import LoxLang.Proofs.Evaluation.Kept
import LoxLang.Proofs.Session.Reachable
import LoxLang.Proofs.Syntax.WellFormed

/-!
Between programs, a session is in the global scope. However a program ends, and whatever it was doing then, it
has come back to the scope in which it began, so that the declarations of the next one are global too.
-/

namespace LoxLang

/-- The computation ends in the scope in which it begins, whether it yields a value or fails. -/
def Exec.ComesBack {α : Type} (x : Exec α) : Prop :=
  ∀ m, Ends x m (fun _ m' => m'.current = m.current) (fun _ m' => m'.current = m.current)

theorem Exec.Keeps.comesBack {α : Type} {x : Exec α} (hx : x.Keeps) : x.ComesBack := by
  intro m
  apply (hx m).imp
  · intro _ m' hm
    exact hm.current
  · intro _ m' hm
    exact hm.2.current

/-! ### Declarations -/

/-- What is left when a name has been declared: last of all, it is bound in the current scope. -/
def Machine.Declares (m : Machine) (x : String) (m' : Machine) : Prop :=
  ∃ m₁ v, m.Kept m₁ ∧ m' = { m₁ with heap := m₁.heap.define m.current x v }

theorem Machine.Kept.defined {m m₁ : Machine} (h : m.Kept m₁) (x : String) (v : Value) :
    m.Declares x { m₁ with heap := m₁.heap.define m₁.current x v } :=
  ⟨m₁, v, h, by rw [h.current]⟩

/-- Code that runs behind other code begins with what that has kept. -/
theorem Exec.Keeps.before {α β : Type} {x : Exec α} {f : α → Exec β} {m : Machine}
    {value : β → Machine → Prop} (hx : x.Keeps)
    (hf : ∀ a m', m.Kept m' → Ends (f a) m' value (fun _ _ => True)) :
    Ends (x >>= f) m value (fun _ _ => True) := by
  have hfirst : Ends x m (fun _ m' => m.Kept m') (fun _ _ => True) := by
    apply (hx m).imp
    · intro _ _ hm
      exact hm
    · intro _ _ _
      trivial
  exact hfirst.bind hf

theorem declareClass_declares {m m₁ : Machine} (hm : m.Kept m₁) (name : Ident)
    (superclass : Option ClassId) (methods : List FunctionDecl) :
    Ends (Exec.declareClass name superclass methods) m₁
      (fun _ m' => m.Declares name.name m') (fun _ _ => True) := by
  have hmake : ∀ (frame : FrameId) (m₂ : Machine), m.Kept m₂ → Ends (do
      let cls ← Exec.updateHeap fun h =>
        h.newClass ⟨name.name, superclass, Exec.methodBindings frame methods⟩
      Exec.define name.name (.cls cls)) m₂ (fun _ m' => m.Declares name.name m') (fun _ _ => True) := by
    intro frame m₂ hm₂
    have hclass : m₂.Kept { m₂ with heap := (m₂.heap.newClass
        ⟨name.name, superclass, Exec.methodBindings frame methods⟩).2 } := .of_frames rfl rfl rfl
    exact (hm₂.trans hclass).defined name.name _
  have hnil := hm.trans (Machine.Kept.define m₁ m₁.current name.name .nil (.inl rfl))
  cases superclass with
  | none => exact hmake m₁.current _ hnil
  | some c => exact hmake _ _ (hnil.trans (Machine.Kept.newFrame _ _ _))

/-- A statement that declares a name binds it in the current scope, last of all that it does. -/
theorem execute_declares (n : Nat) {d : Stmt} {x : String} (hx : d.declared? = some x) (m : Machine) :
    Ends (execute n d) m (fun _ m' => m.Declares x m') (fun _ _ => True) := by
  cases n with
  | zero => exact Ends.throw trivial
  | succ n =>
    cases d with
    | var name initializer =>
      obtain rfl := Option.some.inj hx
      cases initializer with
      | none => exact (Machine.Kept.refl m).defined name.name .nil
      | some e =>
        apply ((keepsWithin n).evaluate e).before
        intro v m₁ hm
        exact hm.defined name.name v
    | function declaration =>
      obtain rfl := Option.some.inj hx
      exact (Machine.Kept.refl m).defined declaration.name.name _
    | classDecl name superclass methods =>
      obtain rfl := Option.some.inj hx
      cases superclass with
      | none =>
        apply (declareClass_declares (.refl m) name none methods).bind
        intro _ m' hm
        exact Ends.pure hm
      | some superclass =>
        apply (Exec.superclassOf_keeps superclass).before
        intro c m₁ hm
        apply (declareClass_declares hm name (some c) methods).bind
        intro _ m' hm
        exact Ends.pure hm
    | _ => cases hx

/-! ### Sessions -/

namespace Session

variable {s : Session}

theorem execute_kept (steps : Nat) (program : List Stmt) (s : Session) :
    s.machine.Kept (s.execute steps program).2.machine := by
  have hrun := executeProgram_keeps steps program s.machine
  have hflush : ∀ m : Machine, s.machine.Kept m → s.machine.Kept { m with output := #[] } := by
    intro m hm
    exact hm.trans (.of_frames rfl rfl rfl)
  unfold Ends at hrun
  unfold Session.execute
  split
  all_goals
    rename_i hresult
    rw [hresult] at hrun
  · exact hflush _ hrun
  · exact hflush _ hrun.2
  · exact hflush _ hrun.2

/-- Before it executes anything, a run records distances and does nothing else to the machine. -/
theorem run_kept (steps : Nat) (source : String) (s : Session) :
    ∃ hops, Machine.Kept { s.machine with hops := hops } (s.run steps source).2.machine := by
  unfold Session.run
  rcases runScanned_course (lexicalFaults source) (tokens source) s with
    ⟨lookups, _, _, hrun⟩ | ⟨_, _, hrun⟩
  · rw [hrun]
    exact ⟨s.machine.hops.recordAll lookups, .of_frames rfl rfl rfl⟩
  · rw [hrun]
    exact ⟨_, execute_kept _ _ (s.recorded _ _)⟩

/-- A session that has come back to the global scope, which is there. -/
structure Outermost (s : Session) : Prop where
  current : s.machine.current = .globals
  made : FrameId.globals.index < s.machine.heap.frames.size

theorem Reachable.outermost (hs : s.Reachable) : s.Outermost := by
  apply hs.induction (P := Outermost)
  · intro files includeDir input clock regex
    exact ⟨rfl, Nat.zero_lt_one⟩
  · intro s steps source h
    obtain ⟨hops, hkept⟩ := run_kept steps source s
    exact ⟨hkept.current.trans h.current, Nat.lt_of_lt_of_le h.made hkept.size⟩
  · intro s files input clock h
    exact ⟨h.current, h.made⟩

end Session

/-- All code comes back to the scope in which it begins: expressions, calls of all kinds, statements, loops
and blocks, whether they complete, in whatever way, or fail. So between programs a session is in the global
scope, and what a statement of a program declares, it binds there; it makes no difference which distances
have been recorded. -/
theorem current_scope_survives {s : Session} (hs : s.Reachable) :
    (∀ n : Nat,
      (∀ e, (evaluate n e).ComesBack) ∧ (∀ es, (evaluateAll n es).ComesBack) ∧
      (∀ callee arguments paren, (call n callee arguments paren).ComesBack) ∧
      (∀ cls arguments, (instantiate n cls arguments).ComesBack) ∧
      (∀ f arguments, (invoke n f arguments).ComesBack) ∧
      (∀ s, (execute n s).ComesBack) ∧
      (∀ condition body increment, (loop n condition body increment).ComesBack) ∧
      (∀ body, (executeAll n body).ComesBack)) ∧
    s.machine.current = .globals ∧
    ∀ (steps : Nat) (before : List Stmt) (hops : HopTable) (m : Machine),
      (executeProgram steps before).run { s.machine with hops := hops } = .ok () m →
        m.current = .globals ∧ ∀ (d : Stmt) (x : String), d.declared? = some x → ∀ completion m',
          (execute steps d).run m = .ok completion m' → ∃ (m₁ : Machine) (v : Value),
            m' = { m₁ with heap := m₁.heap.define .globals x v } ∧
              m'.heap.ownValue? .globals x = some v := by
  have hglobal := hs.outermost
  refine ⟨?_, hglobal.current, ?_⟩
  · intro n
    have h := keepsWithin n
    exact ⟨fun e => (h.evaluate e).comesBack, fun es => (h.evaluateAll es).comesBack,
      fun f vs p => (h.call f vs p).comesBack, fun c vs => (h.instantiate c vs).comesBack,
      fun f vs => (h.invoke f vs).comesBack, fun s => (h.execute s).comesBack,
      fun c b i => (h.loop c b i).comesBack, fun b => (h.executeAll b).comesBack⟩
  · intro steps before hops m hbefore
    have hkept : Machine.Kept { s.machine with hops := hops } m := by
      have h := executeProgram_keeps steps before { s.machine with hops := hops }
      unfold Ends at h
      rwa [hbefore] at h
    have hcurrent : m.current = .globals := hkept.current.trans hglobal.current
    refine ⟨hcurrent, ?_⟩
    intro d x hx completion m' hd
    have hdeclares := execute_declares steps hx m
    unfold Ends at hdeclares
    rw [hd] at hdeclares
    obtain ⟨m₁, v, hkept₁, rfl⟩ := hdeclares
    have hmade : FrameId.globals.index < m₁.heap.frames.size :=
      Nat.lt_of_lt_of_le hglobal.made (Nat.le_trans hkept.size hkept₁.size)
    refine ⟨m₁, v, by rw [hcurrent], ?_⟩
    dsimp only
    rw [hcurrent, Heap.ownValue?_define hmade, if_pos ⟨rfl, rfl⟩]

/-- A program that fails in a block of a function that a loop calls. -/
def failingInside : Session.Event :=
  .run 20 "fun f() \x7b \x7b print missing; \x7d \x7d while (true) \x7b f(); \x7d"

theorem current_scope_survives_failure :
    let s := Session.new default none [] default
    (∃ r, (s.step failingInside).1 = some (.ok r) ∧ r.hadRuntimeError = true) ∧
      (s.step failingInside).2.machine.current = .globals := by
  intro s
  have hs : s.Reachable := .new _ _ _ _ _
  have hnext : (s.step failingInside).2.Reachable := hs.step failingInside
  have hfails : (s.step failingInside).1 = some (.ok _) := rfl
  exact ⟨⟨_, hfails, by decide +kernel⟩, (current_scope_survives hnext).2.1⟩

end LoxLang

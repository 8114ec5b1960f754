import LoxLang.Proofs.Control.Contained
import LoxLang.Proofs.Control.Order
import LoxLang.Proofs.Evaluation.Declared
import LoxLang.Proofs.Session.Reachable

/-!
Control signals reach the loops that they are meant for. While a contained program runs, each step of
evaluation keeps to what is due in the log and leaves nothing open, apart from statements that end by a
signal. The functions of earlier programs are contained too, so this holds in every session.
-/

namespace LoxLang

namespace Traced

/-! ### Sound traces -/

/-- All functions are contained, and the log keeps to what is due. -/
structure Sound (due : Due) (t : Trace) : Prop where
  declared : t.machine.Declared FunctionDecl.Contained
  course : Course .nothing t.log due

/-- The computation keeps traces sound in which something is due. When it yields a value, `good` says what is
due then; when it fails, nothing is. -/
def Tidy {α : Type} (due : Due) (x : Traced α) (good : α → Due → Prop) : Prop :=
  ∀ t, Sound due t → Ends x t (fun a t' => ∃ due', good a due' ∧ Sound due' t') (fun _ t' => Sound .nothing t')

/-- Nothing is due behind a value that is as `good` says. -/
def Settled {α : Type} (good : α → Prop) (a : α) (due : Due) : Prop :=
  good a ∧ due = .nothing

namespace Tidy

variable {α β : Type} {x : Traced α} {f : α → Traced β} {due : Due} {good : α → Due → Prop}
  {good' : β → Due → Prop} {P : α → Prop}

theorem pure {a : α} (ha : good a due) : Tidy due (Pure.pure a) good := by
  intro t ht
  exact Ends.pure ⟨due, ha, ht⟩

theorem settled {a : α} (ha : P a) : Tidy .nothing (Pure.pure a) (Settled P) :=
  .pure ⟨ha, rfl⟩

theorem bind (hx : Tidy due x good) (hf : ∀ a due', good a due' → Tidy due' (f a) good') :
    Tidy due (x >>= f) good' := by
  intro t ht
  apply (hx t ht).bind
  rintro a t' ⟨due', ha, ht'⟩
  exact hf a due' ha t' ht'

/-- Code goes on where nothing is due. -/
theorem next (hx : Tidy due x (Settled P)) (hf : ∀ a, P a → Tidy .nothing (f a) good') :
    Tidy due (x >>= f) good' := by
  apply hx.bind
  rintro a _ ⟨ha, rfl⟩
  exact hf a ha

theorem lift {x : Exec α} (hx : x.KeepsDeclared FunctionDecl.Contained P) :
    Tidy .nothing (Account.lift x) (Settled P) := by
  intro t ht
  refine Account.lift_ends ((hx t.machine ht.declared).imp ?_ ?_)
  · exact fun a m h => ⟨.nothing, ⟨h.1, rfl⟩, h.2, ht.course⟩
  · exact fun e m h => ⟨h, ht.course⟩

theorem exhausted : Tidy .nothing (Account.lift Exec.exhausted : Traced α) good := by
  intro t ht
  exact ht

theorem fail (position : Position) (fault : RuntimeFault) :
    Tidy .nothing (Account.lift (Exec.fail position fault) : Traced α) good := by
  intro t ht
  exact ht

theorem get_bind {f : Trace → Traced β} (hf : ∀ t, Sound due t → Tidy due (f t) good') :
    Tidy due (get >>= f) good' := by
  intro t ht
  exact Ends.get_bind (hf t ht t ht)

theorem enter_bind {f : LoopId → Traced β} (hf : ∀ l, Tidy due (f l) good') :
    Tidy due (enter >>= f) good' := by
  intro t ht
  exact hf t.entered { t with entered := t.entered + 1 } ⟨ht.declared, ht.course⟩

theorem record_bind {due' : Due} {e : Movement} {x : Traced β} (he : Due.Next due e due')
    (hx : Tidy due' x good') : Tidy due (record e >>= fun _ => x) good' := by
  intro t ht
  exact hx { t with log := t.log ++ [e] } ⟨ht.declared, ht.course.snoc he⟩

theorem inFrame (frame : FrameId) (hx : Tidy due x good) : Tidy due (Account.inFrame frame x) good := by
  intro t ht
  have hrun := hx { t with machine := { t.machine with current := frame } } ⟨ht.declared, ht.course⟩
  refine Account.inFrame_ends (Ends.imp hrun ?_ ?_)
  · rintro a t' ⟨due', ha, ht'⟩
    exact ⟨due', ha, ht'.declared, ht'.course⟩
  · exact fun e t' ht' => ⟨ht'.declared, ht'.course⟩

end Tidy

/-! ### Evaluation -/

/-- The value is a contained function, if it is a function. -/
abbrev Known (v : Value) : Prop :=
  v.Declared FunctionDecl.Contained

/-- A statement inside some loops has ended as it may. -/
def Completes (function : Bool) (loops : List LoopId) (c : Completion) (due : Due) : Prop :=
  Due.Behind function loops c due ∧ ∀ v, c = .returned v → Known v

/-- Evaluation with a log, to some depth, keeps traces sound. -/
structure TidyWithin (n : Nat) : Prop where
  evaluate : ∀ loops e, Tidy .nothing (keeper.evaluate n loops e) (Settled Known)
  evaluateAll : ∀ loops es, Tidy .nothing (keeper.evaluateAll n loops es) (Settled fun vs => ∀ v ∈ vs, Known v)
  call : ∀ callee arguments paren, Known callee → (∀ v ∈ arguments, Known v) →
    Tidy .nothing (keeper.call n callee arguments paren) (Settled Known)
  instantiate : ∀ cls arguments, (∀ v ∈ arguments, Known v) →
    Tidy .nothing (keeper.instantiate n cls arguments) (Settled Known)
  invoke : ∀ f arguments, f.declaration.Contained → (∀ v ∈ arguments, Known v) →
    Tidy .nothing (keeper.invoke n f arguments) (Settled Known)
  execute : ∀ function loop loops s, s.Contained function loop → (loop = true → loops ≠ []) →
    Tidy .nothing (keeper.execute n loops s) (Completes function loops)
  loop : ∀ function l outer condition body increment, body.Contained function true →
    Tidy .nothing (keeper.loop n (l :: outer) condition body increment) (Completes function outer)
  executeAll : ∀ function loop loops body, Stmt.AllContained function loop body →
    (loop = true → loops ≠ []) → Tidy .nothing (keeper.executeAll n loops body) (Completes function loops)

namespace TidyWithin

variable {n : Nat}

theorem zero : TidyWithin 0 := by
  constructor
  case evaluate => exact fun _ _ => .exhausted
  case evaluateAll => exact fun _ _ => .exhausted
  case call =>
    intro _ _ _ _ _
    unfold Keeper.call
    exact .exhausted
  case instantiate =>
    intro _ _ _
    unfold Keeper.instantiate
    exact .exhausted
  case invoke =>
    intro _ _ _ _
    unfold Keeper.invoke
    exact .exhausted
  case execute => exact fun _ _ _ _ _ _ => .exhausted
  case loop =>
    intro _ _ _ _ _ _ _
    unfold Keeper.loop
    exact .exhausted
  case executeAll => exact fun _ _ _ _ _ _ => .exhausted

theorem succ_evaluate (h : TidyWithin n) (loops : List LoopId) (e : Expr) :
    Tidy .nothing (keeper.evaluate (n + 1) loops e) (Settled Known) := by
  cases e with
  | constant value => exact .settled (Value.Each.ofConstant value)
  | grouping inner => exact h.evaluate loops inner
  | unary op position operand =>
    exact (h.evaluate loops operand).next fun v _ => .lift (Exec.unary_keepsDeclared op position v)
  | binary left op position right =>
    apply (h.evaluate loops left).next
    intro a _
    exact (h.evaluate loops right).next fun b _ => .lift (Exec.binary_keepsDeclared op position a b)
  | logical left op right =>
    apply (h.evaluate loops left).next
    intro a ha
    split
    · exact .settled ha
    · exact h.evaluate loops right
  | read target => exact .lift (Exec.read_keepsDeclared target)
  | assign target value =>
    apply (h.evaluate loops value).next
    intro v hv
    exact (Tidy.lift (Exec.assign_keepsDeclared target hv)).next fun _ _ => .settled hv
  | call callee paren arguments =>
    apply (h.evaluate loops callee).next
    intro f hf
    exact (h.evaluateAll loops arguments).next fun vs hvs => h.call f vs paren hf hvs
  | get object name =>
    exact (h.evaluate loops object).next fun v _ => .lift (Exec.property_keepsDeclared v name)
  | set object name value =>
    apply (h.evaluate loops object).next
    intro v _
    cases v with
    | object id =>
      apply (h.evaluate loops value).next
      intro v hv
      exact (Tidy.lift (Exec.setField_keepsDeclared id name.name hv)).next fun _ _ => .settled hv
    | _ => exact .fail _ _
  | this id position => exact .lift (Exec.read_keepsDeclared _)
  | super id position method => exact .lift (Exec.superMethod_keepsDeclared id position method)

theorem succ_evaluateAll (h : TidyWithin n) (loops : List LoopId) (es : List Expr) :
    Tidy .nothing (keeper.evaluateAll (n + 1) loops es) (Settled fun vs => ∀ v ∈ vs, Known v) := by
  cases es with
  | nil => exact .settled (by simp)
  | cons e rest =>
    apply (h.evaluate loops e).next
    intro v hv
    apply (h.evaluateAll loops rest).next
    intro vs hvs
    exact .settled (List.forall_mem_cons.mpr ⟨hv, hvs⟩)

theorem succ_call (h : TidyWithin n) (callee : Value) (arguments : List Value) (paren : Position)
    (hcallee : Known callee) (harguments : ∀ v ∈ arguments, Known v) :
    Tidy .nothing (keeper.call (n + 1) callee arguments paren) (Settled Known) := by
  unfold Keeper.call
  apply Tidy.get_bind
  intro t _
  cases Exec.arity? t.machine.heap callee with
  | none => exact .fail _ _
  | some arity =>
    dsimp only
    split
    · exact .fail _ _
    · cases callee with
      | native f => exact .lift (Exec.callNative_keepsDeclared f harguments paren)
      | function f => exact h.invoke f arguments hcallee harguments
      | arrayMethod id method position =>
        exact .lift (Exec.callArrayMethod_keepsDeclared id method position harguments)
      | cls id => exact h.instantiate id arguments harguments
      | _ => exact .fail _ _

theorem succ_instantiate (h : TidyWithin n) (cls : ClassId) (arguments : List Value)
    (harguments : ∀ v ∈ arguments, Known v) :
    Tidy .nothing (keeper.instantiate (n + 1) cls arguments) (Settled Known) := by
  unfold Keeper.instantiate
  apply (Tidy.lift (Exec.newObject_keepsDeclared cls)).next
  intro object _
  apply Tidy.get_bind
  intro t ht
  cases hmethod : t.machine.heap.method? cls initializerName with
  | none => exact .settled trivial
  | some m =>
    apply (Tidy.lift (Exec.bind_keepsDeclared (ht.declared.method? hmethod) object)).next
    intro f hf
    exact (h.invoke f arguments hf harguments).next fun _ _ => .settled trivial

/-- The body of a function neither breaks nor continues, because no loop is around it. -/
theorem runBody (h : TidyWithin n) (f : Closure) (arguments : List Value)
    (hf : f.declaration.Contained) (harguments : ∀ v ∈ arguments, Known v) :
    Tidy .nothing (keeper.runBody f arguments fun loops => keeper.executeAll n loops f.declaration.body)
      (Settled fun completion => ∀ v, completion = .returned v → Known v) := by
  apply (Tidy.lift (Exec.newFrame_keepsDeclared f.frame (Exec.argumentBindings_each _ harguments))).next
  intro frame _
  have hbody := h.executeAll true false [] f.declaration.body hf.body (by simp)
  apply (hbody.inFrame frame).bind
  rintro completion due ⟨hbehind, hreturned⟩
  obtain rfl := hbehind.outside
  exact .record_bind (.body hbehind) (.settled hreturned)

theorem succ_invoke (h : TidyWithin n) (f : Closure) (arguments : List Value)
    (hf : f.declaration.Contained) (harguments : ∀ v ∈ arguments, Known v) :
    Tidy .nothing (keeper.invoke (n + 1) f arguments) (Settled Known) := by
  unfold Keeper.invoke
  apply (h.runBody f arguments hf harguments).next
  intro completion hreturned
  split
  · apply Tidy.get_bind
    intro t ht
    apply Tidy.settled
    cases hthis : t.machine.heap.ownValue? f.frame thisName with
    | none => trivial
    | some v => exact ht.declared.ownValue? hthis
  · cases completion with
    | returned v => exact .settled (hreturned v rfl)
    | _ => exact .settled trivial

theorem normal_tidy (function : Bool) (loops : List LoopId) :
    Tidy .nothing (Pure.pure .normal) (Completes function loops) :=
  .pure ⟨.normal, fun _ h => by cases h⟩

theorem succ_execute (h : TidyWithin n) (function loop : Bool) (loops : List LoopId) (s : Stmt)
    (hs : s.Contained function loop) (hloops : loop = true → loops ≠ []) :
    Tidy .nothing (keeper.execute (n + 1) loops s) (Completes function loops) := by
  have hnormal := normal_tidy function loops
  cases s with
  | expression e => exact (h.evaluate loops e).next fun _ _ => hnormal
  | print e =>
    apply (h.evaluate loops e).next
    intro v _
    have hprint : Exec.KeepsDeclared FunctionDecl.Contained
        (modify fun m => m.print (v.text m.heap ++ "\n")) fun _ => True :=
      .modify fun _ hm => hm
    exact (Tidy.lift hprint).next fun _ _ => hnormal
  | var name initializer =>
    cases initializer with
    | none => exact (Tidy.lift (Exec.define_keepsDeclared (v := .nil) _ trivial)).next fun _ _ => hnormal
    | some e =>
      apply (h.evaluate loops e).next
      intro v hv
      exact (Tidy.lift (Exec.define_keepsDeclared _ hv)).next fun _ _ => hnormal
  | block body =>
    apply Tidy.get_bind
    intro t _
    apply (Tidy.lift (Exec.newFrame_keepsDeclared t.machine.current (by simp))).next
    intro frame _
    exact (h.executeAll function loop loops body hs hloops).inFrame frame
  | ifThen condition thenBranch =>
    apply (h.evaluate loops condition).next
    intro v _
    split
    · exact h.execute function loop loops thenBranch hs hloops
    · exact hnormal
  | ifElse condition thenBranch elseBranch =>
    apply (h.evaluate loops condition).next
    intro v _
    split
    · exact h.execute function loop loops thenBranch hs.1 hloops
    · exact h.execute function loop loops elseBranch hs.2 hloops
  | loop condition body increment =>
    exact Tidy.enter_bind fun l => h.loop function l loops condition body increment hs
  | breakLoop position =>
    obtain ⟨l, outer, rfl⟩ := List.exists_cons_of_ne_nil (hloops hs)
    exact .record_bind .signal (.pure ⟨.broke rfl, fun _ h => by cases h⟩)
  | continueLoop position =>
    obtain ⟨l, outer, rfl⟩ := List.exists_cons_of_ne_nil (hloops hs)
    exact .record_bind .signal (.pure ⟨.continued rfl, fun _ h => by cases h⟩)
  | function declaration =>
    have hdeclare : Tidy .nothing (keeper.declareFunction loops declaration) (Settled fun _ => True) :=
      .get_bind fun t _ => .lift (Exec.define_keepsDeclared
        (v := .function ⟨declaration, t.machine.current, false⟩) declaration.name.name hs)
    exact hdeclare.next fun _ _ => hnormal
  | returnValue position value =>
    have hreturn : ∀ v, Known v → Tidy .nothing (Pure.pure (.returned v)) (Completes function loops) := by
      intro v hv
      refine .pure ⟨.returned hs, fun _ heq => ?_⟩
      cases heq
      exact hv
    cases value with
    | none => exact hreturn .nil trivial
    | some e => exact (h.evaluate loops e).next hreturn
  | classDecl name superclass methods =>
    have hdeclare := fun superclass =>
      Tidy.lift (Exec.declareClass_keepsDeclared name superclass (FunctionDecl.AllContained.contained hs))
    cases superclass with
    | none => exact (hdeclare none).next fun _ _ => hnormal
    | some superclass =>
      apply (Tidy.lift (Exec.superclassOf_keepsDeclared superclass)).next
      intro c _
      exact (hdeclare (some c)).next fun _ _ => hnormal

/-- A loop takes the signals of its body upon itself. -/
theorem succ_loop (h : TidyWithin n) (function : Bool) (l : LoopId) (outer : List LoopId)
    (condition : Expr) (body : Stmt) (increment : Option Expr) (hbody : body.Contained function true) :
    Tidy .nothing (keeper.loop (n + 1) (l :: outer) condition body increment) (Completes function outer) := by
  have hnormal := normal_tidy function outer
  unfold Keeper.loop
  apply (h.evaluate (l :: outer) condition).next
  intro v _
  split
  · apply (h.execute function true (l :: outer) body hbody (by simp)).bind
    rintro completion due ⟨hbehind, hreturned⟩
    apply Tidy.record_bind (.round hbehind.widen)
    cases increment with
    | none =>
      have hagain := h.loop function l outer condition body none hbody
      cases completion with
      | broke => exact hnormal
      | returned v =>
        cases hbehind with
        | returned hfunction => exact .pure ⟨.returned hfunction, hreturned⟩
      | normal => exact hagain
      | continued => exact hagain
    | some e =>
      have hagain := Tidy.record_bind (Due.Next.increment (l := l))
        ((h.evaluate (l :: outer) e).next fun _ _ => h.loop function l outer condition body (some e) hbody)
      cases completion with
      | broke => exact hnormal
      | returned v =>
        cases hbehind with
        | returned hfunction => exact .pure ⟨.returned hfunction, hreturned⟩
      | normal => exact hagain
      | continued => exact hagain
  · exact hnormal

theorem succ_executeAll (h : TidyWithin n) (function loop : Bool) (loops : List LoopId)
    (body : List Stmt) (hbody : Stmt.AllContained function loop body) (hloops : loop = true → loops ≠ []) :
    Tidy .nothing (keeper.executeAll (n + 1) loops body) (Completes function loops) := by
  cases body with
  | nil => exact normal_tidy function loops
  | cons s rest =>
    apply (h.execute function loop loops s hbody.1 hloops).bind
    rintro completion due ⟨hbehind, hreturned⟩
    cases completion with
    | normal =>
      cases hbehind
      exact h.executeAll function loop loops rest hbody.2 hloops
    | _ => exact .pure ⟨hbehind, hreturned⟩

end TidyWithin

theorem tidyWithin (n : Nat) : TidyWithin n := by
  induction n with
  | zero => exact .zero
  | succ n ih =>
    exact ⟨ih.succ_evaluate, ih.succ_evaluateAll, ih.succ_call, ih.succ_instantiate, ih.succ_invoke,
      ih.succ_execute, ih.succ_loop, ih.succ_executeAll⟩

/-- Outside functions and loops, statements end normally. -/
theorem executeProgram_tidy (steps : Nat) {program : List Stmt}
    (hprogram : Stmt.AllContained false false program) :
    Tidy .nothing (executeProgram steps program) (Settled fun _ => True) := by
  induction program with
  | nil => exact .settled trivial
  | cons s rest ih =>
    apply ((tidyWithin steps).execute false false [] s hprogram.1 (by simp)).bind
    rintro completion due ⟨hbehind, _⟩
    obtain rfl := hbehind.outside
    have hnormal : completion = .normal := by
      rcases hbehind.of_nothing with hnormal | ⟨v, rfl⟩
      · exact hnormal
      · cases hbehind with
        | returned hfunction => cases hfunction
    rw [hnormal]
    exact .record_bind .statement (ih hprogram.2)

/-! ### Programs -/

/-- The log that a computation leaves, however it ends. -/
def logOf {α : Type} : EStateM.Result Halt Trace α → List Movement
  | .ok _ t => t.log
  | .error _ t => t.log

theorem executeProgram_run (steps : Nat) {program : List Stmt} {m : Machine}
    (hm : m.Declared FunctionDecl.Contained) (hprogram : Stmt.AllContained false false program) :
    Ends (LoxLang.executeProgram steps program) m (fun _ m' => m'.Declared FunctionDecl.Contained)
        (fun _ m' => m'.Declared FunctionDecl.Contained) ∧
      Orderly (logOf ((executeProgram steps program).run ⟨m, 0, []⟩)) := by
  have hsound : Sound .nothing ⟨m, 0, []⟩ := ⟨hm, .nil⟩
  have htidy := executeProgram_tidy steps hprogram ⟨m, 0, []⟩ hsound
  have hforget : Account.forget ((executeProgram steps program).run ⟨m, 0, []⟩) =
      (LoxLang.executeProgram steps program).run m :=
    (keeper_faithful.executeProgram steps [] program ⟨m, 0, []⟩).forget trivial
  unfold Ends at htidy ⊢
  rw [← hforget]
  cases hrun : (executeProgram steps program).run ⟨m, 0, []⟩ with
  | ok a t =>
    rw [hrun] at htidy
    obtain ⟨_, ⟨_, rfl⟩, ht⟩ := htidy
    exact ⟨ht.declared, ht.course.orderly⟩
  | error e t =>
    rw [hrun] at htidy
    exact ⟨htidy.declared, htidy.course.orderly⟩

end Traced

/-- A program that the resolver accepts is contained. -/
theorem resolve_contained {program : List Stmt} (h : (resolve program).fault = none) :
    Stmt.AllContained false false program := by
  have haccepts := Resolver.statements_contained Resolver.topLevel program ⟨[], #[]⟩
  unfold Ends at haccepts
  unfold resolve at h
  dsimp only [EStateM.run] at haccepts
  cases hwalk : Resolver.statements Resolver.topLevel program ⟨[], #[]⟩ with
  | ok u s =>
    rw [hwalk] at haccepts
    exact haccepts
  | error fault s =>
    rw [hwalk] at h
    cases h

namespace Session

variable {s : Session}

theorem execute_declared {program : List Stmt} (hs : s.machine.Declared FunctionDecl.Contained)
    (hprogram : Stmt.AllContained false false program) (steps : Nat) :
    (s.execute steps program).2.machine.Declared FunctionDecl.Contained := by
  have hrun := (Traced.executeProgram_run steps hs hprogram).1
  unfold Ends at hrun
  unfold Session.execute
  split
  all_goals
    rename_i hresult
    rw [hresult] at hrun
    exact hrun

theorem run_declared (steps : Nat) (source : String) (hs : s.machine.Declared FunctionDecl.Contained) :
    (s.run steps source).2.machine.Declared FunctionDecl.Contained := by
  unfold Session.run
  rcases runScanned_course (lexicalFaults source) (tokens source) s with
    ⟨_, _, _, hrun⟩ | ⟨_, hscope, hrun⟩
  · rw [hrun]
    exact hs
  · rw [hrun]
    exact execute_declared (s := s.recorded _ _) hs (resolve_contained hscope) steps

/-- All functions in a session are contained. -/
theorem Reachable.declared (hs : s.Reachable) : s.machine.Declared FunctionDecl.Contained := by
  apply hs.induction (P := fun s => s.machine.Declared FunctionDecl.Contained)
  · intro files includeDir input clock regex
    exact Heap.Holds.initial
  · intro s steps source h
    exact run_declared steps source h
  · intro s files input clock h
    exact h

end Session

/-- Whatever has been run in a session before, a program without faults that is run in it loses no signals.
Evaluation with a log does the same as evaluation without one. In the log, every signal of a break or
continue statement is followed at once by the end of the round of the innermost loop around it that its
function has entered; no body of a function and no statement of the program ends by a signal, and no
statement of the program returns. Every round that ends normally or by a continue, and no other one, is
followed at once by the increment of its loop, if that has one. -/
theorem signals_never_escape {s : Session} (hs : s.Reachable) {source : String} {p : Parse}
    (hp : parse (tokens source) s.nextId = p) (hlexical : lexicalFaults source = [])
    (hgrammar : p.faults = []) (hscope : (resolve p.statements).fault = none) (steps : Nat) :
    let t := s.recorded p.nextId (resolve p.statements).lookups
    let traced := (Traced.executeProgram steps p.statements).run ⟨t.machine, 0, []⟩
    s.run steps source = t.execute steps p.statements ∧
      Account.forget traced = (executeProgram steps p.statements).run t.machine ∧
      Orderly (Traced.logOf traced) := by
  intro t traced
  refine ⟨?_, ?_, ?_⟩
  · exact Session.runScanned_of_none hp (by rw [hlexical, hgrammar]; rfl) hscope
  · exact (Traced.keeper_faithful.executeProgram steps [] p.statements ⟨t.machine, 0, []⟩).forget trivial
  · have hdeclared : t.machine.Declared FunctionDecl.Contained := hs.declared
    exact (Traced.executeProgram_run steps hdeclared (resolve_contained hscope)).2

/-- A function with a loop that skips one of its rounds and is left in another one. -/
def skipping : String :=
  "fun f() \x7b for (var i = 0; true; i = i + 1) \x7b if (i == 1) continue; if (i == 2) break; \x7d \x7d f();"

theorem signals_never_escape_skipping :
    let s := Session.new default none [] default
    let p := parse (tokens skipping) s.nextId
    let t := s.recorded p.nextId (resolve p.statements).lookups
    let traced := (Traced.executeProgram 30 p.statements).run ⟨t.machine, 0, []⟩
    (lexicalFaults skipping = [] ∧ p.faults = [] ∧ (resolve p.statements).fault = none) ∧
      (Traced.logOf traced).length = 10 ∧ Orderly (Traced.logOf traced) := by
  intro s p t traced
  have hlexical : lexicalFaults skipping = [] := by decide +kernel
  have hgrammar : p.faults = [] := by decide +kernel
  have hscope : (resolve p.statements).fault = none := by decide +kernel
  have horderly := (signals_never_escape (.new _ _ _ _ _) rfl hlexical hgrammar hscope 30).2.2
  exact ⟨⟨hlexical, hgrammar, hscope⟩, by decide +kernel, horderly⟩

end LoxLang

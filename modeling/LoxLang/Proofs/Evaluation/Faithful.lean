import LoxLang.Proofs.Evaluation.Account
import LoxLang.Proofs.Heap.Methods

/-!
Evaluation with an account does what evaluation does, if the keeper is faithful: if each of its steps does
what the step does by itself. A keeper may rely on it that bodies are entered with as many arguments as their
callees take. A call checks their number once, at the callee; behind it the arguments are handed on as they
are, from a class to its initializer too. That the class and its initializer take equally many is because both
are found by one lookup, and making the instance in between changes no class.
-/

namespace LoxLang

open HasMachine (machine put machine_put)
open HasHalt (halt)

namespace Account

variable {ε σ : Type} [HasMachine σ] [HasHalt ε] {α β : Type}

/-- From a state the computation does what another one does that keeps no account, and leaves an account that
is good if it has been. -/
def FollowsFrom (good : σ → Prop) (s : σ) (x : EStateM ε σ α) (y : Exec α) : Prop :=
  good s → Agree x y s (machine s) (fun a s' b m => a = b ∧ machine s' = m ∧ good s')
    fun e s' h m => e = halt h ∧ machine s' = m ∧ good s'

/-- So it is from every state. -/
def Follows (good : σ → Prop) (x : EStateM ε σ α) (y : Exec α) : Prop :=
  ∀ s, FollowsFrom good s x y

/-- The computation does nothing to the machine. -/
def Quiet (good : σ → Prop) (x : EStateM ε σ α) : Prop :=
  ∀ s, good s → ∃ a s', x.run s = .ok a s' ∧ machine s' = machine s ∧ good s'

variable {good : σ → Prop} {s : σ} {x : EStateM ε σ α} {y : Exec α} {f : α → EStateM ε σ β} {g : α → Exec β}

theorem FollowsFrom.bind (hx : FollowsFrom good s x y)
    (hf : ∀ a s', y.run (machine s) = .ok a (machine s') → FollowsFrom good s' (f a) (g a)) :
    FollowsFrom good s (x >>= f) (y >>= g) := by
  intro hs
  apply (hx hs).bind_run
  rintro a s' _ _ - hrun ⟨rfl, rfl, hs'⟩
  exact hf a s' hrun hs'

theorem FollowsFrom.get_bind {f : σ → EStateM ε σ β} {g : Machine → Exec β}
    (h : FollowsFrom good s (f s) (g (machine s))) : FollowsFrom good s (get >>= f) (get >>= g) :=
  fun hs => Agree.get_bind (h hs)

namespace Follows

theorem pure (a : α) : Follows good (Pure.pure a : EStateM ε σ α) (Pure.pure a) :=
  fun _ hs => Agree.pure ⟨rfl, rfl, hs⟩

theorem bind (hx : Follows good x y) (hf : ∀ a, Follows good (f a) (g a)) :
    Follows good (x >>= f) (y >>= g) :=
  fun s => (hx s).bind fun a s' _ => hf a s'

theorem get_bind {f : σ → EStateM ε σ β} {g : Machine → Exec β} (h : ∀ s, Follows good (f s) (g (machine s))) :
    Follows good (get >>= f) (get >>= g) :=
  fun s => .get_bind (h s s)

theorem lift (hput : ∀ m s, good s → good (put m s)) (y : Exec α) :
    Follows good (Account.lift y : EStateM ε σ α) y := by
  intro s hs
  unfold Agree Account.lift
  dsimp only [EStateM.run]
  cases y (machine s) <;> exact ⟨rfl, machine_put _ _, hput _ _ hs⟩

theorem inFrame (hput : ∀ m s, good s → good (put m s)) (frame : FrameId) (h : Follows good x y) :
    Follows good (Account.inFrame frame x) (Exec.inFrame frame y) := by
  intro s hs
  have hruns := (h (put { machine s with current := frame } s) (hput _ _ hs)).runs
  rw [machine_put] at hruns
  unfold Agree Account.inFrame Exec.inFrame
  dsimp only [EStateM.run] at hruns ⊢
  obtain ⟨a, s', _, _, hx, hy, rfl, rfl, hs'⟩ | ⟨e, s', _, _, hx, hy, rfl, rfl, hs'⟩ := hruns
  · rw [hx, hy]
    exact ⟨rfl, machine_put _ _, hput _ _ hs'⟩
  · rw [hx, hy]
    exact ⟨rfl, machine_put _ _, hput _ _ hs'⟩

end Follows

/-- What touches no machine may come in front. -/
theorem Quiet.bind (hx : Quiet good x) {y : Exec β} (hf : ∀ a, Follows good (f a) y) :
    Follows good (x >>= f) y := by
  intro s hs
  obtain ⟨a, s', hrun, hmachine, hs'⟩ := hx s hs
  unfold Agree
  rw [EStateM.run_bind, hrun, ← hmachine]
  exact hf a s' hs'

omit [HasHalt ε] in
theorem Quiet.pure (a : α) : Quiet good (Pure.pure a : EStateM ε σ α) :=
  fun s hs => ⟨a, s, rfl, rfl, hs⟩

/-- What a computation does to the machine. -/
def forget : EStateM.Result Halt σ α → EStateM.Result Halt Machine α
  | .ok a s => .ok a (machine s)
  | .error e s => .error e (machine s)

theorem FollowsFrom.forget {x : EStateM Halt σ α} (h : FollowsFrom good s x y) (hs : good s) :
    Account.forget (x.run s) = y.run (machine s) := by
  obtain ⟨a, s', _, _, hx, hy, rfl, rfl, -⟩ | ⟨e, s', _, _, hx, hy, rfl, rfl, -⟩ := (h hs).runs
  · rw [hx, hy]
    rfl
  · rw [hx, hy]
    rfl

end Account

open Account

namespace Keeper

variable {κ ε σ : Type} [HasMachine σ] [HasHalt ε]

/-- Each step of the keeper does what the step does by itself and leaves good accounts good. Bodies may rely
on the number of their arguments. -/
structure Faithful (a : Keeper κ ε σ) (good : σ → Prop) : Prop where
  put : ∀ m s, good s → good (put m s)
  read : ∀ k reference, Follows good (a.read k reference) (Exec.read reference)
  assign : ∀ k reference v, Follows good (a.assign k reference v) (Exec.assign reference v)
  property : ∀ v name, Follows good (a.property v name) (Exec.property v name)
  superMethod : ∀ k id position method,
    Follows good (a.superMethod k id position method) (Exec.superMethod id position method)
  callNative : ∀ f arguments paren, arguments.length = f.arity →
    Follows good (a.callNative f arguments paren) (Exec.callNative f arguments paren)
  callArrayMethod : ∀ id method position arguments, arguments.length = method.arity →
    Follows good (a.callArrayMethod id method position arguments)
      (Exec.callArrayMethod id method position arguments)
  newObject : ∀ s cls arguments, Exec.arity? (machine s).heap (.cls cls) = some arguments.length →
    FollowsFrom good s (a.newObject cls arguments) (Exec.updateHeap fun h => h.newObject cls)
  bindReceiver : ∀ m object,
    Follows good (a.bindReceiver m object) (Exec.updateHeap fun h => h.bind m object)
  runBody : ∀ f arguments run body, arguments.length = f.declaration.parameters.length →
    (∀ k, Follows good (run k) body) → Follows good (a.runBody f arguments run) (do
      let frame ← Exec.newFrame f.frame (Exec.argumentBindings f.declaration.parameters arguments)
      Exec.inFrame frame body)
  declareFunction : ∀ k declaration, Follows good (a.declareFunction k declaration) (do
    let frame := (← get).current
    Exec.define declaration.name.name (.function ⟨declaration, frame, false⟩))
  superclassOf : ∀ k name superclass,
    Follows good (a.superclassOf k name superclass) (Exec.superclassOf superclass)
  declareClass : ∀ k name superclass methods,
    Follows good (a.declareClass k name superclass methods) (Exec.declareClass name superclass methods)
  enterLoop : ∀ k, Quiet good (a.enterLoop k)
  endRound : ∀ k completion increments, Quiet good (a.endRound k completion increments)
  beginIncrement : ∀ k, Quiet good (a.beginIncrement k)
  signal : ∀ k s, Quiet good (a.signal k s)
  endStatement : ∀ completion, Quiet good (a.endStatement completion)

/-- Evaluation with an account, to some depth, does what evaluation does. -/
structure FollowsWithin (a : Keeper κ ε σ) (good : σ → Prop) (n : Nat) : Prop where
  evaluate : ∀ k e, Follows good (a.evaluate n k e) (LoxLang.evaluate n e)
  evaluateAll : ∀ k es, Follows good (a.evaluateAll n k es) (LoxLang.evaluateAll n es)
  call : ∀ callee arguments paren,
    Follows good (a.call n callee arguments paren) (LoxLang.call n callee arguments paren)
  instantiate : ∀ s cls arguments, Exec.arity? (machine s).heap (.cls cls) = some arguments.length →
    FollowsFrom good s (a.instantiate n cls arguments) (LoxLang.instantiate n cls arguments)
  invoke : ∀ f arguments, arguments.length = f.declaration.parameters.length →
    Follows good (a.invoke n f arguments) (LoxLang.invoke n f arguments)
  execute : ∀ k s, Follows good (a.execute n k s) (LoxLang.execute n s)
  loop : ∀ k condition body increment,
    Follows good (a.loop n k condition body increment) (LoxLang.loop n condition body increment)
  executeAll : ∀ k body, Follows good (a.executeAll n k body) (LoxLang.executeAll n body)

namespace FollowsWithin

variable {a : Keeper κ ε σ} {good : σ → Prop} {n : Nat} (ha : a.Faithful good)
include ha

theorem zero : FollowsWithin a good 0 := by
  have hexhausted : ∀ {α : Type}, Follows good (lift Exec.exhausted : EStateM ε σ α) Exec.exhausted :=
    .lift ha.put _
  constructor
  case evaluate => exact fun _ _ => hexhausted
  case evaluateAll => exact fun _ _ => hexhausted
  case call =>
    intro _ _ _
    unfold Keeper.call LoxLang.call
    exact hexhausted
  case instantiate =>
    intro s _ _ _
    unfold Keeper.instantiate LoxLang.instantiate
    exact hexhausted s
  case invoke =>
    intro _ _ _
    unfold Keeper.invoke LoxLang.invoke
    exact hexhausted
  case execute => exact fun _ _ => hexhausted
  case loop =>
    intro _ _ _ _
    unfold Keeper.loop LoxLang.loop
    exact hexhausted
  case executeAll => exact fun _ _ => hexhausted

theorem succ_evaluate (h : FollowsWithin a good n) (k : κ) (e : Expr) :
    Follows good (a.evaluate (n + 1) k e) (LoxLang.evaluate (n + 1) e) := by
  cases e with
  | constant value => exact .pure _
  | grouping inner => exact h.evaluate k inner
  | unary op position operand => exact (h.evaluate k operand).bind fun _ => .lift ha.put _
  | binary left op position right =>
    apply (h.evaluate k left).bind
    intro x
    exact (h.evaluate k right).bind fun _ => .lift ha.put _
  | logical left op right =>
    apply (h.evaluate k left).bind
    intro x
    split
    · exact .pure x
    · exact h.evaluate k right
  | read target => exact ha.read k target
  | assign target value =>
    apply (h.evaluate k value).bind
    intro v
    exact (ha.assign k target v).bind fun _ => .pure v
  | call callee paren arguments =>
    apply (h.evaluate k callee).bind
    intro f
    exact (h.evaluateAll k arguments).bind fun vs => h.call f vs paren
  | get object name => exact (h.evaluate k object).bind fun v => ha.property v name
  | set object name value =>
    apply (h.evaluate k object).bind
    intro v
    cases v with
    | object id =>
      apply (h.evaluate k value).bind
      intro v
      exact (Follows.lift ha.put _).bind fun _ => .pure v
    | _ => exact .lift ha.put _
  | this id position => exact ha.read k _
  | super id position method => exact ha.superMethod k id position method

omit ha in
theorem succ_evaluateAll (h : FollowsWithin a good n) (k : κ) (es : List Expr) :
    Follows good (a.evaluateAll (n + 1) k es) (LoxLang.evaluateAll (n + 1) es) := by
  cases es with
  | nil => exact .pure _
  | cons e rest =>
    apply (h.evaluate k e).bind
    intro v
    exact (h.evaluateAll k rest).bind fun _ => .pure _

theorem succ_call (h : FollowsWithin a good n) (callee : Value) (arguments : List Value) (paren : Position) :
    Follows good (a.call (n + 1) callee arguments paren) (LoxLang.call (n + 1) callee arguments paren) := by
  intro s
  have hfail : ∀ fault, Follows good (lift (Exec.fail paren fault) : EStateM ε σ Value) (Exec.fail paren fault) :=
    fun _ => .lift ha.put _
  unfold Keeper.call LoxLang.call
  apply FollowsFrom.get_bind
  cases harity : Exec.arity? (machine s).heap callee with
  | none => exact hfail _ s
  | some arity =>
    dsimp only
    split
    case isTrue => exact hfail _ s
    case isFalse hlength =>
      -- This is the check that every body relies on.
      obtain rfl : arguments.length = arity := Decidable.not_not.mp hlength
      cases callee with
      | native f => exact ha.callNative f arguments paren (Option.some.inj harity).symm s
      | function f => exact h.invoke f arguments (Option.some.inj harity).symm s
      | arrayMethod id method position =>
        exact ha.callArrayMethod id method position arguments (Option.some.inj harity).symm s
      | cls id => exact h.instantiate s id arguments harity
      | _ => cases harity

/-- The initializer that is looked up once the instance is there is the one that the check has counted the
parameters of. -/
theorem succ_instantiate (h : FollowsWithin a good n) (s : σ) (cls : ClassId) (arguments : List Value)
    (harity : Exec.arity? (machine s).heap (.cls cls) = some arguments.length) :
    FollowsFrom good s (a.instantiate (n + 1) cls arguments) (LoxLang.instantiate (n + 1) cls arguments) := by
  unfold Keeper.instantiate LoxLang.instantiate
  refine (ha.newObject s cls arguments harity).bind fun object s' hrun => .get_bind ?_
  have hmachine : { machine s with heap := ((machine s).heap.newObject cls).2 } = machine s' :=
    (EStateM.Result.ok.inj hrun).2
  have hclasses : ((machine s).heap.newObject cls).2.classes = (machine s).heap.classes := rfl
  have hsame : (machine s').heap.method? cls initializerName = (machine s).heap.method? cls initializerName := by
    rw [← hmachine]
    exact Heap.method?_congr hclasses cls initializerName
  rw [hsame]
  cases hm : (machine s).heap.method? cls initializerName with
  | none => exact Follows.pure _ s'
  | some m =>
    have hlength : arguments.length = m.declaration.parameters.length := by
      simpa [Exec.arity?, hm] using harity.symm
    refine (ha.bindReceiver m object s').bind fun f s'' hrun => ?_
    obtain rfl : ((machine s').heap.bind m object).1 = f := (EStateM.Result.ok.inj hrun).1
    have hinvoke := h.invoke ((machine s').heap.bind m object).1 arguments hlength
    exact hinvoke.bind (fun _ => .pure _) s''

theorem succ_invoke (h : FollowsWithin a good n) (f : Closure) (arguments : List Value)
    (hlength : arguments.length = f.declaration.parameters.length) :
    Follows good (a.invoke (n + 1) f arguments) (LoxLang.invoke (n + 1) f arguments) := by
  have hbody := ha.runBody f arguments _ _ hlength fun k => h.executeAll k f.declaration.body
  unfold Keeper.invoke LoxLang.invoke
  rw [← bind_assoc]
  apply hbody.bind
  intro completion
  split
  · exact .get_bind fun _ => .pure _
  · cases completion <;> exact .pure _

theorem succ_execute (h : FollowsWithin a good n) (k : κ) (s : Stmt) :
    Follows good (a.execute (n + 1) k s) (LoxLang.execute (n + 1) s) := by
  cases s with
  | expression e => exact (h.evaluate k e).bind fun _ => .pure _
  | print e =>
    apply (h.evaluate k e).bind
    intro v
    exact (Follows.lift ha.put _).bind fun _ => .pure _
  | var name initializer =>
    cases initializer with
    | none => exact (Follows.lift ha.put _).bind fun _ => .pure _
    | some e =>
      apply (h.evaluate _ e).bind
      intro v
      exact (Follows.lift ha.put _).bind fun _ => .pure _
  | block body =>
    apply Follows.get_bind
    intro s
    exact (Follows.lift ha.put _).bind fun frame => .inFrame ha.put frame (h.executeAll _ body)
  | ifThen condition thenBranch =>
    apply (h.evaluate k condition).bind
    intro v
    split
    · exact h.execute k thenBranch
    · exact .pure _
  | ifElse condition thenBranch elseBranch =>
    apply (h.evaluate k condition).bind
    intro v
    split
    · exact h.execute k thenBranch
    · exact h.execute k elseBranch
  | loop condition body increment =>
    exact (ha.enterLoop k).bind fun inner => h.loop inner condition body increment
  | breakLoop position => exact (ha.signal k .broke).bind fun _ => .pure _
  | continueLoop position => exact (ha.signal k .continued).bind fun _ => .pure _
  | function declaration => exact (ha.declareFunction k declaration).bind fun _ => .pure _
  | returnValue position value =>
    cases value with
    | none => exact .pure _
    | some e => exact (h.evaluate k e).bind fun _ => .pure _
  | classDecl name superclass methods =>
    cases superclass with
    | none => exact (ha.declareClass k name none methods).bind fun _ => .pure _
    | some superclass =>
      apply (ha.superclassOf k name superclass).bind
      intro c
      exact (ha.declareClass k name (some c) methods).bind fun _ => .pure _

theorem succ_loop (h : FollowsWithin a good n) (k : κ) (condition : Expr) (body : Stmt)
    (increment : Option Expr) :
    Follows good (a.loop (n + 1) k condition body increment)
      (LoxLang.loop (n + 1) condition body increment) := by
  unfold Keeper.loop LoxLang.loop
  apply (h.evaluate k condition).bind
  intro v
  split
  case isFalse => exact .pure _
  case isTrue =>
    have hagain := h.loop k condition body increment
    apply (h.execute k body).bind
    intro completion
    apply (ha.endRound k completion increment.isSome).bind
    intro _
    cases completion with
    | broke => exact .pure _
    | returned v => exact .pure _
    | normal | continued =>
      cases increment with
      | none => exact hagain
      | some e =>
        apply (ha.beginIncrement k).bind
        intro _
        exact (h.evaluate k e).bind fun _ => hagain

omit ha in
theorem succ_executeAll (h : FollowsWithin a good n) (k : κ) (body : List Stmt) :
    Follows good (a.executeAll (n + 1) k body) (LoxLang.executeAll (n + 1) body) := by
  cases body with
  | nil => exact .pure _
  | cons s rest =>
    apply (h.execute k s).bind
    intro completion
    cases completion with
    | normal => exact h.executeAll _ rest
    | _ => exact .pure _

end FollowsWithin

variable {a : Keeper κ ε σ} {good : σ → Prop}

theorem Faithful.within (ha : a.Faithful good) (n : Nat) : FollowsWithin a good n := by
  induction n with
  | zero => exact .zero ha
  | succ n ih =>
    exact ⟨ih.succ_evaluate ha, ih.succ_evaluateAll, ih.succ_call ha, ih.succ_instantiate ha,
      ih.succ_invoke ha, ih.succ_execute ha, ih.succ_loop ha, ih.succ_executeAll⟩

theorem Faithful.executeProgram (ha : a.Faithful good) (steps : Nat) (k : κ) (program : List Stmt) :
    Follows good (a.executeProgram steps k program) (LoxLang.executeProgram steps program) := by
  induction program with
  | nil => exact .pure ()
  | cons s rest ih =>
    apply ((ha.within steps).execute k s).bind
    intro completion
    exact (ha.endStatement completion).bind fun _ => ih

end Keeper

end LoxLang

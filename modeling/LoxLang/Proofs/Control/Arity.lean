import LoxLang.Proofs.Evaluation.Faithful
import LoxLang.Proofs.Native.Indexed
import Mathlib.Data.List.Nodup

/-!
Every body runs with as many arguments as its callee takes. An account is kept of the entries into bodies:
those of native functions, of methods of arrays, of functions and of classes. Each entry is taken down where
the body begins, whoever has checked the number of arguments before, and so is each scope that the body of a
function begins in. The bodies of native functions and of methods of arrays look at their arguments by place,
and evaluation stops where there is no argument. It never does, because a call checks their number.
-/

namespace LoxLang

/-- An entry into a body. -/
structure Entry where
  callee : Value
  arguments : List Value
  /-- The heap at the entry. -/
  heap : Heap

/-- A scope in which the body of a function begins. -/
structure CallScope where
  function : Closure
  arguments : List Value
  frame : FrameId
  /-- The heap in which the body begins. -/
  heap : Heap

namespace Entering

/-- Why a computation has no value. -/
inductive Stop where
  | halt (h : Halt)
  /-- A body has looked at a place where there is no argument. -/
  | outOfBounds

/-- A machine with the account of the bodies entered, latest last. -/
structure State where
  machine : Machine
  entries : List Entry
  scopes : List CallScope

/-- The machine before any body is entered. -/
def State.start (m : Machine) : State :=
  ⟨m, [], []⟩

end Entering

instance : HasMachine Entering.State :=
  ⟨Entering.State.machine, fun m s => { s with machine := m }, fun _ _ => rfl⟩

instance : HasHalt Entering.Stop :=
  ⟨.halt⟩

/-- A computation of evaluation with an account of the bodies entered. -/
abbrev Entering := EStateM Entering.Stop Entering.State

namespace Entering

open Account (lift inFrame)

/-- A body that looks at its arguments by place; its faults are reported at a position. -/
def body (position : Position) (x : Indexed Value) : Entering Value := fun s =>
  match x.run s.machine with
  | .ok v m => .ok v { s with machine := m }
  | .error (.fault f) m =>
    .error (.halt (.failed ⟨position, .runtime (.native f), none⟩)) { s with machine := m }
  | .error .outOfBounds m => .error .outOfBounds { s with machine := m }

/-- Takes down an entry into the body of a value. -/
def enter (callee : Value) (arguments : List Value) : Entering Unit :=
  modify fun s => { s with entries := s.entries ++ [⟨callee, arguments, s.machine.heap⟩] }

/-- Takes down the scope in which the body of a function begins. -/
def begin (f : Closure) (arguments : List Value) (frame : FrameId) : Entering Unit :=
  modify fun s => { s with scopes := s.scopes ++ [⟨f, arguments, frame, s.machine.heap⟩] }

/-- What is taken down. -/
def keeper : Keeper Unit Stop State where
  callNative f arguments paren := do
    enter (.native f) arguments
    body paren (Indexed.native arguments f)
  callArrayMethod id method position arguments := do
    enter (.arrayMethod id method position) arguments
    body position (Indexed.arrayMethod id arguments method)
  newObject cls arguments := do
    enter (.cls cls) arguments
    lift (Exec.updateHeap fun h => h.newObject cls)
  runBody f arguments run := do
    enter (.function f) arguments
    let frame ← lift (Exec.newFrame f.frame (Exec.argumentBindings f.declaration.parameters arguments))
    begin f arguments frame
    inFrame frame (run ())

/-- Runs the statements of a program in order. -/
def executeProgram (steps : Nat) (program : List Stmt) : Entering Unit :=
  keeper.executeProgram steps () program

end Entering

/-- As many arguments are passed as the callee takes. -/
def Entry.Exact (e : Entry) : Prop :=
  Exec.arity? e.heap e.callee = some e.arguments.length

/-- The parameters are bound to arguments; if they have different names, each of them to its own. -/
structure CallScope.Binds (c : CallScope) : Prop where
  bound : ∀ p ∈ c.function.declaration.parameters, ∃ v ∈ c.arguments, c.heap.ownValue? c.frame p.name = some v
  own : (c.function.declaration.parameters.map Ident.name).Nodup →
    ∀ b ∈ c.function.declaration.parameters.zip c.arguments, c.heap.ownValue? c.frame b.1.name = some b.2

/-! ### The scopes of calls -/

section Bindings

variable {pairs : List (Ident × Value)} {bindings : Bindings Value}

theorem lookup_putAll_ne {x : String} (hx : x ∉ pairs.map fun b => b.1.name) :
    (pairs.foldl (fun bindings b => bindings.put b.1.name b.2) bindings).lookup x = bindings.lookup x := by
  induction pairs generalizing bindings with
  | nil => rfl
  | cons b rest ih =>
    obtain ⟨hne, hrest⟩ : x ≠ b.1.name ∧ x ∉ rest.map fun b => b.1.name := by simpa using hx
    rw [List.foldl_cons, ih hrest, Bindings.lookup_put, if_neg hne]

/-- A name that is put has one of the values put under it. -/
theorem lookup_putAll_mem (bindings : Bindings Value) {x : String} (hx : x ∈ pairs.map fun b => b.1.name) :
    ∃ b ∈ pairs, b.1.name = x ∧
      (pairs.foldl (fun bindings b => bindings.put b.1.name b.2) bindings).lookup x = some b.2 := by
  induction pairs generalizing bindings with
  | nil => cases hx
  | cons b rest ih =>
    by_cases hrest : x ∈ rest.map fun b => b.1.name
    · obtain ⟨c, hc, hname, hlookup⟩ := ih (bindings.put b.1.name b.2) hrest
      exact ⟨c, List.mem_cons_of_mem _ hc, hname, hlookup⟩
    · obtain rfl : x = b.1.name := by simpa [hrest] using hx
      refine ⟨b, List.mem_cons_self, rfl, ?_⟩
      rw [List.foldl_cons, lookup_putAll_ne hrest, Bindings.lookup_put, if_pos rfl]

end Bindings

theorem map_name_zip {parameters : List Ident} {arguments : List Value}
    (hlength : arguments.length = parameters.length) :
    (parameters.zip arguments).map (fun b => b.1.name) = parameters.map Ident.name := by
  have hmap := congrArg (List.map Ident.name) (List.map_fst_zip (Nat.le_of_eq hlength.symm))
  rwa [List.map_map] at hmap

/-- The scope of a call that passes enough arguments binds the parameters. -/
theorem binds_newFrame {f : Closure} {arguments : List Value} (h : Heap)
    (hlength : arguments.length = f.declaration.parameters.length) :
    let made := h.newFrame (some f.frame) (Exec.argumentBindings f.declaration.parameters arguments)
    CallScope.Binds ⟨f, arguments, made.1, made.2⟩ := by
  intro made
  have hown : ∀ x, made.2.ownValue? made.1 x =
      (Exec.argumentBindings f.declaration.parameters arguments).lookup x := fun x => by
    simp [made, Heap.newFrame, Heap.ownValue?, Heap.frame?]
  have hnames := map_name_zip hlength
  constructor
  case bound =>
    intro p hp
    obtain ⟨b, hb, -, hlookup⟩ := lookup_putAll_mem []
      (hnames ▸ List.mem_map_of_mem (f := Ident.name) hp)
    exact ⟨b.2, (List.of_mem_zip hb).2, (hown _).trans hlookup⟩
  case own =>
    intro hnodup b hb
    obtain ⟨c, hc, hname, hlookup⟩ := lookup_putAll_mem []
      (List.mem_map_of_mem (f := fun b : Ident × Value => b.1.name) hb)
    obtain rfl : c = b := List.inj_on_of_nodup_map (hnames ▸ hnodup) hc hb hname
    exact (hown _).trans hlookup

namespace Entering

open Account (Follows FollowsFrom)

/-- All that has been taken down is as it should be. -/
structure State.Exact (s : State) : Prop where
  entries : ∀ e ∈ s.entries, e.Exact
  scopes : ∀ c ∈ s.scopes, c.Binds

theorem State.start_exact (m : Machine) : (State.start m).Exact :=
  ⟨by simp [State.start], by simp [State.start]⟩

theorem lift_follows {α : Type} (y : Exec α) : Follows State.Exact (Account.lift y : Entering α) y :=
  .lift (fun _ _ hs => ⟨hs.entries, hs.scopes⟩) y

theorem enter_bind {β : Type} {s : State} {callee : Value} {arguments : List Value} {x : Entering β}
    {y : Exec β} (harity : Exec.arity? s.machine.heap callee = some arguments.length)
    (hx : Follows State.Exact x y) : FollowsFrom State.Exact s (enter callee arguments >>= fun _ => x) y := by
  intro hs
  refine hx { s with entries := s.entries ++ [⟨callee, arguments, s.machine.heap⟩] } ⟨fun e he => ?_, hs.scopes⟩
  rcases List.mem_append.mp he with hold | hnew
  · exact hs.entries e hold
  · obtain rfl := List.mem_singleton.mp hnew
    exact harity

theorem begin_bind {β : Type} {s : State} {f : Closure} {arguments : List Value} {frame : FrameId}
    {x : Entering β} {y : Exec β} (hbinds : CallScope.Binds ⟨f, arguments, frame, s.machine.heap⟩)
    (hx : Follows State.Exact x y) :
    FollowsFrom State.Exact s (begin f arguments frame >>= fun _ => x) y := by
  intro hs
  refine hx { s with scopes := s.scopes ++ [⟨f, arguments, frame, s.machine.heap⟩] } ⟨hs.entries, fun c hc => ?_⟩
  rcases List.mem_append.mp hc with hold | hnew
  · exact hs.scopes c hold
  · obtain rfl := List.mem_singleton.mp hnew
    exact hbinds

/-- A body with all its arguments does what the native function does. -/
theorem native_follows {f : Native} {arguments : List Value} (harity : arguments.length = f.arity) (paren : Position) :
    Follows State.Exact (body paren (Indexed.native arguments f)) (Exec.callNative f arguments paren) := by
  intro s hs
  rw [Indexed.native_eq harity]
  unfold Agree body Exec.callNative EStateM.adaptExcept
  dsimp only [EStateM.run]
  cases f.run arguments s.machine <;> exact ⟨rfl, rfl, hs.entries, hs.scopes⟩

/-- A body with all its arguments does what the method does. -/
theorem arrayMethod_follows {method : ArrayMethod} {arguments : List Value} (harity : arguments.length = method.arity)
    (id : ArrayId) (position : Position) :
    Follows State.Exact (body position (Indexed.arrayMethod id arguments method))
      (Exec.callArrayMethod id method position arguments) := by
  intro s hs
  unfold Agree body Exec.callArrayMethod
  dsimp only [EStateM.run]
  rw [Indexed.arrayMethod_eq id harity]
  cases method.run s.machine.heap id arguments <;> exact ⟨rfl, rfl, hs.entries, hs.scopes⟩

/-- The body of a function begins in a scope that binds its parameters. -/
theorem runBody_follows {f : Closure} {arguments : List Value} {run : Unit → Entering Completion}
    {y : Exec Completion} (hlength : arguments.length = f.declaration.parameters.length)
    (hrun : Follows State.Exact (run ()) y) : Follows State.Exact (keeper.runBody f arguments run) (do
      let frame ← Exec.newFrame f.frame (Exec.argumentBindings f.declaration.parameters arguments)
      Exec.inFrame frame y) := by
  intro s
  refine enter_bind (congrArg some hlength.symm) fun s => ?_
  refine (lift_follows _ s).bind fun frame s' hframe => ?_
  obtain ⟨rfl, hmachine⟩ := EStateM.Result.ok.inj hframe
  have hheap : (s.machine.heap.newFrame _ _).2 = s'.machine.heap := congrArg Machine.heap hmachine
  refine begin_bind ?_ (.inFrame (fun _ _ hs => ⟨hs.entries, hs.scopes⟩) _ hrun)
  rw [← hheap]
  exact binds_newFrame s.machine.heap hlength

theorem keeper_faithful : keeper.Faithful State.Exact where
  put _ _ hs := ⟨hs.entries, hs.scopes⟩
  read _ _ := lift_follows _
  assign _ _ _ := lift_follows _
  property _ _ := lift_follows _
  superMethod _ _ _ _ := lift_follows _
  callNative _ _ paren harity _ := enter_bind (congrArg some harity.symm) (native_follows harity paren)
  callArrayMethod id _ position _ harity _ :=
    enter_bind (congrArg some harity.symm) (arrayMethod_follows harity id position)
  newObject _ cls _ harity := enter_bind harity (lift_follows (Exec.updateHeap fun h => h.newObject cls))
  bindReceiver m object := lift_follows (Exec.updateHeap fun h => h.bind m object)
  runBody _ _ _ _ hlength hrun := runBody_follows hlength (hrun ())
  declareFunction _ _ := .get_bind fun _ => lift_follows _
  superclassOf _ _ _ := lift_follows _
  declareClass _ _ _ _ := lift_follows _
  enterLoop k := .pure k
  endRound _ _ _ := .pure ()
  beginIncrement _ := .pure ()
  signal _ _ := .pure ()
  endStatement _ := .pure ()

theorem executeProgram_follows (steps : Nat) (program : List Stmt) :
    Follows State.Exact (executeProgram steps program) (LoxLang.executeProgram steps program) :=
  keeper_faithful.executeProgram steps () program

end Entering

/-- Whatever the state that a program is run in, each body that it enters gets as many arguments as its callee
takes: those of native functions, methods of arrays, functions, methods with a receiver and classes, and that
of the initializer that a class runs by itself. No body of a native function or of a method of an array looks
at a place where there is no argument, so the program does what it does if the bodies are not watched; and in
the scope that the body of a function begins in, each parameter is bound to an argument, to its own one if
the names differ. -/
theorem bodies_run_with_their_arity (steps : Nat) (program : List Stmt) (m : Machine) :
    ∃ s : Entering.State,
      (match (executeProgram steps program).run m with
        | .ok _ m' =>
          (Entering.executeProgram steps program).run (.start m) = .ok () s ∧ s.machine = m'
        | .error h m' =>
          (Entering.executeProgram steps program).run (.start m) = .error (.halt h) s ∧ s.machine = m') ∧
      (∀ e ∈ s.entries, Exec.arity? e.heap e.callee = some e.arguments.length) ∧
      ∀ c ∈ s.scopes, c.Binds := by
  have h := Entering.executeProgram_follows steps program (.start m) (Entering.State.start_exact m)
  obtain ⟨_, s, _, m', hrun, hplain, h⟩ | ⟨_, s, _, m', hrun, hplain, h⟩ := h.runs
  · have hplain : (executeProgram steps program).run m = .ok _ m' := hplain
    rw [hrun, hplain]
    exact ⟨s, ⟨rfl, h.2.1⟩, h.2.2.entries, h.2.2.scopes⟩
  · have hplain : (executeProgram steps program).run m = .error _ m' := hplain
    obtain ⟨rfl, hmachine, hexact⟩ := h
    rw [hrun, hplain]
    exact ⟨s, ⟨rfl, hmachine⟩, hexact.entries, hexact.scopes⟩

/-- A class and its initializer are entered with the same argument, and each function once. -/
example :
    let program := (parse (tokens "class A \x7b init(x) \x7b\x7d \x7d A(1); abs(-2); array(1).append(3);") 0).statements
    let entered := (Entering.executeProgram 20 program).run (.start (.initial (.ofExplored []) [] default default))
    (match entered with
      | .ok _ s => s.entries.map fun e => e.arguments.length
      | .error _ _ => []) = [1, 1, 1, 1, 1] := by
  decide +kernel

end LoxLang

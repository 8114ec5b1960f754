import LoxLang.Evaluator

/-!
The bodies of native functions and of methods of arrays as they look at their arguments: by place, one after
the other, and no sooner than they need them. A body that looks at a place that its arguments do not have
stops. With as many arguments as it takes, no body does, and it does what the function or method does.
-/

namespace LoxLang

namespace Indexed

/-- Why a body has no value. -/
inductive Stop where
  | fault (f : NativeFault)
  /-- It has looked at a place where there is no argument. -/
  | outOfBounds

end Indexed

/-- A body that looks at its arguments by place. -/
abbrev Indexed := EStateM Indexed.Stop Machine

namespace Indexed

open Native (Answer number string items numbers)
open ArrayMethod (Effect)

variable {α β : Type}

/-- The argument at a place. -/
def argument (arguments : List Value) (place : Nat) : Indexed Value :=
  match arguments[place]? with
  | some v => return v
  | none => throw .outOfBounds

/-- A value, or the fault that there is none. -/
def check : Except NativeFault α → Indexed α
  | .ok a => return a
  | .error f => throw (.fault f)

/-- The value of an answer. -/
def give (answer : Answer) : Indexed Value := fun m =>
  .ok (answer.deliver m.heap).1 { m with heap := (answer.deliver m.heap).2 }

/-- The body of a native function. -/
def native (arguments : List Value) : Native → Indexed Value
  | .abs => do
    let n ← check (number (← argument arguments 0))
    give (.value (.number n.abs))
  | .ceil => do
    let n ← check (number (← argument arguments 0))
    give (.value (.number n.ceil))
  | .floor => do
    let n ← check (number (← argument arguments 0))
    give (.value (.number n.floor))
  | .max => pick Number.maximum
  | .min => pick Number.minimum
  | .divmod => do
    let a ← argument arguments 0
    let b ← argument arguments 1
    let m ← check (number a)
    let n ← check (number b)
    give (.row [.number (m.divmod n).1, .number (m.divmod n).2])
  | .mean => do
    let a ← argument arguments 0
    let ns ← check (numbers (← get).heap a)
    give (.value (.number (← check (Sample.mean ns))))
  | .median => do
    let a ← argument arguments 0
    let ns ← check (numbers (← get).heap a)
    give (.value (.number (← check (Sample.median ns))))
  | .mode => do
    let a ← argument arguments 0
    let h := (← get).heap
    let vs ← check (items h a)
    give (.value (← check (Sample.mode h vs)))
  | .std => do
    let a ← argument arguments 0
    let ns ← check (numbers (← get).heap a)
    give (.value (.float (← check (Sample.deviation ns))))
  | .len => do
    let a ← argument arguments 0
    let n ← check (Native.length (← get).heap a)
    give (.value (.int n))
  | .ord => do
    let n ← check (Native.codePoint (← argument arguments 0))
    give (.value (.int n))
  | .array => do
    match ← argument arguments 0 with
    | .number (.int n) => give (.row (List.replicate n.toInt.toNat .nil))
    | a => throw (.fault (.expected "an integer size" a.typeName))
  | .stringArray => do
    let s ← check (string (← argument arguments 0))
    give (.row (Native.characters s))
  | .str2num => do
    let s ← check (string (← argument arguments 0))
    give (.value (.number (← check (Native.readNumber s))))
  | .reSearch => do
    let p ← check (Native.pattern (← get).regex (← argument arguments 0))
    let text ← check (Native.subject (← argument arguments 1))
    give (.row (Native.matchRow p text (p.first? text)))
  | .reMatch => do
    let p ← check (Native.pattern (← get).regex (← argument arguments 0))
    let text ← check (Native.subject (← argument arguments 1))
    give (.row (Native.matchRow p text ((p.first? text).filter (·.extent.start = 0))))
  | .reFindall => do
    let p ← check (Native.pattern (← get).regex (← argument arguments 0))
    let text ← check (Native.subject (← argument arguments 1))
    match p.groups with
    | 0 => give (.row ((p.all text).map (Native.groupOrEmpty text · 0)))
    | 1 => give (.row ((p.all text).map (Native.groupOrEmpty text · 1)))
    | n => give (.table ((p.all text).map fun m => (List.range n).map fun i => Native.groupOrEmpty text m (i + 1)))
  | .reSub => do
    let p ← check (Native.pattern (← get).regex (← argument arguments 0))
    let replacement ← check (string (← argument arguments 1))
    let template := Native.templateOf replacement.toList
    let text ← check (Native.subject (← argument arguments 2))
    give (.value (.string (String.ofList (p.replaceAll text template))))
  | .clock => do
    let time := (← get).clock.time
    modify fun m => { m with clock := m.clock.next }
    return .float time
  | .input => do
    let prompt ← check (string (← argument arguments 0))
    let line ← EStateM.adaptExcept .fault (Native.readLine prompt)
    return .string line
  | .readText => do
    match ← argument arguments 0 with
    | .string path =>
      match (← get).files.readText path with
      | .ok text => return .string text
      | .error reason => throw (.fault (.unreadable path reason))
    | a => throw (.fault (.expected "a file path" a.typeName))
where
  /-- One of two numbers. -/
  pick (choose : Number → Number → Number) : Indexed Value := do
    let a ← argument arguments 0
    let b ← argument arguments 1
    let m ← check (number a)
    let n ← check (number b)
    give (.value (.number (choose m n)))

/-- The effect of a method on an array with some items. -/
def effect (items : Array Value) (arguments : List Value) : ArrayMethod → Indexed Effect
  | .get => do
    match ← check (ArrayMethod.position items.size (← argument arguments 0)) with
    | some i => return .keep (items[i]?.getD .nil)
    | none => throw (.fault .indexOutOfRange)
  | .set => do
    -- The last argument is taken off before the first one is looked at.
    let v := arguments.getLast?.getD .nil
    match ← check (ArrayMethod.position items.size (← argument arguments.dropLast 0)) with
    | some i => return .change (·.setIfInBounds i v) .nil
    | none => throw (.fault .assignmentOutOfRange)
  | .append => return .change (· ++ arguments.toArray) .nil
  | .appendleft => return .change (arguments.foldl fun items v => #[v] ++ items) .nil
  | .pop =>
    match items.back? with
    | some v => return .change Array.pop v
    | none => throw (.fault .emptyPop)
  | .popleft =>
    match items[0]? with
    | some v => return .change (fun a => a.extract 1 a.size) v
    | none => throw (.fault .emptyPop)
  | .clear => return .change (fun _ => #[]) .nil
  | .reverse => return .change Array.reverse .nil
  | .join => do
    match ← argument arguments 0 with
    | .string separator =>
      let parts ← check (ArrayMethod.strings 0 items.toList)
      return .keep (.string (separator.intercalate parts))
    | v => throw (.fault (.separatorNotText v.typeName))
  | .slice => do
    let start ← check (ArrayMethod.bound (← argument arguments 0))
    let stop ← check (ArrayMethod.bound (← argument arguments 1))
    let step ← check (ArrayMethod.bound (← argument arguments 2))
    if step.getD 1 = 0 then throw (.fault .invalidStep)
    return .slice (ArrayMethod.sliced items.toList (start.getD 0) (stop.getD items.size) (step.getD 1))

/-- The body of a method of an array. -/
def arrayMethod (id : ArrayId) (arguments : List Value) (method : ArrayMethod) : Indexed Value := do
  match ← effect ((← get).heap.items id) arguments method with
  | .keep v => return v
  | .change f v =>
    modify fun m => { m with heap := m.heap.modifyArray id f }
    return v
  | .slice items => give (.row items)

/-! ### Bodies with all their arguments -/

@[simp]
theorem argument_zero (a : Value) (rest : List Value) : argument (a :: rest) 0 = pure a := rfl

@[simp]
theorem argument_succ (a : Value) (rest : List Value) (place : Nat) :
    argument (a :: rest) (place + 1) = argument rest place := rfl

@[simp]
theorem check_pure (a : α) : check (pure a) = pure a := rfl

@[simp]
theorem check_bind (x : Except NativeFault α) (f : α → Except NativeFault β) :
    check (x >>= f) = check x >>= fun a => check (f a) := by
  cases x <;> rfl

@[simp]
theorem check_map (f : α → β) (x : Except NativeFault α) : check (f <$> x) = f <$> check x := by
  cases x <;> rfl

theorem get_bind (f : Machine → Indexed α) (m : Machine) : (get >>= f) m = f m m := rfl

/-- A function that computes its answer gives it or fails with its fault. -/
theorem compute_eq {f : Native} {arguments : List Value} {m : Machine} {answer : Except NativeFault Answer}
    (hrun : f.run arguments m = Native.compute f arguments m)
    (h : Native.answer? m.regex m.heap f arguments = some answer) :
    EStateM.adaptExcept .fault (f.run arguments) m = (check answer >>= give) m := by
  unfold EStateM.adaptExcept
  rw [hrun, Native.compute, h]
  cases answer <;> rfl

theorem native_eq_one (f : Native) (a : Value) (h : f.arity = 1) :
    native [a] f = EStateM.adaptExcept .fault (f.run [a]) := by
  funext m
  cases f with
  | array =>
    cases a with
    | number n => cases n <;> rfl
    | _ => rfl
  | input =>
    cases a with
    | string prompt =>
      change (Value.string <$> EStateM.adaptExcept Stop.fault (Native.readLine prompt)) m =
        EStateM.adaptExcept Stop.fault (Value.string <$> Native.readLine prompt) m
      simp only [Functor.map, EStateM.map, EStateM.adaptExcept]
      cases Native.readLine prompt m <;> rfl
    | _ => rfl
  | readText =>
    cases a with
    | string path =>
      simp only [native, argument_zero, pure_bind, get_bind, EStateM.adaptExcept, Native.run]
      cases m.files.readText path <;> rfl
    | _ => rfl
  | clock | max | min | divmod | reSearch | reMatch | reFindall | reSub => cases h
  | _ =>
    rw [compute_eq rfl rfl]
    simp [native, get_bind]

theorem native_eq_two (f : Native) (a b : Value) (h : f.arity = 2) :
    native [a, b] f = EStateM.adaptExcept .fault (f.run [a, b]) := by
  funext m
  cases f with
  | max | min | divmod =>
    rw [compute_eq rfl rfl]
    simp [native, native.pick]
  | reSearch | reMatch =>
    rw [compute_eq rfl rfl]
    simp [native, Native.searchText, Native.matchText, get_bind]
  | reFindall =>
    rw [compute_eq rfl rfl]
    simp only [native, Native.findAll, argument_zero, argument_succ, pure_bind, check_bind, bind_assoc, get_bind]
    refine congrFun (bind_congr fun p => bind_congr fun text => ?_) m
    generalize p.groups = groups
    rcases groups with _ | _ | n <;> rfl
  | _ => cases h

theorem native_eq_three (f : Native) (a b c : Value) (h : f.arity = 3) :
    native [a, b, c] f = EStateM.adaptExcept .fault (f.run [a, b, c]) := by
  funext m
  cases f with
  | reSub =>
    rw [compute_eq rfl rfl]
    simp [native, Native.substitute, get_bind]
  | _ => cases h

/-- With as many arguments as it takes, a native function does what its body does. -/
theorem native_eq {f : Native} {arguments : List Value} (h : arguments.length = f.arity) :
    native arguments f = EStateM.adaptExcept .fault (f.run arguments) := by
  match arguments, h with
  | [], h =>
    cases f with
    | clock => rfl
    | _ => cases h
  | [a], h => exact native_eq_one f a h.symm
  | [a, b], h => exact native_eq_two f a b h.symm
  | [a, b, c], h => exact native_eq_three f a b c h.symm
  | _ :: _ :: _ :: _ :: _, h => cases f <;> cases h

theorem effect_eq {method : ArrayMethod} {arguments : List Value} (items : Array Value)
    (h : arguments.length = method.arity) :
    effect items arguments method = check (ArrayMethod.effect items method arguments) := by
  match arguments, h with
  | [], h =>
    cases method with
    | pop =>
      simp only [effect, ArrayMethod.effect]
      cases items.back? <;> rfl
    | popleft =>
      simp only [effect, ArrayMethod.effect]
      cases items[0]? <;> rfl
    | clear | reverse => rfl
    | _ => cases h
  | [a], h =>
    cases method with
    | get =>
      simp only [effect, ArrayMethod.effect, argument_zero, pure_bind, check_bind]
      refine bind_congr fun place => ?_
      cases place <;> rfl
    | append => simp [effect, ArrayMethod.effect, check]
    | appendleft => rfl
    | join =>
      cases a with
      | string separator => simp [effect, ArrayMethod.effect]
      | _ => rfl
    | _ => cases h
  | [a, b], h =>
    cases method with
    | set =>
      simp only [effect, ArrayMethod.effect, List.dropLast, argument_zero, pure_bind, check_bind]
      refine bind_congr fun place => ?_
      cases place <;> rfl
    | _ => cases h
  | [a, b, c], h =>
    cases method with
    | slice =>
      simp only [effect, ArrayMethod.effect, argument_zero, argument_succ, pure_bind, check_bind]
      refine bind_congr fun start => bind_congr fun stop => bind_congr fun step => ?_
      split <;> rfl
    | _ => cases h
  | _ :: _ :: _ :: _ :: _, h => cases method <;> cases h

theorem arrayMethod_eq {method : ArrayMethod} {arguments : List Value} (id : ArrayId)
    (h : arguments.length = method.arity) (m : Machine) :
    arrayMethod id arguments method m =
      match method.run m.heap id arguments with
      | .ok (v, heap) => .ok v { m with heap := heap }
      | .error fault => .error (.fault fault) m := by
  rw [arrayMethod, get_bind, effect_eq _ h, ArrayMethod.run]
  cases ArrayMethod.effect (m.heap.items id) method arguments with
  | error f => rfl
  | ok e => cases e <;> rfl

end Indexed

end LoxLang

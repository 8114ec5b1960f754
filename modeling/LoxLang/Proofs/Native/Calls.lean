import LoxLang.Evaluator

/-!
Calls of native functions. A call checks the number of arguments and then hands them on, and a function that
answers from its arguments and the heap changes nothing but the heap; so what a program gets from such a
function is its answer, wherever the call stands and however deep evaluation may still go.
-/

namespace LoxLang

/-- An array holds some integers and nothing else. -/
def Heap.HoldsInts (h : Heap) (id : ArrayId) (ns : List Int64) : Prop :=
  (h.items id).toList = ns.map fun n => .number (.int n)

theorem Heap.items_newArray (h : Heap) (items : Array Value) :
    (h.newArray items).2.items (h.newArray items).1 = items := by
  simp [Heap.items, Heap.newArray]

theorem Heap.holdsInts_newArray (h : Heap) (ns : List Int64) :
    let made := h.newArray (ns.map fun n => .number (.int n)).toArray
    made.2.HoldsInts made.1 ns := by
  dsimp only [HoldsInts]
  rw [Heap.items_newArray]

namespace Native

variable {f : Native} {arguments : List Value} {m m' : Machine} {v : Value}

/-- Every call of the function with these arguments yields a value and a state. -/
def Gives (f : Native) (arguments : List Value) (m : Machine) (v : Value) (m' : Machine) : Prop :=
  ∀ n paren, (call (n + 1) (.native f) arguments paren).run m = .ok v m'

theorem gives_of_run (harity : arguments.length = f.arity) (hrun : f.run arguments m = .ok v m') :
    f.Gives arguments m v m' := by
  intro n paren
  have hcall : (Exec.callNative f arguments paren).run m = .ok v m' := by
    unfold EStateM.run Exec.callNative
    rw [hrun]
  unfold call
  rw [EStateM.run_bind, EStateM.run_get]
  dsimp only [Exec.arity?]
  rw [if_neg (not_not_intro harity)]
  exact hcall

/-- A function that computes its answer gives it, in a heap with the arrays that it asks for. -/
theorem gives_of_answer {a : Answer} (harity : arguments.length = f.arity)
    (hcompute : f.run arguments = compute f arguments) (hanswer : answer? m.regex m.heap f arguments = some (.ok a)) :
    f.Gives arguments m (a.deliver m.heap).1 { m with heap := (a.deliver m.heap).2 } := by
  refine gives_of_run harity ?_
  rw [hcompute]
  unfold compute
  rw [hanswer]

theorem mapM_number_ints (ns : List Int64) :
    (ns.map fun n => Value.number (.int n)).mapM number = .ok (ns.map .int) := by
  induction ns with
  | nil => rfl
  | cons n rest ih =>
    rw [List.map_cons, List.mapM_cons, ih]
    rfl

theorem numbers_ints {h : Heap} {id : ArrayId} {ns : List Int64} (hitems : h.HoldsInts id ns) :
    numbers h (.array id) = .ok (ns.map .int) := by
  change (h.items id).toList.mapM number = .ok (ns.map .int)
  rw [hitems, mapM_number_ints]

/-- Whatever the heap, the function gives this number on an array of these integers. -/
def GivesOnInts (f : Native) (ns : List Int64) (r : Number) : Prop :=
  ∀ (id : ArrayId) (m : Machine), m.heap.HoldsInts id ns → f.Gives [.array id] m (.number r) m

/-- A function that computes a statistic of the numbers in an array gives it. -/
theorem givesOnInts_of_statistic {statistic : List Number → Except NativeFault Number} {ns : List Int64} {r : Number}
    (harity : f.arity = 1) (hcompute : ∀ v, f.run [v] = compute f [v])
    (hanswer : ∀ regex h v, answer? regex h f [v] = some do return .value (.number (← statistic (← numbers h v))))
    (h : statistic (ns.map .int) = .ok r) : f.GivesOnInts ns r := by
  intro id m hitems
  refine gives_of_answer (a := .value (.number r)) harity.symm (hcompute _) ?_
  rw [hanswer, numbers_ints hitems]
  exact congrArg (fun result => some do return Answer.value (.number (← result))) h

/-- There is a heap with such an array. -/
theorem GivesOnInts.exists_gives {ns : List Int64} {r : Number} (h : f.GivesOnInts ns r) :
    ∃ (id : ArrayId) (m : Machine), m.heap.HoldsInts id ns ∧ f.Gives [.array id] m (.number r) m := by
  have hholds := Heap.holdsInts_newArray default ns
  exact ⟨_, { (default : Machine) with heap := _ }, hholds, h _ _ hholds⟩

end Native

end LoxLang

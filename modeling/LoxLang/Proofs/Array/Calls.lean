import LoxLang.Evaluator
import LoxLang.Proofs.Array.Lists

/-!
Calls of the methods of arrays, one after the other, in any heap and with any arguments; arrays may be
shared, and lie in each other or in themselves. What the calls give and leave behind is what is said of a
store of lists, with one list for each array.
-/

namespace LoxLang

open ArrayMethod (Listed outcome)

/-! ### Stores of lists -/

/-- The items of all arrays, as lists. -/
def Heap.lists (h : Heap) : List (List Value) :=
  h.arrays.toList.map Array.toList

/-- The machine with these items in its arrays; nothing else is changed. -/
def Machine.withLists (m : Machine) (lists : List (List Value)) : Machine :=
  { m with heap := { m.heap with arrays := (lists.map List.toArray).toArray } }

/-- A method of an array is looked up by a name and called. -/
structure ArrayCall where
  receiver : ArrayId
  name : Ident
  arguments : List Value
  /-- Where a wrong number of arguments is reported. -/
  paren : Position

/-- What a call does to a store of lists. Only the list of the receiver can change, and where the call fails
none does; a slice is a new list behind the others. -/
inductive Evolves (lists : List (List Value)) (c : ArrayCall) :
    Except Halt Value → List (List Value) → Prop where
  | undefined (hname : ∀ m : ArrayMethod, c.name.name ≠ m.name) :
    Evolves lists c (.error (.failed ⟨c.name.position, .runtime (.undefinedMethod c.name.name), none⟩)) lists
  | arity {m : ArrayMethod} (hname : c.name.name = m.name) (harity : c.arguments.length ≠ m.arity) :
    Evolves lists c (.error (.failed ⟨c.paren, .runtime (.arity m.arity c.arguments.length), none⟩)) lists
  | fault {m : ArrayMethod} {xs f} (hname : c.name.name = m.name) (hxs : lists[c.receiver.index]? = some xs)
    (h : Listed xs m c.arguments (.fault f)) :
    Evolves lists c (.error (.failed ⟨c.name.position, .runtime (.native f), none⟩)) lists
  | answer {m : ArrayMethod} {xs v ys} (hname : c.name.name = m.name)
    (hxs : lists[c.receiver.index]? = some xs) (h : Listed xs m c.arguments (.answer v ys)) :
    Evolves lists c (.ok v) (lists.set c.receiver.index ys)
  | copy {m : ArrayMethod} {xs ys} (hname : c.name.name = m.name) (hxs : lists[c.receiver.index]? = some xs)
    (h : Listed xs m c.arguments (.copy ys)) : Evolves lists c (.ok (.array ⟨lists.length⟩)) (lists ++ [ys])

/-- What calls do to a store of lists one after the other. -/
inductive EvolvesAll :
    List (List Value) → List ArrayCall → List (Except Halt Value) → List (List Value) → Prop where
  | nil {lists} : EvolvesAll lists [] [] lists
  | cons {lists c r lists' rest rs lists''} (h : Evolves lists c r lists')
    (hrest : EvolvesAll lists' rest rs lists'') :
    EvolvesAll lists (c :: rest) (r :: rs) lists''

namespace ArrayCall

/-- The call as programs make it. -/
def run (depth : Nat) (c : ArrayCall) : Exec Value := do
  let f ← Exec.property (.array c.receiver) c.name
  call (depth + 1) f c.arguments c.paren

/-- What a call gives, and the state behind it. -/
def make (depth : Nat) (c : ArrayCall) (m : Machine) : Except Halt Value × Machine :=
  match (c.run depth).run m with
  | .ok v m' => (.ok v, m')
  | .error e m' => (.error e, m')

/-- What calls give one after the other, and the state behind them. A call that fails does not keep the next
one from being made. -/
def makeAll (depth : Nat) : List ArrayCall → Machine → List (Except Halt Value) × Machine
  | [], m => ([], m)
  | c :: rest, m =>
    let (r, m) := c.make depth m
    let (rs, m) := makeAll depth rest m
    (r :: rs, m)

end ArrayCall

/-! ### The arrays of a heap as lists -/

namespace Heap

variable {h : Heap} {id : ArrayId}

theorem lists_getElem? (h : Heap) (i : Nat) : h.lists[i]? = h.arrays[i]?.map Array.toList := by
  rw [lists, List.getElem?_map, Array.getElem?_toList]

theorem lists_items (hid : id.index < h.arrays.size) : h.lists[id.index]? = some (h.items id).toList := by
  rw [lists_getElem?, items, Array.getElem?_eq_getElem hid]
  rfl

theorem items_of_lists {xs : List Value} (hxs : h.lists[id.index]? = some xs) : xs = (h.items id).toList := by
  rw [lists_getElem?] at hxs
  obtain ⟨a, ha, rfl⟩ := Option.map_eq_some_iff.mp hxs
  rw [items, ha, Option.getD_some]

theorem lists_length (h : Heap) : h.lists.length = h.arrays.size := by
  rw [lists, List.length_map, Array.length_toList]

theorem lists_modifyArray (h : Heap) (id : ArrayId) (f : Array Value → Array Value) :
    (h.modifyArray id f).lists = h.lists.set id.index (f (h.items id)).toList := by
  refine List.ext_getElem? fun i => ?_
  rw [lists_getElem?, modifyArray, Array.getElem?_modify, List.getElem?_set, lists_length, lists_getElem?]
  split
  case isTrue hi =>
    subst hi
    unfold items
    by_cases hid : id.index < h.arrays.size
    · rw [Array.getElem?_eq_getElem hid, if_pos hid]
      rfl
    · rw [Array.getElem?_eq_none (Nat.le_of_not_lt hid), if_neg hid]
      rfl
  case isFalse => rfl

theorem lists_set_items (h : Heap) (id : ArrayId) : h.lists.set id.index (h.items id).toList = h.lists := by
  refine List.ext_getElem? fun i => ?_
  rw [List.getElem?_set]
  split
  case isTrue hi =>
    subst hi
    rw [lists_length]
    split
    case isTrue hid => exact (lists_items hid).symm
    case isFalse hid => exact (List.getElem?_eq_none (by rw [lists_length]; omega)).symm
  case isFalse => rfl

theorem lists_newArray (h : Heap) (items : Array Value) :
    (h.newArray items).2.lists = h.lists ++ [items.toList] := by
  rw [lists, newArray, Array.toList_push, List.map_append]
  rfl

end Heap

theorem Machine.withLists_of_arrays {m : Machine} {h : Heap}
    (hrest : h = { m.heap with arrays := h.arrays }) : { m with heap := h } = m.withLists h.lists := by
  have harrays : (h.lists.map List.toArray).toArray = h.arrays := by
    have hsame : List.toArray ∘ Array.toList = (id : Array Value → Array Value) :=
      funext fun _ => Array.toArray_toList
    rw [Heap.lists, List.map_map, hsame, List.map_id, Array.toArray_toList]
  rw [withLists, harrays, ← hrest]

theorem Machine.withLists_self (m : Machine) : m = m.withLists m.heap.lists :=
  withLists_of_arrays rfl

theorem Machine.lists_withLists (m : Machine) (lists : List (List Value)) :
    (m.withLists lists).heap.lists = lists := by
  have hsame : Array.toList ∘ List.toArray = (id : List Value → List Value) := rfl
  rw [withLists, Heap.lists, List.map_map, hsame, List.map_id]

/-! ### One call -/

namespace ArrayMethod

theorem ofName?_eq_some {name : String} {m : ArrayMethod} : ofName? name = some m ↔ name = m.name := by
  constructor
  · intro h
    have hfound := List.find?_some (p := fun m : ArrayMethod => m.name == name) h
    exact (beq_iff_eq.mp hfound).symm
  · rintro rfl
    cases m <;> rfl

theorem ofName?_eq_none {name : String} : ofName? name = none ↔ ∀ m : ArrayMethod, name ≠ m.name := by
  rw [Option.eq_none_iff_forall_ne_some]
  exact forall_congr' fun m => not_congr ofName?_eq_some

theorem Listed.arity {xs : List Value} {m : ArrayMethod} {arguments : List Value} {o : Outcome}
    (h : Listed xs m arguments o) : arguments.length = m.arity := by
  cases h <;> rfl

/-- Only the arrays are touched, and they have the items that the outcome says. -/
theorem run_outcome (h : Heap) (id : ArrayId) (m : ArrayMethod) (arguments : List Value) :
    match outcome (h.items id) m arguments with
    | .answer v ys => ∃ h', run h id m arguments = .ok (v, h') ∧ h' = { h with arrays := h'.arrays } ∧
        h'.lists = h.lists.set id.index ys
    | .copy ys => ∃ h', run h id m arguments = .ok (.array ⟨h.lists.length⟩, h') ∧
        h' = { h with arrays := h'.arrays } ∧ h'.lists = h.lists ++ [ys]
    | .fault f => run h id m arguments = .error f := by
  unfold outcome run
  cases effect (h.items id) m arguments with
  | error f => rfl
  | ok e =>
    cases e with
    | keep v => exact ⟨h, rfl, rfl, (h.lists_set_items id).symm⟩
    | change f v => exact ⟨h.modifyArray id f, rfl, rfl, h.lists_modifyArray id f⟩
    | slice ys =>
      rw [Heap.lists_length]
      exact ⟨(h.newArray ys.toArray).2, rfl, rfl, h.lists_newArray ys.toArray⟩

end ArrayMethod

namespace ArrayCall

variable {depth : Nat} {c : ArrayCall} {m : Machine} {method : ArrayMethod}

theorem make_undefined (hname : ∀ method : ArrayMethod, c.name.name ≠ method.name) :
    c.make depth m =
      (.error (.failed ⟨c.name.position, .runtime (.undefinedMethod c.name.name), none⟩), m) := by
  unfold make run Exec.property
  simp only [ArrayMethod.ofName?_eq_none.mpr hname, EStateM.run_bind]
  rfl

theorem run_named (hname : c.name.name = method.name) :
    c.run depth = call (depth + 1) (.arrayMethod c.receiver method c.name.position) c.arguments c.paren := by
  unfold run Exec.property
  simp only [ArrayMethod.ofName?_eq_some.mpr hname, pure_bind]

theorem make_arity (hname : c.name.name = method.name) (harity : c.arguments.length ≠ method.arity) :
    c.make depth m =
      (.error (.failed ⟨c.paren, .runtime (.arity method.arity c.arguments.length), none⟩), m) := by
  unfold make
  rw [run_named hname, call, EStateM.run_bind, EStateM.run_get]
  dsimp only [Exec.arity?]
  rw [if_pos harity]
  rfl

theorem make_named (hname : c.name.name = method.name) (harity : c.arguments.length = method.arity) :
    c.make depth m = match method.run m.heap c.receiver c.arguments with
      | .ok (v, heap) => (.ok v, { m with heap := heap })
      | .error f => (.error (.failed ⟨c.name.position, .runtime (.native f), none⟩), m) := by
  unfold make
  rw [run_named hname, call, EStateM.run_bind, EStateM.run_get]
  dsimp only [Exec.arity?]
  rw [if_neg (not_not_intro harity)]
  unfold EStateM.run Exec.callArrayMethod
  cases method.run m.heap c.receiver c.arguments <;> rfl

end ArrayCall

/-! ### The store of lists -/

namespace Evolves

variable {c : ArrayCall} {m : Machine} {r r' : Except Halt Value} {lists lists' lists'' : List (List Value)}

/-- A call gives and leaves behind what the store of lists does. -/
theorem make (h : Evolves m.heap.lists c r lists') (depth : Nat) :
    c.make depth m = (r, m.withLists lists') := by
  cases h with
  | undefined hname => rw [ArrayCall.make_undefined hname, ← m.withLists_self]
  | arity hname harity => rw [ArrayCall.make_arity hname harity, ← m.withLists_self]
  | @fault method xs f hname hxs h =>
    rw [Heap.items_of_lists hxs] at h
    have hrun := method.run_outcome m.heap c.receiver c.arguments
    rw [h.outcome_eq] at hrun
    rw [ArrayCall.make_named hname h.arity, show method.run _ _ _ = _ from hrun, ← m.withLists_self]
  | @answer method xs v ys hname hxs h =>
    rw [Heap.items_of_lists hxs] at h
    have hrun := method.run_outcome m.heap c.receiver c.arguments
    rw [h.outcome_eq] at hrun
    obtain ⟨heap, hrun, hrest, hlists⟩ := hrun
    rw [ArrayCall.make_named hname h.arity, hrun, ← hlists, ← Machine.withLists_of_arrays hrest]
  | @copy method xs ys hname hxs h =>
    rw [Heap.items_of_lists hxs] at h
    have hrun := method.run_outcome m.heap c.receiver c.arguments
    rw [h.outcome_eq] at hrun
    obtain ⟨heap, hrun, hrest, hlists⟩ := hrun
    rw [ArrayCall.make_named hname h.arity, hrun, ← hlists, ← Machine.withLists_of_arrays hrest]

/-- The store of lists answers every call of a method of a list that is there. -/
theorem exists_of_lt (c : ArrayCall) (hc : c.receiver.index < lists.length) :
    ∃ r lists', Evolves lists c r lists' := by
  by_cases hname : ∃ m : ArrayMethod, c.name.name = m.name
  · obtain ⟨m, hname⟩ := hname
    by_cases harity : c.arguments.length = m.arity
    · have hxs := List.getElem?_eq_getElem hc
      obtain ⟨o, ho⟩ := ArrayMethod.exists_listed lists[c.receiver.index] m harity
      cases o with
      | answer v ys => exact ⟨_, _, .answer hname hxs ho⟩
      | copy ys => exact ⟨_, _, .copy hname hxs ho⟩
      | fault f => exact ⟨_, _, .fault hname hxs ho⟩
    · exact ⟨_, _, .arity hname harity⟩
  · exact ⟨_, _, .undefined fun m hm => hname ⟨m, hm⟩⟩

theorem others (h : Evolves lists c r lists') {i : Nat} (hi : i ≠ c.receiver.index) (hlt : i < lists.length) :
    lists'[i]? = lists[i]? := by
  cases h with
  | answer => exact List.getElem?_set_ne hi.symm
  | copy => exact List.getElem?_append_left hlt
  | _ => rfl

theorem failed {e : Halt} (h : Evolves lists c (.error e) lists') : lists' = lists := by
  cases h <;> rfl

end Evolves

namespace EvolvesAll

variable {calls : List ArrayCall} {m : Machine} {rs : List (Except Halt Value)}
  {lists lists' : List (List Value)}

/-- Calls one after the other give and leave behind what the store of lists does. -/
theorem makeAll (h : EvolvesAll lists calls rs lists') (hlists : m.heap.lists = lists) (depth : Nat) :
    ArrayCall.makeAll depth calls m = (rs, m.withLists lists') := by
  induction h generalizing m with
  | nil => rw [ArrayCall.makeAll, ← hlists, ← m.withLists_self]
  | cons h _ ih =>
    subst hlists
    rw [ArrayCall.makeAll, h.make depth]
    dsimp only
    rw [ih (m.lists_withLists _)]
    rfl

theorem exists_of_there {depth : Nat} (hthere : ∀ i, (hi : i < calls.length) →
      calls[i].receiver.index < (ArrayCall.makeAll depth (calls.take i) m).2.heap.arrays.size) :
    ∃ rs lists, EvolvesAll m.heap.lists calls rs lists := by
  induction calls generalizing m with
  | nil => exact ⟨[], _, .nil⟩
  | cons c rest ih =>
    have hc : c.receiver.index < m.heap.lists.length := by
      rw [Heap.lists_length]
      exact hthere 0 (Nat.zero_lt_succ _)
    obtain ⟨r, lists', h⟩ := Evolves.exists_of_lt c hc
    have hmake := h.make depth
    have hrest : ∃ rs lists, EvolvesAll (m.withLists lists').heap.lists rest rs lists := by
      refine ih fun i hi => ?_
      have hnext := hthere (i + 1) (Nat.succ_lt_succ hi)
      rw [List.take_succ_cons, ArrayCall.makeAll, hmake] at hnext
      exact hnext
    obtain ⟨rs, lists, hrest⟩ := hrest
    rw [m.lists_withLists] at hrest
    exact ⟨r :: rs, lists, .cons h hrest⟩

end EvolvesAll

/-- Calls of the methods of arrays, whatever the arrays hold and whatever the arguments are, give and leave
behind what a store of lists does, and nothing but the arrays is changed: all that refers to an array sees
what has become of its list. Each call changes the list of its receiver at most, and none if it fails. The
place that an index names is computed without leaving the 64-bit range, and lies in the array. -/
theorem array_calls_refine_lists (depth : Nat) (calls : List ArrayCall) (m : Machine)
    (hthere : ∀ i, (hi : i < calls.length) →
      calls[i].receiver.index < (ArrayCall.makeAll depth (calls.take i) m).2.heap.arrays.size) :
    (∃ rs lists, ArrayCall.makeAll depth calls m = (rs, m.withLists lists) ∧
      ∀ rs' lists', EvolvesAll m.heap.lists calls rs' lists' ↔ rs' = rs ∧ lists' = lists) ∧
    (∀ lists c r lists', Evolves lists c r lists' →
      (∀ i, i ≠ c.receiver.index → i < lists.length → lists'[i]? = lists[i]?) ∧
        ∀ e, r = .error e → lists' = lists) ∧
    ∀ (length : Nat) (n : Int64), Fits length →
      (n < 0 → (n + Int64.ofInt length).toInt = n.toInt + length) ∧
        ArrayMethod.position length (.number (.int n)) =
          .ok ((ArrayMethod.wordPlace (Int64.ofInt length) n).map fun i => i.toInt.toNat) ∧
        ∀ i, ArrayMethod.position length (.number (.int n)) = .ok (some i) → i < length := by
  refine ⟨?_, fun lists c r lists' h => ⟨fun i hi hlt => h.others hi hlt, fun e he => (he ▸ h).failed⟩,
    fun length n hlength => ?_⟩
  · obtain ⟨rs, lists, h⟩ := EvolvesAll.exists_of_there hthere
    have hmade := h.makeAll rfl depth
    refine ⟨rs, lists, hmade, fun rs' lists' => ⟨fun h' => ?_, ?_⟩⟩
    · obtain ⟨hrs, hstate⟩ := Prod.mk.inj ((h'.makeAll rfl depth).symm.trans hmade)
      refine ⟨hrs, ?_⟩
      rw [← m.lists_withLists lists', hstate, m.lists_withLists]
    · rintro ⟨rfl, rfl⟩
      exact h
  · obtain ⟨hsum, hwords⟩ := ArrayMethod.position_words hlength n
    refine ⟨hsum, hwords, fun i hi => ?_⟩
    obtain ⟨place, hplace, hnames⟩ := ArrayMethod.position_int length n
    obtain rfl := Except.ok.inj (hplace.symm.trans hi)
    exact ((hnames i).mp rfl).1

/-- An array that lies in itself, with a number behind. -/
def selfHolding : Machine :=
  { (default : Machine) with heap := { Heap.empty with arrays := #[#[.array ⟨0⟩, .number (.int 1)]] } }

/-- A slice of it, which gets itself as an item; a write in front of the slice; and what the two arrays
share. -/
def sharingCalls : List ArrayCall :=
  let call id name arguments : ArrayCall := ⟨⟨id⟩, ⟨name, default⟩, arguments, default⟩
  [call 0 "slice" [.nil, .nil, .number (.int 9223372036854775807)],
    call 1 "append" [.array ⟨1⟩],
    call 1 "set" [.number (.int (-3)), .nil],
    call 1 "get" [.number (.int (-2))],
    call 0 "popleft" []]

theorem array_calls_refine_lists_sharing :
    ArrayCall.makeAll 0 sharingCalls selfHolding =
      ([.ok (.array ⟨1⟩), .ok .nil,
        .error (.failed ⟨default, .runtime (.native .assignmentOutOfRange), none⟩),
        .ok (.array ⟨0⟩), .ok (.array ⟨0⟩)],
      selfHolding.withLists [[.number (.int 1)], [.array ⟨0⟩, .array ⟨1⟩]]) := by
  obtain ⟨⟨rs, lists, hmade, hlisted⟩, -⟩ := array_calls_refine_lists 0 sharingCalls selfHolding (by decide)
  rw [hmade]
  have hslice : ArrayMethod.Picks [.array ⟨0⟩, .number (.int 1)] 0 2 9223372036854775807 [.array ⟨0⟩] := by
    intro k
    cases k with
    | zero => rfl
    | succ k => rw [if_neg (by simp only [List.length_cons, List.length_nil]; omega)]; rfl
  have hfront : ∀ i, ¬ArrayMethod.Names 2 (-3) i := by
    intro i hi
    have hthree : (-3 : Int64).toInt = -3 := rfl
    unfold ArrayMethod.Names at hi
    omega
  have hevolves : EvolvesAll selfHolding.heap.lists sharingCalls _ _ :=
    .cons (.copy (m := .slice) rfl rfl (.slice .nil .nil (.int rfl) (by decide) hslice)) <|
      .cons (.answer (m := .append) rfl rfl .append) <|
      .cons (.fault (m := .set) rfl rfl (.setOutside hfront)) <|
      .cons (.answer (m := .get) rfl rfl (.get ⟨by decide, .inr ⟨by decide, rfl⟩⟩ rfl)) <|
      .cons (.answer (m := .popleft) rfl rfl (.popleft rfl)) .nil
  obtain ⟨rfl, rfl⟩ := (hlisted _ _).mp hevolves
  rfl

end LoxLang

import LoxLang.Proofs.Number.Integers
import LoxLang.Value.ArrayMethod
import Mathlib.Data.List.Basic

/-!
What the methods of arrays do to lists. An array has the items of a list, and what a method is for is said
of such lists: which item an index names, which items a slice picks, and what each method gives and leaves
behind. The methods do just that, with every fault where the list has no answer.
-/

namespace LoxLang

namespace ArrayMethod

/-! ### Lists -/

/-- An index names a place in a list of some length: from the front, or from the end if it is negative. -/
def Names (length : Nat) (n : Int64) (i : Nat) : Prop :=
  i < length ∧ (n.toInt = i ∨ n.toInt < 0 ∧ n.toInt + length = i)

/-- A value stands for a number of a slice: a natural number for itself, nil for what is taken when none is
given. -/
inductive Bounds (default : Nat) : Value → Nat → Prop where
  | nil : Bounds default .nil default
  | int {n : Int64} {i : Nat} (h : n.toInt = i) : Bounds default (.number (.int n)) i

/-- The items of a list at `start`, `start + step`, … below `stop` and below the length, and no others. -/
def Picks (xs : List Value) (start stop step : Nat) (ys : List Value) : Prop :=
  ∀ k, ys[k]? = if start + k * step < min stop xs.length then xs[start + k * step]? else none

/-- What a method comes to: a value, with the items that the array has then; a new array; or a fault. -/
inductive Outcome where
  | answer (v : Value) (items : List Value)
  | copy (items : List Value)
  | fault (f : NativeFault)

/-- What a method with some arguments comes to on a list. -/
inductive Listed (xs : List Value) : ArrayMethod → List Value → Outcome → Prop where
  | get {n i v} (hplace : Names xs.length n i) (hv : xs[i]? = some v) :
    Listed xs get [.number (.int n)] (.answer v xs)
  | getOutside {n} (hplace : ∀ i, ¬Names xs.length n i) :
    Listed xs get [.number (.int n)] (.fault .indexOutOfRange)
  | getOther {v} (hv : ∀ n, v ≠ .number (.int n)) : Listed xs get [v] (.fault (.indexNotInteger v.typeName))
  | set {n i v} (hplace : Names xs.length n i) :
    Listed xs set [.number (.int n), v] (.answer .nil (xs.set i v))
  | setOutside {n v} (hplace : ∀ i, ¬Names xs.length n i) :
    Listed xs set [.number (.int n), v] (.fault .assignmentOutOfRange)
  | setOther {v w} (hv : ∀ n, v ≠ .number (.int n)) :
    Listed xs set [v, w] (.fault (.indexNotInteger v.typeName))
  | append {v} : Listed xs append [v] (.answer .nil (xs ++ [v]))
  | appendleft {v} : Listed xs appendleft [v] (.answer .nil (v :: xs))
  | pop {v ys} (hxs : xs = ys ++ [v]) : Listed xs pop [] (.answer v ys)
  | popEmpty (hxs : xs = []) : Listed xs pop [] (.fault .emptyPop)
  | popleft {v ys} (hxs : xs = v :: ys) : Listed xs popleft [] (.answer v ys)
  | popleftEmpty (hxs : xs = []) : Listed xs popleft [] (.fault .emptyPop)
  | clear : Listed xs clear [] (.answer .nil [])
  | reverse : Listed xs reverse [] (.answer .nil xs.reverse)
  | join {separator : String} {texts : List String} (hxs : xs = texts.map .string) :
    Listed xs join [.string separator] (.answer (.string (separator.intercalate texts)) xs)
  | joinItem {separator : String} {texts : List String} {v rest} (hxs : xs = texts.map .string ++ v :: rest)
    (hv : ∀ s, v ≠ .string s) :
    Listed xs join [.string separator] (.fault (.itemNotText texts.length v.typeName))
  | joinOther {v} (hv : ∀ s, v ≠ .string s) : Listed xs join [v] (.fault (.separatorNotText v.typeName))
  | slice {a b c start stop step ys} (hstart : Bounds 0 a start) (hstop : Bounds xs.length b stop)
    (hstep : Bounds 1 c step) (hpos : 0 < step) (hys : Picks xs start stop step ys) :
    Listed xs slice [a, b, c] (.copy ys)
  | sliceStep {a b c start stop} (hstart : Bounds 0 a start) (hstop : Bounds xs.length b stop)
    (hstep : Bounds 1 c 0) : Listed xs slice [a, b, c] (.fault .invalidStep)
  | sliceOther {a b c v} (hmem : v ∈ [a, b, c]) (hv : ∀ default i, ¬Bounds default v i) :
    Listed xs slice [a, b, c] (.fault .invalidSliceIndex)

/-! ### Indices -/

theorem position_int (length : Nat) (n : Int64) :
    ∃ place, position length (.number (.int n)) = .ok place ∧ ∀ i, place = some i ↔ Names length n i := by
  refine ⟨_, rfl, fun i => ?_⟩
  unfold Names
  split <;> split <;> simp only [Option.some.injEq, reduceCtorEq, false_iff] <;> omega

theorem position_other (length : Nat) {v : Value} (hv : ∀ n, v ≠ .number (.int n)) :
    position length v = .error (.indexNotInteger v.typeName) := by
  unfold position
  split
  · exact absurd rfl (hv _)
  · rfl

theorem position_of_names {length : Nat} {n : Int64} {i : Nat} (hi : Names length n i) :
    position length (.number (.int n)) = .ok (some i) := by
  obtain ⟨place, hplace, hnames⟩ := position_int length n
  rw [hplace, (hnames i).mpr hi]

theorem position_outside {length : Nat} {n : Int64} (hnone : ∀ i, ¬Names length n i) :
    position length (.number (.int n)) = .ok none := by
  obtain ⟨place, hplace, hnames⟩ := position_int length n
  cases place with
  | none => exact hplace
  | some i => exact absurd ((hnames i).mp rfl) (hnone i)

/-- The place of an index, computed in 64-bit words. -/
def wordPlace (length n : Int64) : Option Int64 :=
  let i := if n < 0 then n + length else n
  if 0 ≤ i ∧ i < length then some i else none

/-- In 64-bit words the place of an index is computed without overflow, if the length itself fits. -/
theorem position_words {length : Nat} (hlength : Fits length) (n : Int64) :
    (n < 0 → (n + Int64.ofInt length).toInt = n.toInt + length) ∧
      position length (.number (.int n)) =
        .ok ((wordPlace (Int64.ofInt length) n).map fun i => i.toInt.toNat) := by
  have hof : (Int64.ofInt length).toInt = length := Number.toInt_ofInt hlength
  have hsum : n < 0 → (n + Int64.ofInt length).toInt = n.toInt + length := by
    intro hn
    have hn : n.toInt < 0 := Int64.lt_iff_toInt_lt.mp hn
    have hfits := fits_toInt n
    rw [Int64.toInt_add, hof]
    exact bmod_of_fits (by unfold Fits at *; omega)
  refine ⟨hsum, ?_⟩
  unfold position wordPlace
  simp only [Int64.lt_iff_toInt_lt, Int64.le_iff_toInt_le, Int64.toInt_zero, hof] at hsum ⊢
  by_cases hn : n.toInt < 0
  · rw [if_pos hn, if_pos hn, hsum hn]
    split
    · rw [Option.map_some, hsum hn]
    · rfl
  · rw [if_neg hn, if_neg hn]
    split <;> rfl

/-! ### Slices -/

theorem bound_of_bounds {default : Nat} {v : Value} {i : Nat} (hi : Bounds default v i) :
    ∃ p, bound v = .ok p ∧ p.getD default = i := by
  cases hi with
  | nil => exact ⟨none, rfl, rfl⟩
  | @int n _ h =>
    refine ⟨some n.toInt.toNat, ?_, ?_⟩
    · rw [bound, if_pos (by omega)]
    · rw [Option.getD_some, h, Int.toNat_natCast]

theorem bound_other {v : Value} (hv : ∀ default i, ¬Bounds default v i) :
    bound v = .error .invalidSliceIndex := by
  unfold bound
  split
  · exact absurd .nil (hv 0 0)
  case h_2 n =>
    rw [if_neg fun hn => hv 0 n.toInt.toNat (.int (by omega))]
  · rfl

theorem bounds_or_other (v : Value) :
    (∀ default, ∃ i, Bounds default v i) ∨ ∀ default i, ¬Bounds default v i := by
  cases v with
  | nil => exact .inl fun default => ⟨default, .nil⟩
  | number x =>
    cases x with
    | int n =>
      by_cases hn : 0 ≤ n.toInt
      · exact .inl fun _ => ⟨n.toInt.toNat, .int (by omega)⟩
      · refine .inr fun _ i h => ?_
        cases h
        omega
    | float x => exact .inr fun _ _ h => by cases h
  | _ => exact .inr fun _ _ h => by cases h

theorem bound_ok_or (v : Value) : (∃ p, bound v = .ok p) ∨ bound v = .error .invalidSliceIndex := by
  rcases bounds_or_other v with hv | hv
  · obtain ⟨p, hp, -⟩ := bound_of_bounds (hv 0).choose_spec
    exact .inl ⟨p, hp⟩
  · exact .inr (bound_other hv)

theorem getElem?_every {step : Nat} (hstep : 0 < step) (wait : Nat) (xs : List Value) (k : Nat) :
    (sliced.every step wait xs)[k]? = xs[wait + k * step]? := by
  induction xs generalizing wait k with
  | nil => cases wait <;> rfl
  | cons v rest ih =>
    cases wait with
    | zero =>
      rw [sliced.every, Nat.zero_add]
      cases k with
      | zero => rw [Nat.zero_mul]; rfl
      | succ k =>
        have hplace : (k + 1) * step = step - 1 + k * step + 1 := by rw [Nat.succ_mul]; omega
        rw [List.getElem?_cons_succ, ih, hplace, List.getElem?_cons_succ]
    | succ wait =>
      rw [sliced.every, ih, Nat.succ_add, List.getElem?_cons_succ]

theorem sliced_picks (xs : List Value) (start stop : Nat) {step : Nat} (hstep : 0 < step) :
    Picks xs start stop step (sliced xs start stop step) := by
  intro k
  rw [sliced, getElem?_every hstep, Nat.zero_add, List.getElem?_drop, List.getElem?_take]
  by_cases hlength : start + k * step < xs.length
  · simp [hlength]
  · rw [List.getElem?_eq_none (Nat.le_of_not_lt hlength)]
    simp

theorem Picks.unique {xs ys zs : List Value} {start stop step : Nat} (hys : Picks xs start stop step ys)
    (hzs : Picks xs start stop step zs) : ys = zs :=
  List.ext_getElem? fun k => (hys k).trans (hzs k).symm

/-! ### Texts -/

theorem strings_map (texts : List String) (i : Nat) : strings i (texts.map .string) = .ok texts := by
  induction texts generalizing i with
  | nil => rfl
  | cons s rest ih =>
    rw [List.map_cons, strings, ih]
    rfl

theorem strings_other (texts : List String) {v : Value} (rest : List Value) (hv : ∀ s, v ≠ .string s)
    (i : Nat) :
    strings i (texts.map .string ++ v :: rest) = .error (.itemNotText (i + texts.length) v.typeName) := by
  induction texts generalizing i with
  | nil =>
    cases v with
    | string s => exact absurd rfl (hv s)
    | _ => rfl
  | cons s texts ih =>
    rw [List.map_cons, List.cons_append, strings, ih, List.length_cons, Nat.add_right_comm, Nat.add_assoc]
    rfl

theorem texts_or_other (xs : List Value) :
    (∃ texts : List String, xs = texts.map .string) ∨
      ∃ (texts : List String) (v : Value) (rest : List Value),
        xs = texts.map .string ++ v :: rest ∧ ∀ s, v ≠ .string s := by
  induction xs with
  | nil => exact .inl ⟨[], rfl⟩
  | cons v rest ih =>
    by_cases hv : ∃ s, v = .string s
    · obtain ⟨s, rfl⟩ := hv
      obtain ⟨texts, rfl⟩ | ⟨texts, w, behind, rfl, hw⟩ := ih
      · exact .inl ⟨s :: texts, rfl⟩
      · exact .inr ⟨s :: texts, w, behind, rfl, hw⟩
    · exact .inr ⟨[], v, rest, rfl, fun s hs => hv ⟨s, hs⟩⟩

/-! ### The methods -/

theorem effect_slice {a b c : Value} {p q r : Option Nat} (items : Array Value) (hp : bound a = .ok p)
    (hq : bound b = .ok q) (hr : bound c = .ok r) :
    effect items slice [a, b, c] = if r.getD 1 = 0 then .error .invalidStep
      else .ok (.slice (sliced items.toList (p.getD 0) (q.getD items.size) (r.getD 1))) := by
  rw [effect, hp, hq, hr]
  rfl

theorem effect_slice_other {a b c v : Value} (items : Array Value) (hmem : v ∈ [a, b, c])
    (hv : bound v = .error .invalidSliceIndex) :
    effect items slice [a, b, c] = .error .invalidSliceIndex := by
  rw [effect]
  rcases bound_ok_or a with ⟨p, hp⟩ | ha
  case inr => rw [ha]; rfl
  rcases bound_ok_or b with ⟨q, hq⟩ | hb
  case inr => rw [hp, hb]; rfl
  rcases bound_ok_or c with ⟨r, hr⟩ | hc
  case inr => rw [hp, hq, hc]; rfl
  simp only [List.mem_cons, List.not_mem_nil, or_false] at hmem
  rcases hmem with rfl | rfl | rfl
  · cases hp.symm.trans hv
  · cases hq.symm.trans hv
  · cases hr.symm.trans hv

/-- What the effect of a method comes to on an array with some items. -/
def outcome (items : Array Value) (m : ArrayMethod) (arguments : List Value) : Outcome :=
  match effect items m arguments with
  | .ok (.keep v) => .answer v items.toList
  | .ok (.change f v) => .answer v (f items).toList
  | .ok (.slice ys) => .copy ys
  | .error f => .fault f

/-- A list has an outcome for every call with as many arguments as the method takes. -/
theorem exists_listed (xs : List Value) (m : ArrayMethod) {arguments : List Value}
    (harity : arguments.length = m.arity) : ∃ o, Listed xs m arguments o := by
  cases m with
  | get =>
    obtain ⟨v, rfl⟩ := List.length_eq_one_iff.mp harity
    by_cases hint : ∃ n, v = .number (.int n)
    · obtain ⟨n, rfl⟩ := hint
      by_cases hplace : ∃ i, Names xs.length n i
      · obtain ⟨i, hi⟩ := hplace
        exact ⟨_, .get hi (List.getElem?_eq_getElem hi.1)⟩
      · exact ⟨_, .getOutside fun i hi => hplace ⟨i, hi⟩⟩
    · exact ⟨_, .getOther fun n hn => hint ⟨n, hn⟩⟩
  | set =>
    obtain ⟨v, w, rfl⟩ := List.length_eq_two.mp harity
    by_cases hint : ∃ n, v = .number (.int n)
    · obtain ⟨n, rfl⟩ := hint
      by_cases hplace : ∃ i, Names xs.length n i
      · obtain ⟨i, hi⟩ := hplace
        exact ⟨_, .set hi⟩
      · exact ⟨_, .setOutside fun i hi => hplace ⟨i, hi⟩⟩
    · exact ⟨_, .setOther fun n hn => hint ⟨n, hn⟩⟩
  | append =>
    obtain ⟨v, rfl⟩ := List.length_eq_one_iff.mp harity
    exact ⟨_, .append⟩
  | appendleft =>
    obtain ⟨v, rfl⟩ := List.length_eq_one_iff.mp harity
    exact ⟨_, .appendleft⟩
  | pop =>
    obtain rfl := List.length_eq_zero_iff.mp harity
    rcases List.eq_nil_or_concat xs with hnil | ⟨ys, v, hxs⟩
    · exact ⟨_, .popEmpty hnil⟩
    · exact ⟨_, .pop (hxs.trans List.concat_eq_append)⟩
  | popleft =>
    obtain rfl := List.length_eq_zero_iff.mp harity
    cases xs with
    | nil => exact ⟨_, .popleftEmpty rfl⟩
    | cons v ys => exact ⟨_, .popleft rfl⟩
  | clear =>
    obtain rfl := List.length_eq_zero_iff.mp harity
    exact ⟨_, .clear⟩
  | reverse =>
    obtain rfl := List.length_eq_zero_iff.mp harity
    exact ⟨_, .reverse⟩
  | join =>
    obtain ⟨v, rfl⟩ := List.length_eq_one_iff.mp harity
    by_cases hstring : ∃ s, v = .string s
    · obtain ⟨s, rfl⟩ := hstring
      obtain ⟨texts, hxs⟩ | ⟨texts, w, rest, hxs, hw⟩ := texts_or_other xs
      · exact ⟨_, .join hxs⟩
      · exact ⟨_, .joinItem hxs hw⟩
    · exact ⟨_, .joinOther fun s hs => hstring ⟨s, hs⟩⟩
  | slice =>
    obtain ⟨a, b, c, rfl⟩ := List.length_eq_three.mp harity
    rcases bounds_or_other a with ha | ha
    case inr => exact ⟨_, .sliceOther (by simp) ha⟩
    rcases bounds_or_other b with hb | hb
    case inr => exact ⟨_, .sliceOther (by simp) hb⟩
    rcases bounds_or_other c with hc | hc
    case inr => exact ⟨_, .sliceOther (by simp) hc⟩
    obtain ⟨start, hstart⟩ := ha 0
    obtain ⟨stop, hstop⟩ := hb xs.length
    obtain ⟨step, hstep⟩ := hc 1
    cases step with
    | zero => exact ⟨_, .sliceStep hstart hstop hstep⟩
    | succ step =>
      have hpos := Nat.zero_lt_succ step
      exact ⟨_, .slice hstart hstop hstep hpos (sliced_picks xs start stop hpos)⟩

/-- The methods do what is said of lists. -/
theorem Listed.outcome_eq {items : Array Value} {m : ArrayMethod} {arguments : List Value} {o : Outcome}
    (h : Listed items.toList m arguments o) : outcome items m arguments = o := by
  have hlength : items.toList.length = items.size := Array.length_toList
  unfold outcome
  cases h with
  | get hplace hv =>
    rw [hlength] at hplace
    rw [Array.getElem?_toList] at hv
    simp only [effect, position_of_names hplace]
    change Outcome.answer (items[_]?.getD .nil) items.toList = _
    rw [hv, Option.getD_some]
  | getOutside hplace =>
    rw [hlength] at hplace
    rw [effect, position_outside hplace]
    rfl
  | getOther hv =>
    rw [effect, position_other _ hv]
    rfl
  | set hplace =>
    rw [hlength] at hplace
    rw [effect, position_of_names hplace]
    exact congrArg _ Array.toList_setIfInBounds
  | setOutside hplace =>
    rw [hlength] at hplace
    rw [effect, position_outside hplace]
    rfl
  | setOther hv =>
    rw [effect, position_other _ hv]
    rfl
  | append => exact congrArg _ Array.toList_push
  | appendleft => exact congrArg _ Array.toList_append
  | @pop v _ hxs =>
    have hlast : items.back? = some v := by
      rw [← Array.getLast?_toList, hxs, List.getLast?_concat]
    simp only [effect, hlast, Array.toList_pop, hxs, List.dropLast_concat]
  | popEmpty hxs =>
    obtain rfl := Array.toList_eq_nil_iff.mp hxs
    rfl
  | @popleft v _ hxs =>
    have hfirst : items[0]? = some v := by
      rw [← Array.getElem?_toList, hxs, List.getElem?_cons_zero]
    have hrest : (items.extract 1 items.size).toList = items.toList.tail := by
      rw [Array.toList_extract, List.extract_eq_take_drop, ← hlength, List.drop_one]
      exact List.take_of_length_le (by simp)
    simp only [effect, hfirst, hrest, hxs, List.tail_cons]
  | popleftEmpty hxs =>
    obtain rfl := Array.toList_eq_nil_iff.mp hxs
    rfl
  | clear => rfl
  | reverse => exact congrArg _ Array.toList_reverse
  | join hxs =>
    rw [effect, hxs, strings_map]
    rfl
  | joinItem hxs hv =>
    rw [effect, hxs, strings_other _ _ hv, Nat.zero_add]
    rfl
  | @joinOther v hv =>
    cases v with
    | string s => exact absurd rfl (hv s)
    | _ => rfl
  | slice hstart hstop hstep hpos hys =>
    obtain ⟨p, hp, rfl⟩ := bound_of_bounds hstart
    obtain ⟨q, hq, rfl⟩ := bound_of_bounds hstop
    obtain ⟨r, hr, rfl⟩ := bound_of_bounds hstep
    rw [hlength] at hys
    simp only [effect_slice items hp hq hr, if_neg (Nat.pos_iff_ne_zero.mp hpos)]
    rw [hys.unique (sliced_picks items.toList _ _ hpos)]
  | sliceStep hstart hstop hstep =>
    obtain ⟨p, hp, -⟩ := bound_of_bounds hstart
    obtain ⟨q, hq, -⟩ := bound_of_bounds hstop
    obtain ⟨r, hr, hzero⟩ := bound_of_bounds hstep
    simp only [effect_slice items hp hq hr, if_pos hzero]
  | sliceOther hmem hv => simp only [effect_slice_other items hmem (bound_other hv)]

end ArrayMethod

end LoxLang

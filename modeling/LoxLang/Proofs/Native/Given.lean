import LoxLang.Proofs.Native.Parametric

/-!
What native functions and methods of arrays give. They make no functions, classes or instances: a value that
they give, or put into an array, is one they were given or found in an array, or it refers to none of these.
So they keep every property of values that all other values have.
-/

namespace LoxLang

/-- A value that refers to no function, class or instance of the program. -/
def Value.Inert : Value → Prop
  | function _ => False
  | cls _ => False
  | object _ => False
  | _ => True

/-- The result is as `P` says, if there is one. -/
def Granted {α : Type} (P : α → Prop) : Except NativeFault α → Prop
  | .ok a => P a
  | .error _ => True

namespace Granted

variable {α β : Type} {P : α → Prop} {Q : β → Prop} {x : Except NativeFault α}
  {f : α → Except NativeFault β}

theorem bind (hx : Granted P x) (hf : ∀ a, P a → Granted Q (f a)) : Granted Q (x >>= f) := by
  cases x with
  | ok a => exact hf a hx
  | error fault => trivial

theorem trivially (x : Except NativeFault α) : Granted (fun _ => True) x := by
  cases x <;> trivial

/-- It makes no difference what the first result is. -/
theorem behind (hf : ∀ a, Granted Q (f a)) : Granted Q (x >>= f) :=
  (trivially x).bind fun a _ => hf a

end Granted

/-- All items of arrays are as `good` says. -/
def Heap.ItemsEach (good : Value → Prop) (h : Heap) : Prop :=
  ∀ a ∈ h.arrays, ∀ v ∈ a, good v

namespace Heap.ItemsEach

variable {good : Value → Prop} {h : Heap}

theorem items (hh : h.ItemsEach good) (id : ArrayId) : ∀ v ∈ h.items id, good v := by
  intro v hv
  unfold Heap.items at hv
  cases hid : h.arrays[id.index]? with
  | none => simp [hid] at hv
  | some a =>
    rw [hid] at hv
    exact hh a (Array.mem_of_getElem? hid) v hv

theorem newArray (hh : h.ItemsEach good) {items : Array Value} (hitems : ∀ v ∈ items, good v) :
    (h.newArray items).2.ItemsEach good := by
  intro a ha
  rcases Array.mem_push.mp ha with ha | rfl
  · exact hh a ha
  · exact hitems

theorem modifyArray (hh : h.ItemsEach good) (id : ArrayId) {f : Array Value → Array Value}
    (hf : ∀ a, (∀ v ∈ a, good v) → ∀ v ∈ f a, good v) : (h.modifyArray id f).ItemsEach good := by
  intro a ha
  obtain ⟨i, hi, rfl⟩ := Array.mem_iff_getElem.mp ha
  have hsize : i < h.arrays.size := by simpa [Heap.modifyArray] using hi
  have hold := hh _ (Array.getElem_mem hsize)
  simp only [Heap.modifyArray, Array.getElem_modify]
  split
  · exact hf _ hold
  · exact hold

end Heap.ItemsEach

variable {good : Value → Prop} {h : Heap} {vs : List Value}

/-! ### Native functions -/

/-- Of values that are as `good` says, the most common one is too. -/
theorem Sample.mode_given (hvs : ∀ v ∈ vs, good v) : Granted good (mode h vs) := by
  have hadd : ∀ (v : Value) (counts : List (Value × Nat)), good v → (∀ c ∈ counts, good c.1) →
      ∀ c ∈ tally.add h v counts, good c.1 := by
    intro v counts hv hcounts
    induction counts with
    | nil => simpa [tally.add] using hv
    | cons entry rest ih =>
      obtain ⟨hentry, hrest⟩ := List.forall_mem_cons.mp hcounts
      unfold tally.add
      split
      · exact List.forall_mem_cons.mpr ⟨hentry, hrest⟩
      · exact List.forall_mem_cons.mpr ⟨hentry, ih hrest⟩
  have htally : ∀ (vs : List Value) (counts : List (Value × Nat)), (∀ v ∈ vs, good v) →
      (∀ c ∈ counts, good c.1) → ∀ c ∈ tally h vs counts, good c.1 := by
    intro vs
    induction vs with
    | nil => exact fun _ _ hcounts => hcounts
    | cons v rest ih =>
      intro counts hvs hcounts
      obtain ⟨hv, hrest⟩ := List.forall_mem_cons.mp hvs
      exact ih _ hrest (hadd v counts hv hcounts)
  have hleading : ∀ (counts : List (Value × Nat)) (best : Option (Value × Nat)),
      (∀ c ∈ counts, good c.1) → (∀ c ∈ best, good c.1) → ∀ c ∈ counts.foldl leading best, good c.1 := by
    intro counts
    induction counts with
    | nil => exact fun _ _ hbest => hbest
    | cons entry rest ih =>
      intro best hcounts hbest
      obtain ⟨hentry, hrest⟩ := List.forall_mem_cons.mp hcounts
      refine ih _ hrest ?_
      intro c hc
      unfold leading at hc
      split at hc
      · exact Option.some.inj hc ▸ hentry
      · split at hc
        · exact Option.some.inj hc ▸ hentry
        · exact Option.some.inj hc ▸ hbest _ rfl
  have hbest := hleading _ none (htally vs [] hvs (by simp)) (by simp)
  unfold mode
  split
  case h_1 hfound => exact hbest _ hfound
  case h_2 => trivial

namespace Native

/-- All values of the answer are as `good` says. -/
def Answer.Each (good : Value → Prop) : Answer → Prop
  | value v => good v
  | row items => ∀ v ∈ items, good v
  | table rows => ∀ row ∈ rows, ∀ v ∈ row, good v

section

variable (hinert : ∀ v : Value, v.Inert → good v)
include hinert

theorem matchRow_given (p : Pattern.Matcher) (text : Array Char) (m : Option Pattern.Match) :
    ∀ v ∈ matchRow p text m, good v := by
  intro v hv
  cases m with
  | none => cases hv
  | some m =>
    obtain ⟨i, _, rfl⟩ := List.mem_map.mp hv
    refine hinert _ ?_
    unfold groupValue
    cases Pattern.groupText? text m i <;> trivial

theorem findAll_given (regex : Pattern.Engine) (p a : Value) : Granted (Answer.Each good) (findAll regex p a) := by
  refine .behind fun p => .behind fun text => ?_
  have hgroup : ∀ (m : Pattern.Match) (i : Nat), good (groupOrEmpty text m i) := fun m i => hinert _ trivial
  have hrow : ∀ (found : List Pattern.Match) (i : Nat),
      ∀ v ∈ found.map (groupOrEmpty text · i), good v := by
    intro found i v hv
    obtain ⟨m, _, rfl⟩ := List.mem_map.mp hv
    exact hgroup m i
  dsimp only
  split
  · exact hrow _ 0
  · exact hrow _ 1
  · intro row hrow v hv
    obtain ⟨m, _, rfl⟩ := List.mem_map.mp hrow
    obtain ⟨i, _, rfl⟩ := List.mem_map.mp hv
    exact hgroup m _

/-- A value computed by arithmetic, or a text. -/
theorem giving_inert {α : Type} {x : Except NativeFault α} {k : α → Value} (hk : ∀ a, (k a).Inert) :
    Granted (Answer.Each good) (do return .value (k (← x))) :=
  .behind fun a => hinert _ (hk a)

/-- What a native function answers was in an array, or refers to no function, class or instance. -/
theorem answer?_given (regex : Pattern.Engine) (hitems : h.ItemsEach good) (f : Native) (vs : List Value) :
    ∀ a ∈ answer? regex h f vs, Granted (Answer.Each good) a := by
  have hitems : ∀ v, Granted (fun vs => ∀ v ∈ vs, good v) (items h v) := by
    intro v
    cases v with
    | array id => exact fun v hv => hitems.items id v (Array.mem_toList_iff.mp hv)
    | _ => trivial
  rcases vs with _ | ⟨a, _ | ⟨b, _ | ⟨c, _ | ⟨d, rest⟩⟩⟩⟩
  case nil => cases f <;> rintro _ ⟨⟩
  case cons.nil =>
    cases f with
    | abs => rintro _ ⟨⟩; exact giving_inert hinert fun _ => trivial
    | ceil => rintro _ ⟨⟩; exact giving_inert hinert fun _ => trivial
    | floor => rintro _ ⟨⟩; exact giving_inert hinert fun _ => trivial
    | mean => rintro _ ⟨⟩; exact .behind fun _ => giving_inert hinert fun _ => trivial
    | median => rintro _ ⟨⟩; exact .behind fun _ => giving_inert hinert fun _ => trivial
    | mode =>
      rintro _ ⟨⟩
      refine (hitems a).bind fun vs hvs => ?_
      exact (Sample.mode_given hvs).bind fun v hv => hv
    | std => rintro _ ⟨⟩; exact .behind fun _ => giving_inert hinert fun _ => trivial
    | len => rintro _ ⟨⟩; exact giving_inert hinert fun _ => trivial
    | ord => rintro _ ⟨⟩; exact giving_inert hinert fun _ => trivial
    | array =>
      have hnils : ∀ (n : Nat), ∀ v ∈ List.replicate n Value.nil, good v := by
        intro n v hv
        rw [List.eq_of_mem_replicate hv]
        exact hinert _ trivial
      cases a with
      | number n =>
        cases n with
        | int n => rintro _ ⟨⟩; exact hnils _
        | float x => rintro _ ⟨⟩; trivial
      | _ => rintro _ ⟨⟩; trivial
    | stringArray =>
      rintro _ ⟨⟩
      refine .behind fun s v hv => ?_
      obtain ⟨c, _, rfl⟩ := List.mem_map.mp hv
      exact hinert _ trivial
    | str2num => rintro _ ⟨⟩; exact .behind fun _ => giving_inert hinert fun _ => trivial
    | _ => rintro _ ⟨⟩
  case cons.cons.nil =>
    cases f with
    | max => rintro _ ⟨⟩; exact .behind fun _ => giving_inert hinert fun _ => trivial
    | min => rintro _ ⟨⟩; exact .behind fun _ => giving_inert hinert fun _ => trivial
    | divmod =>
      rintro _ ⟨⟩
      refine .behind fun x => .behind fun y => ?_
      exact List.forall_mem_cons.mpr ⟨hinert _ trivial, List.forall_mem_singleton.mpr (hinert _ trivial)⟩
    | reSearch => rintro _ ⟨⟩; exact .behind fun _ => .behind fun _ => matchRow_given hinert _ _ _
    | reMatch => rintro _ ⟨⟩; exact .behind fun _ => .behind fun _ => matchRow_given hinert _ _ _
    | reFindall => rintro _ ⟨⟩; exact findAll_given hinert regex a b
    | array =>
      rw [array_none]
      rintro _ ⟨⟩
    | _ => rintro _ ⟨⟩
  case cons.cons.cons.nil =>
    cases f with
    | reSub =>
      rintro _ ⟨⟩
      exact .behind fun _ => .behind fun _ => giving_inert hinert fun _ => trivial
    | array =>
      rw [array_none]
      rintro _ ⟨⟩
    | _ => rintro _ ⟨⟩
  case cons.cons.cons.cons =>
    cases f with
    | array =>
      rw [array_none]
      rintro _ ⟨⟩
    | _ => rintro _ ⟨⟩

/-- The arrays that an answer asks for are made of its values. -/
theorem deliver_given (hitems : h.ItemsEach good) {a : Answer} (ha : a.Each good) :
    good (a.deliver h).1 ∧ (a.deliver h).2.ItemsEach good := by
  have hrows : ∀ (rows : List (List Value)) (made : Array Value × Heap),
      (∀ row ∈ rows, ∀ v ∈ row, good v) → (∀ v ∈ made.1, good v) → made.2.ItemsEach good →
      (∀ v ∈ (rows.foldl Answer.deliverRow made).1, good v) ∧
        (rows.foldl Answer.deliverRow made).2.ItemsEach good := by
    intro rows
    induction rows with
    | nil => exact fun _ _ hids harrays => ⟨hids, harrays⟩
    | cons row rest ih =>
      intro made hall hids harrays
      obtain ⟨hrow, hrest⟩ := List.forall_mem_cons.mp hall
      refine ih _ hrest ?_ (harrays.newArray fun v hv => hrow v (by simpa using hv))
      intro v hv
      rcases Array.mem_push.mp hv with hv | rfl
      · exact hids v hv
      · exact hinert _ trivial
  cases a with
  | value v => exact ⟨ha, hitems⟩
  | row items => exact ⟨hinert _ trivial, hitems.newArray fun v hv => ha v (by simpa using hv)⟩
  | table rows =>
    obtain ⟨hids, harrays⟩ := hrows rows (#[], h) ha (by simp) hitems
    exact ⟨hinert _ trivial, harrays.newArray hids⟩

theorem compute_given {m : Machine} (hitems : m.heap.ItemsEach good) (f : Native) (vs : List Value) :
    Ends (compute f vs) m (fun v m' => good v ∧ m'.heap.ItemsEach good)
      (fun _ m' => m'.heap.ItemsEach good) := by
  have hanswer := answer?_given hinert m.regex hitems f vs
  unfold Ends EStateM.run compute
  split
  case h_1 hresult =>
    split at hresult
    case h_1 a ha =>
      cases hresult
      exact deliver_given hinert hitems (hanswer _ ha)
    case h_2 => cases hresult
    case h_3 =>
      cases hresult
      exact ⟨hinert _ trivial, hitems⟩
  case h_2 hresult =>
    split at hresult
    case h_1 => cases hresult
    case h_2 =>
      cases hresult
      exact hitems
    case h_3 => cases hresult

/-- A native function gives a value that was in an array, or refers to no function, class or instance, and
puts no others into arrays. -/
theorem run_given {m : Machine} (hitems : m.heap.ItemsEach good) (f : Native) (vs : List Value) :
    Ends (f.run vs) m (fun v m' => good v ∧ m'.heap.ItemsEach good)
      (fun _ m' => m'.heap.ItemsEach good) := by
  have hcompute := compute_given hinert hitems f vs
  have hvalue : ∀ {v : Value}, v.Inert → good v ∧ m.heap.ItemsEach good := fun hv =>
    ⟨hinert _ hv, hitems⟩
  cases f with
  | clock => exact hvalue trivial
  | input =>
    rcases vs with _ | ⟨a, _ | ⟨b, rest⟩⟩
    · exact hcompute
    · unfold Ends EStateM.run
      simp only [run]
      cases string a with
      | error fault => exact hitems
      | ok prompt =>
        have hread : Ends (readLine prompt) m (fun _ m' => m'.heap.ItemsEach good)
            (fun _ m' => m'.heap.ItemsEach good) := by
          unfold Ends EStateM.run readLine
          dsimp only
          cases (m.ask prompt).input with
          | nil => exact hitems
          | cons line rest => cases line <;> exact hitems
        have hstring : Ends (Value.string <$> readLine prompt) m
            (fun v m' => good v ∧ m'.heap.ItemsEach good) (fun _ m' => m'.heap.ItemsEach good) := by
          rw [map_eq_pure_bind]
          exact hread.bind fun s m' hm' => Ends.pure ⟨hinert _ trivial, hm'⟩
        exact hstring
    · exact hcompute
  | readText =>
    rcases vs with _ | ⟨a, _ | ⟨b, rest⟩⟩
    · exact hcompute
    · cases a with
      | string path =>
        unfold Ends EStateM.run
        simp only [run]
        cases m.files.readText path with
        | ok text => exact hvalue trivial
        | error reason => exact hitems
      | _ => exact hitems
    · cases a <;> exact hcompute
  | _ => exact hcompute

end

end Native

/-! ### Methods of arrays -/

namespace ArrayMethod

/-- What a method does to an array, and what it answers, brings in no values that are not as `good` says. -/
def Effect.Each (good : Value → Prop) : Effect → Prop
  | keep v => good v
  | change f v => good v ∧ ∀ a, (∀ v ∈ a, good v) → ∀ v ∈ f a, good v
  | slice items => ∀ v ∈ items, good v

theorem every_mem (step wait : Nat) (vs : List Value) : ∀ v ∈ sliced.every step wait vs, v ∈ vs := by
  induction vs generalizing wait with
  | nil =>
    intro v hv
    unfold sliced.every at hv
    exact hv
  | cons first rest ih =>
    intro v hv
    cases wait with
    | zero =>
      rcases List.mem_cons.mp hv with rfl | hv
      · exact List.mem_cons_self
      · exact List.mem_cons_of_mem _ (ih _ v hv)
    | succ wait => exact List.mem_cons_of_mem _ (ih _ v hv)

section

variable (hinert : ∀ v : Value, v.Inert → good v)
include hinert

theorem effect_given {items : Array Value} (hitems : ∀ v ∈ items, good v) (m : ArrayMethod)
    (hvs : ∀ v ∈ vs, good v) : Granted (Effect.Each good) (effect items m vs) := by
  have hnil : good .nil := hinert _ trivial
  have hitem : ∀ i : Nat, good (items[i]?.getD .nil) := by
    intro i
    cases hi : items[i]? with
    | none => exact hnil
    | some v => exact hitems v (Array.mem_of_getElem? hi)
  cases m with
  | pop =>
    cases hback : items.back? with
    | none => simp only [effect, hback]; trivial
    | some v =>
      simp only [effect, hback]
      refine ⟨hitems v (Array.mem_of_back? hback), fun a ha v hv => ?_⟩
      rw [Array.mem_def, Array.toList_pop] at hv
      exact ha v (Array.mem_toList_iff.mp (List.dropLast_subset _ hv))
  | popleft =>
    cases hfirst : items[0]? with
    | none => simp only [effect, hfirst]; trivial
    | some v =>
      simp only [effect, hfirst]
      refine ⟨hitems v (Array.mem_of_getElem? hfirst), fun a ha v hv => ?_⟩
      rw [Array.mem_def, Array.toList_extract, List.extract_eq_take_drop] at hv
      exact ha v (Array.mem_toList_iff.mp (List.mem_of_mem_drop (List.mem_of_mem_take hv)))
  | clear => exact ⟨hnil, fun _ _ v hv => by simp at hv⟩
  | reverse => exact ⟨hnil, fun a ha v hv => ha v (Array.mem_reverse.mp hv)⟩
  | get =>
    rcases vs with _ | ⟨index, _ | ⟨b, rest⟩⟩
    · exact hnil
    · refine .behind fun i => ?_
      cases i with
      | none => trivial
      | some i => exact hitem i
    · exact hnil
  | set =>
    rcases vs with _ | ⟨index, _ | ⟨v, _ | ⟨c, rest⟩⟩⟩
    · exact hnil
    · exact hnil
    · have hv := hvs v (by simp)
      refine .behind fun i => ?_
      cases i with
      | none => trivial
      | some i =>
        refine ⟨hnil, fun a ha w hw => ?_⟩
        rcases Array.mem_or_eq_of_mem_setIfInBounds hw with hw | rfl
        · exact ha w hw
        · exact hv
    · exact hnil
  | append =>
    rcases vs with _ | ⟨v, _ | ⟨b, rest⟩⟩
    · exact hnil
    · have hv := hvs v (by simp)
      refine ⟨hnil, fun a ha w hw => ?_⟩
      rcases Array.mem_push.mp hw with hw | rfl
      · exact ha w hw
      · exact hv
    · exact hnil
  | appendleft =>
    rcases vs with _ | ⟨v, _ | ⟨b, rest⟩⟩
    · exact hnil
    · have hv := hvs v (by simp)
      refine ⟨hnil, fun a ha w hw => ?_⟩
      rcases Array.mem_append.mp hw with hw | hw
      · obtain rfl : w = v := by simpa using hw
        exact hv
      · exact ha w hw
    · exact hnil
  | join =>
    rcases vs with _ | ⟨v, _ | ⟨b, rest⟩⟩
    · exact hnil
    · cases v with
      | string separator => exact .behind fun texts => hinert _ trivial
      | _ => trivial
    · cases v <;> exact hnil
  | slice =>
    rcases vs with _ | ⟨start, _ | ⟨stop, _ | ⟨step, _ | ⟨d, rest⟩⟩⟩⟩
    · exact hnil
    · exact hnil
    · exact hnil
    · refine .behind fun start => .behind fun stop => .behind fun step => ?_
      dsimp only
      split
      · trivial
      · intro v hv
        have hmem := every_mem _ _ _ v hv
        exact hitems v (Array.mem_toList_iff.mp (List.mem_of_mem_take (List.mem_of_mem_drop hmem)))
    · exact hnil

/-- A method of an array gives a value that it was given or that was in the array, or refers to no function,
class or instance, and puts no others into arrays. -/
theorem run_given {h' : Heap} {v : Value} (hitems : h.ItemsEach good) (id : ArrayId) (m : ArrayMethod)
    (hvs : ∀ v ∈ vs, good v) (hrun : run h id m vs = .ok (v, h')) : good v ∧ h'.ItemsEach good := by
  have hgranted : Granted (fun r => good r.1 ∧ r.2.ItemsEach good) (run h id m vs) := by
    refine (effect_given hinert (hitems.items id) m hvs).bind fun e he => ?_
    cases e with
    | keep v => exact ⟨he, hitems⟩
    | change f v => exact ⟨he.1, hitems.modifyArray id he.2⟩
    | slice items => exact ⟨hinert _ trivial, hitems.newArray fun v hv => he v (by simpa using hv)⟩
  rw [hrun] at hgranted
  exact hgranted

end

end ArrayMethod

end LoxLang

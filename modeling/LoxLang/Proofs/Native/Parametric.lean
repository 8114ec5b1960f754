import LoxLang.Proofs.Value.Related

/-!
Native functions on related values: called with related arguments on heaps whose arrays are related, they
give related answers or report one fault, and leave related arrays behind. The most common value of an
array depends on equality too, which therefore has to agree on related values.
-/

namespace LoxLang

variable {C : Closure → Closure → Prop} {P : Position → Position → Prop}

namespace Value

/-- Equality does not tell related values apart. -/
def EqualAgrees (C : Closure → Closure → Prop) (P : Position → Position → Prop) (h h' : Heap) : Prop :=
  ∀ {v v' w w' : Value}, Related C P v v' → Related C P w w' → v.equal h w = v'.equal h' w'

end Value

open Value (Related)

/-! ### Statistics -/

namespace Sample

/-- Counts of related values. -/
def CountsRelated (C : Closure → Closure → Prop) (P : Position → Position → Prop) :
    List (Value × Nat) → List (Value × Nat) → Prop :=
  List.Forall₂ fun a b => Related C P a.1 b.1 ∧ a.2 = b.2

theorem add_related {h h' : Heap} (hequal : Value.EqualAgrees C P h h') {v w : Value}
    {counts counts' : List (Value × Nat)} (hvw : Related C P v w)
    (hcounts : CountsRelated C P counts counts') :
    CountsRelated C P (tally.add h v counts) (tally.add h' w counts') := by
  induction hcounts with
  | nil => exact .cons ⟨hvw, rfl⟩ .nil
  | @cons a b as bs hab hrest ih =>
    simp only [tally.add, hequal hab.1 hvw]
    split
    · exact .cons ⟨hab.1, congrArg (· + 1) hab.2⟩ hrest
    · exact .cons hab ih

theorem tally_related {h h' : Heap} (hequal : Value.EqualAgrees C P h h') {vs ws : List Value}
    (hvs : List.Forall₂ (Related C P) vs ws) {counts counts' : List (Value × Nat)}
    (hcounts : CountsRelated C P counts counts') :
    CountsRelated C P (tally h vs counts) (tally h' ws counts') := by
  induction hvs generalizing counts counts' with
  | nil => exact hcounts
  | cons hvw _ ih => exact ih (add_related hequal hvw hcounts)

theorem leading_related {best best' : Option (Value × Nat)} {entry entry' : Value × Nat}
    (hbest : Option.Rel (fun a b => Related C P a.1 b.1 ∧ a.2 = b.2) best best')
    (hentry : Related C P entry.1 entry'.1 ∧ entry.2 = entry'.2) :
    Option.Rel (fun a b => Related C P a.1 b.1 ∧ a.2 = b.2) (leading best entry)
      (leading best' entry') := by
  cases hbest with
  | none => exact .some hentry
  | some hab =>
    simp only [leading, hab.2, hentry.2]
    split
    · exact .some hentry
    · exact .some hab

theorem mode_related {h h' : Heap} (hequal : Value.EqualAgrees C P h h') {vs ws : List Value}
    (hvs : List.Forall₂ (Related C P) vs ws) :
    Answering (Related C P) (mode h vs) (mode h' ws) := by
  have hcounts : CountsRelated C P (tally h vs []) (tally h' ws []) :=
    tally_related hequal hvs .nil
  have hfold : ∀ {as bs : List (Value × Nat)}, CountsRelated C P as bs →
      ∀ {best best' : Option (Value × Nat)},
        Option.Rel (fun a b => Related C P a.1 b.1 ∧ a.2 = b.2) best best' →
        Option.Rel (fun a b => Related C P a.1 b.1 ∧ a.2 = b.2) (as.foldl leading best)
          (bs.foldl leading best') := by
    intro as bs hall
    induction hall with
    | nil => exact fun h => h
    | cons hab _ ih => exact fun h => ih (leading_related h hab)
  have hbest := hfold hcounts Option.Rel.none
  unfold mode
  generalize (tally h vs []).foldl leading none = best at hbest
  generalize (tally h' ws []).foldl leading none = best' at hbest
  cases hbest with
  | none => exact .error _
  | some hab => exact .ok hab.1

end Sample

namespace Native

/-! ### Arguments and answers -/

theorem number_related {v w : Value} (h : Related C P v w) : number v = number w := by
  cases h <;> rfl

theorem string_related {v w : Value} (h : Related C P v w) : string v = string w := by
  cases h <;> rfl

theorem items_related {h h' : Heap} (harrays : h.ArraysRelated C P h') {v w : Value}
    (hvw : Related C P v w) : Answering (List.Forall₂ (Related C P)) (items h v) (items h' w) := by
  cases hvw with
  | @data v hdata =>
    cases v with
    | array id => exact .ok (harrays.items id)
    | _ => exact .error _
  | function => exact .error _
  | arrayMethod => exact .error _

theorem numbers_related {h h' : Heap} (harrays : h.ArraysRelated C P h') {v w : Value}
    (hvw : Related C P v w) : numbers h v = numbers h' w := by
  have hmap : ∀ {vs ws : List Value}, List.Forall₂ (Related C P) vs ws →
      vs.mapM number = ws.mapM number := by
    intro vs ws hall
    induction hall with
    | nil => rfl
    | cons hab _ ih => rw [List.mapM_cons, List.mapM_cons, number_related hab, ih]
  have hitems := items_related harrays hvw
  unfold numbers
  generalize items h v = xs at hitems
  generalize items h' w = ys at hitems
  cases hitems with
  | ok hall => exact hmap hall
  | error fault => rfl

theorem length_related {h h' : Heap} (harrays : h.ArraysRelated C P h') {v w : Value}
    (hvw : Related C P v w) : length h v = length h' w := by
  cases hvw with
  | @data v hdata =>
    cases v with
    | array id => exact congrArg Except.ok (by simpa using (harrays.items id).length_eq)
    | _ => rfl
  | function => rfl
  | arrayMethod => rfl

theorem codePoint_related {v w : Value} (h : Related C P v w) : codePoint v = codePoint w := by
  cases h <;> rfl

/-- Answers with related values. -/
inductive Answer.Related (C : Closure → Closure → Prop) (P : Position → Position → Prop) :
    Answer → Answer → Prop where
  | value {v w : Value} (h : v.Related C P w) : Related C P (value v) (value w)
  | row {vs ws : List Value} (h : List.Forall₂ (Value.Related C P) vs ws) :
      Related C P (row vs) (row ws)
  | table {rows rows' : List (List Value)}
      (h : List.Forall₂ (List.Forall₂ (Value.Related C P)) rows rows') :
      Related C P (table rows) (table rows')

/-- Values without code are related to themselves. -/
theorem row_related {vs : List Value} (h : ∀ v ∈ vs, v.IsData) :
    List.Forall₂ (Value.Related C P) vs vs := by
  rw [List.forall₂_same]
  exact fun v hv => .data (h v hv)

theorem data_related {v : Value} (h : v.IsData) : (Answer.value v).Related C P (.value v) :=
  .value (.data h)

theorem characters_isData (s : String) : ∀ v ∈ characters s, v.IsData := by
  intro v hv
  obtain ⟨c, _, rfl⟩ := List.mem_map.mp hv
  trivial

theorem groupValue_isData (text : Array Char) (m : Pattern.Match) (i : Nat) :
    (groupValue text m i).IsData := by
  unfold groupValue
  cases Pattern.groupText? text m i <;> trivial

theorem matchRow_isData (p : Pattern.Matcher) (text : Array Char) (m : Option Pattern.Match) :
    ∀ v ∈ matchRow p text m, v.IsData := by
  intro v hv
  cases m with
  | none => cases hv
  | some m =>
    obtain ⟨i, _, rfl⟩ := List.mem_map.mp hv
    exact groupValue_isData text m i

/-! ### Searching -/

theorem pattern_related (regex : Pattern.Engine) {v w : Value} (h : Related C P v w) :
    pattern regex v = pattern regex w := by
  rw [pattern, pattern, string_related h]

theorem subject_related {v w : Value} (h : Related C P v w) : subject v = subject w := by
  rw [subject, subject, string_related h]

theorem searchText_related (regex : Pattern.Engine) {p p' a a' : Value} (hp : Related C P p p') (ha : Related C P a a') :
    Answering (Answer.Related C P) (searchText regex p a) (searchText regex p' a') := by
  refine Answering.bind_same (pattern_related regex hp) fun pattern => ?_
  refine Answering.bind_same (subject_related ha) fun text => ?_
  exact .ok (.row (row_related (matchRow_isData _ _ _)))

theorem matchText_related (regex : Pattern.Engine) {p p' a a' : Value} (hp : Related C P p p') (ha : Related C P a a') :
    Answering (Answer.Related C P) (matchText regex p a) (matchText regex p' a') := by
  refine Answering.bind_same (pattern_related regex hp) fun pattern => ?_
  refine Answering.bind_same (subject_related ha) fun text => ?_
  exact .ok (.row (row_related (matchRow_isData _ _ _)))

theorem findAll_related (regex : Pattern.Engine) {p p' a a' : Value} (hp : Related C P p p') (ha : Related C P a a') :
    Answering (Answer.Related C P) (findAll regex p a) (findAll regex p' a') := by
  refine Answering.bind_same (pattern_related regex hp) fun pattern => ?_
  refine Answering.bind_same (subject_related ha) fun text => ?_
  have hrow : ∀ (found : List Pattern.Match) (i : Nat), List.Forall₂ (Related C P)
      (found.map (groupOrEmpty text · i)) (found.map (groupOrEmpty text · i)) := by
    intro found i
    refine row_related fun v hv => ?_
    obtain ⟨m, _, rfl⟩ := List.mem_map.mp hv
    trivial
  split
  · exact .ok (.row (hrow _ 0))
  · exact .ok (.row (hrow _ 1))
  · refine .ok (.table (List.forall₂_same.mpr fun row hrow => row_related fun v hv => ?_))
    obtain ⟨m, _, rfl⟩ := List.mem_map.mp hrow
    obtain ⟨i, _, rfl⟩ := List.mem_map.mp hv
    trivial

theorem substitute_related (regex : Pattern.Engine) {p p' r r' a a' : Value} (hp : Related C P p p') (hr : Related C P r r')
    (ha : Related C P a a') :
    Answering (Answer.Related C P) (substitute regex p r a) (substitute regex p' r' a') := by
  refine Answering.bind_same (pattern_related regex hp) fun pattern => ?_
  refine Answering.bind_same (string_related hr) fun replacement => ?_
  refine Answering.bind_same (subject_related ha) fun text => ?_
  exact .ok (data_related trivial)

/-! ### Calls -/

section Calls

variable {h h' : Heap}

/-- A value of plain data, computed on both sides in the same way. -/
theorem giving_data {α : Type} {x y : Except NativeFault α} {k : α → Value} (hxy : x = y)
    (hk : ∀ a, (k a).IsData) :
    Answering (Answer.Related C P) (do return .value (k (← x))) (do return .value (k (← y))) :=
  Answering.bind_same hxy fun a => .ok (data_related (hk a))

/-- Arrays of nils, if the argument is a size. -/
theorem array_related (regex : Pattern.Engine) {v w : Value} (h₁ : Related C P v w) :
    Option.Rel (Answering (Answer.Related C P)) (answer? regex h array [v]) (answer? regex h' array [w]) := by
  cases h₁ with
  | @data v hv =>
    cases v with
    | number n =>
      cases n with
      | int n =>
        refine .some (.ok (.row (row_related fun v hv => ?_)))
        rw [List.eq_of_mem_replicate hv]
        trivial
      | float x => exact .some (.error _)
    | function f => cases hv
    | arrayMethod id m p => cases hv
    | _ => exact .some (.error _)
  | function => exact .some (.error _)
  | arrayMethod => exact .some (.error _)

theorem array_none (regex : Pattern.Engine) (h : Heap) (a b : Value) (rest : List Value) :
    answer? regex h array (a :: b :: rest) = none := by
  cases a with
  | number n => cases n <;> rfl
  | _ => rfl

theorem answer?_related (regex : Pattern.Engine) (harrays : h.ArraysRelated C P h')
    (hequal : Value.EqualAgrees C P h h') (f : Native) {vs ws : List Value} (hargs : List.Forall₂ (Related C P) vs ws) :
    Option.Rel (Answering (Answer.Related C P)) (answer? regex h f vs) (answer? regex h' f ws) := by
  cases hargs with
  | nil => cases f <;> exact .none
  | @cons a a' _ _ ha hrest =>
  cases hrest with
  | nil =>
    cases f with
    | abs => exact .some (giving_data (number_related ha) fun _ => trivial)
    | ceil => exact .some (giving_data (number_related ha) fun _ => trivial)
    | floor => exact .some (giving_data (number_related ha) fun _ => trivial)
    | mean =>
      exact .some (Answering.bind_same (numbers_related harrays ha) fun _ =>
        giving_data rfl fun _ => trivial)
    | median =>
      exact .some (Answering.bind_same (numbers_related harrays ha) fun _ =>
        giving_data rfl fun _ => trivial)
    | mode =>
      exact .some ((items_related harrays ha).bind fun _ _ hall =>
        (Sample.mode_related hequal hall).bind fun _ _ hvw => .ok (Answer.Related.value hvw))
    | std =>
      exact .some (Answering.bind_same (numbers_related harrays ha) fun _ =>
        giving_data rfl fun _ => trivial)
    | len => exact .some (giving_data (length_related harrays ha) fun _ => trivial)
    | ord => exact .some (giving_data (codePoint_related ha) fun _ => trivial)
    | array => exact array_related regex ha
    | stringArray =>
      exact .some (Answering.bind_same (string_related ha) fun s =>
        .ok (.row (row_related (characters_isData s))))
    | str2num =>
      exact .some (Answering.bind_same (string_related ha) fun _ =>
        giving_data rfl fun _ => trivial)
    | _ => exact .none
  | @cons b b' _ _ hb hrest =>
  cases hrest with
  | nil =>
    cases f with
    | max =>
      exact .some (Answering.bind_same (number_related ha) fun _ =>
        giving_data (number_related hb) fun _ => trivial)
    | min =>
      exact .some (Answering.bind_same (number_related ha) fun _ =>
        giving_data (number_related hb) fun _ => trivial)
    | divmod =>
      refine .some (Answering.bind_same (number_related ha) fun x =>
        Answering.bind_same (number_related hb) fun y => .ok (.row (row_related ?_)))
      intro v hv
      rcases List.mem_pair.mp hv with rfl | rfl <;> trivial
    | reSearch => exact .some (searchText_related regex ha hb)
    | reMatch => exact .some (matchText_related regex ha hb)
    | reFindall => exact .some (findAll_related regex ha hb)
    | array =>
      rw [array_none, array_none]
      exact .none
    | _ => exact .none
  | @cons c c' _ _ hc hrest =>
  cases hrest with
  | nil =>
    cases f with
    | reSub => exact .some (substitute_related regex ha hb hc)
    | array =>
      rw [array_none, array_none]
      exact .none
    | _ => exact .none
  | cons hd hrest =>
    cases f with
    | array =>
      rw [array_none, array_none]
      exact .none
    | _ => exact .none

theorem deliverRow_related {made made' : Array Value × Heap} {row row' : List Value}
    (hids : List.Forall₂ (Related C P) made.1.toList made'.1.toList)
    (harrays : made.2.ArraysRelated C P made'.2) (hrow : List.Forall₂ (Related C P) row row') :
    List.Forall₂ (Related C P) (Answer.deliverRow made row).1.toList
        (Answer.deliverRow made' row').1.toList ∧
      (Answer.deliverRow made row).2.ArraysRelated C P (Answer.deliverRow made' row').2 := by
  obtain ⟨hid, hnew⟩ := harrays.newArray (a := row.toArray) (b := row'.toArray) hrow
  refine ⟨?_, hnew⟩
  simp only [Answer.deliverRow, hid, Array.toList_push]
  exact List.rel_append hids (.cons (.data trivial) .nil)

theorem deliver_related (harrays : h.ArraysRelated C P h') {a a' : Answer}
    (ha : Answer.Related C P a a') :
    Related C P (a.deliver h).1 (a'.deliver h').1 ∧
      (a.deliver h).2.ArraysRelated C P (a'.deliver h').2 := by
  have hrows : ∀ {rows rows' : List (List Value)},
      List.Forall₂ (List.Forall₂ (Related C P)) rows rows' →
      ∀ made made' : Array Value × Heap,
        List.Forall₂ (Related C P) made.1.toList made'.1.toList →
        made.2.ArraysRelated C P made'.2 →
        List.Forall₂ (Related C P) (rows.foldl Answer.deliverRow made).1.toList
            (rows'.foldl Answer.deliverRow made').1.toList ∧
          (rows.foldl Answer.deliverRow made).2.ArraysRelated C P
            (rows'.foldl Answer.deliverRow made').2 := by
    intro rows rows' hall
    induction hall with
    | nil => exact fun _ _ hids harrays => ⟨hids, harrays⟩
    | cons hrow _ ih =>
      intro made made' hids harrays
      obtain ⟨hids, harrays⟩ := deliverRow_related hids harrays hrow
      exact ih _ _ hids harrays
  have hmake : ∀ {h h' : Heap} (items items' : Array Value), h.ArraysRelated C P h' →
      List.Forall₂ (Related C P) items.toList items'.toList →
      Related C P (.array (h.newArray items).1) (.array (h'.newArray items').1) ∧
        (h.newArray items).2.ArraysRelated C P (h'.newArray items').2 := by
    intro h h' items items' harrays hitems
    obtain ⟨hid, hnew⟩ := harrays.newArray hitems
    exact ⟨hid ▸ .data trivial, hnew⟩
  cases ha with
  | value hvw => exact ⟨hvw, harrays⟩
  | @row vs ws hall => exact hmake vs.toArray ws.toArray harrays hall
  | table hall =>
    obtain ⟨hitems, htable⟩ := hrows hall (#[], h) (#[], h') .nil harrays
    exact hmake _ _ htable hitems

theorem deliver_heap (h : Heap) (a : Answer) :
    (a.deliver h).2 = { h with arrays := (a.deliver h).2.arrays } := by
  have hrows : ∀ (rows : List (List Value)) (made : Array Value × Heap),
      (rows.foldl Answer.deliverRow made).2 =
        { made.2 with arrays := (rows.foldl Answer.deliverRow made).2.arrays } := by
    intro rows
    induction rows with
    | nil => exact fun _ => rfl
    | cons row rest ih => exact fun made => ih (Answer.deliverRow made row)
  cases a with
  | value v => rfl
  | row items => rfl
  | table rows =>
    have h' := hrows rows (#[], h)
    simp only [Answer.deliver, Heap.newArray]
    rw [h']

end Calls

/-- Machines on which a native function does the same: their arrays are related, and they have the same
surroundings. One of them had written some text before the other began. -/
structure Beside (C : Closure → Closure → Prop) (P : Position → Position → Prop) (earlier : Array Written)
    (m n : Machine) : Prop where
  arrays : m.heap.ArraysRelated C P n.heap
  output : n.output = earlier ++ m.output
  input : m.input = n.input
  files : m.files = n.files
  clock : m.clock = n.clock
  regex : m.regex = n.regex

/-- The machines after a native function: only arrays, output, input and the clock have changed. -/
structure Leaves (C : Closure → Closure → Prop) (P : Position → Position → Prop) (earlier : Array Written)
    (m n m' n' : Machine) : Prop where
  left : m' = { m with
    heap.arrays := m'.heap.arrays, output := m'.output, input := m'.input, clock := m'.clock }
  right : n' = { n with
    heap.arrays := n'.heap.arrays, output := n'.output, input := n'.input, clock := n'.clock }
  beside : Beside C P earlier m' n'

section Running

variable {earlier : Array Written} {m n : Machine} {vs ws : List Value}

theorem Beside.stay (h : Beside C P earlier m n) : Leaves C P earlier m n m n := ⟨rfl, rfl, h⟩

theorem compute_related (h : Beside C P earlier m n) (hequal : Value.EqualAgrees C P m.heap n.heap)
    (f : Native) (hargs : List.Forall₂ (Related C P) vs ws) :
    Agree (compute f vs) (compute f ws) m n
      (fun v m' w n' => Related C P v w ∧ Leaves C P earlier m n m' n')
      (fun e m' e' n' => e = e' ∧ Leaves C P earlier m n m' n') := by
  have hanswer : Option.Rel (Answering (Answer.Related C P)) (answer? m.regex m.heap f vs)
      (answer? n.regex n.heap f ws) := h.regex ▸ answer?_related m.regex h.arrays hequal f hargs
  unfold Agree EStateM.run compute
  generalize answer? m.regex m.heap f vs = a at hanswer
  generalize answer? n.regex n.heap f ws = a' at hanswer
  cases hanswer with
  | none => exact ⟨.data trivial, h.stay⟩
  | some hanswer =>
    cases hanswer with
    | error fault => exact ⟨rfl, h.stay⟩
    | @ok a a' ha =>
      obtain ⟨hvalue, harrays⟩ := deliver_related h.arrays ha
      refine ⟨hvalue, ?_, ?_, { h with arrays := harrays }⟩
      · exact congrArg (fun heap => { m with heap := heap }) (deliver_heap m.heap a)
      · exact congrArg (fun heap => { n with heap := heap }) (deliver_heap n.heap a')

theorem readLine_related (h : Beside C P earlier m n) (prompt : String) :
    Agree (readLine prompt) (readLine prompt) m n
      (fun s m' s' n' => s = s' ∧ Leaves C P earlier m n m' n')
      (fun e m' e' n' => e = e' ∧ Leaves C P earlier m n m' n') := by
  have hask : (n.ask prompt).output = earlier ++ (m.ask prompt).output := by
    simp only [Machine.ask, h.output, Array.push_append]
  have hm : (m.ask prompt).input = m.input := rfl
  have hn : (n.ask prompt).input = m.input := h.input.symm
  unfold Agree EStateM.run readLine
  simp only [hm, hn]
  cases hlines : m.input with
  | nil => exact ⟨rfl, rfl, rfl, { h with output := hask }⟩
  | cons line rest => cases line <;> exact ⟨rfl, rfl, rfl, { h with output := hask, input := rfl }⟩

/-- A native function cannot tell related arguments apart. -/
theorem run_related (h : Beside C P earlier m n) (hequal : Value.EqualAgrees C P m.heap n.heap)
    (f : Native) (hargs : List.Forall₂ (Related C P) vs ws) :
    Agree (f.run vs) (f.run ws) m n
      (fun v m' w n' => Related C P v w ∧ Leaves C P earlier m n m' n')
      (fun e m' e' n' => e = e' ∧ Leaves C P earlier m n m' n') := by
  have hcompute := compute_related h hequal f hargs
  cases f with
  | clock =>
    refine ⟨?_, rfl, rfl, { h with clock := congrArg Clock.next h.clock }⟩
    rw [h.clock]
    exact .data trivial
  | input =>
    cases hargs with
    | nil => exact hcompute
    | @cons a b _ _ hab hrest =>
      cases hrest with
      | cons => exact hcompute
      | nil =>
        unfold Agree EStateM.run
        simp only [run, string_related hab]
        cases string b with
        | error fault => exact ⟨rfl, h.stay⟩
        | ok prompt =>
          have hread : Agree (Value.string <$> readLine prompt) (Value.string <$> readLine prompt)
              m n (fun v m' w n' => Related C P v w ∧ Leaves C P earlier m n m' n')
              (fun e m' e' n' => e = e' ∧ Leaves C P earlier m n m' n') := by
            rw [map_eq_pure_bind]
            refine (readLine_related h prompt).bind ?_
            rintro s m' _ n' ⟨rfl, hleaves⟩
            exact Agree.pure ⟨.data trivial, hleaves⟩
          exact hread
  | readText =>
    cases hargs with
    | nil => exact hcompute
    | @cons a b _ _ hab hrest =>
      cases hrest with
      | cons =>
        cases hab with
        | data hdata => cases a <;> exact hcompute
        | function => exact hcompute
        | arrayMethod => exact hcompute
      | nil =>
        cases hab with
        | function => exact ⟨rfl, h.stay⟩
        | arrayMethod => exact ⟨rfl, h.stay⟩
        | data hdata =>
          cases a with
          | string path =>
            unfold Agree EStateM.run
            simp only [run, h.files]
            cases n.files.readText path with
            | ok text => exact ⟨.data trivial, h.stay⟩
            | error reason => exact ⟨rfl, h.stay⟩
          | function f => cases hdata
          | arrayMethod id method p => cases hdata
          | _ => exact ⟨rfl, h.stay⟩
  | _ => exact hcompute

end Running

end Native

end LoxLang

import LoxLang.Proofs.Evaluation.Alike
import LoxLang.Proofs.Scope.Addressed
import LoxLang.Proofs.Scope.Alike
import LoxLang.Proofs.Syntax.Chunk
import LoxLang.Proofs.Token.Words

/-!
Sessions side by side. Two sessions are alike if they differ only in how the nodes of their code are numbered
and where it is written. The same program, moved or not, has the same report in both but for the places of
its faults, and leaves them alike.
-/

namespace LoxLang

/-! ### Nodes in use -/

/-- All nodes that correspond are in use. -/
structure Skew.Bounded (S : Skew) (a b : Nat) : Prop where
  faithful : S.Faithful
  used : ∀ {i j : Nat}, S.node i j → i < a ∧ j < b

/-- The correspondence with the nodes of one more program, which are numbered from `a` on in one session and
from `b` on in the other. -/
def Skew.grow (S : Skew) (a b count : Nat) : Skew :=
  ⟨fun i j => S.node i j ∨ ∃ k : Nat, k < count ∧ i = a + k ∧ j = b + k, S.place⟩

theorem Skew.within_grow (S : Skew) (a b count : Nat) (ids : List NodeId) :
    S.Within (S.grow a b count) ids :=
  ⟨fun _ h => .inl h, fun h => h⟩

theorem Skew.Bounded.grow {S : Skew} {a b : Nat} (h : S.Bounded a b) (count : Nat) :
    (S.grow a b count).Bounded (count + a) (count + b) := by
  refine ⟨?_, ?_⟩
  · rintro i j i' j' (hij | ⟨k, hk, rfl, rfl⟩) (hij' | ⟨k', hk', rfl, rfl⟩)
    · exact h.faithful hij hij'
    · have hold := h.used hij
      constructor <;> intro heq <;> subst heq <;> omega
    · have hold := h.used hij'
      constructor <;> intro heq <;> subst heq <;> omega
    · constructor
      · intro heq
        have : a + k = a + k' := heq
        rw [Nat.add_left_cancel this]
      · intro heq
        have : b + k = b + k' := heq
        rw [Nat.add_left_cancel this]
  · rintro i j (hij | ⟨k, hk, rfl, rfl⟩)
    · have hold := h.used hij
      omega
    · omega

/-! ### Parsing -/

theorem Words.placed {ts : List Token} (h : Words ts) (v : Position → Position) :
    Words (ts.map (Token.placed v)) := by
  intro t ht
  obtain ⟨u, hu, rfl⟩ := List.mem_map.mp ht
  exact h u hu

section Parsing

variable {ts : List Token}

theorem placed_parsed (hended : Ended ts) (hwords : Words ts) (first : Nat) (v : Position → Position) :
    Stmt.AllParsed first ((parse ts 0).nextId + first)
      (Move.stmts (.along first v) (parse ts 0).statements) := by
  have h := (parse_yields (hwords.placed v) first).2
  rw [parse_placed hended] at h
  exact h

/-- The nodes of a program that is moved in two ways correspond as the new nodes of two sessions do. -/
theorem within_grown (hended : Ended ts) (hwords : Words ts) (S : Skew) {v w : Position → Position}
    (a b : Nat) {P : Position → Position → Prop} (hP : ∀ {p q}, P p q → S.place p q) :
    Skew.Within (Move.across (.along a v) (.along b w) P) (S.grow a b (parse ts 0).nextId)
      (Stmt.allNodes (Move.stmts (.along a v) (parse ts 0).statements)) := by
  refine ⟨?_, hP⟩
  rintro i j hi ⟨k, hik, hjk⟩
  have hrange := (placed_parsed hended hwords a v).2.range i hi
  refine .inr ⟨k, ?_, hik.trans (Nat.add_comm k a), hjk.trans (Nat.add_comm k b)⟩
  have hik : @Eq Nat i (k + a) := hik
  omega

/-- The same program in two sessions. -/
theorem placed_alike (hended : Ended ts) (hwords : Words ts) {S : Skew} {v w : Position → Position}
    (hvw : ∀ p, S.place (v p) (w p)) (a b : Nat) :
    List.Forall₂ (Stmt.Alike (S.grow a b (parse ts 0).nextId))
      (Move.stmts (.along a v) (parse ts 0).statements) (Move.stmts (.along b w) (parse ts 0).statements) := by
  refine Stmt.allAlike_imp (Move.stmts_alike (v := .along a v) (w := .along b w) rfl _)
    (within_grown hended hwords S a b ?_)
  rintro p q ⟨r, rfl, rfl⟩
  exact hvw r

end Parsing

/-! ### Sessions -/

/-- What two runs have shown is the same but for the places of the faults. -/
structure Report.Alike (S : Skew) (r r' : Report) : Prop where
  written : r.written = r'.written
  diagnostics : List.Forall₂ (Diagnostic.Alike S) r.diagnostics r'.diagnostics
  exhausted : r.exhausted = r'.exhausted

/-- Sessions that are the same but for the numbers of their nodes and the places of their code. -/
structure Session.Alike (S : Skew) (s t : Session) : Prop where
  nodes : S.Bounded s.nextId t.nextId
  machine : s.machine.Alike S ⟨#[], s.machine.hops, t.machine.hops⟩ t.machine
  fresh : ∀ id : Nat, @LE.le Nat _ s.nextId id → s.machine.hops.find? id = none
  fresh' : ∀ id : Nat, @LE.le Nat _ t.nextId id → t.machine.hops.find? id = none
  includeDir : s.includeDir = t.includeDir

namespace Session

variable {S : Skew} {s t : Session}

/-- The session after a program has been parsed and its distances have been recorded. -/
def recorded (s : Session) (nextId : NodeId) (lookups : Array Lookup) : Session :=
  { s with
    nextId := nextId
    machine := { s.machine with hops := s.machine.hops.recordAll lookups } }

section Cases

variable {steps : Nat} {lexical : List Diagnostic} {ts : List Token} {p : Parse}

theorem runScanned_of_faults (hp : parse ts s.nextId = p) (hfaults : lexical ++ p.faults ≠ []) :
    s.runScanned steps lexical ts = (s.recorded p.nextId #[]).finish (lexical ++ p.faults) false := by
  subst hp
  unfold runScanned
  dsimp only
  rw [if_pos (by simpa using hfaults)]
  rfl

theorem runScanned_of_fault (hp : parse ts s.nextId = p) (hfaults : lexical ++ p.faults = [])
    {fault : Diagnostic} (hfault : (resolve p.statements).fault = some fault) :
    s.runScanned steps lexical ts =
      (s.recorded p.nextId (resolve p.statements).lookups).finish [fault] false := by
  subst hp
  unfold runScanned
  dsimp only
  rw [hfaults, if_neg (by simp), hfault]
  rfl

theorem runScanned_of_none (hp : parse ts s.nextId = p) (hfaults : lexical ++ p.faults = [])
    (hfault : (resolve p.statements).fault = none) :
    s.runScanned steps lexical ts =
      (s.recorded p.nextId (resolve p.statements).lookups).execute steps p.statements := by
  subst hp
  unfold runScanned
  dsimp only
  rw [hfaults, if_neg (by simp), hfault]
  rfl

/-- Faults stop a program before it begins, and all it leaves behind is what the resolver has found out; a
program without any is executed. -/
theorem runScanned_course (lexical : List Diagnostic) (ts : List Token) (s : Session) :
    (∃ lookups faults, (∀ l ∈ lookups.toList, l ∈ (resolve (parse ts s.nextId).statements).lookups.toList) ∧
      ∀ steps, s.runScanned steps lexical ts =
        (s.recorded (parse ts s.nextId).nextId lookups).finish faults false) ∨
    lexical ++ (parse ts s.nextId).faults = [] ∧
      (resolve (parse ts s.nextId).statements).fault = none ∧
        ∀ steps, s.runScanned steps lexical ts =
          (s.recorded (parse ts s.nextId).nextId (resolve (parse ts s.nextId).statements).lookups).execute
            steps (parse ts s.nextId).statements := by
  by_cases hfaults : lexical ++ (parse ts s.nextId).faults = []
  · cases hfault : (resolve (parse ts s.nextId).statements).fault with
    | none => exact .inr ⟨hfaults, rfl, fun _ => runScanned_of_none rfl hfaults hfault⟩
    | some fault => exact .inl ⟨_, _, fun _ hl => hl, fun _ => runScanned_of_fault rfl hfaults hfault⟩
  · exact .inl ⟨#[], _, by simp, fun _ => runScanned_of_faults rfl hfaults⟩

end Cases

theorem Alike.recorded (h : s.Alike S t) (count : Nat) {ls ks : Array Lookup}
    (hls : List.Forall₂ (Lookup.Alike (S.grow s.nextId t.nextId count)) ls.toList ks.toList)
    (hrange : ∀ l ∈ ls.toList, @LT.lt Nat _ l.reference.id (count + s.nextId))
    (hrange' : ∀ l ∈ ks.toList, @LT.lt Nat _ l.reference.id (count + t.nextId)) :
    (s.recorded (count + s.nextId) ls).Alike (S.grow s.nextId t.nextId count)
      (t.recorded (count + t.nextId) ks) := by
  have hgrown := h.nodes.grow count
  have hm := h.machine
  refine ⟨hgrown, ⟨hm.heap.imp (S.within_grow _ _ _), hm.current, rfl, rfl, ?_, hm.output, hm.input,
    hm.files, hm.clock, hm.regex⟩, fun id hid => ?_, fun id hid => ?_, h.includeDir⟩
  · refine HopTable.recordAll_alike hgrown.faithful ?_ hls
    rintro i j (hij | ⟨k, _, rfl, rfl⟩)
    · exact hm.distances hij
    · rw [h.fresh _ (Nat.le_add_right _ k), h.fresh' _ (Nat.le_add_right _ k)]
  · have hid : count + s.nextId ≤ id := hid
    refine (HopTable.find?_recordAll_ne _ fun l hl => ?_).trans (h.fresh id (by omega))
    have := hrange l hl
    omega
  · have hid : count + t.nextId ≤ id := hid
    refine (HopTable.find?_recordAll_ne _ fun l hl => ?_).trans (h.fresh' id (by omega))
    have := hrange' l hl
    omega

theorem Alike.flushed (h : s.Alike S t) : s.flush.Alike S t.flush :=
  ⟨h.nodes, { h.machine with output := rfl }, h.fresh, h.fresh', h.includeDir⟩

theorem Alike.finish (h : s.Alike S t) {ds es : List Diagnostic}
    (hds : List.Forall₂ (Diagnostic.Alike S) ds es) (exhausted : Bool) :
    (s.finish ds exhausted).1.Alike S (t.finish es exhausted).1 ∧
      (s.finish ds exhausted).2.Alike S (t.finish es exhausted).2 :=
  ⟨⟨(h.machine.output.trans Array.empty_append).symm, hds, rfl⟩, h.flushed⟩

/-- The session as it is if some text has been written before. -/
def behind (earlier : Array Written) (s : Session) : Session :=
  { s with machine := { s.machine with output := earlier ++ s.machine.output } }

/-- Running the same program in sessions that are alike but for some text that the second one has written
before. -/
theorem Alike.execute_behind (h : s.Alike S t) (earlier : Array Written) (steps : Nat) {as bs : List Stmt}
    (has : List.Forall₂ (Stmt.Alike S) as bs) :
    ((t.behind earlier).execute steps bs).1.written = earlier ++ (s.execute steps as).1.written ∧
      List.Forall₂ (Diagnostic.Alike S) (s.execute steps as).1.diagnostics
        ((t.behind earlier).execute steps bs).1.diagnostics ∧
      (s.execute steps as).1.exhausted = ((t.behind earlier).execute steps bs).1.exhausted ∧
      (s.execute steps as).2.Alike S ((t.behind earlier).execute steps bs).2 := by
  have hm : s.machine.Alike S ⟨earlier, s.machine.hops, t.machine.hops⟩ (t.behind earlier).machine := by
    refine { h.machine with output := ?_ }
    have houtput : t.machine.output = s.machine.output :=
      h.machine.output.trans Array.empty_append
    exact congrArg (earlier ++ ·) houtput
  have hleft : ∀ {m n : Machine}, m.Alike S ⟨earlier, s.machine.hops, t.machine.hops⟩ n →
      Alike S (flush { s with machine := m }) (flush { t with machine := n }) := by
    intro m n hmn
    refine ⟨h.nodes, { hmn with hops := rfl, hops' := rfl, output := rfl }, ?_, ?_, h.includeDir⟩
    · intro id hid
      exact (congrArg (HopTable.find? · id) hmn.hops).trans (h.fresh id hid)
    · intro id hid
      exact (congrArg (HopTable.find? · id) hmn.hops').trans (h.fresh' id hid)
  have hrun := executeProgram_alike h.nodes.faithful steps has _ _ hm
  unfold Session.execute
  obtain ⟨_, m, _, n, hx, hy, -, hmn⟩ | ⟨e, m, e', n, hx, hy, he, hmn⟩ := hrun.runs
  · rw [hx, hy]
    exact ⟨hmn.output, .nil, rfl, hleft hmn⟩
  · rw [hx, hy]
    cases he with
    | @failed fault p q hpq =>
      have hfault : Diagnostic.Alike S ⟨p, .runtime fault, none⟩ ⟨q, .runtime fault, none⟩ :=
        ⟨hpq, rfl, rfl⟩
      exact ⟨hmn.output, .cons hfault .nil, rfl, hleft hmn⟩
    | exhausted => exact ⟨hmn.output, .nil, rfl, hleft hmn⟩

theorem Alike.execute (h : s.Alike S t) (steps : Nat) {as bs : List Stmt}
    (has : List.Forall₂ (Stmt.Alike S) as bs) :
    (s.execute steps as).1.Alike S (t.execute steps bs).1 ∧
      (s.execute steps as).2.Alike S (t.execute steps bs).2 := by
  have hnothing : t.behind #[] = t := by
    unfold behind
    rw [Array.empty_append]
  obtain ⟨houtput, hdiagnostics, hexhausted, hnext⟩ := h.execute_behind #[] steps has
  rw [hnothing] at houtput hdiagnostics hexhausted hnext
  exact ⟨⟨(houtput.trans Array.empty_append).symm, hdiagnostics, hexhausted⟩, hnext⟩

/-- A program leaves sessions alike also if nothing has been found out about it. -/
theorem Alike.unresolved (h : s.Alike S t) (count : Nat) :
    (s.recorded (count + s.nextId) #[]).Alike (S.grow s.nextId t.nextId count)
      (t.recorded (count + t.nextId) #[]) :=
  @Alike.recorded S s t h count #[] #[] .nil (by simp) (by simp)

/-- Faults do not go away when they are placed elsewhere. -/
theorem faults_placed_ne {lexical grammar : List Diagnostic} (h : lexical ++ grammar ≠ [])
    (v w : Position → Position) :
    lexical.map (Diagnostic.placed v) ++ grammar.map (Diagnostic.placed w) ≠ [] := by
  intro hnone
  obtain ⟨hlexical, hgrammar⟩ := List.append_eq_nil_iff.mp hnone
  exact h (by rw [List.map_eq_nil_iff.mp hlexical, List.map_eq_nil_iff.mp hgrammar]; rfl)

theorem diagnostics_alike {v w : Position → Position} (hvw : ∀ p, S.place (v p) (w p))
    (ds : List Diagnostic) : List.Forall₂ (Diagnostic.Alike S) (ds.map (Diagnostic.placed v))
      (ds.map (Diagnostic.placed w)) := by
  induction ds with
  | nil => exact .nil
  | cons d _ ih => exact .cons ⟨hvw d.position, rfl, rfl⟩ ih

/-- A program that is placed in two ways, and alike then, leaves sessions alike that are alike. If it has no
faults but those of scope, it has the same report in both. -/
theorem Alike.runScanned_moved (h : s.Alike S t) (steps : Nat) (lexical : List Diagnostic)
    {ts : List Token} (hended : Ended ts) (hwords : Words ts) {v w : Position → Position}
    (hprogram : lexical ++ (parse ts 0).faults = [] →
      List.Forall₂ (Stmt.Alike (S.grow s.nextId t.nextId (parse ts 0).nextId))
        (Move.stmts (.along s.nextId v) (parse ts 0).statements)
        (Move.stmts (.along t.nextId w) (parse ts 0).statements)) :
    let x := s.runScanned steps (lexical.map (Diagnostic.placed v)) (ts.map (Token.placed v))
    let y := t.runScanned steps (lexical.map (Diagnostic.placed w)) (ts.map (Token.placed w))
    let T := S.grow s.nextId t.nextId (parse ts 0).nextId
    x.2.Alike T y.2 ∧ (lexical ++ (parse ts 0).faults = [] → x.1.Alike T y.1) := by
  intro x y T
  have hleft := parse_placed hended s.nextId v
  have hright := parse_placed hended t.nextId w
  have hparsed := placed_parsed hended hwords s.nextId v
  have hparsed' := placed_parsed hended hwords t.nextId w
  by_cases hfaults : lexical ++ (parse ts 0).faults = []
  · have hmoved : ∀ f g : Diagnostic → Diagnostic, lexical.map f ++ (parse ts 0).faults.map g = [] := by
      intro f g
      obtain ⟨hlexical, hparse⟩ := List.append_eq_nil_iff.mp hfaults
      rw [hlexical, hparse]
      rfl
    obtain ⟨hlookups, hscopes⟩ := resolve_alike (hprogram hfaults)
    have hrecorded := h.recorded (parse ts 0).nextId hlookups
      (fun l hl => (hparsed.2.range _ (resolve_lookups hparsed.1 l hl)).2)
      fun l hl => (hparsed'.2.range _ (resolve_lookups hparsed'.1 l hl)).2
    suffices x.1.Alike T y.1 ∧ x.2.Alike T y.2 from ⟨this.2, fun _ => this.1⟩
    cases hf : (resolve (Move.stmts (.along s.nextId v) (parse ts 0).statements)).fault with
    | none =>
      cases hf' : (resolve (Move.stmts (.along t.nextId w) (parse ts 0).statements)).fault with
      | none =>
        have hx : x = _ := runScanned_of_none hleft (hmoved _ _) hf
        have hy : y = _ := runScanned_of_none hright (hmoved _ _) hf'
        rw [hx, hy]
        exact hrecorded.execute steps (hprogram hfaults)
      | some fault' => rw [hf, hf'] at hscopes; cases hscopes
    | some fault =>
      cases hf' : (resolve (Move.stmts (.along t.nextId w) (parse ts 0).statements)).fault with
      | none => rw [hf, hf'] at hscopes; cases hscopes
      | some fault' =>
        rw [hf, hf'] at hscopes
        obtain ⟨hfault⟩ := hscopes
        have hx : x = _ := runScanned_of_fault hleft (hmoved _ _) hf
        have hy : y = _ := runScanned_of_fault hright (hmoved _ _) hf'
        rw [hx, hy]
        exact hrecorded.finish (.cons hfault .nil) false
  · refine ⟨?_, fun hnone => absurd hnone hfaults⟩
    have hx : x = _ := runScanned_of_faults hleft (faults_placed_ne hfaults v v)
    have hy : y = _ := runScanned_of_faults hright (faults_placed_ne hfaults w w)
    rw [hx, hy]
    exact (h.unresolved _).flushed

/-- The same program, placed in two ways, has the same report in sessions that are alike, and it leaves them
alike. -/
theorem Alike.runScanned (h : s.Alike S t) (steps : Nat) (lexical : List Diagnostic) {ts : List Token}
    (hended : Ended ts) (hwords : Words ts) {v w : Position → Position}
    (hvw : ∀ p, S.place (v p) (w p)) :
    let x := s.runScanned steps (lexical.map (Diagnostic.placed v)) (ts.map (Token.placed v))
    let y := t.runScanned steps (lexical.map (Diagnostic.placed w)) (ts.map (Token.placed w))
    let T := S.grow s.nextId t.nextId (parse ts 0).nextId
    x.1.Alike T y.1 ∧ x.2.Alike T y.2 := by
  intro x y T
  obtain ⟨hnext, hreport⟩ := h.runScanned_moved steps lexical hended hwords
    fun _ => placed_alike hended hwords hvw s.nextId t.nextId
  refine ⟨?_, hnext⟩
  by_cases hfaults : lexical ++ (parse ts 0).faults = []
  · exact hreport hfaults
  · have hx : x = _ :=
      runScanned_of_faults (parse_placed hended s.nextId v) (faults_placed_ne hfaults v v)
    have hy : y = _ :=
      runScanned_of_faults (parse_placed hended t.nextId w) (faults_placed_ne hfaults w w)
    rw [hx, hy]
    refine ((h.unresolved _).finish ?_ false).1
    have hT : ∀ p, T.place (v p) (w p) := hvw
    exact List.rel_append (diagnostics_alike hT lexical) (diagnostics_alike hT (parse ts 0).faults)

/-- Sessions are alike also if more places correspond. -/
theorem Alike.imp_place (h : s.Alike S t) {P : Position → Position → Prop}
    (hP : ∀ p q, S.place p q → P p q) : s.Alike ⟨S.node, P⟩ t := by
  have hm := h.machine
  have hwithin : ∀ ids, S.Within ⟨S.node, P⟩ ids := fun _ => ⟨fun _ hij => hij, fun hpq => hP _ _ hpq⟩
  exact ⟨⟨h.nodes.faithful, h.nodes.used⟩, ⟨hm.heap.imp hwithin, hm.current, rfl, rfl, hm.distances,
    hm.output, hm.input, hm.files, hm.clock, hm.regex⟩, h.fresh, h.fresh', h.includeDir⟩

/-- The lookups are those of nodes that have not been given out yet, and all nodes from `next` on still have
not been then. -/
structure Fresh (s : Session) (next : Nat) (ls : Array Lookup) : Prop where
  ahead : @LE.le Nat _ s.nextId next
  lookups : ∀ l ∈ ls.toList, @LE.le Nat _ s.nextId l.reference.id ∧ @LT.lt Nat _ l.reference.id next

theorem Fresh.nothing (s : Session) : s.Fresh s.nextId #[] :=
  ⟨Nat.le_refl _, by simp⟩

theorem Fresh.find?_old {next : Nat} {ls : Array Lookup} (h : s.Fresh next ls) {id : Nat}
    (hid : @LT.lt Nat _ id s.nextId) :
    (s.recorded next ls).machine.hops.find? id = s.machine.hops.find? id := by
  refine HopTable.find?_recordAll_ne _ fun l hl => ?_
  exact Nat.ne_of_gt (Nat.lt_of_lt_of_le hid (h.lookups l hl).1)

theorem Fresh.find?_new {next : Nat} {ls : Array Lookup} (h : s.Fresh next ls) {id : Nat}
    (hid : next ≤ id) : (s.recorded next ls).machine.hops.find? id = s.machine.hops.find? id := by
  refine HopTable.find?_recordAll_ne _ fun l hl => ?_
  exact Nat.ne_of_lt (Nat.lt_of_lt_of_le (h.lookups l hl).2 hid)

/-- The nodes of programs that only one of the sessions has parsed correspond to none. -/
theorem Alike.recorded_apart (h : s.Alike S t) {next next' : Nat} {ls ks : Array Lookup}
    (hls : s.Fresh next ls) (hks : t.Fresh next' ks) :
    (s.recorded next ls).Alike S (t.recorded next' ks) := by
  have hm := h.machine
  refine ⟨⟨h.nodes.faithful, fun hij => ?_⟩,
    { hm with hops := rfl, hops' := rfl, distances := fun hij => ?_ },
    fun id hid => ?_, fun id hid => ?_, h.includeDir⟩
  · have hused := h.nodes.used hij
    exact ⟨Nat.lt_of_lt_of_le hused.1 hls.ahead, Nat.lt_of_lt_of_le hused.2 hks.ahead⟩
  · have hused := h.nodes.used hij
    have hleft := hls.find?_old hused.1
    have hright := hks.find?_old hused.2
    exact hleft.trans ((hm.distances hij).trans hright.symm)
  · exact (hls.find?_new hid).trans (h.fresh id (Nat.le_trans hls.ahead hid))
  · exact (hks.find?_new hid).trans (h.fresh' id (Nat.le_trans hks.ahead hid))

theorem ended_tokens (source : String) : Ended (tokens source) := by
  obtain ⟨line, htokens, _⟩ := tokens_last source
  rw [htokens]
  exact ⟨.endOfFile line, rfl, List.suffix_append _ _⟩

/-- The same text has the same report in sessions that are alike, and it leaves them alike. -/
theorem Alike.run (h : s.Alike S t) (hplace : ∀ p, S.place p p) (steps : Nat) (source : String) :
    let T := S.grow s.nextId t.nextId (parse (tokens source) 0).nextId
    (s.run steps source).1.Alike T (t.run steps source).1 ∧
      (s.run steps source).2.Alike T (t.run steps source).2 := by
  have hrun := h.runScanned steps (lexicalFaults source) (ended_tokens source) (tokens_words source)
    (v := id) (w := id) hplace
  have htokens : (tokens source).map (Token.placed id) = tokens source := List.map_id _
  have hlexical : (lexicalFaults source).map (Diagnostic.placed id) = lexicalFaults source :=
    List.map_id _
  dsimp only at hrun
  rw [htokens, hlexical] at hrun
  exact hrun

theorem Report.Alike.eq {r r' : Report} (h : r.Alike S r') (hplace : ∀ p q, S.place p q → p = q) :
    r = r' := by
  have hdiagnostics : r.diagnostics = r'.diagnostics := by
    have hall := h.diagnostics
    generalize r.diagnostics = ds at hall
    generalize r'.diagnostics = es at hall
    induction hall with
    | nil => rfl
    | @cons d e _ _ hde _ ih =>
      have heq : d = e := by
        cases d
        cases e
        have hposition := hplace _ _ hde.position
        have hfault := hde.fault
        have hfile := hde.file
        dsimp only at hposition hfault hfile
        rw [hposition, hfault, hfile]
      rw [heq, ih]
  cases r
  cases r'
  have hwritten := h.written
  have hexhausted := h.exhausted
  dsimp only at hdiagnostics hwritten hexhausted
  rw [hdiagnostics, hwritten, hexhausted]

end Session

end LoxLang

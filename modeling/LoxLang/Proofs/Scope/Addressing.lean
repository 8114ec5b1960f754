import LoxLang.Proofs.Scope.Exactness
import LoxLang.Proofs.Scope.Record
import LoxLang.Proofs.Token.Words

/-!
Lexical addressing in sessions. Every run of a session, whatever it ends with, leaves a sound world, so
every mention of a variable that a session ever evaluates was looked up in the scope that encloses it in the
program text.
-/

namespace LoxLang

open Lexical (Place Safe SafeInside)

/-! ### Programs -/

/-- The scopes of the global code of a program are in place throughout. -/
theorem executeProgram_safe (steps : Nat) {a : Atlas} {n : Notes} {program : List Stmt} {w : World}
    (hcovers : a.Covers w.machine.hops n) (hcurrent : w.machine.current = .globals)
    (hprogram : Stmt.AllAddressed n [] program) :
    SafeInside a (RecordedSession.executeProgram steps program) w fun _ _ => True := by
  induction program generalizing w with
  | nil =>
    have hdone : Safe a (pure ()) w [] fun _ _ => True := Safe.pure trivial
    exact SafeInside.of_safe hdone
  | cons s rest ih =>
    have hplace : Place a n [] w := ⟨hcovers, .nil _, hcurrent.symm⟩
    have hstatement := Lexical.execute_safe steps s hplace (fun layer hlayer => by cases hlayer)
      hprogram.1
    refine SafeInside.bind hstatement fun _ w₁ hgrows _ => ?_
    refine ih (hgrows.hops ▸ hcovers) (hgrows.current.trans hcurrent) ?_
    rw [← Scope.after_global s]
    exact hprogram.2

/-! ### Sessions -/

/-- The atlas with the functions of one more program. -/
def Atlas.extend (a : Atlas) (next : Nat) (sites : List (NodeId × List Scope)) : Atlas :=
  ⟨next, fun id => (a.sites id).or (sites.lookup id)⟩

theorem Atlas.extend_sites {a : Atlas} {id : NodeId} {scopes : List Scope}
    (hsite : a.sites id = some scopes) {next : Nat} {sites : List (NodeId × List Scope)} :
    (a.extend next sites).sites id = some scopes := by
  change (a.sites id).or _ = _
  rw [hsite]
  rfl

theorem Atlas.Covers.extend {a : Atlas} {hops hops' : HopTable} {n : Notes} (hn : a.Covers hops n)
    {next : Nat} (sites : List (NodeId × List Scope)) (hnext : a.bound ≤ next)
    (hhops : ∀ id : Nat, id < a.bound → hops'.find? id = hops.find? id) :
    (a.extend next sites).Covers hops' n := by
  refine ⟨fun l hl => ?_, fun p hp => ?_⟩
  · obtain ⟨hlt, hfind⟩ := hn.lookups l hl
    exact ⟨Nat.lt_of_lt_of_le hlt hnext, (hhops _ hlt).trans hfind⟩
  · obtain ⟨hlt, hsite⟩ := hn.sites p hp
    exact ⟨Nat.lt_of_lt_of_le hlt hnext, extend_sites hsite⟩

theorem lookup_of_nodup {α β : Type} [DecidableEq α] {xs : List (α × β)}
    (hnodup : (xs.map Prod.fst).Nodup) {p : α × β} (hp : p ∈ xs) : xs.lookup p.1 = some p.2 := by
  induction xs with
  | nil => cases hp
  | cons x rest ih =>
    obtain ⟨hx, hrest⟩ := List.nodup_cons.mp hnodup
    rcases List.mem_cons.mp hp with rfl | hp
    · obtain ⟨k, v⟩ := p
      exact List.lookup_cons_self
    · have hne : p.1 ≠ x.1 := fun heq => hx (heq ▸ List.mem_map_of_mem hp)
      have hrec := ih hrest hp
      obtain ⟨k, v⟩ := x
      rw [List.lookup_cons, beq_false_of_ne hne]
      exact hrec

namespace RecordedSession

/-- The session's world is sound, and no node has a distance or a place in the atlas yet that has not been
parsed. -/
structure Sound (a : Atlas) (s : RecordedSession) : Prop where
  world : s.world.Sound a
  current : s.world.machine.current = .globals
  bound : a.bound = s.nextId
  hops : ∀ id : Nat, a.bound ≤ id → s.world.machine.hops.find? id = none
  sites : ∀ id : Nat, a.bound ≤ id → a.sites id = none

theorem new_sound (files : Files) (includeDir : Option String) (input : List InputLine)
    (clock : Clock) (regex : Pattern.Engine) :
    Sound ⟨0, fun _ => none⟩ (new files includeDir input clock regex) := by
  refine ⟨⟨Nat.zero_lt_one, rfl, .initial, ?_, ?_⟩, rfl, rfl, ?_, fun _ _ => rfl⟩
  · intro id frame d hd
    cases hd
  · intro v hv
    cases hv
  · intro id _
    simp [new, Machine.initial, HopTable.empty, HopTable.find?]

variable {a : Atlas} {s : RecordedSession}

/-- Recording distances for new nodes changes nothing for the functions that are there. -/
theorem Sound.record (hs : s.Sound a) {next : Nat} {hops : HopTable}
    (sites : List (NodeId × List Scope)) (hnext : a.bound ≤ next)
    (hsites : ∀ p ∈ sites, @LT.lt Nat _ p.1 next)
    (hold : ∀ id : Nat, id < a.bound → hops.find? id = s.world.machine.hops.find? id)
    (hnew : ∀ id : Nat, next ≤ id → hops.find? id = none) :
    Sound (a.extend next sites) { s with
      world := { s.world with machine := { s.world.machine with hops := hops } }, nextId := next } := by
  have hw := hs.world
  refine ⟨⟨hw.nonempty, hw.globals, hw.holds.mono ?_ ?_, fun id frame d hd => ?_, hw.visits⟩,
    hs.current, rfl, hnew, fun id hid => ?_⟩
  · rintro f ⟨d, n, hd, hn, haddressed⟩
    exact ⟨d, n, hd, hn.extend sites hnext hold, haddressed⟩
  · rintro m ⟨d, n, hd, hn, hsite, haddressed⟩
    exact ⟨d, n, hd, hn.extend sites hnext hold, Atlas.extend_sites hsite, haddressed⟩
  · obtain ⟨hframe, henclosed, scopes, hsite, hor⟩ := hw.charts id frame d hd
    exact ⟨hframe, henclosed, scopes, Atlas.extend_sites hsite, hor⟩
  · have hlookup : sites.lookup id = none := by
      rw [List.lookup_eq_none_iff]
      intro p hp
      have := hsites p hp
      have hid : next ≤ id := hid
      have hne : @Ne Nat id p.1 := by omega
      exact bne_iff_ne.mpr hne
    change (a.sites id).or (sites.lookup id) = none
    rw [hs.sites id (Nat.le_trans hnext hid), hlookup]
    rfl

theorem Sound.finish (hs : s.Sound a) (diagnostics : List Diagnostic) (exhausted : Bool) :
    (s.finish diagnostics exhausted).2.Sound a :=
  ⟨⟨hs.world.nonempty, hs.world.globals, hs.world.holds, hs.world.charts, hs.world.visits⟩,
    hs.current, hs.bound, hs.hops, hs.sites⟩

theorem Sound.execute (hs : s.Sound a) (steps : Nat) {n : Notes} {program : List Stmt}
    (hcovers : a.Covers s.world.machine.hops n) (hprogram : Stmt.AllAddressed n [] program) :
    (s.execute steps program).2.Sound a := by
  have h := executeProgram_safe steps hcovers hs.current hprogram hs.world
  have hend : ∀ {w : World}, w.Sound a → w.machine.current = s.world.machine.current →
      w.machine.hops = s.world.machine.hops → Sound a { s with world := w } :=
    fun hw hcurrent hhops =>
      ⟨hw, hcurrent.trans hs.current, hs.bound, fun id hid => hhops ▸ hs.hops id hid, hs.sites⟩
  unfold Ends at h
  unfold RecordedSession.execute
  cases hrun : (executeProgram steps program).run s.world with
  | ok _ w =>
    rw [hrun] at h
    obtain ⟨hw, ⟨names, hgrows⟩, _⟩ := h
    exact (hend hw hgrows.current hgrows.hops).finish _ _
  | error halt w =>
    rw [hrun] at h
    cases halt <;> exact (hend h.1 h.2.1 h.2.2).finish _ _

/-- A session whose new nodes have got the distances of the resolver. -/
theorem Sound.resolved (hs : s.Sound a) {next : Nat} {program : List Stmt}
    (sites : List (NodeId × List Scope)) (hprogram : Stmt.AllParsed s.nextId next program)
    (hnext : @LE.le Nat _ s.nextId next)
    (hsites : (sites.map Prod.fst).Sublist (Stmt.allNodes program)) :
    Sound (a.extend next sites) { s with
      world := { s.world with machine := { s.world.machine with
        hops := s.world.machine.hops.recordAll (resolve program).lookups } }, nextId := next } := by
  have hrange : ∀ l ∈ (resolve program).lookups.toList,
      @LE.le Nat _ s.nextId l.reference.id ∧ @LT.lt Nat _ l.reference.id next := fun l hl =>
    hprogram.2.range _ (resolve_lookups hprogram.1 l hl)
  have hbound := hs.bound
  refine hs.record sites (by omega) (fun p hp => ?_) (fun id hid => ?_) (fun id hid => ?_)
  · exact (hprogram.2.range _ (hsites.subset (List.mem_map_of_mem hp))).2
  · refine HopTable.find?_recordAll_ne _ fun l hl => ?_
    have := (hrange l hl).1
    omega
  · rw [HopTable.find?_recordAll_ne _ fun l hl => ?_]
    · exact hs.hops id (by omega)
    · have := (hrange l hl).2
      omega

/-- The notes on a new program agree with the distances that its nodes have got. -/
theorem Sound.covers (hs : s.Sound a) {next : Nat} {program : List Stmt} {n : Notes}
    (hprogram : Stmt.AllParsed s.nextId next program)
    (hlookups : n.lookups = (resolve program).lookups.toList)
    (hmentions : (n.lookups.map (·.reference.id)).Sublist (Stmt.allNodes program))
    (hsites : (n.sites.map Prod.fst).Sublist (Stmt.allNodes program)) :
    (a.extend next n.sites).Covers
      (s.world.machine.hops.recordAll (resolve program).lookups) n := by
  have hbound := hs.bound
  have hmentioned := hprogram.2.sublist hmentions
  have hplaced := hprogram.2.sublist hsites
  refine ⟨fun l hl => ⟨?_, ?_⟩, fun p hp => ⟨?_, ?_⟩⟩
  · exact (hmentioned.range _ (List.mem_map_of_mem hl)).2
  · refine HopTable.find?_recordAll_mem _ (hlookups ▸ hmentioned.nodup) (fun l hl => ?_) l
      (hlookups ▸ hl)
    refine hs.hops _ ?_
    have := (hmentioned.range l.reference.id (List.mem_map_of_mem (hlookups ▸ hl))).1
    omega
  · exact (hplaced.range _ (List.mem_map_of_mem hp)).2
  · have := (hplaced.range p.1 (List.mem_map_of_mem hp)).1
    change (a.sites p.1).or (n.sites.lookup p.1) = _
    rw [hs.sites p.1 (by omega), lookup_of_nodup hplaced.nodup hp]
    rfl

/-- Every run leaves a sound session. -/
theorem Sound.run (hs : s.Sound a) (steps : Nat) (source : String) :
    ∃ a', (s.run steps source).2.Sound a' := by
  obtain ⟨hnext, hprogram⟩ := parse_yields (tokens_words source) s.nextId
  unfold RecordedSession.run
  dsimp only
  split
  · have hbound := hs.bound
    exact ⟨_, (hs.record [] (by omega) (by simp) (fun _ _ => rfl)
      fun id hid => hs.hops id (by omega)).finish _ _⟩
  · split
    case h_1 fault hfault =>
      exact ⟨_, (hs.resolved [] hprogram hnext (List.nil_sublist _)).finish _ _⟩
    case h_2 hfault =>
      obtain ⟨n, hlookups, hmentions, hsites, haddressed⟩ := resolve_addresses hprogram.1 hfault
      exact ⟨_, (hs.resolved n.sites hprogram hnext hsites).execute steps
        (hs.covers hprogram hlookups hmentions hsites) haddressed⟩

theorem Sound.surrounded (hs : s.Sound a) (files : Files) (input : List InputLine) (clock : Clock) :
    (s.surrounded files input clock).Sound a :=
  ⟨⟨hs.world.nonempty, hs.world.globals, hs.world.holds, hs.world.charts, hs.world.visits⟩,
    hs.current, hs.bound, hs.hops, hs.sites⟩

theorem Sound.step (hs : s.Sound a) (e : Session.Event) : ∃ a', (s.step e).2.Sound a' := by
  cases hx : s.session.executed e with
  | some x =>
    rw [step_executed hx]
    exact hs.run x.steps x.source
  | none =>
    rcases step_of_not_executed hx with hstep | ⟨files, input, clock, hstep⟩ <;> rw [hstep]
    · exact ⟨a, hs⟩
    · exact ⟨a, hs.surrounded files input clock⟩

/-- Events lead from sound sessions to sound ones. -/
theorem Sound.follow (hs : s.Sound a) (events : List Session.Event) : ∃ a', (s.follow events).2.Sound a' := by
  induction events generalizing a s with
  | nil => exact ⟨a, hs⟩
  | cons e rest ih =>
    obtain ⟨a', hstep⟩ := hs.step e
    exact ih hstep

/-- Every mention in the record of a session is exact. -/
theorem visits_exact (files : Files) (includeDir : Option String) (input : List InputLine)
    (clock : Clock) (regex : Pattern.Engine) (events : List Session.Event) :
    ∀ v ∈ ((new files includeDir input clock regex).follow events).2.world.visits, v.Exact := by
  obtain ⟨a, h⟩ := (new_sound files includeDir input clock regex).follow events
  exact h.world.visits

end RecordedSession

/-! ### What running code finds -/

/-- A read of a local variable has a value. -/
theorem Visit.ReadsExactly.read {v : Visit} {r : Reference} (h : v.ReadsExactly r) {d : Nat}
    (hd : v.machine.hops.find? r.id = some d) :
    ∃ x, (Exec.read r).run v.machine = .ok x v.machine := by
  obtain ⟨layer, x, _, _, hx, _⟩ := h d hd
  have hlook : Exec.lookUp? v.machine r = some x := by
    unfold Exec.lookUp?
    rw [hd]
    exact hx
  refine ⟨x, ?_⟩
  unfold Exec.read
  rw [EStateM.run_bind]
  simp only [EStateM.run_get, hlook, EStateM.run_pure]

/-- An assignment to a local variable fails where it would have to come in front of the value that the
variable begins with, and only there. -/
theorem Visit.AssignsExactly.assign {v : Visit} {r : Reference} {x : Value} (h : v.AssignsExactly r x)
    {d : Nat} (hd : v.machine.hops.find? r.id = some d) :
    (Exec.reassign? v.machine r x = none ↔
      v.display.head?.bind (·.scope.lookup r.ident.name) = some .declared) := by
  obtain ⟨layer, _, _, hfails⟩ := h d hd
  unfold Exec.reassign?
  rw [hd]
  exact hfails

/-- Where a class and a receiver are found, only the search for the method is left. -/
theorem Exec.superMethod_run {m : Machine} {id : NodeId} {k : Nat} {cls : ClassId} {object : ObjectId}
    (hd : m.hops.find? id = some (k + 1))
    (hcls : m.heap.getAt? m.current (k + 1) superName = some (.cls cls))
    (hobject : m.heap.getAt? m.current k thisName = some (.object object)) (position : Position)
    (method : Ident) : (superMethod id position method).run m = (bindMethod cls method object).run m := by
  have hreceiver : receiver? m (k + 1) = some (.object object) := hobject
  unfold superMethod
  rw [EStateM.run_bind]
  simp only [EStateM.run_get, hd, hcls, hreceiver]

/-- A mention of `super` finds a class and a receiver. -/
theorem Visit.SuperExactly.superMethod {v : Visit} {id : NodeId} (h : v.SuperExactly id)
    (position : Position) : ∃ cls object, ∀ method,
      (Exec.superMethod id position method).run v.machine =
        (Exec.bindMethod cls method object).run v.machine := by
  obtain ⟨k, outer, inner, cls, object, hd, ⟨_, _, _, hcls⟩, ⟨_, _, _, hobject⟩⟩ := h
  exact ⟨cls, object, Exec.superMethod_run hd hcls hobject position⟩

/-- In every session, a mention of a local variable, of `this` or of `super` is looked up where the program
text says: the recorded distance leads to the frame of the nearest scope around the mention in which the
name is declared in front of it, and the name is bound there. The record of the mentions is kept by runs
that report what the session reports and leave it in the same state. -/
theorem mentions_read_exactly (files : Files) (includeDir : Option String) (input : List InputLine)
    (clock : Clock) (regex : Pattern.Engine) (events : List Session.Event) :
    let recorded := (RecordedSession.new files includeDir input clock regex).follow events
    (Session.new files includeDir input clock regex).follow events = (recorded.1, recorded.2.session) ∧
      ∀ v ∈ recorded.2.world.visits,
        (∀ r, v.mention = .read r → v.ReadsExactly r ∧
          ((v.machine.hops.find? r.id).isSome →
            ∃ x, (Exec.read r).run v.machine = .ok x v.machine)) ∧
        (∀ id position, v.mention = .super id position → v.SuperExactly id ∧
          ∃ cls object, ∀ method, (Exec.superMethod id position method).run v.machine =
            (Exec.bindMethod cls method object).run v.machine) := by
  refine ⟨RecordedSession.follow_session events (.new files includeDir input clock regex),
    fun v hv => ?_⟩
  have hexact := RecordedSession.visits_exact files includeDir input clock regex events v hv
  unfold Visit.Exact at hexact
  refine ⟨fun r hr => ?_, fun id position hsuper => ?_⟩
  · rw [hr] at hexact
    refine ⟨hexact, fun hlocal => ?_⟩
    obtain ⟨d, hd⟩ := Option.isSome_iff_exists.mp hlocal
    exact hexact.read hd
  · rw [hsuper] at hexact
    exact ⟨hexact, hexact.superMethod position⟩

/-- In every session, an assignment to a local variable is looked up in the nearest scope around it in which
the name is declared in front of it, and it fails just if that is the innermost scope and the assignment
stands in the initializer of the variable. -/
theorem assignment_misses_iff (files : Files) (includeDir : Option String) (input : List InputLine)
    (clock : Clock) (regex : Pattern.Engine) (events : List Session.Event) :
    let recorded := (RecordedSession.new files includeDir input clock regex).follow events
    (Session.new files includeDir input clock regex).follow events = (recorded.1, recorded.2.session) ∧
      ∀ v ∈ recorded.2.world.visits, ∀ r x, v.mention = .assign r x →
        v.AssignsExactly r x ∧
          ((v.machine.hops.find? r.id).isSome →
            (Exec.reassign? v.machine r x = none ↔
              v.display.head?.bind (·.scope.lookup r.ident.name) = some .declared)) := by
  refine ⟨RecordedSession.follow_session events (.new files includeDir input clock regex),
    fun v hv r x hr => ?_⟩
  have hexact := RecordedSession.visits_exact files includeDir input clock regex events v hv
  unfold Visit.Exact at hexact
  rw [hr] at hexact
  refine ⟨hexact, fun hlocal => ?_⟩
  obtain ⟨d, hd⟩ := Option.isSome_iff_exists.mp hlocal
  exact hexact.assign hd

end LoxLang

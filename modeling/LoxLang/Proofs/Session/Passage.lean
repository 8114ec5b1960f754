import LoxLang.Proofs.Evaluation.Course
import LoxLang.Proofs.Scope.SurveyedTasks
import LoxLang.Proofs.Session.Provenance

/-!
The states that a session passes through: those between events, and those in which the tasks of its programs
begin and end. Changes lead from each of them to the next program.
-/

namespace LoxLang

open Exec
open Heap (Changes)

/-! ### Programs -/

theorem executeProgram_proceeds {R : Task → Machine → Prop} (hclosed : Leads.Closed R) {steps : Nat}
    {program : List Stmt} {m : Machine} (hm : m.Intact) (hcode : Stmt.AllWellFormed program)
    (hR : ∀ earlier stmt rest m', program = earlier ++ stmt :: rest →
      (executeProgram steps earlier).run m = .ok () m' → R (.execute steps stmt) m') :
    Proceeds R (executeProgram steps program) m
      (fun t m' => ∃ earlier stmt rest, program = earlier ++ stmt :: rest ∧
        (executeProgram steps earlier).run m = .ok () m' ∧ t = .execute steps stmt)
      fun _ _ => True := by
  induction program generalizing m with
  | nil =>
    refine (Proceeds.pure trivial).covers ?_
    rintro t m' ⟨earlier, stmt, rest, hprogram, -⟩
    simp at hprogram
  | cons s program ih =>
    refine (((proceedsWithin hclosed steps).executes hm hcode.1 (hR [] s program m rfl rfl)).bind
      fun c m₁ hs hafter _ => ih (hm.after hafter) hcode.2 ?_).covers ?_
    · intro earlier stmt rest m' hprogram hearlier
      refine hR (s :: earlier) stmt rest m' (congrArg (s :: ·) hprogram) ?_
      rw [executeProgram, EStateM.run_bind, hs]
      exact hearlier
    · rintro t m' ⟨earlier, stmt, rest, hprogram, hearlier, rfl⟩
      cases earlier with
      | nil =>
        obtain ⟨rfl, rfl⟩ := List.cons.inj hprogram
        cases hearlier
        exact .inl ⟨rfl, rfl⟩
      | cons s' earlier =>
        obtain ⟨rfl, rfl⟩ := List.cons.inj hprogram
        rw [executeProgram, EStateM.run_bind] at hearlier
        cases hs : (execute steps s).run m with
        | error e m₁ =>
          rw [hs] at hearlier
          cases hearlier
        | ok c m₁ =>
          rw [hs] at hearlier
          exact .inr ⟨c, m₁, rfl, earlier, stmt, rest, rfl, hearlier, rfl⟩

namespace Session

variable {R : Task → Machine → Prop} {s : Session}

theorem execute_heap (steps : Nat) (program : List Stmt) (s : Session) :
    (s.execute steps program).2.machine.heap = ((executeProgram steps program).after s.machine).heap ∧
      (s.execute steps program).2.machine.current =
        ((executeProgram steps program).after s.machine).current := by
  unfold Session.execute Exec.after
  split <;> rename_i hrun <;> rw [hrun] <;> exact ⟨rfl, rfl⟩

/-- A text that is no program of the session changes nothing in the heap, and there are no tasks in it. -/
theorem run_rejected {x : Executed} (hrejected : ∀ program, ¬s.Accepts x.source program) :
    (∃ hops, (s.run x.steps x.source).2.machine = { s.machine with hops := hops, output := #[] }) ∧
      ∀ t m, ¬s.Evaluates x t m := by
  refine ⟨?_, fun t m ht => ?_⟩
  · unfold Session.run
    rcases runScanned_course (lexicalFaults x.source) (tokens x.source) s with
      ⟨lookups, _, _, hrun⟩ | ⟨hfaults, hscopes, _⟩
    · exact ⟨s.machine.hops.recordAll lookups, by rw [hrun]; rfl⟩
    · obtain ⟨hlexical, hparsed⟩ := List.append_eq_nil_iff.mp hfaults
      exact absurd ⟨hlexical, hparsed, rfl, hscopes⟩ (hrejected _)
  · induction ht with
    | statement haccepts => exact hrejected _ haccepts
    | part _ _ ih => exact ih

/-- A run leads to the next state of the session by changes, and passes all its tasks on the way. -/
theorem run_course (hm : s.machine.Intact) {x : Executed} (hclosed : Leads.Closed R)
    (hR : ∀ t m, s.Evaluates x t m → R t m) :
    s.machine.After R (s.run x.steps x.source).2.machine ∧
      ∀ t m, s.Evaluates x t m → t.Passed R m s.machine (s.run x.steps x.source).2.machine := by
  by_cases hrejected : ∀ program, ¬s.Accepts x.source program
  · obtain ⟨⟨hops, hrun⟩, hnone⟩ := run_rejected hrejected
    rw [hrun]
    exact ⟨⟨rfl, .refl⟩, fun t m ht => absurd ht (hnone t m)⟩
  obtain ⟨program, haccepts⟩ : ∃ program, s.Accepts x.source program := by simpa using hrejected
  have hstatements := haccepts.statements
  have hrun : s.run x.steps x.source = _ := runScanned_of_none rfl
    (List.append_eq_nil_iff.mpr ⟨haccepts.lexical, haccepts.faults⟩) haccepts.scopes
  rw [hstatements] at hrun
  have hcode : Stmt.AllWellFormed program := by
    rw [← hstatements]
    exact (parse_yields (tokens_words x.source) s.nextId).2.1
  have hcourse := executeProgram_proceeds (m := (s.recorded (parse (tokens x.source) s.nextId).nextId
    (resolve program).lookups).machine) hclosed ⟨hm.heap, hm.current, hm.plain⟩ hcode
      fun earlier stmt rest m' hprogram hearlier => hR _ _ (by
        subst hprogram
        exact .statement haccepts hearlier)
  obtain ⟨hheap, hcurrent⟩ := execute_heap x.steps program (s.recorded
    (parse (tokens x.source) s.nextId).nextId (resolve program).lookups)
  rw [hrun]
  refine ⟨⟨hcurrent.trans hcourse.after.current, hheap ▸ hcourse.after.changes⟩, fun t m ht => ?_⟩
  induction ht with
  | @statement earlier stmt rest m₁ haccepts' hearlier =>
    obtain rfl : program = earlier ++ stmt :: rest := hstatements.symm.trans haccepts'.statements
    have hpassed := hcourse.passes (.execute x.steps stmt) m₁ ⟨earlier, stmt, rest, rfl, hearlier, rfl⟩
    exact ⟨hpassed.prepared, hpassed.scope, hpassed.before, hheap ▸ hpassed.behind⟩
  | part h hleads hpassed => exact hpassed.leads hclosed (hR _ _ h) hleads

/-! ### Events -/

/-- A state that a session passes through while the events happen: before, between or behind them, or where
a task begins or ends. -/
inductive Meets (s : Session) (events : List Event) : Machine → Prop where
  | between {before after} (hevents : events = before ++ after) : Meets s events (s.follow before).2.machine
  | begins {t m} (ht : s.Does events t m) : Meets s events m
  | ends {t m} (ht : s.Does events t m) : Meets s events (t.after m)

theorem does_closed (s : Session) (events : List Event) : Leads.Closed (s.Does events) := by
  rintro t m t' m' ⟨before, e, after, x, hevents, hx, ht⟩ hleads
  exact ⟨before, e, after, x, hevents, hx, ht.part hleads⟩

/-- An event leads to the next state of the session by changes, and passes all its tasks on the way. -/
theorem step_course (hm : s.machine.Intact) {e : Event} (hclosed : Leads.Closed R)
    (hR : ∀ x t m, s.executed e = some x → s.Evaluates x t m → R t m) :
    s.machine.After R (s.step e).2.machine ∧
      ∀ x t m, s.executed e = some x → s.Evaluates x t m →
        t.Passed R m s.machine (s.step e).2.machine := by
  cases hx : s.executed e with
  | none =>
    refine ⟨?_, fun x t m hx' => by cases hx'⟩
    rcases step_of_not_executed hx with ⟨fault, hstep⟩ | ⟨files, input, clock, rfl⟩
    · rw [hstep]
      exact .refl _
    · exact ⟨rfl, .refl⟩
  | some x =>
    obtain ⟨hafter, hpassed⟩ := run_course hm hclosed (hR x · · hx)
    rw [step_executed hx]
    refine ⟨hafter, ?_⟩
    rintro _ t m ⟨⟩ ht
    exact hpassed t m ht

/-- The tasks of the first event come before those of the others. -/
theorem does_cons {e : Event} {rest : List Event} {t : Task} {m : Machine} :
    s.Does (e :: rest) t m ↔ (∃ x, s.executed e = some x ∧ s.Evaluates x t m) ∨
      (s.step e).2.Does rest t m := by
  constructor
  · rintro ⟨before, e', after, x, hevents, hx, ht⟩
    cases before with
    | nil =>
      obtain ⟨rfl, -⟩ := List.cons.inj hevents
      exact .inl ⟨x, hx, ht⟩
    | cons _ before =>
      obtain ⟨rfl, rfl⟩ := List.cons.inj hevents
      exact .inr ⟨before, e', after, x, rfl, hx, ht⟩
  · rintro (⟨x, hx, ht⟩ | ⟨before, e', after, x, rfl, hx, ht⟩)
    · exact ⟨[], e, rest, x, rfl, hx, ht⟩
    · exact ⟨e :: before, e', after, x, rfl, hx, ht⟩

/-- Events lead on by changes, and pass all their tasks on the way. -/
theorem follow_course (hm : s.machine.Intact) {events : List Event} (hclosed : Leads.Closed R)
    (hR : ∀ t m, s.Does events t m → R t m) :
    s.machine.After R (s.follow events).2.machine ∧
      ∀ t m, s.Does events t m → t.Passed R m s.machine (s.follow events).2.machine := by
  induction events generalizing s with
  | nil =>
    refine ⟨.refl _, ?_⟩
    rintro t m ⟨before, e, after, x, hevents, -⟩
    simp at hevents
  | cons e rest ih =>
    obtain ⟨hfirst, hpassed⟩ := step_course (e := e) hm hclosed
      fun x t m hx ht => hR t m (does_cons.mpr (.inl ⟨x, hx, ht⟩))
    obtain ⟨hrest, hpassed'⟩ := ih (hm.after hfirst) fun t m ht => hR t m (does_cons.mpr (.inr ht))
    refine ⟨hfirst.trans hrest, fun t m ht => ?_⟩
    rcases does_cons.mp ht with ⟨x, hx, ht⟩ | ht
    · exact (hpassed x t m hx ht).go_on hrest.changes
    · exact (hpassed' t m ht).behind_after hfirst

/-- The names of native functions are names that programs can give. -/
theorem initial_plain {x : String} (hx : (Machine.initialHeap.ownValue? .globals x).isSome) : Plain x := by
  have hnatives : ∀ f ∈ Native.all, f.name ≠ thisName ∧ f.name ≠ superName := by decide
  obtain ⟨v, hv⟩ := Option.isSome_iff_exists.mp hx
  have hmem : (x, v) ∈ Native.all.map fun f => (f.name, Value.native f) := Bindings.mem_of_lookup hv
  obtain ⟨f, hf, hpair⟩ := List.mem_map.mp hmem
  obtain ⟨rfl, -⟩ := Prod.mk.inj hpair
  exact hnatives f hf

/-- Nothing dangles in a new session. -/
theorem new_intact (files : Files) (includeDir : Option String) (input : List InputLine) (clock : Clock)
    (regex : Pattern.Engine) :
    (new files includeDir input clock regex).machine.Intact := by
  refine ⟨⟨?_, ?_⟩, Nat.zero_lt_one, fun _ => initial_plain⟩
  · rintro _ (@⟨f, b, hf, hb⟩ | ⟨ho, _⟩ | ⟨ha, _⟩)
    · obtain rfl : f = ⟨Native.all.map fun f => (f.name, .native f), none⟩ := by
        simpa [new, Machine.initial, Machine.initialHeap, Heap.newFrame, Heap.empty] using hf
      obtain ⟨native, -, rfl⟩ := List.mem_map.mp hb
      trivial
    · simp [new, Machine.initial, Machine.initialHeap, Heap.newFrame, Heap.empty] at ho
    · simp [new, Machine.initial, Machine.initialHeap, Heap.newFrame, Heap.empty] at ha
  · rintro f ⟨c, hc, -⟩
    simp [new, Machine.initial, Machine.initialHeap, Heap.newFrame, Heap.empty] at hc

/-- The history of a session while events happen: each state that it passes through lies behind changes, and
changes lead from it to the end. -/
theorem Meets.course {events : List Event} {m : Machine} (hm : s.Meets events m) (hs : s.machine.Intact) :
    m.Intact ∧ Changes (s.Does events) s.machine.heap m.heap ∧
      Changes (s.Does events) m.heap (s.follow events).2.machine.heap := by
  have hpassed := (follow_course hs (s.does_closed events) fun _ _ ht => ht).2
  cases hm with
  | @between before after hevents =>
    subst hevents
    have hsub : ∀ {t m}, s.Does before t m → s.Does (before ++ after) t m := by
      rintro t m ⟨earlier, e, later, x, rfl, hx, ht⟩
      exact ⟨earlier, e, later ++ after, x, by simp, hx, ht⟩
    obtain ⟨hbefore, -⟩ := follow_course hs (s.does_closed (before ++ after)) fun _ _ => hsub
    have hsub' : ∀ {t m}, (s.follow before).2.Does after t m → s.Does (before ++ after) t m := by
      rintro t m ⟨earlier, e, later, x, rfl, hx, ht⟩
      rw [← follow_append] at hx ht
      exact ⟨before ++ earlier, e, later, x, by simp, hx, ht⟩
    obtain ⟨hafter, -⟩ := follow_course (hs.after hbefore) (s.does_closed (before ++ after))
      fun _ _ => hsub'
    rw [follow_append]
    exact ⟨hs.after hbefore, hbefore.changes, hafter.changes⟩
  | begins ht =>
    have h := hpassed _ _ ht
    have hafter := (h.prepared.course (s.does_closed events) ht).1
    exact ⟨h.prepared.intact, h.before, hafter.changes.trans h.behind⟩
  | ends ht =>
    have h := hpassed _ _ ht
    have hafter := (h.prepared.course (s.does_closed events) ht).1
    exact ⟨h.prepared.intact.after hafter, h.before.trans hafter.changes, h.behind⟩

end Session

end LoxLang

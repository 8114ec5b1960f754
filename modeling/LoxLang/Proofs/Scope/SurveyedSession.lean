import LoxLang.Proofs.Scope.Addressing
import LoxLang.Proofs.Scope.Surveying

/-!
Sessions stay surveyed. The identities of the nodes tell which program of a session a mention belongs to, so
the mentions of any one program are known to be evaluated at its own spots, whatever else the session runs.
-/

namespace LoxLang

open Lexical (Place Post Surveys)

/-- The scopes of the global code of a program are known throughout. -/
theorem executeProgram_surveys (steps : Nat) {a : Atlas} {n : Notes} {known : Spot → Prop}
    {openings : List Opening} {program : List Stmt} {w : World} (hcovers : a.Covers w.machine.hops n)
    (hcurrent : w.machine.current = .globals) (hprogram : Stmt.AllAddressed n [] program)
    (hknown : ∀ p ∈ Stmt.allSpots [] [] program, known p) :
    Surveys a known (RecordedSession.executeProgram steps program) w openings fun _ _ _ => True := by
  induction program generalizing w openings with
  | nil => exact Surveys.pure trivial
  | cons s rest ih =>
    have hplace : Place a n [] w := ⟨hcovers, .nil _, hcurrent.symm⟩
    have hpost : Post openings [] [] w := ⟨.nil, trivial⟩
    have hsteady : Display.Steady [] := fun layer hlayer => by cases hlayer
    refine Surveys.bind (Lexical.execute_safe steps s hplace hsteady hprogram.1)
      (Lexical.execute_surveys steps s hplace hsteady hprogram.1 hpost (fun o ho => by cases ho)
        fun p hp => hknown p (List.mem_append_left _ hp)) fun _ w₁ openings₁ hgrows _ _ _ _ => ?_
    refine ih (hgrows.hops ▸ hcovers) (hgrows.current.trans hcurrent) ?_ fun p hp => ?_
    · rw [← Scope.after_global s]
      exact hprogram.2
    · refine hknown p (List.mem_append_right _ ?_)
      rw [Scope.after_global s]
      exact hp

/-- Distances that are recorded do not change what is surveyed. -/
theorem World.Surveyed.record {known : Spot → Prop} {openings : List Opening} {w : World}
    (hw : w.Surveyed known openings) (hops : HopTable) :
    ({ w with machine := { w.machine with hops := hops } } : World).Surveyed known openings where
  size := hw.size
  globals := hw.globals
  older := hw.older
  holds := hw.holds
  allowed := hw.allowed
  clauses := hw.clauses
  receivers := hw.receivers
  classes := hw.classes
  visits := hw.visits

namespace RecordedSession

variable {a : Atlas} {known : Spot → Prop} {openings : List Opening} {s : RecordedSession}

/-- The session is sound, and its world is surveyed. -/
def Surveyed (known : Spot → Prop) (s : RecordedSession) : Prop :=
  (∃ a, s.Sound a) ∧ ∃ openings, s.world.Surveyed known openings

theorem new_surveyed (files : Files) (includeDir : Option String) (input : List InputLine)
    (clock : Clock) (regex : Pattern.Engine) : (new files includeDir input clock regex).Surveyed known := by
  have hroot : ∀ f : FrameId, Machine.initialHeap.parent? f = none := fun ⟨i⟩ => by cases i <;> rfl
  have hglobal : ∀ (i : Nat) o, [Opening.globals][i]? = some o → o = Opening.globals := fun _ _ ho =>
    List.mem_singleton.mp (List.mem_of_getElem? ho)
  refine ⟨⟨_, new_sound files includeDir input clock regex⟩, [.globals], rfl, rfl, ?_, .initial, ?_, ?_, ?_, ?_,
    trivial⟩
  · exact fun f g hparent => by cases (hroot f).symm.trans hparent
  · intro f o x ho _
    rw [hglobal _ o ho]
    trivial
  · intro f clause ho
    cases hglobal _ _ ho
  · intro f ho
    cases hglobal _ _ ho
  · intro id c hc
    have hnone : Machine.initialHeap.class? id = none := by
      obtain ⟨i⟩ := id
      cases i <;> rfl
    cases hnone.symm.trans hc

theorem finish_surveyed (hw : s.world.Surveyed known openings) (diagnostics : List Diagnostic)
    (exhausted : Bool) : (s.finish diagnostics exhausted).2.world.Surveyed known openings :=
  ⟨hw.size, hw.globals, hw.older, hw.holds, hw.allowed, hw.clauses, hw.receivers, hw.classes, hw.visits⟩

theorem execute_surveyed (hs : s.Sound a) (hw : s.world.Surveyed known openings) (steps : Nat) {n : Notes}
    {program : List Stmt} (hcovers : a.Covers s.world.machine.hops n)
    (hprogram : Stmt.AllAddressed n [] program)
    (hknown : ∀ p ∈ Stmt.allSpots [] [] program, known p) :
    ∃ openings', (s.execute steps program).2.world.Surveyed known openings' := by
  have h := executeProgram_surveys steps hcovers hs.current hprogram hknown hs.world hw
  unfold Ends at h
  unfold RecordedSession.execute
  cases hrun : (executeProgram steps program).run s.world with
  | ok _ w =>
    rw [hrun] at h
    obtain ⟨openings', _, _, hw', _⟩ := h
    exact ⟨openings', finish_surveyed (s := { s with world := w }) hw' [] false⟩
  | error halt w =>
    rw [hrun] at h
    obtain ⟨openings', hw'⟩ := h
    cases halt with
    | failed d => exact ⟨openings', finish_surveyed (s := { s with world := w }) hw' [d] false⟩
    | exhausted => exact ⟨openings', finish_surveyed (s := { s with world := w }) hw' [] true⟩

/-- A run of a text whose spots, if it is accepted, are known. -/
theorem Surveyed.run (hs : s.Surveyed known) (steps : Nat) (source : String)
    (hknown : ∀ program, s.session.Accepts source program → ∀ p ∈ Stmt.allSpots [] [] program, known p) :
    (s.run steps source).2.Surveyed known := by
  obtain ⟨⟨a, hs⟩, openings, hw⟩ := hs
  refine ⟨hs.run steps source, ?_⟩
  obtain ⟨hnext, hprogram⟩ := parse_yields (tokens_words source) s.nextId
  unfold RecordedSession.run
  dsimp only
  split
  case isTrue =>
    exact ⟨openings, finish_surveyed (s := { s with nextId := (parse (tokens source) s.nextId).nextId })
      hw _ _⟩
  case isFalse hfaults =>
    split
    case h_1 fault hfault =>
      exact ⟨openings, finish_surveyed (s := { s with
        nextId := (parse (tokens source) s.nextId).nextId
        world.machine.hops := s.world.machine.hops.recordAll
          (resolve (parse (tokens source) s.nextId).statements).lookups }) (hw.record _) _ _⟩
    case h_2 hfault =>
      have hnone : lexicalFaults source = [] ∧ (parse (tokens source) s.nextId).faults = [] := by
        simpa using hfaults
      obtain ⟨n, hlookups, hmentions, hsites, haddressed⟩ := resolve_addresses hprogram.1 hfault
      exact execute_surveyed (hs.resolved n.sites hprogram hnext hsites) (hw.record _) steps
        (hs.covers hprogram hlookups hmentions hsites) haddressed
        (hknown _ ⟨hnone.1, hnone.2, rfl, hfault⟩)

theorem Surveyed.surrounded (hs : s.Surveyed known) (files : Files) (input : List InputLine) (clock : Clock) :
    (s.surrounded files input clock).Surveyed known := by
  obtain ⟨⟨a, hs⟩, openings, hw⟩ := hs
  exact ⟨⟨a, hs.surrounded files input clock⟩, openings, hw.size, hw.globals, hw.older, hw.holds, hw.allowed,
    hw.clauses, hw.receivers, hw.classes, hw.visits⟩

/-- An event whose program, if it is accepted, has known spots. -/
theorem Surveyed.step (hs : s.Surveyed known) (e : Session.Event)
    (hknown : ∀ x program, s.session.executed e = some x → s.session.Accepts x.source program →
      ∀ p ∈ Stmt.allSpots [] [] program, known p) : (s.step e).2.Surveyed known := by
  cases hx : s.session.executed e with
  | some x =>
    rw [step_executed hx]
    exact hs.run x.steps x.source fun program => hknown x program hx
  | none =>
    rcases step_of_not_executed hx with hstep | ⟨files, input, clock, hstep⟩ <;> rw [hstep]
    · exact hs
    · exact hs.surrounded files input clock

/-- The spots of all programs that are accepted are known. -/
theorem Surveyed.follow (hs : s.Surveyed known) (events : List Session.Event)
    (hknown : ∀ before e after x program, events = before ++ e :: after →
      (s.follow before).2.session.executed e = some x → (s.follow before).2.session.Accepts x.source program →
        ∀ p ∈ Stmt.allSpots [] [] program, known p) : (s.follow events).2.Surveyed known := by
  induction events generalizing s with
  | nil => exact hs
  | cons e rest ih =>
    have hstep := hs.step e fun x program => hknown [] e rest x program rfl
    exact ih hstep fun before e' after x program hrest =>
      hknown (e :: before) e' after x program (congrArg (e :: ·) hrest)

/-! ### Identities of programs -/

theorem execute_nextId (steps : Nat) (program : List Stmt) (s : RecordedSession) :
    (s.execute steps program).2.nextId = s.nextId := by
  unfold RecordedSession.execute
  split <;> rfl

theorem run_nextId (steps : Nat) (source : String) (s : RecordedSession) :
    (s.run steps source).2.nextId = (parse (tokens source) s.nextId).nextId := by
  unfold RecordedSession.run
  dsimp only
  split
  · rfl
  · split
    · rfl
    · exact execute_nextId steps _ _

theorem nextId_le_run (steps : Nat) (source : String) (s : RecordedSession) :
    @LE.le Nat _ s.nextId (s.run steps source).2.nextId := by
  rw [run_nextId]
  exact (parse_yields (tokens_words source) s.nextId).1

theorem nextId_le_step (e : Session.Event) (s : RecordedSession) :
    @LE.le Nat _ s.nextId (s.step e).2.nextId := by
  cases hx : s.session.executed e with
  | some x =>
    rw [step_executed hx]
    exact nextId_le_run x.steps x.source s
  | none =>
    have hid : (s.step e).2.nextId = s.nextId := by
      rcases step_of_not_executed hx with hstep | ⟨files, input, clock, hstep⟩ <;>
        simp only [hstep, surrounded]
    exact Nat.le_of_eq hid.symm

theorem nextId_le_follow (events : List Session.Event) (s : RecordedSession) :
    @LE.le Nat _ s.nextId (s.follow events).2.nextId := by
  induction events generalizing s with
  | nil => exact Nat.le_refl _
  | cons e rest ih => exact Nat.le_trans (nextId_le_step e s) (ih (s.step e).2)

/-- The mentions in a program have the identities that its parse gives out. -/
theorem spots_given {e : Session.Event} {x : Session.Executed} {program : List Stmt}
    (hx : s.session.executed e = some x) (h : s.session.Accepts x.source program) :
    ∀ p ∈ Stmt.allSpots [] [] program, ∀ id ∈ p.node?,
      @LE.le Nat _ s.nextId id ∧ @LT.lt Nat _ id (s.step e).2.nextId := by
  intro p hp id hid
  have hnode := Stmt.allSpots_nodes program p hp id hid
  rw [← h.statements] at hnode
  rw [step_executed hx, run_nextId]
  exact (parse_yields (tokens_words x.source) s.nextId).2.2.range id hnode

/-- Mentions with identities in a range are at the spots of a program. -/
def SpotsOf (first next : Nat) (program : List Stmt) (p : Spot) : Prop :=
  ∀ id ∈ p.node?, first ≤ id → id < next → p ∈ Stmt.allSpots [] [] program

/-- Wherever in a session a program is executed, its mentions are evaluated at its own spots. -/
theorem Surveyed.at_spots {before : List Session.Event} {e : Session.Event} {x : Session.Executed}
    (hx : (s.follow before).2.session.executed e = some x) :
    let first := (s.follow before).2.nextId
    let p := parse (tokens x.source) first
    s.Surveyed (SpotsOf first p.nextId p.statements) → ∀ after,
      (s.follow (before ++ e :: after)).2.Surveyed (SpotsOf first p.nextId p.statements) := by
  intro first p hs after
  have hbefore := hs.follow before ?_
  · have hstep := hbefore.step e fun x' program hx' hprogram q hq _ _ _ _ => ?_
    · rw [follow_append]
      refine hstep.follow after ?_
      intro earlier e' later x' program _ hx' hprogram q hq id hid _ hlast
      have hgiven := (spots_given hx' hprogram q hq id hid).1
      have hlastId : ((s.follow before).2.step e).2.nextId = p.nextId := by rw [step_executed hx, run_nextId]
      have hnext := nextId_le_follow earlier ((s.follow before).2.step e).2
      rw [hlastId] at hnext
      exact absurd hlast (Nat.not_lt.mpr (Nat.le_trans hnext hgiven))
    · obtain rfl := Option.some.inj (hx.symm.trans hx')
      have hstatements : p.statements = program := hprogram.statements
      exact hstatements ▸ hq
  · rintro earlier e' later x' program rfl hx' hprogram q hq id hid hfirst _
    have hgiven := (spots_given hx' hprogram q hq id hid).2
    have hnext := nextId_le_follow later ((s.follow earlier).2.step e').2
    have hfollow : first = (((s.follow earlier).2.step e').2.follow later).2.nextId :=
      congrArg RecordedSession.nextId (follow_append earlier (e' :: later) s)
    rw [hfollow] at hfirst
    exact absurd (Nat.lt_of_lt_of_le hgiven hnext) (Nat.not_lt.mpr hfirst)

end RecordedSession

end LoxLang

import LoxLang.Proofs.Evaluation.Kept
import LoxLang.Proofs.Session.Passage
import LoxLang.Proofs.Session.Provenance
import LoxLang.Proofs.Syntax.Progress
import LoxLang.Proofs.Token.Words

/-!
The identities of mentions in a session. Each mention that is made gets an identity of its own, whether the
program is accepted or not and whether anything is left of the mention or not. The resolver looks up each
mention in a program once at most. Hence a program only adds distances for its own mentions, and those of
earlier programs stay as they are.
-/

namespace LoxLang

/-- The only end of the file is the last token of a text. -/
theorem tokens_closed (source : String) : Watched.Closed (tokens source) := by
  obtain ⟨line, htokens, _⟩ := tokens_last source
  exact ⟨_, _, htokens, rfl, fun t ht => (tokens_front source t ht).1⟩

namespace Session

/-! ### Programs -/

/-- A program that is run, with the first identity that is free for it. -/
structure Launch where
  source : String
  firstId : NodeId

namespace Launch

variable (l : Launch)

/-- What the program is parsed to. -/
def parse : Parse :=
  LoxLang.parse (tokens l.source) l.firstId

/-- All mentions that are made while the program is parsed. -/
def made : List Reference :=
  (noted (tokens l.source) l.firstId).made

/-- The mentions in what the program is parsed to. -/
def mentions : List Reference :=
  Stmt.allReferences l.parse.statements

/-- The mentions that are made get new identities, each of them its own. -/
theorem made_givenOut : GivenOut l.firstId l.parse.nextId (l.made.map (·.id)) :=
  (noted_made (tokens_closed l.source) l.firstId).2.1

/-- Nothing is left of the first mention, nor of the second one, which becomes a target. -/
example : (made ⟨"a + ; b = c;", 0⟩).map (fun r => (r.id, r.ident.name)) =
    [(0, "a"), (1, "b"), (2, "c"), (3, "b")] := by
  decide +kernel

/-- And no mention stands in two places. -/
theorem mentions_givenOut : GivenOut l.firstId l.parse.nextId (l.mentions.map (·.id)) :=
  (parse_yields (tokens_words l.source) l.firstId).2.2.sublist (Stmt.allReferences_ids _)

theorem mentions_subset_made : l.mentions ⊆ l.made :=
  (noted_made (tokens_closed l.source) l.firstId).2.2

end Launch

/-- The programs that events run, whether they are accepted or not. -/
def launches (s : Session) : List Event → List Launch
  | [] => []
  | e :: rest => ((s.executed e).map fun x => ⟨x.source, s.nextId⟩).toList ++ (s.step e).2.launches rest

/-- What the resolver looks up in a text; nothing if faults keep it from being resolved. -/
def lookups (s : Session) (source : String) : List Lookup :=
  if lexicalFaults source ++ (parse (tokens source) s.nextId).faults = [] then
    (resolve (parse (tokens source) s.nextId).statements).lookups.toList
  else []

/-- What the resolver looks up in the programs of events. -/
def allLookups (s : Session) : List Event → List Lookup
  | [] => []
  | e :: rest => ((s.executed e).map fun x => s.lookups x.source).getD [] ++ (s.step e).2.allLookups rest

/-! ### One program -/

variable {s : Session}

theorem lookups_sublist (s : Session) (source : String) :
    ((s.lookups source).map (·.reference)).Sublist (Launch.mentions ⟨source, s.nextId⟩) := by
  unfold lookups
  split
  · exact (resolve_references (parse (tokens source) s.nextId).statements).1.sublist
  · exact List.nil_sublist _

theorem recorded_hops (s : Session) (next : NodeId) (ls : Array Lookup) :
    (s.recorded next ls).machine.hops = s.machine.hops.recordAll ls := rfl

theorem finish_hops (s : Session) (diagnostics : List Diagnostic) (exhausted : Bool) :
    (s.finish diagnostics exhausted).2.machine.hops = s.machine.hops := rfl

theorem execute_hops (steps : Nat) (program : List Stmt) (s : Session) :
    (s.execute steps program).2.machine.hops = s.machine.hops := by
  have h := executeProgram_keeps steps program s.machine
  unfold Ends at h
  unfold Session.execute
  cases hrun : (executeProgram steps program).run s.machine with
  | ok _ m =>
    rw [hrun] at h
    exact h.hops
  | error halt m =>
    rw [hrun] at h
    cases halt with
    | failed d => exact h.2.hops
    | exhausted => exact h.2.hops

/-- A run records what the resolver looks up, and nothing else. -/
theorem run_hops (steps : Nat) (source : String) (s : Session) :
    (s.run steps source).2.machine.hops = s.machine.hops.recordAll (s.lookups source).toArray := by
  unfold lookups
  split
  case isTrue hfaults =>
    cases hfault : (resolve (parse (tokens source) s.nextId).statements).fault with
    | none =>
      rw [Session.run, runScanned_of_none rfl hfaults hfault, execute_hops, recorded_hops, Array.toArray_toList]
    | some fault =>
      rw [Session.run, runScanned_of_fault rfl hfaults hfault, finish_hops, recorded_hops, Array.toArray_toList]
  case isFalse hfaults =>
    rw [Session.run, runScanned_of_faults rfl hfaults, finish_hops, recorded_hops]

/-! ### Programs one after the other -/

/-- An event runs a text, or it changes neither identities nor distances. -/
theorem step_runs (s : Session) (e : Event) :
    (∃ x, s.executed e = some x ∧ (s.step e).2 = (s.run x.steps x.source).2) ∨
      s.executed e = none ∧ (s.step e).2.nextId = s.nextId ∧
        (s.step e).2.machine.hops = s.machine.hops := by
  cases hx : s.executed e with
  | some x =>
    refine .inl ⟨x, rfl, ?_⟩
    rw [step_of_executed hx, runPlaced_id]
  | none =>
    refine .inr ⟨rfl, ?_⟩
    rcases step_of_not_executed hx with ⟨fault, hstep⟩ | ⟨files, input, clock, rfl⟩
    · rw [hstep]
      exact ⟨rfl, rfl⟩
    · exact ⟨rfl, rfl⟩

/-- A run gives out the identities of its own nodes. -/
theorem run_nextId_eq (steps : Nat) (source : String) (s : Session) :
    (s.run steps source).2.nextId = (parse (tokens source) s.nextId).nextId :=
  (run_nextId steps source s).trans (parse_nextId (ended_tokens source) s.nextId).symm

/-- Identities are given out to the programs of events one after the other. -/
theorem launches_givenOut {identities : Launch → List NodeId}
    (hidentities : ∀ l : Launch, GivenOut l.firstId l.parse.nextId (identities l)) (events : List Event)
    (s : Session) : @LE.le Nat _ s.nextId (s.follow events).2.nextId ∧
      GivenOut s.nextId (s.follow events).2.nextId ((s.launches events).flatMap identities) := by
  induction events generalizing s with
  | nil => exact ⟨Nat.le_refl _, .nil⟩
  | cons e rest ih =>
    obtain ⟨hle, hrest⟩ := ih (s.step e).2
    unfold launches follow
    rcases step_runs s e with ⟨x, hx, hstep⟩ | ⟨hx, hnext, -⟩
    · have hnext : (s.step e).2.nextId = (parse (tokens x.source) s.nextId).nextId := by
        rw [hstep, run_nextId_eq]
      have hown : GivenOut s.nextId (s.step e).2.nextId (identities ⟨x.source, s.nextId⟩) :=
        hnext ▸ hidentities ⟨x.source, s.nextId⟩
      have hahead : @LE.le Nat _ s.nextId (s.step e).2.nextId :=
        hnext ▸ (parse_yields (tokens_words x.source) s.nextId).1
      refine ⟨Nat.le_trans hahead hle, ?_⟩
      simpa [hx] using hown.append hrest hahead hle
    · rw [hnext] at hle hrest
      exact ⟨hle, by simpa [hx] using hrest⟩

/-- Each mention of each program is looked up once at most. -/
theorem allLookups_sublist (events : List Event) (s : Session) :
    ((s.allLookups events).map (·.reference)).Sublist ((s.launches events).flatMap Launch.mentions) := by
  induction events generalizing s with
  | nil => exact List.Sublist.refl _
  | cons e rest ih =>
    unfold launches allLookups
    cases hx : s.executed e with
    | some x => simpa using (s.lookups_sublist x.source).append (ih (s.step e).2)
    | none => simpa using ih (s.step e).2

/-- What is recorded behind events is what has been looked up for their programs. -/
theorem follow_hops (events : List Event) (s : Session) :
    (s.follow events).2.machine.hops = s.machine.hops.recordAll (s.allLookups events).toArray := by
  induction events generalizing s with
  | nil => rfl
  | cons e rest ih =>
    unfold follow allLookups
    rw [ih, HopTable.recordAll_eq, HopTable.recordAll_eq]
    rcases step_runs s e with ⟨x, hx, hstep⟩ | ⟨hx, -, hhops⟩
    · have hrun : (s.step e).2.machine.hops = s.machine.hops.recordAll (s.lookups x.source).toArray := by
        rw [hstep, run_hops]
      rw [hrun, hx, HopTable.recordAll_eq]
      simp
    · rw [hhops, hx]
      simp

/-- Events leave the distance of a node as it is unless it is a mention in one of their programs. -/
theorem follow_find? (events : List Event) (s : Session) {id : NodeId}
    (hid : ∀ l ∈ s.launches events, ∀ r ∈ l.mentions, r.id ≠ id) :
    (s.follow events).2.machine.hops.find? id = s.machine.hops.find? id := by
  rw [follow_hops]
  refine HopTable.find?_recordAll_ne _ fun l hl => ?_
  have hmention := (s.allLookups_sublist events).subset (List.mem_map_of_mem (f := (·.reference)) hl)
  obtain ⟨launch, hlaunch, hr⟩ := List.mem_flatMap.mp hmention
  exact hid launch hlaunch _ hr

theorem new_find? (files : Files) (includeDir : Option String) (input : List InputLine) (clock : Clock)
    (regex : Pattern.Engine)
    (id : NodeId) : (new files includeDir input clock regex).machine.hops.find? id = none := by
  simp [new, Machine.initial, HopTable.empty, HopTable.find?]

end Session

/-- No two mentions that are made in a session have the same identity, whether the programs they are made for
are accepted or not and whether anything is left of them or not; nor does a mention stand in two places of what
the programs are parsed to. The resolver looks up each of those once at most, and what it looks up is what is
recorded. Hence events add distances for mentions in their own programs only, where there were none before, and
they leave those of the mentions made for earlier programs alone. -/
theorem identities_are_never_shared (files : Files) (includeDir : Option String) (input : List InputLine)
    (clock : Clock) (regex : Pattern.Engine) (earlier later : List Session.Event) :
    let s := Session.new files includeDir input clock regex
    let before := (s.follow earlier).2
    let after := (s.follow (earlier ++ later)).2
    (((s.launches (earlier ++ later)).flatMap (·.made)).map (·.id)).Nodup ∧
    (∀ l ∈ s.launches (earlier ++ later),
      (noted (tokens l.source) l.firstId).parse = parse (tokens l.source) l.firstId ∧ l.mentions ⊆ l.made) ∧
    (((s.launches (earlier ++ later)).flatMap (·.mentions)).map (·.id)).Nodup ∧
    ((s.allLookups (earlier ++ later)).map (·.reference.id)).Nodup ∧
    after.machine.hops = HopTable.empty.recordAll (s.allLookups (earlier ++ later)).toArray ∧
    (∀ id, after.machine.hops.find? id = before.machine.hops.find? id ∨
      before.machine.hops.find? id = none ∧ ∃ l ∈ before.launches later, ∃ r ∈ l.mentions, r.id = id) ∧
    ∀ l ∈ s.launches earlier, ∀ r ∈ l.made,
      after.machine.hops.find? r.id = before.machine.hops.find? r.id := by
  intro s before after
  have hafter : after = (before.follow later).2 := Session.follow_append earlier later s
  have hmade := (Session.launches_givenOut Session.Launch.made_givenOut (earlier ++ later) s).2.nodup
  have hmentions := (Session.launches_givenOut Session.Launch.mentions_givenOut (earlier ++ later) s).2.nodup
  rw [← List.map_flatMap] at hmade hmentions
  -- The mentions made for the first events have identities below the others.
  have hearlier := (Session.launches_givenOut Session.Launch.made_givenOut earlier s).2.range
  have hlater := (Session.launches_givenOut Session.Launch.mentions_givenOut later before).2.range
  have hapart : ∀ l ∈ s.launches earlier, ∀ r ∈ l.made, ∀ l' ∈ before.launches later, ∀ r' ∈ l'.mentions,
      r'.id ≠ r.id := by
    intro l hl r hr l' hl' r' hr' heq
    have hbelow := (hearlier r.id (List.mem_flatMap.mpr ⟨l, hl, List.mem_map_of_mem hr⟩)).2
    have habove := (hlater r'.id (List.mem_flatMap.mpr ⟨l', hl', List.mem_map_of_mem hr'⟩)).1
    exact absurd hbelow (Nat.not_lt.mpr (heq ▸ habove))
  refine ⟨hmade, fun l _ => ?_, hmentions, ?_, s.follow_hops _, fun id => ?_, fun l hl r hr => ?_⟩
  · exact ⟨(noted_made (tokens_closed l.source) l.firstId).1, l.mentions_subset_made⟩
  · have hlookups := (s.allLookups_sublist (earlier ++ later)).map (·.id)
    rw [List.map_map] at hlookups
    exact hmentions.sublist hlookups
  · rw [hafter]
    by_cases hid : ∃ l ∈ before.launches later, ∃ r ∈ l.mentions, r.id = id
    · refine .inr ⟨?_, hid⟩
      obtain ⟨l', hl', r', hr', rfl⟩ := hid
      refine (s.follow_find? earlier fun l hl r hr heq => ?_).trans (Session.new_find? ..)
      exact hapart l hl r (l.mentions_subset_made hr) l' hl' r' hr' heq.symm
    · refine .inl (before.follow_find? later fun l hl r hr heq => ?_)
      exact hid ⟨l, hl, r, hr, heq⟩
  · rw [hafter]
    exact before.follow_find? later fun l' hl' r' hr' => hapart l hl r hr l' hl' r' hr'

end LoxLang

import Mathlib.Data.Nat.Pairing
import LoxLang.Proofs.Grammar.Places
import LoxLang.Proofs.Grammar.Sound.Statements
import LoxLang.Proofs.Include.Origins
import LoxLang.Proofs.Scope.Enforced
import LoxLang.Proofs.Token.Rows

/-!
Which program a fault at runtime comes from. Functions outlive the program that makes them, so a program can
fail in the text of an earlier one. The token that is at fault is told apart from all others by what happens
if the tokens of each program are placed elsewhere, in a way of the program's own: then the fault is reported
where this token is placed. But its line is told by the origins of the program that failed; and these are the
origins of its own text.
-/

namespace LoxLang

/-- The line of a file where a diagnostic is shown. -/
def Diagnostic.origin (d : Diagnostic) : Include.Origin :=
  ⟨d.file, d.position.line⟩

namespace Session

variable {s t : Session} {S : Skew}

/-! ### Programs -/

/-- Runs a program whose tokens, and whatever it has of lexical faults, are placed elsewhere. -/
def runPlaced (place : Position → Position) (x : Executed) (s : Session) : Report × Session :=
  s.runScanned x.steps ((lexicalFaults x.source).map (Diagnostic.placed place))
    ((tokens x.source).map (Token.placed place))

/-- What an event reports, in the places of the text that it executes, if its tokens are placed elsewhere. -/
def stepPlaced (place : Position → Position) (s : Session) (e : Event) : Option Report × Session :=
  match s.executed e with
  | some x => (some (s.runPlaced place x).1, (s.runPlaced place x).2)
  | none => (none, (s.step e).2)

/-- What events report if the tokens of each program are placed in a way of its own; the first event has the
number `n`. -/
def followPlaced (place : Nat → Position → Position) : Nat → Session → List Event → List (Option Report)
  | _, _, [] => []
  | n, s, e :: rest =>
    (s.stepPlaced (place n) e).1 :: followPlaced place (n + 1) (s.stepPlaced (place n) e).2 rest

/-- The fault that event `i` reports is at the place `p` of the program of event `k`: however the tokens of
the programs are placed, this is where event `i` reports it. -/
def Blames (s : Session) (events : List Event) (i k : Nat) (p : Position) (fault : Fault) : Prop :=
  ∀ place : Nat → Position → Position, ∃ r d, (followPlaced place 0 s events)[i]? = some (some r) ∧
    r.diagnostics = [d] ∧ d.position = place k p ∧ d.fault = fault

/-! ### A program that is placed -/

/-- A program without faults of grammar is alike in two sessions if the places do where its tokens begin. -/
theorem placed_alike_at {source : String} (hclean : (parse (tokens source) 0).faults = [])
    {v w : Position → Position}
    (hvw : ∀ t ∈ tokens source, t.kind ≠ .eof → S.place (v t.position) (w t.position)) (a b : Nat) :
    List.Forall₂ (Stmt.Alike (S.grow a b (parse (tokens source) 0).nextId))
      (Move.stmts (.along a v) (parse (tokens source) 0).statements)
      (Move.stmts (.along b w) (parse (tokens source) 0).statements) := by
  obtain ⟨line, hlast, _⟩ := tokens_last source
  have hfront : ∀ t ∈ (tokens source).dropLast, t.kind ≠ .eof := fun t ht => (tokens_front source t ht).1
  have hcovered : Grammar.Covered (.along a v) (.along b w) S.place (tokens source).dropLast :=
    ⟨rfl, fun t ht => hvw t (List.dropLast_subset _ ht) (hfront t ht)⟩
  have hclean' : (parse ((tokens source).dropLast ++ [.endOfFile line]) 0).faults = [] := by rwa [← hlast]
  have hprogram := Grammar.program_of_parse hfront rfl 0 hclean'
  rw [← hlast] at hprogram
  refine Stmt.allAlike_imp (S := Move.across (.along a v) (.along b w) S.place) ?_
    (within_grown (ended_tokens source) (tokens_words source) S a b id)
  generalize (parse (tokens source) 0).statements = body at hprogram
  generalize tokens source = ts at hprogram hlast hcovered
  cases hprogram with
  | mk hbody _ =>
    rw [List.dropLast_concat] at hcovered
    exact hbody.moved hcovered

/-- A fault at runtime is all that a run reports, and the program had no other faults. -/
theorem runPlaced_runtime {v : Position → Position} {x : Executed} {d : Diagnostic}
    (hd : d ∈ (s.runPlaced v x).1.diagnostics) (hruntime : d.fault.isRuntime = true) :
    lexicalFaults x.source ++ (parse (tokens x.source) 0).faults = [] ∧
      (s.runPlaced v x).1.diagnostics = [d] ∧ d.file = none := by
  have hparse := parse_placed (ended_tokens x.source) s.nextId v
  by_cases hfaults : lexicalFaults x.source ++ (parse (tokens x.source) 0).faults = []
  · refine ⟨hfaults, ?_⟩
    obtain ⟨hlexical, hgrammar⟩ := List.append_eq_nil_iff.mp hfaults
    have hmoved : (lexicalFaults x.source).map (Diagnostic.placed v) ++
        ((parse (tokens x.source) 0).moved (.along s.nextId v)).faults = [] := by
      simp [Parse.moved, hlexical, hgrammar]
    cases hfault : (resolve ((parse (tokens x.source) 0).moved (.along s.nextId v)).statements).fault with
    | none =>
      have hrun : s.runPlaced v x = _ := runScanned_of_none hparse hmoved hfault
      rw [hrun] at hd ⊢
      have hexecuted := execute_fault hd
      exact ⟨hexecuted.1, hexecuted.2.2⟩
    | some fault =>
      have hrun : s.runPlaced v x = _ := runScanned_of_fault hparse hmoved hfault
      rw [hrun] at hd
      obtain rfl := List.mem_singleton.mp hd
      obtain ⟨violation, _, rfl⟩ := breaks_of_fault hfault
      cases hruntime
  · have hrun : s.runPlaced v x = _ := runScanned_of_faults hparse (faults_placed_ne hfaults v v)
    rw [hrun] at hd
    rcases List.mem_append.mp hd with hmem | hmem
    · obtain ⟨e, he, rfl⟩ := List.mem_map.mp hmem
      obtain ⟨fault, hfault⟩ := lexicalFaults_lexical x.source e he
      simp [Diagnostic.placed, hfault, Fault.isRuntime] at hruntime
    · obtain ⟨e, he, rfl⟩ := List.mem_map.mp hmem
      obtain ⟨⟨fault, hfault⟩, -⟩ := parse_grammar (tokens_words x.source) 0 e he
      simp [Move.diagnostic, Diagnostic.placed, hfault, Fault.isRuntime] at hruntime

theorem Alike.runPlaced (h : s.Alike S t) (x : Executed) {v w : Position → Position}
    (hvw : ∀ tk ∈ tokens x.source, tk.kind ≠ .eof → S.place (v tk.position) (w tk.position)) :
    ∃ T : Skew, T.place = S.place ∧ (s.runPlaced v x).2.Alike T (t.runPlaced w x).2 ∧
      ∀ d ∈ (s.runPlaced v x).1.diagnostics, d.fault.isRuntime = true →
        (s.runPlaced v x).1.Alike T (t.runPlaced w x).1 := by
  obtain ⟨hnext, hreport⟩ := h.runScanned_moved x.steps (lexicalFaults x.source) (ended_tokens x.source)
    (tokens_words x.source) (v := v) (w := w)
    fun hnone => placed_alike_at (List.append_eq_nil_iff.mp hnone).2 hvw s.nextId t.nextId
  exact ⟨S.grow s.nextId t.nextId (parse (tokens x.source) 0).nextId, rfl, hnext,
    fun d hd hruntime => hreport (runPlaced_runtime hd hruntime).1⟩

/-! ### Events -/

theorem Alike.executed (h : s.Alike S t) (e : Event) : s.executed e = t.executed e := by
  have hsource : s.source = t.source := by
    unfold Session.source
    rw [h.machine.files, h.includeDir]
  cases e with
  | run steps source => rfl
  | runFile steps path =>
    unfold Session.executed
    rw [h.machine.files, hsource]
  | «meanwhile» files input clock => rfl

theorem runPlaced_id (x : Executed) (s : Session) : s.runPlaced id x = s.run x.steps x.source := by
  have htokens : (tokens x.source).map (Token.placed id) = tokens x.source := List.map_id _
  have hlexical : (lexicalFaults x.source).map (Diagnostic.placed id) = lexicalFaults x.source :=
    List.map_id _
  unfold runPlaced
  rw [htokens, hlexical]
  rfl

/-- An event that executes a program reports its faults where the lines are told to be written. -/
theorem step_of_executed {e : Event} {x : Executed} (hx : s.executed e = some x) :
    s.step e = (some (.ok { (s.runPlaced id x).1 with
        diagnostics := (s.runPlaced id x).1.diagnostics.map (Diagnostic.relocate x.origins) }),
      (s.runPlaced id x).2) := by
  rw [runPlaced_id]
  cases e with
  | run steps source =>
    obtain rfl := Option.some.inj hx
    have hsame : (s.run steps source).1.diagnostics.map (Diagnostic.relocate #[]) =
        (s.run steps source).1.diagnostics := List.map_id _
    simp only [Session.step, hsame]
  | runFile steps path =>
    obtain ⟨text, e, hread, hexpand, rfl⟩ := executed_file hx
    simp only [Session.step, runFile_of_expand hread hexpand]
  | «meanwhile» files input clock => cases hx

/-- An event leaves a session as if nothing had been placed elsewhere. -/
theorem stepPlaced_id (s : Session) (e : Event) : (s.stepPlaced id e).2 = (s.step e).2 := by
  unfold stepPlaced
  split
  next x hx => rw [step_of_executed hx]
  next => rfl

theorem Alike.stepPlaced (h : s.Alike S t) (e : Event) {v w : Position → Position}
    (hvw : ∀ x, s.executed e = some x → ∀ tk ∈ tokens x.source, tk.kind ≠ .eof →
      S.place (v tk.position) (w tk.position)) :
    ∃ T : Skew, T.place = S.place ∧ (s.stepPlaced v e).2.Alike T (t.stepPlaced w e).2 ∧
      ∀ r, (s.stepPlaced v e).1 = some r → ∀ d ∈ r.diagnostics, d.fault.isRuntime = true →
        ∃ r', (t.stepPlaced w e).1 = some r' ∧ r.Alike T r' := by
  unfold Session.stepPlaced
  rw [← h.executed e]
  cases hx : s.executed e with
  | some x =>
    obtain ⟨T, hT, hnext, hreport⟩ := h.runPlaced x (hvw x hx)
    refine ⟨T, hT, hnext, ?_⟩
    rintro _ ⟨⟩ d hd hruntime
    exact ⟨_, rfl, hreport d hd hruntime⟩
  | none =>
    refine ⟨S, rfl, ?_, fun r hr => by cases hr⟩
    have hx' := hx
    rw [h.executed e] at hx'
    rcases step_of_not_executed hx with ⟨fault, hstep⟩ | ⟨files, input, clock, rfl⟩
    · rcases step_of_not_executed hx' with ⟨fault', hstep'⟩ | ⟨files, input, clock, rfl⟩
      · rw [hstep, hstep']
        exact h
      · cases hstep
    · exact ⟨h.nodes, { h.machine with files := rfl, input := rfl, clock := rfl }, h.fresh, h.fresh',
        h.includeDir⟩

/-! ### Runs of events -/

/-- The places where, in two ways of placing, the tokens stand of the first `n` programs. -/
def Standing (v w : Nat → Position → Position) (programs : List (Option Executed)) (n : Nat)
    (p q : Position) : Prop :=
  ∃ k x t, k < n ∧ programs[k]? = some (some x) ∧ t ∈ tokens x.source ∧ t.kind ≠ .eof ∧
    p = v k t.position ∧ q = w k t.position

theorem Standing.mono {v w : Nat → Position → Position} {programs : List (Option Executed)} {n m : Nat}
    {p q : Position} (h : Standing v w programs n p q) (hle : n ≤ m) : Standing v w programs m p q := by
  obtain ⟨k, x, t, hk, h⟩ := h
  exact ⟨k, x, t, Nat.lt_of_lt_of_le hk hle, h⟩

/-- In two ways of placing, a fault at runtime is reported where some token stands of a program that has been
executed by then, in both ways the same one. -/
theorem followPlaced_alike {v w : Nat → Position → Position} {programs : List (Option Executed)}
    (events : List Event) {n : Nat} {u s t : Session} {R S : Skew}
    (hprograms : programs.drop n = u.executions events) (hreal : u.Alike R s)
    (hR : ∀ p q, R.place p q) (halike : s.Alike S t)
    (hS : ∀ p q, S.place p q → Standing v w programs n p q) {i : Nat} {r : Report}
    (hr : (followPlaced v n s events)[i]? = some (some r)) {d : Diagnostic} (hd : d ∈ r.diagnostics)
    (hruntime : d.fault.isRuntime = true) :
    ∃ r' T, (followPlaced w n t events)[i]? = some (some r') ∧ r.Alike T r' ∧
      ∀ p q, T.place p q → Standing v w programs (n + i + 1) p q := by
  induction events generalizing n u s t R S i with
  | nil => cases hr
  | cons e rest ih =>
    have hfirst : programs[n]? = some (u.executed e) := by
      have hhead := congrArg (fun l => l[0]?) hprograms
      simpa [executions] using hhead
    have hrest : programs.drop (n + 1) = (u.step e).2.executions rest := by
      have htail := congrArg List.tail hprograms
      simpa [executions] using htail
    have hwide := halike.imp_place (P := Standing v w programs (n + 1))
      fun p q h => (hS p q h).mono (Nat.le_succ n)
    obtain ⟨T, hT, hnext, hreport⟩ := hwide.stepPlaced e (v := v n) (w := w n) fun x hx tk htk hkind =>
      ⟨n, x, tk, Nat.lt_succ_self n, by rw [hfirst, hreal.executed, hx], htk, hkind, rfl, rfl⟩
    have hplace : ∀ p q, T.place p q → Standing v w programs (n + 1) p q := by
      rw [hT]
      exact fun p q hpq => hpq
    cases i with
    | zero =>
      obtain ⟨r', hr', hsame⟩ := hreport r (Option.some.inj hr) d hd hruntime
      exact ⟨r', T, congrArg some hr', hsame, hplace⟩
    | succ i =>
      obtain ⟨R', hR', hreal', _⟩ := hreal.stepPlaced e (v := id) (w := v n) fun _ _ _ _ _ => hR _ _
      rw [stepPlaced_id] at hreal'
      obtain ⟨r', T', hr', hsame, hstanding⟩ :=
        ih hrest hreal' (fun p q => hR' ▸ hR p q) hnext hplace hr
      exact ⟨r', T', hr', hsame, fun p q hpq => (hstanding p q hpq).mono (by omega)⟩

/-- What events show is what they report, told where the lines are told to be written. -/
theorem follow_shown (events : List Event) {s : Session} {n i : Nat} {r : Report}
    (h : (s.follow events).1[i]? = some (some (.ok r))) :
    ∃ x raw, (s.executions events)[i]? = some (some x) ∧
      (followPlaced (fun _ => id) n s events)[i]? = some (some raw) ∧
      r.diagnostics = raw.diagnostics.map (Diagnostic.relocate x.origins) := by
  induction events generalizing s n i with
  | nil => cases h
  | cons e rest ih =>
    cases i with
    | zero =>
      have hstep : (s.step e).1 = some (.ok r) := Option.some.inj h
      cases hx : s.executed e with
      | some x =>
        rw [step_of_executed hx] at hstep
        obtain rfl := Except.ok.inj (Option.some.inj hstep)
        refine ⟨x, (s.runPlaced id x).1, congrArg some hx, ?_, rfl⟩
        simp [followPlaced, Session.stepPlaced, hx]
      | none =>
        rcases step_of_not_executed hx with ⟨fault, hfault⟩ | ⟨files, input, clock, rfl⟩
        · rw [hfault] at hstep
          cases hstep
        · cases hstep
    | succ i =>
      obtain ⟨x, raw, hx, hraw, hsame⟩ := ih (s := (s.step e).2) (n := n + 1) h
      refine ⟨x, raw, hx, ?_, hsame⟩
      simpa [followPlaced, stepPlaced_id] using hraw

/-! ### Where lines were written -/

theorem relocate_keeps (origins : Array Include.Origin) (d : Diagnostic) :
    (d.relocate origins).fault = d.fault ∧ (d.relocate origins).position.column = d.position.column := by
  unfold Diagnostic.relocate
  split <;> exact ⟨rfl, rfl⟩

theorem origin_relocate {x : Executed} {d : Diagnostic} (hd : d.file = none) :
    (d.relocate x.origins).origin = x.told d.position.line := by
  unfold Diagnostic.relocate Executed.told
  cases x.origins[d.position.line]? with
  | none => simp [Diagnostic.origin, hd]
  | some o => rfl

/-- The event that executes a program tells where its lines were written: the text as it was entered, or the
files that were put together then. -/
def Executed.Written (s : Session) (x : Executed) : Event → Prop
  | .run _ source => x.source = source ∧ x.origins = #[]
  | .runFile _ path => ∃ text, s.machine.files.readProgram path = .ok text ∧
    List.Forall₂ (Include.Traced s.source ((Path.parent? path).getD "") text.toList)
      (Text.rows x.source.toList) x.origins.toList
  | .meanwhile _ _ _ => False

theorem executed_written {e : Event} {x : Executed} (hx : s.executed e = some x) : x.Written s e := by
  cases e with
  | run steps source =>
    obtain rfl := Option.some.inj hx
    exact ⟨rfl, rfl⟩
  | runFile steps path =>
    obtain ⟨text, e, hread, hexpand, rfl⟩ := executed_file hx
    refine ⟨text, hread, ?_⟩
    simpa using Include.expandFrom_traced hexpand
  | «meanwhile» files input clock => cases hx

theorem executions_written {events : List Event} {k : Nat} {x : Executed}
    (hx : (s.executions events)[k]? = some (some x)) :
    ∃ e, events[k]? = some e ∧ x.Written (s.follow (events.take k)).2 e := by
  induction events generalizing s k with
  | nil => cases hx
  | cons e rest ih =>
    cases k with
    | zero => exact ⟨e, rfl, executed_written (Option.some.inj hx)⟩
    | succ k => exact ih hx

/-! ### The token at fault -/

/-- Places that tell the programs apart. -/
def stamp (k : Nat) (p : Position) : Position :=
  ⟨Nat.pair k p.line, p.column⟩

theorem stamp_injective {k k' : Nat} {p p' : Position} (h : stamp k p = stamp k' p') : k = k' ∧ p = p' := by
  obtain ⟨hline, hcolumn⟩ := Position.mk.inj h
  obtain ⟨hk, hp⟩ := Nat.pair_eq_pair.mp hline
  exact ⟨hk, by cases p; cases p'; simp_all⟩

/-- A fault is at one place of one program. -/
theorem Blames.unique {events : List Event} {i k k' : Nat} {p p' : Position} {fault : Fault}
    (h : s.Blames events i k p fault) (h' : s.Blames events i k' p' fault) : k = k' ∧ p = p' := by
  obtain ⟨r, d, hr, hd, hposition, _⟩ := h stamp
  obtain ⟨r', d', hr', hd', hposition', _⟩ := h' stamp
  obtain rfl := Option.some.inj (Option.some.inj (hr.symm.trans hr'))
  obtain rfl := List.singleton_inj.mp (hd.symm.trans hd')
  exact stamp_injective (hposition.symm.trans hposition')

/-- A fault at runtime is all that its event reports, and no file has been named yet. -/
theorem followPlaced_runtime {v : Nat → Position → Position} (events : List Event) {n : Nat} {s : Session}
    {i : Nat} {r : Report} (hr : (followPlaced v n s events)[i]? = some (some r)) {d : Diagnostic}
    (hd : d ∈ r.diagnostics) (hruntime : d.fault.isRuntime = true) : r.diagnostics = [d] ∧ d.file = none := by
  induction events generalizing n s i with
  | nil => cases hr
  | cons e rest ih =>
    cases i with
    | succ i => exact ih hr
    | zero =>
      have hfirst : (s.stepPlaced (v n) e).1 = some r := Option.some.inj hr
      unfold stepPlaced at hfirst
      split at hfirst
      next x hx =>
        obtain rfl := Option.some.inj hfirst
        exact (runPlaced_runtime hd hruntime).2
      next => cases hfirst

/-- However the tokens are placed, a fault at runtime is reported where one token stands of a program that has
been executed by then; placed in another way, it is reported where the same token stands. -/
theorem followPlaced_token (hs : s.Settled 0) {events : List Event} {v : Nat → Position → Position} {i : Nat}
    {r : Report} (hr : (followPlaced v 0 s events)[i]? = some (some r)) {d : Diagnostic}
    (hd : d ∈ r.diagnostics) (hruntime : d.fault.isRuntime = true) (w : Nat → Position → Position) :
    ∃ r' d', (followPlaced w 0 s events)[i]? = some (some r') ∧ r'.diagnostics = [d'] ∧ d'.fault = d.fault ∧
      Standing v w (s.executions events) (i + 1) d.position d'.position := by
  have hreal := hs.imp_place (P := fun _ _ => True) fun _ _ _ => trivial
  have hnone := hs.imp_place (P := Standing v w (s.executions events) 0)
    fun _ _ hplace => absurd hplace.2 (Nat.not_lt_zero _)
  obtain ⟨r', T, hr', hsame, hstanding⟩ :=
    followPlaced_alike events rfl hreal (fun _ _ => trivial) hnone (fun _ _ h => h) hr hd hruntime
  have hone := hsame.diagnostics
  rw [(followPlaced_runtime events hr hd hruntime).1] at hone
  obtain ⟨d', ds, hd', hrest, hlist⟩ := List.forall₂_cons_left_iff.mp hone
  obtain rfl := List.forall₂_nil_left_iff.mp hrest
  refine ⟨r', d', hr', hlist, hd'.fault.symm, ?_⟩
  simpa using hstanding _ _ hd'.position

/-- A fault at runtime is at one token of one program that has been executed by then. -/
theorem blames_token (hs : s.Settled 0) {events : List Event} {i : Nat} {r : Report}
    (hr : (followPlaced (fun _ => id) 0 s events)[i]? = some (some r)) {d : Diagnostic}
    (hd : d ∈ r.diagnostics) (hruntime : d.fault.isRuntime = true) :
    ∃ k x t, k < i + 1 ∧ (s.executions events)[k]? = some (some x) ∧ t ∈ tokens x.source ∧ t.kind ≠ .eof ∧
      d.position = t.position ∧ s.Blames events i k t.position d.fault := by
  obtain ⟨stamped, e, hstamped, he, hfault, k, x, t, hk, hx, ht, hkind, hposition, hstamp⟩ :=
    followPlaced_token hs hr hd hruntime stamp
  refine ⟨k, x, t, hk, hx, ht, hkind, hposition, fun place => ?_⟩
  -- Placed by its stamp, the token is told apart from those of all programs.
  obtain ⟨r', d', hr', hd', hfault', k', _, t', _, _, _, _, hsame, hplaced⟩ :=
    followPlaced_token hs hstamped (by simp [he]) (hfault ▸ hruntime) place
  obtain ⟨rfl, hp⟩ := stamp_injective (hstamp.symm.trans hsame)
  exact ⟨r', d', hr', hd', by rw [hplaced, hp], hfault'.trans hfault⟩

/-- The fault that event `i` shows comes from the token `t` of the program `own` of event `k`, and is told as
if it were in the text of `later`, the program of event `i`. -/
structure ComesFrom (s : Session) (events : List Event) (i : Nat) (d : Diagnostic) (k : Nat)
    (own later : Executed) (t : Token) : Prop where
  earlier : k ≤ i
  made : (s.executions events)[k]? = some (some own)
  failed : (s.executions events)[i]? = some (some later)
  token : t ∈ tokens own.source
  notEnd : t.kind ≠ .eof
  blamed : s.Blames events i k t.position d.fault
  /-- The lines of the token's text have the origins that they are told to have, and its line is one of them. -/
  written : ∃ e, events[k]? = some e ∧ own.Written (s.follow (events.take k)).2 e
  inside : t.position.line < Include.lineCount own.source.toList
  /-- But the line of the fault is told by the other program. -/
  shown : d.origin = later.told t.position.line
  column : d.position.column = t.position.column

end Session

/-- Whatever programs have been run in a session, each fault at runtime that is shown comes from one token of
one program that has been executed by then, either the program that failed or an earlier one. Its line is told
by the origins of the program that failed, so the fault is shown where the token was written just if these
origins say the same of the line as those of the token's own text; and they do if the program failed in its
own text. -/
theorem runtime_faults_come_from_tokens (files : Files) (includeDir : Option String)
    (input : List InputLine) (clock : Clock) (regex : Pattern.Engine) (events : List Session.Event)
    {i : Nat} {r : Report}
    {d : Diagnostic} :
    let s := Session.new files includeDir input clock regex
    (s.follow events).1[i]? = some (some (.ok r)) → d ∈ r.diagnostics → d.fault.isRuntime = true →
      ∃ k own later t, s.ComesFrom events i d k own later t ∧
        (∀ k' p, s.Blames events i k' p d.fault → k = k' ∧ t.position = p) ∧
        (d.origin = own.told t.position.line ↔
          later.told t.position.line = own.told t.position.line) ∧
        (k = i → d.origin = own.told t.position.line) := by
  intro s hshown hd hruntime
  have hs : s.Settled 0 := Session.new_settled files includeDir input clock regex
  obtain ⟨later, raw, hlater, hraw, hsame⟩ := Session.follow_shown events (n := 0) hshown
  rw [hsame] at hd
  obtain ⟨e, he, rfl⟩ := List.mem_map.mp hd
  obtain ⟨hfault, hcolumn⟩ := Session.relocate_keeps later.origins e
  rw [hfault] at hruntime ⊢
  obtain ⟨k, own, t, hk, hown, ht, hkind, hposition, hblames⟩ := Session.blames_token hs hraw he hruntime
  have horigin : (e.relocate later.origins).origin = later.told t.position.line := by
    rw [Session.origin_relocate (Session.followPlaced_runtime events hraw he hruntime).2, hposition]
  refine ⟨k, own, later, t, ?_, fun k' p => hblames.unique, by rw [horigin], ?_⟩
  · exact { earlier := Nat.le_of_lt_succ hk, made := hown, failed := hlater, token := ht, notEnd := hkind,
            blamed := hfault ▸ hblames, written := Session.executions_written hown,
            inside := token_line_lt ht hkind, shown := horigin, column := by rw [hcolumn, hposition] }
  · rintro rfl
    obtain rfl := Option.some.inj (Option.some.inj (hown.symm.trans hlater))
    exact horigin

/-- Of two files the second one calls a function of the first. -/
def callingFiles : Files :=
  .ofExplored [("a", .file "\n\nfun f() \x7b return -nil; \x7d\n".toUTF8.toList),
    ("b", .file "include <hello_world>\nf();\n".toUTF8.toList)]

/-- The files are run one after the other. -/
def callingEvents : List Session.Event :=
  [.runFile 20 "a", .runFile 20 "b"]

theorem runtime_faults_come_from_tokens_of_earlier :
    let s := Session.new callingFiles none [] default
    ∃ r d, (s.follow callingEvents).1[1]? = some (some (.ok r)) ∧ d ∈ r.diagnostics ∧
      d.fault.isRuntime = true ∧ d.origin = ⟨some "<hello_world>", 2⟩ ∧
      ∃ own later t, s.ComesFrom callingEvents 1 d 0 own later t ∧ own.told t.position.line = ⟨none, 2⟩ := by
  intro s
  have hshown : (((s.follow callingEvents).1[1]?).join.bind Except.toOption).map
      (fun r => r.diagnostics.map fun d => (d.fault.isRuntime, d.origin)) =
        some [(true, ⟨some "<hello_world>", 2⟩)] := by decide +kernel
  -- Placed where its program and its line are its place, the fault is at the third line of the first file.
  have hplaced : ((Session.followPlaced (fun k p => ⟨k, p.line⟩) 0 s callingEvents)[1]?).join.map
      (fun r => r.diagnostics.map Diagnostic.position) = some [⟨0, 2⟩] := by decide +kernel
  have htold : ((s.executions callingEvents)[0]?).join.map (fun x => x.told 2) = some ⟨none, 2⟩ := by
    decide +kernel
  obtain ⟨r, hr, hone⟩ := Option.map_eq_some_iff.mp hshown
  obtain ⟨answer, hanswer, hok⟩ := Option.bind_eq_some_iff.mp hr
  cases answer with
  | error fault => cases hok
  | ok report =>
    obtain rfl := Option.some.inj hok
    rw [Option.join_eq_some_iff] at hanswer
    obtain ⟨d, hd, hboth⟩ := List.mem_map.mp (hone ▸ List.mem_singleton_self _)
    obtain ⟨hruntime, horigin⟩ := Prod.mk.inj hboth
    refine ⟨report, d, hanswer, hd, hruntime, horigin, ?_⟩
    obtain ⟨k, own, later, t, hfrom, _⟩ :=
      runtime_faults_come_from_tokens callingFiles none [] default .standard callingEvents hanswer hd hruntime
    obtain ⟨r', d', hr', hd', hposition, _⟩ := hfrom.blamed fun k p => ⟨k, p.line⟩
    rw [hr'] at hplaced
    simp only [Option.join_some, Option.map_some, hd', List.map_cons, List.map_nil, hposition,
      Option.some.injEq, List.cons.injEq, Position.mk.injEq, and_true] at hplaced
    obtain ⟨rfl, hline⟩ := hplaced
    rw [hfrom.made] at htold
    exact ⟨own, later, t, hfrom, by rw [hline]; exact Option.some.inj htold⟩

end LoxLang

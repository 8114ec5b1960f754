import LoxLang.Proofs.Evaluation.Kept
import LoxLang.Proofs.Session.Below
import LoxLang.Proofs.Session.Reachable

/-!
Running a program in two parts. Two programs that are run one after the other do what they do as one program
with the second part in the lines below the first, which ends where either of them fails. In between, the
session only takes away what has been printed, and finds out the distances of the second part.
-/

namespace LoxLang

open Lexer (lower newlines)

/-! ### Programs in two parts -/

theorem executeProgram_append (steps : Nat) (as bs : List Stmt) :
    executeProgram steps (as ++ bs) = executeProgram steps as >>= fun _ => executeProgram steps bs := by
  induction as with
  | nil => rfl
  | cons s rest ih => rw [List.cons_append, executeProgram, executeProgram, ih, bind_assoc]

namespace Session

variable {s t : Session} {S : Skew}

theorem execute_append_ok {steps : Nat} {as : List Stmt} {m : Machine}
    (hfirst : (executeProgram steps as).run s.machine = .ok () m) (bs : List Stmt) :
    s.execute steps (as ++ bs) = { s with machine := m }.execute steps bs := by
  unfold Session.execute
  rw [executeProgram_append, EStateM.run_bind, hfirst]

theorem execute_append_error {steps : Nat} {as : List Stmt} {e : Halt} {m : Machine}
    (hfirst : (executeProgram steps as).run s.machine = .error e m) (bs : List Stmt) :
    s.execute steps (as ++ bs) = s.execute steps as := by
  unfold Session.execute
  rw [executeProgram_append, EStateM.run_bind, hfirst]


/-! ### Between the parts -/

/-- The session behind the first part, once what it has printed is taken away and the distances of the second
part are forgotten. -/
def between (begun : Session) (n : Machine) : Session :=
  { begun with machine := { n with output := #[], hops := begun.machine.hops } }

theorem between_recorded {begun : Session} {next : Nat} {ls : Array Lookup} {m n : Machine}
    (houtput : n.output = m.output) (hhops : n.hops = (begun.recorded next ls).machine.hops) :
    { begun.recorded next ls with machine := n } =
      ((begun.between n).recorded next ls).behind m.output := by
  cases n
  dsimp only at houtput hhops
  subst houtput hhops
  unfold behind between recorded
  rw [Array.append_empty]

/-- The first part leaves the sessions alike in which it has run alone and with the second part
behind it. -/
theorem alike_between {begun : Session} {lines : Nat} (hsettled : begun.Settled lines) {next : Nat}
    {ls : Array Lookup} {m n : Machine} (hm : m.Alike (Skew.diagonal begun.nextId lines)
      ⟨#[], begun.machine.hops, (begun.recorded next ls).machine.hops⟩ n)
    {place : Position → Position → Prop} (hplace : ∀ x : Position, x.line < lines → place x x) :
    Alike ⟨(Skew.diagonal begun.nextId lines).node, place⟩ (flush { begun with machine := m })
      (begun.between n) := by
  have hwithin : ∀ ids, (Skew.diagonal begun.nextId lines).Within
      ⟨(Skew.diagonal begun.nextId lines).node, place⟩ ids := by
    intro ids
    refine ⟨fun _ hij => hij, ?_⟩
    rintro x _ ⟨rfl, hx⟩
    exact hplace x hx
  refine ⟨⟨hsettled.nodes.faithful, hsettled.nodes.used⟩, ⟨hm.heap.imp hwithin, hm.current, rfl, rfl, ?_,
    rfl, hm.input, hm.files, hm.clock, hm.regex⟩, ?_, hsettled.fresh, rfl⟩
  · rintro i j ⟨rfl, _⟩
    exact congrArg (HopTable.find? · i) hm.hops
  · intro id hid
    exact (congrArg (HopTable.find? · id) hm.hops).trans (hsettled.fresh id hid)

/-! ### The two parts -/

/-- What the first part of a text is parsed to and what the second part, and the lookups of the second. -/
structure Chunks (s : Session) (a b : String) (p q : Parse) (ls : Array Lookup) : Prop where
  first : parse (tokens a) s.nextId = p
  second : parse ((tokens b).map (Token.placed (lower (newlines a + 1)))) p.nextId = q
  whole : parse (tokens (a ++ "\n" ++ b)) s.nextId = ⟨p.statements ++ q.statements, [], q.nextId⟩
  lookups : (resolve (p.statements ++ q.statements)).lookups = (resolve p.statements).lookups ++ ls
  scope : (resolve (p.statements ++ q.statements)).fault = none
  fresh : (s.recorded p.nextId (resolve p.statements).lookups).Fresh q.nextId ls

variable {a b : String}

/-- What holds of some elements holds of those that correspond to them. -/
theorem forall_of_related {α β : Type} {R : α → β → Prop} {good : α → Prop} {good' : β → Prop}
    {xs : List α} {ys : List β} (h : List.Forall₂ R xs ys) (hxs : ∀ x ∈ xs, good x)
    (hR : ∀ x y, R x y → good x → good' y) : ∀ y ∈ ys, good' y := by
  induction h with
  | nil => simp
  | @cons x y _ _ hxy _ ih =>
    intro z hz
    rcases List.mem_cons.mp hz with rfl | hz
    · exact hR x z hxy (hxs x List.mem_cons_self)
    · exact ih (fun x hx => hxs x (List.mem_cons_of_mem _ hx)) z hz

theorem exists_chunks (ha : Faultless a) (hb : Faultless b) (s : Session) :
    ∃ p q ls, s.Chunks a b p q ls := by
  generalize hp : parse (tokens a) s.nextId = p
  generalize hq : parse ((tokens b).map (Token.placed (lower (newlines a + 1)))) p.nextId = q
  have hended := ended_tokens b
  have hwords := tokens_words b
  have hwell : Stmt.AllWellFormed p.statements := hp ▸ (parse_yields (tokens_words a) s.nextId).2.1
  have hclean : (resolve p.statements).fault = none := hp ▸ (ha.parsed s.nextId).2
  have hqclean : (resolve q.statements).fault = none := hq ▸ (hb.placed p.nextId _).2
  have hqparsed := parse_yields (hwords.placed (lower (newlines a + 1))) p.nextId
  have hwhole := ha.parse_below hb hp hq
  have hself := placed_alike hended hwords (S := ⟨fun _ _ => False, fun _ _ => True⟩)
    (v := lower (newlines a + 1)) (w := lower (newlines a + 1)) (fun _ => trivial) p.nextId p.nextId
  have hplaced := (parse_placed hended p.nextId (lower (newlines a + 1))).symm.trans hq
  rw [hq] at hqparsed
  rw [show Move.stmts _ _ = q.statements from congrArg Parse.statements hplaced] at hself
  obtain ⟨ls, hlookups, hls, hfault⟩ := resolve_append hwell hclean hself
  refine ⟨p, q, ls, hp, hq, hwhole, hlookups, ?_, hqparsed.1, ?_⟩
  · rw [hqclean] at hfault
    generalize (resolve (p.statements ++ q.statements)).fault = fault at hfault
    cases hfault with
    | none => rfl
  · have hrange := fun l hl => hqparsed.2.2.range _ (resolve_lookups hqparsed.2.1 l hl)
    refine forall_of_related hls hrange ?_
    rintro l k hlk hl
    rcases hlk.reference.id with hid | ⟨i, _, hi, hj⟩
    · exact hid.elim
    · have hsame : l.reference.id = k.reference.id := hi.trans hj.symm
      exact hsame ▸ hl

namespace Chunks

variable {p q : Parse} {ls : Array Lookup}

theorem run_first (h : s.Chunks a b p q ls) (ha : Faultless a) (steps : Nat) :
    s.run steps a =
      (s.recorded p.nextId (resolve p.statements).lookups).execute steps p.statements := by
  have hparsed := ha.parsed s.nextId
  rw [h.first] at hparsed
  apply runScanned_of_none h.first
  · rw [ha.lexical, hparsed.1]
    rfl
  · exact hparsed.2

theorem run_whole (h : s.Chunks a b p q ls) (ha : Faultless a) (hb : Faultless b) (steps : Nat) :
    s.run steps (a ++ "\n" ++ b) =
      ((s.recorded p.nextId (resolve p.statements).lookups).recorded q.nextId ls).execute steps
        (p.statements ++ q.statements) := by
  have hfaults : lexicalFaults (a ++ "\n" ++ b) ++ [] = [] := by
    rw [lexicalFaults_append ha.lexical, hb.lexical]
    rfl
  have hrun := @runScanned_of_none s steps _ _ _ h.whole hfaults h.scope
  have hhops : (s.recorded q.nextId (resolve (p.statements ++ q.statements)).lookups) =
      (s.recorded p.nextId (resolve p.statements).lookups).recorded q.nextId ls := by
    unfold recorded
    dsimp only
    rw [h.lookups, HopTable.recordAll_eq, HopTable.recordAll_eq, HopTable.recordAll_eq,
      Array.toList_append, List.foldl_append]
  rw [← hhops]
  exact hrun

/-! ### Running them -/

section Running

variable {lines steps : Nat} {m : Machine}

/-- The sessions in which the first part runs, alone and with the second part behind it, differ only in the
distances that have been recorded for the latter. -/
theorem alike_before (h : s.Chunks a b p q ls)
    (hsettled : (s.recorded p.nextId (resolve p.statements).lookups).Settled lines) :
    (s.recorded p.nextId (resolve p.statements).lookups).Alike (Skew.diagonal p.nextId lines)
      ((s.recorded p.nextId (resolve p.statements).lookups).recorded q.nextId ls) :=
  hsettled.recorded_apart (Fresh.nothing _) h.fresh

/-- If the first part does not come to its end, the second one has no effect. -/
theorem run_stopped (h : s.Chunks a b p q ls) (ha : Faultless a) (hb : Faultless b)
    (hsettled : (s.recorded p.nextId (resolve p.statements).lookups).Settled lines)
    (hself : List.Forall₂ (Stmt.Alike (Skew.diagonal p.nextId lines)) p.statements p.statements)
    {e : Halt} (hstopped : (executeProgram steps p.statements).run
      (s.recorded p.nextId (resolve p.statements).lookups).machine = .error e m) :
    (s.run steps (a ++ "\n" ++ b)).1 = (s.run steps a).1 ∧
      ∀ events, ((s.run steps (a ++ "\n" ++ b)).2.follow events).1 =
        ((s.run steps a).2.follow events).1 := by
  have hbefore := h.alike_before hsettled
  have hfirst := executeProgram_alike hbefore.nodes.faithful steps hself _ _ hbefore.machine
  obtain ⟨hreport, hnext⟩ := hbefore.execute steps hself
  rw [h.run_first ha, h.run_whole ha hb]
  obtain ⟨e', n, hrun, -⟩ := hfirst.run_of_error hstopped
  rw [execute_append_error hrun]
  have hplaces : Alike ⟨(Skew.diagonal p.nextId lines).node, Eq⟩ _ _ :=
    hnext.imp_place fun _ _ hplace => hplace.1
  refine ⟨(Report.Alike.eq hreport fun _ _ hplace => hplace.1).symm, ?_⟩
  intro events
  exact (hplaces.follow (fun _ _ => Iff.rfl) events).symm

/-- Nodes are the same in both, and the places of the second part may be any. -/
def skew (p : Parse) (b : String) (lines : Nat) (place : Position → Position → Prop) : Skew :=
  Skew.grow ⟨(Skew.diagonal p.nextId lines).node, place⟩ p.nextId p.nextId (parse (tokens b) 0).nextId

/-- If the first part comes to its end, the second one goes on from there as it does by itself, wherever its
tokens may stand then. -/
theorem run_through (h : s.Chunks a b p q ls) (ha : Faultless a) (hb : Faultless b)
    (hsettled : (s.recorded p.nextId (resolve p.statements).lookups).Settled lines)
    (hself : List.Forall₂ (Stmt.Alike (Skew.diagonal p.nextId lines)) p.statements p.statements)
    (hthrough : (executeProgram steps p.statements).run
      (s.recorded p.nextId (resolve p.statements).lookups).machine = .ok () m)
    (v : Position → Position) (place : Position → Position → Prop)
    (hplace : ∀ x : Position, x.line < lines → place x x)
    (hv : ∀ x, place (v x) (lower (newlines a + 1) x)) :
    let second := (s.run steps a).2.runScanned steps [] ((tokens b).map (Token.placed v))
    let whole := s.run steps (a ++ "\n" ++ b)
    whole.1.written = (s.run steps a).1.written ++ second.1.written ∧
      List.Forall₂ (Diagnostic.Alike (skew p b lines place)) second.1.diagnostics whole.1.diagnostics ∧
      second.1.exhausted = whole.1.exhausted ∧
      second.2.Alike (skew p b lines place) whole.2 := by
  intro second whole
  have hbefore := h.alike_before hsettled
  have hrunFirst := h.run_first ha steps
  have hrunWhole := h.run_whole ha hb steps
  have hfirst := executeProgram_alike hbefore.nodes.faithful steps hself _ _ hbefore.machine
  obtain ⟨_, n, hrun, -, hm⟩ := hfirst.run_of_ok hthrough
  have hended := ended_tokens b
  have hwords := tokens_words b
  have hbetween := alike_between hsettled hm hplace
  -- The second part, as it stands by itself and below the first one.
  have hprogram := placed_alike hended hwords (S := ⟨(Skew.diagonal p.nextId lines).node, place⟩) hv
    p.nextId p.nextId
  have hleft := parse_placed hended p.nextId v
  have hright := (parse_placed hended p.nextId (lower (newlines a + 1))).symm.trans h.second
  have hclean := hb.placed p.nextId v
  have hwell : Stmt.AllWellFormed p.statements :=
    h.first ▸ (parse_yields (tokens_words a) s.nextId).2.1
  have hfault : (resolve p.statements).fault = none := h.first ▸ (ha.parsed s.nextId).2
  obtain ⟨ls', hlookups', hls, -⟩ := resolve_append hwell hfault hprogram
  rw [show Move.stmts _ _ = q.statements from congrArg Parse.statements hright] at hlookups' hprogram
  obtain rfl : ls = ls' := Array.append_right_inj _ |>.mp (h.lookups.symm.trans hlookups')
  have hparsed := placed_parsed hended hwords p.nextId v
  have hcount : (parse (tokens b) 0).nextId + p.nextId = q.nextId := congrArg Parse.nextId hright
  have hnext := hbetween.recorded (parse (tokens b) 0).nextId hls
    (fun l hl => (hparsed.2.range _ (resolve_lookups hparsed.1 l hl)).2)
    (fun l hl => hcount ▸ (h.fresh.lookups l hl).2)
  have hparts := hnext.execute_behind m.output steps hprogram
  have hstart : (s.run steps a).2 = flush
      { s.recorded p.nextId (resolve p.statements).lookups with machine := m } := by
    rw [hrunFirst]
    unfold Session.execute
    rw [hthrough]
    rfl
  have houtput : (s.run steps a).1.written = m.output := by
    rw [hrunFirst]
    unfold Session.execute
    rw [hthrough]
    rfl
  rw [hleft] at hclean
  have hsecond := (congrArg (Session.runScanned steps [] _) hstart).trans
    (runScanned_of_none hleft (by rw [hclean.1]; rfl) hclean.2)
  have hwhole := hrunWhole.trans (execute_append_ok hrun q.statements)
  rw [between_recorded (hm.output.trans Array.empty_append) hm.hops'] at hwhole
  rw [← hcount] at hwhole
  rw [show second = _ from hsecond, show whole = _ from hwhole, houtput]
  exact hparts

end Running

end Chunks

end Session

/-! ### Where faults are told -/

/-- The text with empty lines above it. -/
def linesAbove : Nat → String → String
  | 0, text => text
  | n + 1, text => "\n" ++ linesAbove n text

theorem scan_linesAbove (n : Nat) (text : String) :
    tokens (linesAbove n text) = (tokens text).map (Token.placed (lower n)) ∧
      lexicalFaults (linesAbove n text) = (lexicalFaults text).map (Diagnostic.placed (lower n)) := by
  induction n with
  | zero => exact ⟨(List.map_id _).symm, (List.map_id _).symm⟩
  | succ n ih =>
    have hempty : lexicalFaults "" = [] := by decide
    have hnone : (tokens "").dropLast = [] := by decide
    have hone : newlines "" + 1 = 1 := by decide
    have hlower : lower 1 ∘ lower n = lower (n + 1) := rfl
    have htokens := tokens_append hempty (linesAbove n text)
    have hlexical := lexicalFaults_append hempty (linesAbove n text)
    rw [String.empty_append, hone] at htokens hlexical
    rw [ih.1, hnone, List.nil_append, List.map_map] at htokens
    rw [ih.2, List.map_map] at hlexical
    exact ⟨htokens, hlexical⟩

/-- A fault, and whether the token that it is told at is one of the program that has it. The other faults are
told at tokens of earlier programs, whose functions it has called. -/
structure Told where
  own : Bool
  diagnostic : Diagnostic

/-- The diagnostic if the program stands some lines further down. -/
def Told.below (n : Nat) (t : Told) : Diagnostic :=
  if t.own then t.diagnostic.placed (lower n) else t.diagnostic

/-- Earlier programs stay where they are in the first lines, and a program that has stood below these stands
somewhere else. -/
def movedOut (lines n : Nat) (x y : Position) : Prop :=
  (x = y ∧ x.line < lines) ∨ ∃ r, x = lower lines r ∧ y = lower n r

/-- What a diagnostic tells about a program below the first lines. -/
def tell (lines : Nat) (d : Diagnostic) : Told :=
  if d.position.line < lines then ⟨false, d⟩
  else ⟨true, { d with position := ⟨d.position.line - lines, d.position.column⟩ }⟩

theorem tell_below {lines n : Nat} {S : Skew} (hS : S.place = movedOut lines n) {d e : Diagnostic}
    (h : d.Alike S e) : e = (tell lines d).below n := by
  obtain ⟨p, fault, file⟩ := d
  obtain ⟨q, fault', file'⟩ := e
  obtain ⟨hposition, hfault, hfile⟩ := h
  dsimp only at hposition hfault hfile
  subst hfault hfile
  rw [hS] at hposition
  rcases hposition with ⟨rfl, hline⟩ | ⟨r, rfl, rfl⟩
  · unfold tell
    rw [if_pos hline]
    rfl
  · have hline : ¬(lower lines r).line < lines := Nat.not_lt.mpr (Nat.le_add_left _ _)
    have hback : (lower lines r).line - lines = r.line := Nat.add_sub_cancel _ _
    unfold tell
    rw [if_neg hline]
    dsimp only
    rw [hback]
    rfl

theorem tell_all_below {lines n : Nat} {S : Skew} (hS : S.place = movedOut lines n)
    {ds es : List Diagnostic} (h : List.Forall₂ (Diagnostic.Alike S) ds es) :
    es = (ds.map (tell lines)).map (Told.below n) := by
  induction h with
  | nil => rfl
  | cons hde _ ih =>
    rw [List.map_cons, List.map_cons, ← ih, ← tell_below hS hde]

/-! ### Chunking -/

namespace Session

variable {s : Session} {a b : String} {p q : Parse} {ls : Array Lookup} {lines steps : Nat} {m : Machine}

/-- Settled in its first lines, a session tells of a program the same wherever it stands. -/
theorem Settled.tells (h : s.Settled lines) (hb : Faultless b) (steps n : Nat) :
    (s.run steps (linesAbove n b)).1.diagnostics =
      ((s.runScanned steps [] ((tokens b).map (Token.placed (lower lines)))).1.diagnostics.map
        (tell lines)).map (Told.below n) := by
  obtain ⟨htokens, hlexical⟩ := scan_linesAbove n b
  have hself : s.Alike ⟨(Skew.diagonal s.nextId lines).node, movedOut lines n⟩ s :=
    h.imp_place fun _ _ hplace => .inl hplace
  have halike := (hself.runScanned steps [] (ended_tokens b) (tokens_words b)
    (v := lower lines) (w := lower n) fun x => .inr ⟨x, rfl, rfl⟩).1
  unfold Session.run
  rw [htokens, hlexical, hb.lexical]
  exact tell_all_below rfl halike.diagnostics

/-- Both parts come to their end or the second one fails. -/
theorem Chunks.continued (h : s.Chunks a b p q ls) (ha : Faultless a) (hb : Faultless b)
    (hsettled : (s.recorded p.nextId (resolve p.statements).lookups).Settled lines)
    (hself : List.Forall₂ (Stmt.Alike (Skew.diagonal p.nextId lines)) p.statements p.statements)
    (hfirst : (s.run steps a).2.Settled lines)
    (hthrough : (executeProgram steps p.statements).run
      (s.recorded p.nextId (resolve p.statements).lookups).machine = .ok () m) :
    let first := s.run steps a
    let second := first.2.run steps b
    let whole := s.run steps (a ++ "\n" ++ b)
    whole.1.written = first.1.written ++ second.1.written ∧
      whole.1.exhausted = second.1.exhausted ∧
      (∃ told : List Told,
        (∀ n, (first.2.run steps (linesAbove n b)).1.diagnostics = told.map (Told.below n)) ∧
          whole.1.diagnostics = told.map (Told.below (newlines a + 1))) ∧
      ∃ S : Skew, (∀ i j, S.node i j → i = j) ∧
        (∀ x y, S.place x y → y = x ∨ y = lower (newlines a + 1) x) ∧ second.2.Alike S whole.2 := by
  intro first second whole
  -- Once as the second part stands by itself, and once below all that the session knows.
  have hplain := h.run_through ha hb hsettled hself hthrough id
    (fun x y => y = x ∨ y = lower (newlines a + 1) x) (fun _ _ => .inl rfl) fun _ => .inr rfl
  have hmoved := h.run_through ha hb hsettled hself hthrough (lower lines)
    (movedOut lines (newlines a + 1)) (fun _ hx => .inl ⟨rfl, hx⟩) fun x => .inr ⟨x, rfl, rfl⟩
  have hsecond : first.2.runScanned steps [] ((tokens b).map (Token.placed id)) = second := by
    rw [show (tokens b).map (Token.placed id) = tokens b from List.map_id _, ← hb.lexical]
    rfl
  dsimp only at hplain hmoved
  rw [hsecond] at hplain
  obtain ⟨houtput, -, hexhausted, hnext⟩ := hplain
  refine ⟨houtput, hexhausted.symm, ?_, skew p b lines _, ?_, fun _ _ hplace => hplace, hnext⟩
  · exact ⟨_, hfirst.tells hb steps, tell_all_below rfl hmoved.2.1⟩
  · rintro i j (⟨rfl, _⟩ | ⟨k, _, rfl, rfl⟩)
    · rfl
    · rfl

/-- A program comes to its end if it neither fails nor runs out of steps. -/
theorem execute_outcome (steps : Nat) (program : List Stmt) (s : Session) :
    (∃ m, (executeProgram steps program).run s.machine = .ok () m ∧
      (s.execute steps program).1.hadRuntimeError = false ∧ (s.execute steps program).1.exhausted = false) ∨
    ∃ e m, (executeProgram steps program).run s.machine = .error e m ∧
      ((s.execute steps program).1.hadRuntimeError = true ∨
        (s.execute steps program).1.exhausted = true) := by
  have hrun := executeProgram_keeps steps program s.machine
  unfold Ends at hrun
  unfold Session.execute
  cases hresult : (executeProgram steps program).run s.machine with
  | ok _ m => exact .inl ⟨m, rfl, rfl, rfl⟩
  | error e m =>
    rw [hresult] at hrun
    refine .inr ⟨e, m, rfl, ?_⟩
    cases e with
    | failed d =>
      have hruntime : d.fault.isRuntime = true := hrun.1.1
      exact .inl (by simp [finish, Report.hadRuntimeError, hruntime])
    | exhausted => exact .inr rfl

end Session

/-- Two programs that have no faults on their own have none one below the other. If the first one comes to its
end, the two together print what they print when they are run one after the other, and leave the same behind,
up to the numbers of nodes and the places of code; and they report the same fault, if the second one has one:
in the line where it stands if that is a line of the second program, and otherwise in the same line. If the
first program fails, or runs out of steps, the second one has no effect. -/
theorem chunks_mean_the_same {s : Session} (hs : s.Reachable) {a b : String} (ha : Faultless a)
    (hb : Faultless b) (steps : Nat) :
    let first := s.run steps a
    let second := first.2.run steps b
    let whole := s.run steps (a ++ "\n" ++ b)
    Faultless (a ++ "\n" ++ b) ∧
    (first.1.hadRuntimeError = false → first.1.exhausted = false →
      whole.1.written = first.1.written ++ second.1.written ∧
      whole.1.exhausted = second.1.exhausted ∧
      (∃ told : List Told,
        (∀ n, (first.2.run steps (linesAbove n b)).1.diagnostics = told.map (Told.below n)) ∧
          whole.1.diagnostics = told.map (Told.below (newlines a + 1))) ∧
      ∃ S : Skew, (∀ i j, S.node i j → i = j) ∧
        (∀ x y, S.place x y → y = x ∨ y = lower (newlines a + 1) x) ∧ second.2.Alike S whole.2) ∧
    (first.1.hadRuntimeError = true ∨ first.1.exhausted = true →
      whole.1 = first.1 ∧ ∀ events, (whole.2.follow events).1 = (first.2.follow events).1) := by
  intro first second whole
  have hclean : Faultless (a ++ "\n" ++ b) := by
    obtain ⟨p, q, ls, h⟩ := Session.exists_chunks ha hb (.new default none [] default)
    have hwhole := h.whole
    refine ⟨?_, congrArg Parse.faults hwhole, ?_⟩
    · rw [lexicalFaults_append ha.lexical, hb.lexical]
      rfl
    · exact (congrArg (fun r : Parse => (resolve r.statements).fault) hwhole).trans h.scope
  obtain ⟨p, q, ls, h⟩ := Session.exists_chunks ha hb s
  obtain ⟨lines, hlines⟩ := hs.settled
  obtain ⟨lines', hlines'⟩ := (hs.step (.run steps a)).settled
  obtain ⟨more, hmore, htokens, -⟩ := Session.exists_lines a (max lines lines')
  have hwide : s.Settled more := hlines.widen (by omega)
  have hfirst : first.2.Settled more := Session.Settled.widen hlines' (by omega)
  obtain ⟨hsettled, hself⟩ := hwide.recorded (by omega) htokens h.first
  have houtcome := Session.execute_outcome steps p.statements
    (s.recorded p.nextId (resolve p.statements).lookups)
  rw [← h.run_first ha] at houtcome
  refine ⟨hclean, ?_, ?_⟩
  · intro hruntime hexhausted
    rcases houtcome with ⟨m, hthrough, -, -⟩ | ⟨e, m, -, hfailed⟩
    · exact h.continued ha hb hsettled hself hfirst hthrough
    · rcases hfailed with hfailed | hfailed
      · exact absurd (hruntime.symm.trans hfailed) Bool.false_ne_true
      · exact absurd (hexhausted.symm.trans hfailed) Bool.false_ne_true
  · intro hfailed
    rcases houtcome with ⟨m, -, hruntime, hexhausted⟩ | ⟨e, m, hstopped, -⟩
    · rcases hfailed with hfailed | hfailed
      · exact absurd (hruntime.symm.trans hfailed) Bool.false_ne_true
      · exact absurd (hexhausted.symm.trans hfailed) Bool.false_ne_true
    · exact h.run_stopped ha hb hsettled hself hstopped

/-- A program that declares a function, which fails. -/
def declaringChunk : String :=
  "var a = 1;\nfun f() \x7b return missing; \x7d"

/-- A program that calls it. -/
def callingChunk : String :=
  "print a;\nf();"

theorem chunks_mean_the_same_called_back :
    let s := Session.new default none [] default
    Faultless declaringChunk ∧ Faultless callingChunk ∧
      (s.run 20 declaringChunk).1.hadRuntimeError = false ∧
      (s.run 20 declaringChunk).1.exhausted = false ∧
      (s.run 20 (declaringChunk ++ "\n" ++ callingChunk)).1.written =
        (s.run 20 declaringChunk).1.written ++
          ((s.run 20 declaringChunk).2.run 20 callingChunk).1.written := by
  intro s
  have hs : s.Reachable := .new _ _ _ _ _
  have hdeclaring : Faultless declaringChunk :=
    ⟨by decide +kernel, by decide +kernel, by decide +kernel⟩
  have hcalling : Faultless callingChunk := ⟨by decide +kernel, by decide +kernel, by decide +kernel⟩
  have hruntime : (s.run 20 declaringChunk).1.hadRuntimeError = false := by decide +kernel
  have hexhausted : (s.run 20 declaringChunk).1.exhausted = false := by decide +kernel
  have hsame := chunks_mean_the_same hs hdeclaring hcalling 20
  exact ⟨hdeclaring, hcalling, hruntime, hexhausted, (hsame.2.1 hruntime hexhausted).1⟩

end LoxLang

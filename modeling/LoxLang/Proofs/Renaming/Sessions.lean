import LoxLang.Proofs.Evaluation.Kept
import LoxLang.Proofs.Renaming.Evaluation
import LoxLang.Proofs.Renaming.Resolution
import LoxLang.Proofs.Session.Reachable

/-!
Sessions in which a local variable of a program has another name. Whatever else happens in such a session, it
shows the same, but for the columns of faults and the name of the variable in a message.
-/

namespace LoxLang

/-! ### Reports -/

/-- The same fault in one line, but for the name in a message about a variable that is not defined. -/
inductive Diagnostic.Renamed (old new : String) : Diagnostic → Diagnostic → Prop where
  | same {p q : Position} (fault : Fault) (file : Option String) :
    p.SameLine q → Renamed old new ⟨p, fault, file⟩ ⟨q, fault, file⟩
  | undefined {p q : Position} (file : Option String) : p.SameLine q →
    Renamed old new ⟨p, .runtime (.undefinedVariable old), file⟩ ⟨q, .runtime (.undefinedVariable new), file⟩

/-- What two runs have shown is the same but for the columns of faults and the name of a variable. -/
structure Report.Renamed (old new : String) (r r' : Report) : Prop where
  written : r.written = r'.written
  diagnostics : List.Forall₂ (Diagnostic.Renamed old new) r.diagnostics r'.diagnostics
  exhausted : r.exhausted = r'.exhausted

/-- What two events have shown, if they have run programs. -/
inductive Except.Renamed (old new : String) : Except FileFault Report → Except FileFault Report → Prop where
  | unread (fault : FileFault) : Renamed old new (.error fault) (.error fault)
  | shown {r r' : Report} : r.Renamed old new r' → Renamed old new (.ok r) (.ok r')

section Reports

variable {old new : String}

theorem Diagnostic.renamed_self (ds : List Diagnostic) : List.Forall₂ (Diagnostic.Renamed old new) ds ds :=
  List.forall₂_same.mpr fun d _ => .same d.fault d.file rfl

theorem Diagnostic.Renamed.relocate {d e : Diagnostic} (h : d.Renamed old new e)
    (origins : Array Include.Origin) : (d.relocate origins).Renamed old new (e.relocate origins) := by
  unfold Diagnostic.relocate
  cases h with
  | @same p q fault file hpq =>
    rw [show p.line = q.line from hpq]
    cases origins[q.line]? with
    | none => exact .same fault file hpq
    | some origin => exact .same fault origin.file rfl
  | @undefined p q file hpq =>
    rw [show p.line = q.line from hpq]
    cases origins[q.line]? with
    | none => exact .undefined file hpq
    | some origin => exact .undefined origin.file rfl

theorem Report.Renamed.relocate {r r' : Report} (h : r.Renamed old new r') (origins : Array Include.Origin) :
    Report.Renamed old new { r with diagnostics := r.diagnostics.map (Diagnostic.relocate origins) }
      { r' with diagnostics := r'.diagnostics.map (Diagnostic.relocate origins) } := by
  refine ⟨h.written, ?_, h.exhausted⟩
  rw [List.forall₂_map_left_iff, List.forall₂_map_right_iff]
  exact h.diagnostics.imp fun _ _ hd => hd.relocate origins

end Reports

/-! ### Sessions -/

/-- The renaming in a session, whose nodes are those that have been given out. -/
def Renaming.inSession (R : Renaming) (s : Session) : Renaming :=
  { R with distance := fun i hops => @LT.lt Nat _ i s.nextId ∧ s.machine.hops.find? i = hops }

/-- Sessions that are the same but for a renaming. -/
structure Session.Renamed (R : Renaming) (s t : Session) : Prop where
  machine : ∃ w, s.machine.Renamed (R.inSession s) w t.machine
  current : s.machine.current = .globals
  nextId : s.nextId = t.nextId
  fresh : ∀ id : Nat, @LE.le Nat _ s.nextId id → s.machine.hops.find? id = none
  includeDir : s.includeDir = t.includeDir

theorem HopTable.recordAll_agrees (table : HopTable) {ls ks : Array Lookup}
    (h : List.Forall₂ Lookup.Agrees ls.toList ks.toList) : table.recordAll ls = table.recordAll ks := by
  rw [recordAll_eq, recordAll_eq]
  generalize ls.toList = ls at h
  generalize ks.toList = ks at h
  induction h generalizing table with
  | nil => rfl
  | @cons l k _ _ hlk _ ih =>
    have hfirst : table.recordLookup l = table.recordLookup k := by
      unfold recordLookup
      rw [hlk.id, hlk.hops]
    rw [List.foldl_cons, List.foldl_cons, hfirst, ih]

theorem Machine.Renamed.within {R R' : Renaming} {w : Marking} {m n : Machine} (hR : R.Within R')
    (hm : m.Renamed R w n) (hops : HopTable) (hdistances : ∀ {i d}, R'.distance i d → hops.find? i = d) :
    Machine.Renamed R' w { m with hops := hops } { n with hops := hops } :=
  ⟨hm.heap.within hR, hm.current, rfl, hdistances, hm.output, hm.input, hm.files, hm.clock, hm.regex⟩

namespace Session

variable {R : Renaming} {s t : Session}

/-- A new session has no scope but the global one. -/
theorem new_renamed (R : Renaming) (files : Files) (includeDir : Option String) (input : List InputLine)
    (clock : Clock) (regex : Pattern.Engine) :
    (new files includeDir input clock regex).Renamed R (new files includeDir input clock regex) := by
  generalize hnodes : R.inSession (new files includeDir input clock regex) = S
  have hbindings : Bindings.Renamed S [[]] false (Native.all.map fun f => (f.name, .native f))
      (Native.all.map fun f => (f.name, .native f)) := by
    refine List.forall₂_map_left_iff.mpr (List.forall₂_map_right_iff.mpr (List.forall₂_same.mpr ?_))
    exact fun f _ => ⟨Renaming.name_false.symm, nofun, .data trivial⟩
  have hheap : Machine.initialHeap.Renamed S [[]] Machine.initialHeap := by
    refine ⟨rfl, rfl, fun i f g hf hg => ?_, rfl, ⟨.nil, .nil, .nil⟩⟩
    cases i with
    | zero =>
      obtain rfl := Option.some.inj hf
      obtain rfl := Option.some.inj hg
      exact ⟨[], rfl, hbindings, rfl, nofun⟩
    | succ i => cases hf
  refine ⟨⟨[[]], ?_⟩, rfl, rfl, fun id _ => ?_, rfl⟩
  · rw [hnodes]
    refine ⟨hheap, rfl, rfl, ?_, rfl, rfl, rfl, rfl, rfl⟩
    subst hnodes
    exact fun hi => hi.2
  · simp [new, Machine.initial, HopTable.empty, HopTable.find?]

/-- Nodes that have been given out since are further nodes. -/
theorem Fresh.within {next : NodeId} {ls : Array Lookup} (h : s.Fresh next ls) :
    (R.inSession s).Within (R.inSession (s.recorded next ls)) := by
  refine ⟨rfl, rfl, ?_⟩
  rintro i hops ⟨hi, hhops⟩
  exact ⟨Nat.lt_of_lt_of_le hi h.ahead, (h.find?_old hi).trans hhops⟩

namespace Renamed

theorem recorded (h : s.Renamed R t) {next : NodeId} {ls ks : Array Lookup} (hfresh : s.Fresh next ls)
    (hlookups : List.Forall₂ Lookup.Agrees ls.toList ks.toList) :
    (s.recorded next ls).Renamed R (t.recorded next ks) := by
  obtain ⟨w, hm⟩ := h.machine
  refine ⟨⟨w, ?_⟩, h.current, rfl, fun id hid => ?_, h.includeDir⟩
  · have hmachine := hm.within hfresh.within (s.machine.hops.recordAll ls) fun hi => hi.2
    have htable : s.machine.hops.recordAll ls = t.machine.hops.recordAll ks := by
      rw [hm.hops, HopTable.recordAll_agrees _ hlookups]
    unfold Session.recorded
    rw [← htable]
    exact hmachine
  · exact (hfresh.find?_new hid).trans (h.fresh id (Nat.le_trans hfresh.ahead hid))

theorem flush (h : s.Renamed R t) : s.flush.Renamed R t.flush := by
  obtain ⟨w, hm⟩ := h.machine
  exact ⟨⟨w, { hm with output := rfl }⟩, h.current, h.nextId, h.fresh, h.includeDir⟩

theorem finish (h : s.Renamed R t) {ds es : List Diagnostic}
    (hds : List.Forall₂ (Diagnostic.Renamed R.old R.new) ds es) (exhausted : Bool) :
    (s.finish ds exhausted).1.Renamed R.old R.new (t.finish es exhausted).1 ∧
      (s.finish ds exhausted).2.Renamed R (t.finish es exhausted).2 := by
  obtain ⟨w, hm⟩ := h.machine
  exact ⟨⟨hm.output, hds, rfl⟩, h.flush⟩

/-- Programs that differ by the renaming are executed in the same way. -/
theorem execute (h : s.Renamed R t) (steps : Nat) {as bs : List Stmt}
    (has : Stmt.AllRenamed (R.inSession s) [] as bs) :
    (s.execute steps as).1.Renamed R.old R.new (t.execute steps bs).1 ∧
      (s.execute steps as).2.Renamed R (t.execute steps bs).2 := by
  obtain ⟨w, hm⟩ := h.machine
  have hglobal : w.marks? s.machine.current = some [] := h.current ▸ hm.heap.globals
  have hrun := executeProgram_renames steps has s.machine t.machine hm hglobal
  have hkept := executeProgram_keeps steps as s.machine
  have hleft : ∀ {m n : Machine}, Exec.Leaves (R.inSession s) w s.machine.current (fun _ => True) m n →
      s.machine.Kept m → Session.Renamed R { s with machine := m } { t with machine := n } := by
    rintro m n ⟨w', _, hmn, hcurrent, _⟩ hkept
    have hnodes : R.inSession { s with machine := m } = R.inSession s := by
      unfold Renaming.inSession
      rw [hkept.hops]
    refine ⟨⟨w', hnodes ▸ hmn⟩, hcurrent.trans h.current, h.nextId, fun id hid => ?_, h.includeDir⟩
    exact (congrArg (HopTable.find? · id) hkept.hops).trans (h.fresh id hid)
  unfold Ends at hkept
  unfold Session.execute
  obtain ⟨_, m, _, n, hx, hy, hmn⟩ | ⟨e, m, e', n, hx, hy, he, hmn⟩ := hrun.runs
  · rw [hx] at hkept
    rw [hx, hy]
    exact (hleft hmn hkept).finish .nil false
  · rw [hx] at hkept
    rw [hx, hy]
    have hnext := hleft hmn hkept.2
    cases he with
    | exhausted => exact hnext.finish .nil true
    | @failed p q fault fault' hpq hfault =>
      refine hnext.finish (.cons ?_ .nil) false
      cases hfault with
      | same => exact .same (.runtime fault) none hpq
      | undefined => exact .undefined none hpq

/-! ### The same program -/

/-- Another program, which has nothing to do with the variable. -/
theorem runScanned (h : s.Renamed R t) (steps : Nat) (lexical : List Diagnostic) {ts : List Token}
    (hwords : Words ts) :
    (s.runScanned steps lexical ts).1.Renamed R.old R.new (t.runScanned steps lexical ts).1 ∧
      (s.runScanned steps lexical ts).2.Renamed R (t.runScanned steps lexical ts).2 := by
  obtain ⟨hnext, hwell, hnodes⟩ := parse_yields hwords s.nextId
  generalize hp : parse ts s.nextId = p at hnext hwell hnodes
  have hq : parse ts t.nextId = p := h.nextId ▸ hp
  have hself : ∀ ls : Array Lookup, List.Forall₂ Lookup.Agrees ls.toList ls.toList :=
    fun ls => List.forall₂_same.mpr fun _ _ => ⟨rfl, rfl⟩
  by_cases hfaults : lexical ++ p.faults = []
  · have hfresh : s.Fresh p.nextId (resolve p.statements).lookups :=
      ⟨hnext, fun l hl => hnodes.range _ (resolve_lookups hwell l hl)⟩
    have hrecorded := h.recorded hfresh (hself _)
    cases hfault : (resolve p.statements).fault with
    | some fault =>
      rw [runScanned_of_fault hp hfaults hfault, runScanned_of_fault hq hfaults hfault]
      exact hrecorded.finish (Diagnostic.renamed_self _) false
    | none =>
      rw [runScanned_of_none hp hfaults hfault, runScanned_of_none hq hfaults hfault]
      refine hrecorded.execute steps (Stmt.allRenamed_self Marks.clear_nil fun id hid => ?_)
      exact ⟨_, (hnodes.range id hid).2, rfl⟩
  · rw [runScanned_of_faults hp hfaults, runScanned_of_faults hq hfaults]
    refine (h.recorded ⟨hnext, ?_⟩ (hself #[])).finish (Diagnostic.renamed_self _) false
    rintro l ⟨⟩

theorem run (h : s.Renamed R t) (steps : Nat) (source : String) :
    (s.run steps source).1.Renamed R.old R.new (t.run steps source).1 ∧
      (s.run steps source).2.Renamed R (t.run steps source).2 :=
  h.runScanned steps (lexicalFaults source) (tokens_words source)

theorem runFile (h : s.Renamed R t) (steps : Nat) (path : String) :
    Except.Renamed R.old R.new (s.runFile steps path).1 (t.runFile steps path).1 ∧
      (s.runFile steps path).2.Renamed R (t.runFile steps path).2 := by
  obtain ⟨w, hm⟩ := h.machine
  have hsource : s.source = t.source := by
    unfold Session.source
    rw [hm.files, h.includeDir]
  unfold Session.runFile
  rw [hm.files, hsource]
  cases t.machine.files.readProgram path with
  | error reason => exact ⟨.unread _, h⟩
  | ok text =>
    dsimp only
    cases Include.expand t.source ((Path.parent? path).getD "") text with
    | error fault => exact ⟨.unread _, h⟩
    | ok e =>
      obtain ⟨hreport, hnext⟩ := h.run steps (String.ofList e.source)
      exact ⟨.shown (hreport.relocate _), hnext⟩

theorem step (h : s.Renamed R t) (e : Event) :
    Option.Rel (Except.Renamed R.old R.new) (s.step e).1 (t.step e).1 ∧
      (s.step e).2.Renamed R (t.step e).2 := by
  cases e with
  | run steps source =>
    obtain ⟨hreport, hnext⟩ := h.run steps source
    exact ⟨.some (.shown hreport), hnext⟩
  | runFile steps path =>
    obtain ⟨hshown, hnext⟩ := h.runFile steps path
    exact ⟨.some hshown, hnext⟩
  | «meanwhile» files input clock =>
    obtain ⟨w, hm⟩ := h.machine
    exact ⟨.none, ⟨w, { hm with files := rfl, input := rfl, clock := rfl }⟩, h.current, h.nextId, h.fresh,
      h.includeDir⟩

/-- Whatever happens, it shows the same but for the renaming. -/
theorem follow (h : s.Renamed R t) (events : List Event) :
    List.Forall₂ (Option.Rel (Except.Renamed R.old R.new)) (s.follow events).1 (t.follow events).1 := by
  induction events generalizing s t with
  | nil => exact .nil
  | cons e rest ih =>
    obtain ⟨hshown, hnext⟩ := h.step e
    exact .cons hshown (ih hnext)

end Renamed

/-- A session is the same as itself, whatever is renamed in programs that it has not seen. -/
theorem Reachable.renamed_self (hs : s.Reachable) (R : Renaming) : s.Renamed R s := by
  induction hs with
  | new files includeDir input clock regex => exact new_renamed R files includeDir input clock regex
  | step e _ ih => exact (ih.step e).2

end Session

end LoxLang

import LoxLang.Proofs.Renaming.Program
import LoxLang.Proofs.Renaming.Sessions
import LoxLang.Proofs.Scope.Enforced
import LoxLang.Proofs.Scope.SurveyedSession
import LoxLang.Proofs.Token.Respelled

/-!
The names of local variables do not matter. A local variable of a program is given another name, which does
not occur in the program: in the text, the identifiers that the resolver has bound to the variable are written
in the new way. The new text is the program with the variable renamed, so a session that runs it shows the
same.
-/

namespace LoxLang

/-! ### Identifiers and their places -/

theorem Occurrence.BoundTo.name {d : Ident} {lookups : List Lookup} {q : Occurrence}
    (h : q.BoundTo d lookups) : q.ident.name = d.name := by
  cases q with
  | declared name _ => exact congrArg Ident.name h
  | mention reference _ => exact h.1
  | other name => exact h.elim

namespace Spelled

variable {qs : List Occurrence} {source : String}

theorem token (h : Spelled qs (tokens source)) {q : Occurrence} (hq : q ∈ qs) :
    ∃ t ∈ tokens source, t.kind = .identifier ∧ Grammar.ident t = q.ident := by
  obtain ⟨t, ht, hident⟩ := List.mem_map.mp (h.subset (List.mem_map_of_mem hq))
  obtain ⟨ht, hkind⟩ := List.mem_filter.mp ht
  exact ⟨t, ht, by simpa using hkind, hident⟩

/-- No two of the occurrences stand at one place. -/
theorem unique (h : Spelled qs (tokens source)) {q r : Occurrence} (hq : q ∈ qs) (hr : r ∈ qs)
    (hposition : q.ident.position = r.ident.position) : q = r := by
  have hordered : (identifiers (tokens source)).Pairwise fun x y => x.position.Before y.position :=
    List.pairwise_map.mpr (identifiers_ordered source)
  have hbefore := List.pairwise_map.mp (hordered.sublist h)
  have hnodup : (qs.map fun q => q.ident.position).Nodup := by
    refine List.pairwise_map.mpr (hbefore.imp fun hlt heq => ?_)
    exact Position.Before.irrefl _ (heq ▸ hlt)
  exact List.inj_on_of_nodup_map hnodup hq hr hposition

end Spelled

/-- Whether an identifier stands at the place that belongs to the variable that is declared at `d`. -/
def boundAt (program : List Stmt) (d : Ident) (p : Position) : Bool :=
  (Stmt.allOccurrences [] program).any fun q =>
    q.ident.position = p ∧ q.BoundTo d (resolve program).lookups.toList

theorem boundAt_iff {program : List Stmt} {d : Ident} {p : Position} :
    boundAt program d p = true ↔ ∃ q ∈ Stmt.allOccurrences [] program,
      q.ident.position = p ∧ q.BoundTo d (resolve program).lookups.toList := by
  simp [boundAt]

/-! ### The renamed program -/

/-- A program that the session accepts, one of its variables that is not global, and an identifier that does
not occur in it. -/
structure Session.Renamable (s : Session) (source : String) (program : List Stmt) (d : Ident)
    (new : String) : Prop where
  accepts : s.Accepts source program
  isLocal : ∃ q ∈ Stmt.allOccurrences [] program, q.IsLocal d
  identifier : Lexis.Lexeme .identifier new.toList
  unused : ∀ t ∈ tokens source, t.lexeme ≠ new

/-- The session once it knows the program. -/
def Session.knowing (s : Session) (source : String) (program : List Stmt) : Session :=
  s.recorded (parse (tokens source) s.nextId).nextId (resolve program).lookups

namespace Session.Renamable

variable {s t : Session} {source new : String} {program : List Stmt} {d : Ident}
  (h : s.Renamable source program d new)

include h

theorem spelled : Spelled (Stmt.allOccurrences [] program) (tokens source) := by
  have hspelled := occurrences_spelled h.accepts.faults
  rwa [h.accepts.statements] at hspelled

theorem declared : ∃ home ≠ [], .declared d home ∈ Stmt.allOccurrences [] program := by
  obtain ⟨q, hq, hlocal⟩ := h.isLocal
  cases q with
  | declared name nest =>
    obtain ⟨rfl, hnest⟩ := hlocal
    exact ⟨nest, hnest, hq⟩
  | mention => exact hlocal.elim
  | other => exact hlocal.elim

theorem token : ∃ t ∈ tokens source, t.kind = .identifier ∧ t.lexeme = d.name := by
  obtain ⟨home, _, hd⟩ := h.declared
  obtain ⟨t, ht, hkind, hident⟩ := h.spelled.token hd
  exact ⟨t, ht, hkind, congrArg Ident.name hident⟩

theorem old_plain : Plain d.name := by
  obtain ⟨t, ht, hkind, hname⟩ := h.token
  exact hname ▸ tokens_words source t ht hkind

theorem new_plain : Plain new := by
  obtain ⟨_, _, _, _, _, hword⟩ := Lexer.identifier_shape h.identifier
  rw [String.ofList_toList] at hword
  exact plain_of_ofWord hword

/-- The new text has the old tokens, in the lines where they were, with the names of the variable spelled in
the new way. -/
theorem respelled : ∃ place : Position → Position, (∀ p : Position, p.Row (place p)) ∧
    tokens (respelled source (boundAt program d) new) = (tokens source).map
      (Move.token ⟨0, place, Lexer.spelling (boundAt program d) d.name new⟩) ∧
    lexicalFaults (LoxLang.respelled source (boundAt program d) new) = [] := by
  have hold : d.name ≠ "" := by
    obtain ⟨t, ht, hkind, hname⟩ := h.token
    exact hname ▸ identifiers_nonempty source t ht hkind
  refine tokens_respelled h.accepts.lexical hold h.identifier fun p hp => ?_
  obtain ⟨q, hq, hposition, hbound⟩ := boundAt_iff.mp hp
  obtain ⟨t, ht, hkind, hident⟩ := h.spelled.token hq
  exact ⟨t, ht, hkind, (congrArg Ident.position hident).trans hposition,
    (congrArg Ident.name hident).trans hbound.name⟩

/-- The renaming of the variable, for no nodes yet. -/
def toRenaming : Renaming :=
  ⟨d.name, new, fun _ _ => False, h.old_plain, h.new_plain⟩

theorem well : Stmt.AllParsed s.nextId (parse (tokens source) s.nextId).nextId program := by
  have hparsed := (parse_yields (tokens_words source) s.nextId).2
  rwa [h.accepts.statements] at hparsed

/-- The mentions of the program are at new nodes. -/
theorem fresh : s.Fresh (parse (tokens source) s.nextId).nextId (resolve program).lookups :=
  ⟨(parse_yields (tokens_words source) s.nextId).1,
    fun l hl => h.well.2.range _ (resolve_lookups h.well.1 l hl)⟩

theorem fault : (resolve program).fault = none := by
  rw [← h.accepts.statements]
  exact h.accepts.scopes

/-- No node is mentioned twice. -/
theorem once : ((resolve program).lookups.toList.map (·.reference.id)).Nodup := by
  obtain ⟨n, hlookups, hids, _⟩ := resolve_addresses h.well.1 h.fault
  rw [← hlookups]
  exact hids.nodup h.well.2.nodup

/-- The distances that the session records are those that the resolver has found. -/
theorem found (hnew : ∀ id : Nat, @LE.le Nat _ s.nextId id → s.machine.hops.find? id = none) :
    ∀ l ∈ (resolve program).lookups.toList,
      (h.toRenaming.inSession (s.knowing source program)).distance l.reference.id l.hops :=
  fun l hl => ⟨(h.fresh.lookups l hl).2, HopTable.find?_recordAll_mem _ h.once
    (fun l hl => hnew _ (h.fresh.lookups l hl).1) l hl⟩

theorem occurrence_respelled {v : Move}
    (hspell : v.spell = Lexer.spelling (boundAt program d) d.name new) {home : List (List Ident)}
    (hd : .declared d home ∈ Stmt.allOccurrences [] program) {R : Renaming} (hR : R.new = new) :
    ∀ q ∈ Stmt.allOccurrences [] program,
      q.Respelled R d home (resolve program).lookups.toList v := by
  intro q hq
  refine ⟨?_, fun hident => h.spelled.unique hq hd (congrArg Ident.position hident), ?_⟩
  · obtain ⟨t, ht, _, hident⟩ := h.spelled.token hq
    rw [hR, ← hident]
    exact h.unused t ht
  · rw [hspell, hR, Lexer.spelling]
    by_cases hbound : q.BoundTo d (resolve program).lookups.toList
    · rw [if_pos hbound, if_pos ⟨boundAt_iff.mpr ⟨q, hq, rfl, hbound⟩, hbound.name⟩]
    · rw [if_neg hbound, if_neg ?_]
      rintro ⟨hat, _⟩
      obtain ⟨r, hr, hposition, hbound'⟩ := boundAt_iff.mp hat
      obtain rfl := h.spelled.unique hr hq hposition
      exact hbound hbound'

/-- The program is renamed if the names of the variable are spelled in the new way. -/
theorem renamed (hnew : ∀ id : Nat, @LE.le Nat _ s.nextId id → s.machine.hops.find? id = none) {v : Move}
    (hshift : v.shift = 0) (hline : ∀ p : Position, p.SameLine (v.place p))
    (hspell : v.spell = Lexer.spelling (boundAt program d) d.name new) :
    Stmt.AllRenamed (h.toRenaming.inSession (s.knowing source program)) [] program (v.stmts program) := by
  obtain ⟨n, hlookups, _, _, haddressed⟩ := resolve_addresses h.well.1 h.fault
  obtain ⟨home, hhome, hd⟩ := h.declared
  have hlawful : Lawful (Stmt.allSites [] [] program) := by
    intro site hsite violation hbroken
    have hfault : (resolve program).fault.isSome := fault_of_breaks ⟨site, hsite, hbroken⟩
    rw [h.fault] at hfault
    cases hfault
  have hrespelling : Respelling (h.toRenaming.inSession (s.knowing source program)) d home n.lookups v := by
    refine ⟨rfl, hhome, hshift, hline, ?_, ?_⟩
    · rw [hlookups]
      exact h.found hnew
    · rw [hlookups]
      intro l hl k hk hreference
      have hsame := List.inj_on_of_nodup_map h.once hl hk (congrArg Reference.id hreference)
      rw [hsame]
  refine hrespelling.stmts haddressed hlawful (.global _) ?_
  rw [hlookups]
  exact h.occurrence_respelled hspell hd rfl

/-- The new text is accepted as well, and it has the same report. -/
theorem run (hs : s.Renamed h.toRenaming s) (steps : Nat) :
    let source' := LoxLang.respelled source (boundAt program d) new
    (∃ place : Position → Position, (∀ p : Position, p.SameLine (place p)) ∧ s.Accepts source'
      (Move.stmts ⟨0, place, Lexer.spelling (boundAt program d) d.name new⟩ program)) ∧
      (s.run steps source).1.Renamed d.name new (s.run steps source').1 ∧
      (s.run steps source).2.Renamed h.toRenaming (s.run steps source').2 := by
  intro source'
  obtain ⟨place, hplace, htokens, hlexical⟩ := h.respelled
  have hline : ∀ p : Position, p.SameLine (place p) := fun p => (hplace p).line.symm
  let v : Move := ⟨0, place, Lexer.spelling (boundAt program d) d.name new⟩
  have hprogram := h.renamed hs.fresh (v := v) rfl hline rfl
  have hparse : parse (tokens source') s.nextId = (parse (tokens source) s.nextId).moved v := by
    rw [htokens]
    exact parse_moved v (ended_tokens source) s.nextId
  have hfaults : ((parse (tokens source) s.nextId).moved v).faults = [] :=
    congrArg (List.map v.diagnostic) h.accepts.faults
  have hstatements : ((parse (tokens source) s.nextId).moved v).statements = v.stmts program :=
    congrArg v.stmts h.accepts.statements
  have hfresh : Resolver.Fresh (h.toRenaming.inSession (s.knowing source program))
      (Stmt.allOccurrences [] program) := by
    intro q hq
    obtain ⟨t, ht, _, hident⟩ := h.spelled.token hq
    exact hident ▸ h.unused t ht
  have hknown : Resolver.Known (h.toRenaming.inSession (s.knowing source program))
      (resolve program).lookups.toList :=
    fun l hl hops hdistance => hdistance.2.symm.trans (h.found hs.fresh l hl).2
  obtain ⟨hfault, hlookups⟩ := resolve_follows hprogram hfresh h.fault hknown
  rw [← hstatements] at hfault
  refine ⟨⟨place, hline, hlexical, hparse ▸ hfaults, hparse ▸ hstatements, hparse ▸ hfault⟩, ?_⟩
  rw [Session.run, Session.run, runScanned_of_none hparse (by rw [hlexical, hfaults]; rfl) hfault,
    runScanned_of_none rfl (by rw [h.accepts.lexical, h.accepts.faults]; rfl) h.accepts.scopes,
    hstatements, h.accepts.statements]
  exact (hs.recorded h.fresh hlookups).execute steps hprogram

end Session.Renamable

/-- Local names do not matter. In any session, let a program be accepted, and let one of its local variables
or parameters be called by an identifier that does not occur in it, in its declaration and wherever the
resolver has bound a name to it, but nowhere else. Then the new text is accepted, as the program with just
these names spelled otherwise. And whatever happens afterwards, the session shows the same as with the old
text: all output is the same, and so are all faults, but for their columns and for the name of the variable in
a message that it is not defined. -/
theorem local_names_irrelevant {s : Session} (hs : s.Reachable) {source new : String} {program : List Stmt}
    {d : Ident} (h : s.Renamable source program d new) (steps : Nat) (events : List Session.Event) :
    let source' := respelled source (boundAt program d) new
    (∃ place : Position → Position, (∀ p : Position, p.SameLine (place p)) ∧ s.Accepts source'
      (Move.stmts ⟨0, place, Lexer.spelling (boundAt program d) d.name new⟩ program)) ∧
      List.Forall₂ (Option.Rel (Except.Renamed d.name new)) (s.follow (.run steps source :: events)).1
        (s.follow (.run steps source' :: events)).1 := by
  intro source'
  obtain ⟨haccepts, hreport, hnext⟩ := h.run (hs.renamed_self h.toRenaming) steps
  have hfollow : ∀ text, (s.follow (.run steps text :: events)).1 =
      some (.ok (s.run steps text).1) :: ((s.run steps text).2.follow events).1 := fun _ => rfl
  rw [hfollow, hfollow]
  exact ⟨haccepts, .cons (.some (.shown hreport)) (hnext.follow events)⟩

/-- A parameter that is captured by a closure, and that is hidden by a variable of the same name. -/
def shadowedParameter : String :=
  "fun outer(a) { fun inner() { return a; } { var a = 2; print a; } return inner; }"

theorem local_names_irrelevant_in_closure :
    let s := Session.new default none [] default
    let program := (parse (tokens shadowedParameter) s.nextId).statements
    let d : Ident := ⟨"a", ⟨0, 10⟩⟩
    s.Renamable shadowedParameter program d "b" ∧
      respelled shadowedParameter (boundAt program d) "b" =
        "fun outer(b) { fun inner() { return b; } { var a = 2; print a; } return inner; }" ∧
      List.Forall₂ (Option.Rel (Except.Renamed "a" "b"))
        (s.follow [.run 20 shadowedParameter, .run 20 "print outer(1)();"]).1
        (s.follow [.run 20 (respelled shadowedParameter (boundAt program d) "b"),
          .run 20 "print outer(1)();"]).1 := by
  intro s program d
  have hs : s.Reachable := .new _ _ _ _ _
  have h : s.Renamable shadowedParameter program d "b" := by
    refine ⟨⟨by decide +kernel, by decide +kernel, rfl, by decide +kernel⟩, by decide +kernel, ?_,
      by decide +kernel⟩
    have hkeywords : ∀ entry ∈ Lexis.keywords, entry.1 ≠ "b" := by decide
    exact .identifier (by decide) (by simp) fun kind hkind => hkeywords _ hkind rfl
  exact ⟨h, by decide +kernel, (local_names_irrelevant hs h 20 _).2⟩

end LoxLang

import LoxLang.Proofs.Session.Alike

/-!
A program in the lines below another one. If neither has a fault on its own, the two together have none:
the tokens of the second one follow those of the first, its statements begin where the first one's end, and
it is resolved in the same context as on its own.
-/

namespace LoxLang

open Lexer (lower newlines)

/-- The text has no faults when it is scanned, parsed and resolved on its own. -/
structure Faultless (source : String) : Prop where
  lexical : lexicalFaults source = []
  grammar : (parse (tokens source) 0).faults = []
  scope : (resolve (parse (tokens source) 0).statements).fault = none

/-! ### Resolving -/

namespace Resolver

theorem statements_append (c : Context) (as bs : List Stmt) :
    statements c (as ++ bs) = statements c as >>= fun _ => statements c bs := by
  induction as with
  | nil => rfl
  | cons s rest ih =>
    rw [List.cons_append, statements, statements, ih, bind_assoc]

theorem scopes_afterAll (body : List Stmt) : Scope.afterAll body [] = [] := by
  induction body with
  | nil => rfl
  | cons s rest ih =>
    have hafter : Scope.after s [] = [] := by
      unfold Scope.after
      cases s.declared? <;> rfl
    rw [Scope.afterAll, List.foldl_cons, hafter]
    exact ih

end Resolver

/-- Behind a program without faults, another one is resolved as if it were alone. -/
theorem resolve_append {S : Skew} {as bs cs : List Stmt} (hwell : Stmt.AllWellFormed as)
    (hclean : (resolve as).fault = none) (hbs : List.Forall₂ (Stmt.Alike S) bs cs) :
    ∃ ls : Array Lookup, (resolve (as ++ cs)).lookups = (resolve as).lookups ++ ls ∧
      List.Forall₂ (Lookup.Alike S) (resolve bs).lookups.toList ls.toList ∧
        Option.Rel (Diagnostic.Alike S) (resolve bs).fault (resolve (as ++ cs)).fault := by
  have hwalk := Resolver.statements_walk Resolver.topLevel as (s := ⟨[], #[]⟩) hwell trivial rfl
  unfold Resolver.Walks Ends EStateM.run at hwalk
  cases hfirst : Resolver.statements Resolver.topLevel as ⟨[], #[]⟩ with
  | error fault s =>
    unfold resolve at hclean
    rw [hfirst] at hclean
    cases hclean
  | ok _ s =>
    rw [hfirst] at hwalk
    have hscopes : s.scopes = [] := hwalk.1.trans (Resolver.scopes_afterAll as)
    have hlookups : (resolve as).lookups = s.lookups := by
      unfold resolve
      rw [hfirst]
    have hstart : Resolver.State.Alike S s.lookups.toList ⟨[], #[]⟩ s :=
      ⟨hscopes.symm, [], by simp, .nil⟩
    have hsecond := Resolver.statements_alike Resolver.topLevel hbs _ _ hstart
    have hboth : Resolver.statements Resolver.topLevel (as ++ cs) ⟨[], #[]⟩ =
        Resolver.statements Resolver.topLevel cs s := by
      rw [Resolver.statements_append]
      change EStateM.bind _ _ _ = _
      unfold EStateM.bind
      rw [hfirst]
    have hfound : ∀ {t u : Resolver.State}, t.Alike S s.lookups.toList u → ∃ ls : Array Lookup,
        u.lookups = s.lookups ++ ls ∧ List.Forall₂ (Lookup.Alike S) t.lookups.toList ls.toList := by
      rintro t u ⟨_, ls, hu, hls⟩
      refine ⟨ls.toArray, ?_, hls⟩
      apply Array.toList_inj.mp
      simpa using hu
    have hruns := hsecond.runs
    dsimp only [EStateM.run] at hruns
    rw [hlookups]
    unfold resolve
    rw [hboth]
    obtain ⟨_, t, _, u, hx, hy, hafter⟩ | ⟨fault, t, fault', u, hx, hy, hsame, hafter⟩ := hruns
    · rw [hx, hy]
      obtain ⟨ls, hu, hls⟩ := hfound hafter
      exact ⟨ls, hu, hls, .none⟩
    · rw [hx, hy]
      obtain ⟨ls, hu, hls⟩ := hfound hafter
      exact ⟨ls, hu, hls, .some hsame⟩

/-! ### Parsing -/

namespace Faultless

variable {source a b : String}

/-- The text has no faults either where its tokens stand in other places and its nodes have other numbers. -/
theorem placed (h : Faultless source) (first : Nat) (v : Position → Position) :
    (parse ((tokens source).map (Token.placed v)) first).faults = [] ∧
      (resolve (parse ((tokens source).map (Token.placed v)) first).statements).fault = none := by
  have hended := Session.ended_tokens source
  have hplaced := parse_placed hended first v
  constructor
  · rw [hplaced]
    exact congrArg (List.map _) h.grammar
  · have halike := placed_alike hended (tokens_words source) (S := ⟨fun _ _ => False, fun _ _ => True⟩)
      (v := id) (w := v) (fun _ => trivial) 0 first
    have hresolved := (resolve_alike halike).2
    have hsame : Move.stmts (.along 0 id) (parse (tokens source) 0).statements =
        (parse (tokens source) 0).statements :=
      (congrArg Parse.statements (parse_placed_id hended 0)).symm
    rw [hsame, h.scope] at hresolved
    rw [hplaced]
    change (resolve (Move.stmts (.along first v) (parse (tokens source) 0).statements)).fault = none
    generalize (resolve (Move.stmts (.along first v) (parse (tokens source) 0).statements)).fault = fault
      at hresolved
    cases hresolved with
    | none => rfl

theorem parsed (h : Faultless source) (first : Nat) :
    (parse (tokens source) first).faults = [] ∧
      (resolve (parse (tokens source) first).statements).fault = none := by
  have hplaced := h.placed first id
  rwa [show (tokens source).map (Token.placed id) = tokens source from List.map_id _] at hplaced

/-- Of two texts, the second one's tokens stand below the first one's. -/
theorem parse_below (ha : Faultless a) (hb : Faultless b) {first : Nat} {p q : Parse}
    (hp : parse (tokens a) first = p)
    (hq : parse ((tokens b).map (Token.placed (lower (newlines a + 1)))) p.nextId = q) :
    parse (tokens (a ++ "\n" ++ b)) first = ⟨p.statements ++ q.statements, [], q.nextId⟩ := by
  obtain ⟨line, hlast, _⟩ := tokens_last a
  have hended := Session.ended_tokens b
  have hp' : parse ((tokens a).dropLast ++ [.endOfFile line]) first = p := by rw [← hlast, hp]
  have hfaults : p.faults = [] := hp ▸ (ha.parsed first).1
  have hfaults' : (parse (tokens b) p.nextId).faults = [] := (hb.parsed p.nextId).1
  have hboth := parse_append (.along 0 id) (.along 0 (lower (newlines a + 1))) rfl rfl
    (fun t ht => (tokens_front a t ht).1) hended hp' rfl hfaults hfaults'
  -- What stands above stays where it is, and the nodes below are numbered on from there.
  have habove : Move.stmts (.along 0 id) p.statements = p.statements := by
    have hmoved : parse ((tokens a).map (Move.token (.along 0 id))) first = _ :=
      parse_moved (.along 0 id) (Session.ended_tokens a) first
    rw [show (tokens a).map (Move.token (.along 0 id)) = tokens a from List.map_id _] at hmoved
    rw [hp] at hmoved
    exact (congrArg Parse.statements hmoved).symm
  have hbelow : q = (parse (tokens b) p.nextId).moved (.along 0 (lower (newlines a + 1))) :=
    hq.symm.trans (parse_moved (.along 0 (lower (newlines a + 1))) hended p.nextId)
  rw [tokens_append ha.lexical, hbelow]
  rw [habove, show (tokens a).dropLast.map (Move.token (.along 0 id)) = (tokens a).dropLast from
    List.map_id _] at hboth
  exact hboth

end Faultless

end LoxLang

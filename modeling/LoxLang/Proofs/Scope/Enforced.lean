import LoxLang.Proofs.Scope.Addressed
import LoxLang.Proofs.Scope.Rules
import LoxLang.Proofs.Session.Faulty

/-!
The resolver enforces the static rules and no others. Its walk is followed site by site: what it knows at a
site, namely its context and the scopes on its stack, is what the surroundings of the site and the names
declared before it amount to. So it stops at the first site that breaks a rule, and if it does not stop, no
site breaks one.
-/

namespace LoxLang

/-! ### Finding violations -/

namespace Surroundings

/-- What the resolver knows of the surroundings. -/
def context (around : Surroundings) : Context where
  function :=
    match around.function? with
    | some (.method name) => Resolver.methodKind name
    | some _ => .function
    | none => .topLevel
  cls :=
    match around.cls? with
    | some (some _) => .derived
    | some none => .root
    | none => .outside
  inLoop := decide around.InLoop

variable (around : Surroundings)

theorem inLoop_cons (e : Enclosure) :
    InLoop (e :: around) ↔ e.isFunction = false ∧ (e = .loop ∨ around.InLoop) := by
  unfold InLoop
  rw [List.takeWhile_cons]
  cases e.isFunction <;> simp [eq_comm]

theorem function?_cons (e : Enclosure) :
    function? (e :: around) = if e.isFunction then some e else around.function? := by
  unfold function?
  rw [List.find?_cons]
  cases e.isFunction <;> rfl

theorem cls?_cons (e : Enclosure) : cls? (e :: around) = e.superclass?.or around.cls? := by
  unfold cls?
  rw [List.findSome?_cons]
  cases e.superclass? <;> rfl

/-- What an enclosure changes of what the resolver knows. -/
theorem context_cons (e : Enclosure) : context (e :: around) =
    match e with
    | .block => around.context
    | .initializer _ => around.context
    | .loop => { around.context with inLoop := true }
    | .function => { around.context with function := .function, inLoop := false }
    | .method name => { around.context with function := Resolver.methodKind name, inLoop := false }
    | .cls superclass => { around.context with cls := if superclass.isSome then .derived else .root } := by
  unfold context
  simp only [function?_cons, cls?_cons, inLoop_cons]
  cases e with
  | cls superclass => cases superclass <;> simp [Enclosure.isFunction, Enclosure.superclass?]
  | _ => simp [Enclosure.isFunction, Enclosure.superclass?]

theorem context_nil : context [] = Resolver.topLevel := rfl

theorem context_topLevel : around.context.function = .topLevel ↔ around.function? = none := by
  unfold context
  rcases around.function? with _ | e
  · simp
  · cases e <;> simp [Resolver.methodKind]
    split <;> simp

theorem context_initializing :
    around.context.function = .initializer ↔ around.method? = some initializerName := by
  unfold context method?
  rcases around.function? with _ | e
  · simp
  · cases e <;> simp [Resolver.methodKind]

theorem context_outside : around.context.cls = .outside ↔ around.cls? = none := by
  unfold context
  rcases around.cls? with _ | _ | _ <;> simp

end Surroundings

/-- The violation, if the condition for it holds. -/
def broken (p : Prop) [Decidable p] (v : Violation) : List Violation :=
  if p then [v] else []

theorem mem_broken {p : Prop} [Decidable p] {v w : Violation} : w ∈ broken p v ↔ p ∧ w = v := by
  unfold broken
  split <;> simp [*]

/-- The violations at a site, the one that the resolver sees first in front. -/
def Site.check : Site → List Violation
  | ⟨around, _, .statement (.breakLoop p)⟩ => broken (¬around.InLoop) ⟨.outsideLoop "break", p⟩
  | ⟨around, _, .statement (.continueLoop p)⟩ => broken (¬around.InLoop) ⟨.outsideLoop "continue", p⟩
  | ⟨around, _, .statement (.returnValue p value)⟩ =>
    broken (around.function? = none) ⟨.returnAtTopLevel, p⟩ ++
      broken (value.isSome ∧ around.method? = some initializerName) ⟨.returnFromInitializer, p⟩
  | ⟨around, _, .expression (.this _ p)⟩ => broken (around.cls? = none) ⟨.thisOutsideClass, p⟩
  | ⟨around, _, .expression (.super _ p _)⟩ =>
    broken (around.cls? = none) ⟨.superOutsideClass, p⟩ ++
      broken (around.cls? = some none) ⟨.superWithoutSuperclass, p⟩
  | ⟨around, earlier, .declaration name⟩ =>
    broken (around.InScope ∧ name.name ∈ earlier) ⟨.redeclared name.name, name.position⟩
  | ⟨around, _, .expression (.read r)⟩ =>
    broken (around.initializing? = some r.ident.name) ⟨.readInOwnInitializer, r.ident.position⟩
  | ⟨_, _, .superclass name r⟩ =>
    broken (r.ident.name = name.name) ⟨.inheritsFromItself, r.ident.position⟩
  | _ => []

theorem Site.mem_check {site : Site} {v : Violation} : v ∈ site.check ↔ site.Breaks v := by
  constructor
  · intro h
    unfold Site.check at h
    split at h
    case h_1 =>
      obtain ⟨hloop, rfl⟩ := mem_broken.mp h
      exact .breakOutsideLoop hloop
    case h_2 =>
      obtain ⟨hloop, rfl⟩ := mem_broken.mp h
      exact .continueOutsideLoop hloop
    case h_3 =>
      rcases List.mem_append.mp h with h | h
      · obtain ⟨hfunction, rfl⟩ := mem_broken.mp h
        exact .returnAtTopLevel hfunction
      · obtain ⟨⟨hvalue, hinitializer⟩, rfl⟩ := mem_broken.mp h
        obtain ⟨e, rfl⟩ := Option.isSome_iff_exists.mp hvalue
        exact .returnFromInitializer hinitializer
    case h_4 =>
      obtain ⟨hcls, rfl⟩ := mem_broken.mp h
      exact .thisOutsideClass hcls
    case h_5 =>
      rcases List.mem_append.mp h with h | h
      · obtain ⟨hcls, rfl⟩ := mem_broken.mp h
        exact .superOutsideClass hcls
      · obtain ⟨hcls, rfl⟩ := mem_broken.mp h
        exact .superWithoutSuperclass hcls
    case h_6 =>
      obtain ⟨⟨hscope, hearlier⟩, rfl⟩ := mem_broken.mp h
      exact .redeclared hscope hearlier
    case h_7 =>
      obtain ⟨hreads, rfl⟩ := mem_broken.mp h
      exact .readInOwnInitializer hreads
    case h_8 =>
      obtain ⟨hsame, rfl⟩ := mem_broken.mp h
      exact .inheritsFromItself hsame
    case h_9 => exact absurd h List.not_mem_nil
  · intro h
    cases h <;> simp [Site.check, mem_broken, *]

/-- The violations at some sites, in the order of the sites. -/
def violations (sites : List Site) : List Violation :=
  sites.flatMap Site.check

theorem mem_violations {sites : List Site} {v : Violation} :
    v ∈ violations sites ↔ ∃ site ∈ sites, site.Breaks v := by
  simp only [violations, List.mem_flatMap, Site.mem_check]

namespace Resolver

/-! ### Walks over sites -/

/-- If no rule is broken at the sites, the walk over them ends under the scopes `after`; if one is, the walk
ends at the first violation. -/
def Checks (x : Resolver Unit) (s : State) (after : List Scope) (sites : List Site) : Prop :=
  Ends x s (fun _ s' => violations sites = [] ∧ s'.scopes = after)
    fun d _ => ∃ v, (violations sites).head? = some v ∧ d = v.diagnostic

namespace Checks

variable {x : Resolver Unit} {f : Unit → Resolver Unit} {s : State} {mid after : List Scope}
  {site : Site} {as bs : List Site}

theorem bind (hx : Checks x s mid as) (hf : ∀ s', s'.scopes = mid → Checks (f ()) s' after bs) :
    Checks (x >>= f) s after (as ++ bs) := by
  have hboth : violations (as ++ bs) = violations as ++ violations bs := List.flatMap_append
  unfold Checks at hx ⊢
  rw [hboth]
  have hfirst : Ends x s (fun _ s' => violations as = [] ∧ s'.scopes = mid)
      fun d _ => ∃ v, (violations as ++ violations bs).head? = some v ∧ d = v.diagnostic := by
    refine hx.imp (fun _ _ h => h) ?_
    rintro d s' ⟨v, hv, rfl⟩
    exact ⟨v, by rw [List.head?_append, hv]; rfl, rfl⟩
  refine hfirst.bind ?_
  rintro _ s' ⟨hnone, hscopes⟩
  rw [hnone]
  exact hf s' hscopes

/-- A part of the walk that visits no site. -/
theorem before {u : State → State} (hf : Checks (f ()) (u s) after bs) :
    Checks (modify u >>= f) s after bs :=
  Ends.modify_bind hf

theorem silent {u : State → State} (hscopes : (u s).scopes = after) : Checks (modify u) s after [] :=
  Ends.of_modify ⟨rfl, hscopes⟩

theorem pure (hscopes : s.scopes = after) : Checks (Pure.pure ()) s after [] :=
  Ends.pure ⟨rfl, hscopes⟩

/-- No rule is about what stands at the site. -/
theorem pass (hsite : site.check = []) (hx : Checks x s after as) : Checks x s after (site :: as) := by
  have hsame : violations (site :: as) = violations as := by
    unfold violations
    rw [List.flatMap_cons, hsite, List.nil_append]
  unfold Checks
  rw [hsame]
  exact hx

theorem head?_violations {v : Violation} (hsite : site.check.head? = some v) :
    (violations (site :: as)).head? = some v := by
  unfold violations
  rw [List.flatMap_cons, List.head?_append, hsite]
  rfl

/-- A rule is broken by what stands at the site. -/
theorem fail {v : Violation} (hsite : site.check.head? = some v) :
    Checks (failAt v.position v.fault) s after (site :: as) :=
  Ends.throw ⟨v, head?_violations hsite, rfl⟩

/-- The rest of the walk is not reached. -/
theorem stop {v : Violation} (hsite : site.check.head? = some v) :
    Checks (failAt v.position v.fault >>= f) s after (site :: as) :=
  Ends.throw ⟨v, head?_violations hsite, rfl⟩

/-- The rule about what stands at the site is checked before the walk goes on. -/
theorem rule {p q : Prop} [Decidable p] [Decidable q] {v : Violation} (hpq : p ↔ q)
    (hsite : site.check = broken q v) (hf : ¬p → Checks (f ()) s after as) :
    Checks (if p then failAt v.position v.fault >>= f else f ()) s after (site :: as) := by
  by_cases hp : p
  · rw [if_pos hp]
    apply Checks.stop
    rw [hsite, broken, if_pos (hpq.mp hp)]
    rfl
  · rw [if_neg hp]
    refine Checks.pass ?_ (hf hp)
    rw [hsite, broken, if_neg fun hq => hp (hpq.mpr hq)]

/-- The last part of the walk visits no site. -/
theorem ending {u : State → State} (hx : Checks x s mid as)
    (hu : ∀ s' : State, s'.scopes = mid → (u s').scopes = after) :
    Checks (x >>= fun _ => modify u) s after as := by
  have h := hx.bind (f := fun _ => modify u) fun s' hs' => silent (hu s' hs')
  rwa [List.append_nil] at h

theorem conform (hx : Checks x s mid as) (hafter : mid = after) (hsites : as = bs) :
    Checks x s after bs := by
  subst hafter hsites
  exact hx

end Checks

/-! ### What the resolver knows -/

/-- The names on the stack are those that are declared before a site, unless they are global. -/
structure Tracks (around : Surroundings) (earlier : List String) (scopes : List Scope) : Prop where
  inner : around.InScope → ∃ scope outer, scopes = scope :: outer ∧
    ∀ name, scope.lookup name = if name ∈ earlier then some .defined else none
  outermost : ¬around.InScope → scopes = []

/-- The variable in the middle of its initializer is the one that the site initializes. -/
def Reads (around : Surroundings) (scopes : List Scope) : Prop :=
  ∀ name, scopes.head?.bind (·.lookup name) = some .declared ↔ around.initializing? = some name

/-- The scopes behind the declarations of some names. -/
def declareAll (names : List Ident) (scopes : List Scope) : List Scope :=
  names.foldl (fun scopes x => Scope.declare x.name scopes) scopes

theorem tail_declareAll (names : List Ident) (scopes : List Scope) :
    (declareAll names scopes).tail = scopes.tail := by
  induction names generalizing scopes with
  | nil => rfl
  | cons x rest ih =>
    refine (ih (Scope.declare x.name scopes)).trans ?_
    rw [Scope.declare, Scope.tail_enter, Scope.tail_enter]

theorem declareAll_append (as bs : List Ident) (scopes : List Scope) :
    declareAll (as ++ bs) scopes = declareAll bs (declareAll as scopes) :=
  List.foldl_append

namespace Tracks

variable {around : Surroundings} {earlier : List String} {scopes : List Scope}

theorem push (h : around.InScope) (scopes : List Scope) : Tracks around [] ([] :: scopes) :=
  ⟨fun _ => ⟨[], scopes, rfl, fun _ => rfl⟩, fun hnot => absurd h hnot⟩

theorem declare (h : Tracks around earlier scopes) (x : Ident) :
    Tracks around (earlier ++ [x.name]) (Scope.declare x.name scopes) := by
  refine ⟨fun hscope => ?_, fun hnot => ?_⟩
  · obtain ⟨scope, outer, rfl, hlookup⟩ := h.inner hscope
    refine ⟨_, outer, rfl, fun name => ?_⟩
    rw [List.lookup_cons, List.lookup_cons, hlookup]
    by_cases hname : name = x.name
    · simp [hname]
    · simp [hname, beq_eq_false_iff_ne.mpr hname]
  · rw [h.outermost hnot]
    rfl

theorem declareAll (h : Tracks around earlier scopes) (names : List Ident) :
    Tracks around (earlier ++ names.map Ident.name) (Resolver.declareAll names scopes) := by
  induction names generalizing earlier scopes with
  | nil => simpa [Resolver.declareAll] using h
  | cons x rest ih => simpa [Resolver.declareAll] using ih (h.declare x)

theorem loop (h : Tracks around earlier scopes) : Tracks (.loop :: around) earlier scopes := by
  have hsame : Surroundings.InScope (.loop :: around) ↔ around.InScope := by
    simp [Surroundings.InScope, Enclosure.opensScope]
  exact ⟨fun hscope => h.inner (hsame.mp hscope), fun hnot => h.outermost fun hin => hnot (hsame.mpr hin)⟩

theorem reads (h : Tracks around earlier scopes) (hplain : around.initializing? = none) :
    Reads around scopes := by
  intro name
  rw [hplain]
  by_cases hscope : around.InScope
  · obtain ⟨scope, outer, rfl, hlookup⟩ := h.inner hscope
    have hdone : scope.lookup name ≠ some .declared := by
      rw [hlookup]
      split <;> simp
    simpa using hdone
  · rw [h.outermost hscope]
    simp

/-- Behind the declaration of a variable, the site is in the initializer of it. -/
theorem reads_initializer (h : Tracks around earlier scopes) (x : Ident) :
    Reads (.initializer x :: around) (Scope.enter x.name .declared scopes) := by
  intro name
  by_cases hscope : around.InScope
  · obtain ⟨scope, outer, rfl, hlookup⟩ := h.inner hscope
    have hfound : ((x.name, Scope.Status.declared) :: scope).lookup name = some .declared ↔
        x.name = name := by
      rw [List.lookup_cons, hlookup]
      by_cases hname : name = x.name
      · simp [hname]
      · simp only [beq_eq_false_iff_ne.mpr hname]
        split <;> simp [Ne.symm hname]
    simpa [Scope.enter, Surroundings.initializing?, hscope] using hfound
  · rw [h.outermost hscope]
    simp [Scope.enter, Surroundings.initializing?, hscope]

end Tracks

/-! ### Steps of the walk -/

section Steps

variable {around : Surroundings} {earlier : List String} {s : State} {scopes : List Scope}

theorem scopes_bind (name : String) (status : Scope.Status) (h : s.scopes = scopes) :
    (match s.scopes with
      | [] => s
      | scope :: outer => { s with scopes := ((name, status) :: scope) :: outer }).scopes =
      Scope.enter name status scopes := by
  subst h
  cases hs : s.scopes <;> simp [hs, Scope.enter]

theorem pushed (h : s.scopes = scopes) :
    State.scopes { s with scopes := [] :: s.scopes } = [] :: scopes :=
  congrArg ([] :: ·) h

theorem declare_checks (h : Tracks around earlier scopes) (x : Ident) (hs : s.scopes = scopes) :
    Checks (declare x) s (Scope.enter x.name .declared scopes) [⟨around, earlier, .declaration x⟩] := by
  refine Ends.get_bind ?_
  rw [hs]
  by_cases hscope : around.InScope
  · obtain ⟨scope, outer, rfl, hlookup⟩ := h.inner hscope
    dsimp only
    rw [hlookup]
    by_cases hname : x.name ∈ earlier
    · simp only [hname, if_true, Option.isSome_some]
      refine Checks.fail (v := ⟨.redeclared x.name, x.position⟩) ?_
      simp [Site.check, broken, hscope, hname]
    · simp only [hname, if_false, Option.isSome_none, Bool.false_eq_true]
      refine Checks.pass ?_ (.silent (scopes_bind x.name .declared hs))
      simp [Site.check, broken, hname]
  · have hglobal := h.outermost hscope
    subst hglobal
    refine Checks.pass ?_ (.pure hs)
    simp [Site.check, broken, hscope]

/-- A declaration that is done at once. -/
theorem declared_checks (h : Tracks around earlier scopes) (x : Ident) (hs : s.scopes = scopes)
    {f : Unit → Resolver Unit} {after : List Scope} {sites : List Site}
    (hf : ∀ s', s'.scopes = Scope.declare x.name scopes → Checks (f ()) s' after sites) :
    Checks (declare x >>= fun _ => define x >>= f) s after
      (⟨around, earlier, .declaration x⟩ :: sites) :=
  (declare_checks h x hs).bind fun _ hs' => .before (hf _ (scopes_bind x.name .defined hs'))

theorem read_checks (h : Reads around scopes) (r : Reference) (hs : s.scopes = scopes) :
    Checks (read r) s scopes [⟨around, earlier, .expression (.read r)⟩] := by
  refine Ends.get_bind ?_
  rw [hs]
  exact Checks.rule (v := ⟨.readInOwnInitializer, r.ident.position⟩) (h _) rfl fun _ => .silent hs

theorem parameters_check (names : List Ident) {earlier : List String} {s : State} {scopes : List Scope}
    (h : Tracks around earlier scopes) (hs : s.scopes = scopes) :
    Checks (parameters names) s (declareAll names scopes) (Site.declarations around earlier names) := by
  induction names generalizing earlier s scopes with
  | nil => exact .pure hs
  | cons x rest ih => exact declared_checks h x hs fun _ hs' => ih (h.declare x) hs'

/-- A break or a continue. -/
theorem leaving_checks (around : Surroundings) {keyword : String} {position : Position} {site : Site}
    (hsite : site.check = broken (¬around.InLoop) ⟨.outsideLoop keyword, position⟩)
    (hs : s.scopes = scopes) :
    Checks (if around.context.inLoop then return else failAt position (.outsideLoop keyword)) s scopes
      [site] := by
  by_cases hloop : around.InLoop
  · have hcontext : around.context.inLoop = true := decide_eq_true hloop
    rw [if_pos hcontext]
    exact .pass (by rw [hsite, broken, if_neg (not_not_intro hloop)]) (.pure hs)
  · have hcontext : ¬around.context.inLoop = true := by simpa [Surroundings.context] using hloop
    rw [if_neg hcontext]
    exact Checks.fail (v := ⟨.outsideLoop keyword, position⟩) (by rw [hsite, broken, if_pos hloop]; rfl)

end Steps

/-! ### Expressions and statements -/

mutual

theorem expression_checks (around : Surroundings) (earlier : List String) : ∀ (e : Expr) {s : State}
    {scopes : List Scope}, Reads around scopes → s.scopes = scopes →
      Checks (expression around.context e) s scopes (e.sites around earlier)
  | .constant _, _, _, _, hs => .pass rfl (.pure hs)
  | .grouping inner, _, _, h, hs => .pass rfl (expression_checks around earlier inner h hs)
  | .unary _ _ operand, _, _, h, hs => .pass rfl (expression_checks around earlier operand h hs)
  | .binary left _ _ right, _, _, h, hs =>
    .pass rfl (((expression_checks around earlier left h hs).bind fun _ hs' =>
      expression_checks around earlier right h hs').conform rfl List.map_append.symm)
  | .logical left _ right, _, _, h, hs =>
    .pass rfl (((expression_checks around earlier left h hs).bind fun _ hs' =>
      expression_checks around earlier right h hs').conform rfl List.map_append.symm)
  | .read r, _, _, h, hs => read_checks h r hs
  | .assign _ value, _, _, h, hs =>
    .pass rfl ((expression_checks around earlier value h hs).ending fun _ hs' => hs')
  | .call callee _ arguments, _, _, h, hs =>
    .pass rfl (((expression_checks around earlier callee h hs).bind fun _ hs' =>
      expressions_check around earlier arguments h hs').conform rfl List.map_append.symm)
  | .get object _, _, _, h, hs => .pass rfl (expression_checks around earlier object h hs)
  | .set object _ value, _, _, h, hs =>
    .pass rfl (((expression_checks around earlier value h hs).bind fun _ hs' =>
      expression_checks around earlier object h hs').conform rfl List.map_append.symm)
  | .this id position, s, scopes, _, hs => by
    unfold expression
    exact Checks.rule (v := ⟨.thisOutsideClass, position⟩) around.context_outside rfl
      fun _ => .silent hs
  | .super id position method, s, scopes, _, hs => by
    unfold expression
    cases hcls : around.cls? with
    | none =>
      have hcontext : around.context.cls = .outside := by simp [Surroundings.context, hcls]
      rw [hcontext]
      refine Checks.fail (v := ⟨.superOutsideClass, position⟩) ?_
      simp [Site.check, broken, hcls]
    | some superclass =>
      cases superclass with
      | none =>
        have hcontext : around.context.cls = .root := by simp [Surroundings.context, hcls]
        rw [hcontext]
        refine Checks.fail (v := ⟨.superWithoutSuperclass, position⟩) ?_
        simp [Site.check, broken, hcls]
      | some _ =>
        have hcontext : around.context.cls = .derived := by simp [Surroundings.context, hcls]
        rw [hcontext]
        refine Checks.pass ?_ (.silent hs)
        simp [Site.check, broken, hcls]

theorem expressions_check (around : Surroundings) (earlier : List String) : ∀ (es : List Expr) {s : State}
    {scopes : List Scope}, Reads around scopes → s.scopes = scopes →
      Checks (expressions around.context es) s scopes
        ((Expr.allParts es).map fun part => ⟨around, earlier, .expression part⟩)
  | [], _, _, _, hs => .pure hs
  | e :: rest, _, _, h, hs =>
    ((expression_checks around earlier e h hs).bind fun _ hs' =>
      expressions_check around earlier rest h hs').conform rfl List.map_append.symm

end

mutual

theorem statement_checks : ∀ (around : Surroundings) (earlier : List String) (stmt : Stmt) {s : State}
    {scopes : List Scope}, around.initializing? = none → Tracks around earlier scopes →
      s.scopes = scopes → Checks (statement around.context stmt) s (declareAll stmt.declares scopes)
        (stmt.sites around earlier)
  | around, earlier, .expression e, _, _, hplain, h, hs =>
    .pass rfl (expression_checks around earlier e (h.reads hplain) hs)
  | around, earlier, .print e, _, _, hplain, h, hs =>
    .pass rfl (expression_checks around earlier e (h.reads hplain) hs)
  | around, earlier, .var name none, _, _, _, h, hs =>
    .pass rfl ((declare_checks h name hs).ending fun _ => scopes_bind name.name .defined)
  | around, earlier, .var name (some e), _, scopes, _, h, hs => by
    refine .pass rfl ((declare_checks h name hs).bind fun _ hs' => ?_)
    have hvalue := expression_checks (.initializer name :: around) (earlier ++ [name.name]) e
      (h.reads_initializer name) hs'
    rw [Surroundings.context_cons] at hvalue
    exact hvalue.ending fun _ => scopes_bind name.name .defined
  | around, earlier, .block body, s, scopes, _, h, hs => by
    refine .pass rfl (.before ?_)
    have hbody := statements_check (.block :: around) [] body (s := { s with scopes := [] :: s.scopes })
      rfl (.push ⟨.block, List.mem_cons_self, rfl⟩ scopes) (congrArg ([] :: ·) hs)
    rw [Surroundings.context_cons] at hbody
    refine hbody.ending fun s' hs' => ?_
    rw [hs', tail_declareAll]
    rfl
  | around, earlier, .ifThen condition thenBranch, _, _, hplain, h, hs =>
    .pass rfl ((expression_checks around earlier condition (h.reads hplain) hs).bind fun _ hs' =>
      statement_checks around earlier thenBranch hplain h hs')
  | around, earlier, .ifElse condition thenBranch elseBranch, _, _, hplain, h, hs =>
    .pass rfl ((expression_checks around earlier condition (h.reads hplain) hs).bind fun _ hs' =>
      ((statement_checks around earlier thenBranch hplain h hs').bind fun _ hs'' =>
        statement_checks around _ elseBranch hplain (h.declareAll _) hs'').conform
        (declareAll_append _ _ _).symm rfl)
  | around, earlier, .loop condition body none, _, _, hplain, h, hs => by
    have hbody := fun {s : State} => statement_checks (.loop :: around) earlier body (s := s) rfl h.loop
    rw [Surroundings.context_cons] at hbody
    exact .pass rfl ((expression_checks around earlier condition (h.reads hplain) hs).bind
      fun _ hs' => hbody hs')
  | around, earlier, .loop condition body (some increment), _, _, hplain, h, hs => by
    have hbody := fun {s : State} => statement_checks (.loop :: around) earlier body (s := s) rfl h.loop
    rw [Surroundings.context_cons] at hbody
    exact .pass rfl ((expression_checks around earlier condition (h.reads hplain) hs).bind
      fun _ hs' => (hbody hs').bind fun _ hs'' =>
        expression_checks around _ increment ((h.declareAll _).reads hplain) hs'')
  | around, _, .breakLoop _, _, _, _, _, hs => by
    unfold statement
    exact leaving_checks around rfl hs
  | around, _, .continueLoop _, _, _, _, _, hs => by
    unfold statement
    exact leaving_checks around rfl hs
  | around, earlier, .function d, _, scopes, _, h, hs =>
    .pass rfl (declared_checks h d.name hs fun _ hs' =>
      function_checks (.function :: around) around.context .function d
        ⟨.function, List.mem_cons_self, rfl⟩ rfl (around.context_cons .function) hs')
  | around, earlier, .returnValue position none, _, _, _, _, hs => by
    unfold statement
    refine Checks.rule (v := ⟨.returnAtTopLevel, position⟩) around.context_topLevel ?_ fun _ => .pure hs
    simp [Site.check, broken]
  | around, earlier, .returnValue position (some e), _, _, hplain, h, hs => by
    have hvalue := expression_checks around earlier e (h.reads hplain) hs
    have htop := around.context_topLevel
    have hmethod := around.context_initializing
    unfold statement
    by_cases hfunction : around.context.function = .topLevel
    · rw [if_pos hfunction]
      refine Checks.stop (v := ⟨.returnAtTopLevel, position⟩) ?_
      simp [Site.check, broken, htop.mp hfunction]
    · rw [if_neg hfunction]
      dsimp only
      by_cases hinitializer : around.context.function = .initializer
      · rw [if_pos hinitializer]
        refine Checks.stop (v := ⟨.returnFromInitializer, position⟩) ?_
        simp [Site.check, broken, mt htop.mpr hfunction, hmethod.mp hinitializer]
      · rw [if_neg hinitializer]
        refine .pass ?_ hvalue
        simp [Site.check, broken, mt htop.mpr hfunction, mt hmethod.mpr hinitializer]
  | around, earlier, .classDecl name none methods, _, scopes, _, h, hs => by
    refine .pass rfl (declared_checks h name hs fun s' hs' => .before (.before ?_))
    have hmethods := functions_check (.cls none :: around) methods
      (scopes_bind thisName .defined (pushed hs'))
    rw [Surroundings.context_cons] at hmethods
    exact hmethods.ending fun s'' hs'' => by rw [hs'']; rfl
  | around, earlier, .classDecl name (some superclass) methods, _, scopes, hplain, h, hs => by
    refine .pass rfl (declared_checks h name hs fun s' hs' => ?_)
    refine Checks.rule (v := ⟨.inheritsFromItself, superclass.ident.position⟩) Iff.rfl rfl fun _ => ?_
    have hread : Checks (read superclass) s' _
        [⟨around, earlier ++ [name.name], .expression (.read superclass)⟩] :=
      read_checks ((h.declare name).reads hplain) superclass hs'
    refine hread.bind fun s₁ hs₁ => .before (.before (.before (.before ?_)))
    have hmethods := functions_check (.cls (some superclass) :: around) methods
      (scopes_bind thisName .defined (pushed (scopes_bind superName .defined (pushed hs₁))))
    rw [Surroundings.context_cons] at hmethods
    refine (hmethods.bind (f := fun _ => popScope >>= fun _ => popScope) fun s₂ hs₂ =>
      .before (.silent ?_)).conform rfl (List.append_nil _)
    rw [hs₂]
    rfl
termination_by structural _ _ stmt => stmt

theorem function_checks : ∀ (around : Surroundings) (c : Context) (kind : FunctionContext)
    (d : FunctionDecl) {s : State} {scopes : List Scope}, around.InScope → around.initializing? = none →
      around.context = { c with function := kind, inLoop := false } → s.scopes = scopes →
        Checks (function c kind d) s scopes (d.sites around)
  | around, c, kind, ⟨_, _, names, body⟩, s, scopes, hscope, hplain, hcontext, hs => by
    have htracks := Tracks.push hscope scopes
    have hpushed : ([] :: s.scopes) = [] :: scopes := congrArg ([] :: ·) hs
    refine .before ?_
    have hnames := parameters_check names (s := { s with scopes := [] :: s.scopes }) htracks hpushed
    have hbody := fun {s' : State} => statements_check around (names.map Ident.name) body (s := s') hplain
      (htracks.declareAll names)
    rw [hcontext] at hbody
    refine ((hnames.bind fun s' hs' => (hbody hs').ending fun s'' hs'' => ?_).conform rfl rfl)
    rw [hs'', tail_declareAll, tail_declareAll]
    rfl
termination_by structural _ _ _ d => d

theorem statements_check : ∀ (around : Surroundings) (earlier : List String) (body : List Stmt) {s : State}
    {scopes : List Scope}, around.initializing? = none → Tracks around earlier scopes →
      s.scopes = scopes → Checks (statements around.context body) s
        (declareAll (body.flatMap Stmt.declares) scopes) (Stmt.allSites around earlier body)
  | _, _, [], _, _, _, _, hs => .pure hs
  | around, earlier, stmt :: rest, _, _, hplain, h, hs =>
    ((statement_checks around earlier stmt hplain h hs).bind fun _ hs' =>
      statements_check around _ rest hplain (h.declareAll _) hs').conform
      (declareAll_append _ _ _).symm rfl
termination_by structural _ _ body => body

theorem functions_check : ∀ (around : Surroundings) (methods : List FunctionDecl) {s : State}
    {scopes : List Scope}, s.scopes = scopes →
      Checks (functions around.context methods) s scopes (FunctionDecl.allSites around methods)
  | _, [], _, _, hs => .pure hs
  | around, m :: rest, _, _, hs =>
    (function_checks (.method m.name :: around) around.context (methodKind m.name) m
      ⟨.method m.name, List.mem_cons_self, rfl⟩ rfl (around.context_cons (.method m.name)) hs).bind
      fun _ => functions_check around rest
termination_by structural _ methods => methods

end

end Resolver

/-! ### Programs -/

/-- The resolver reports the first violation of a program. -/
theorem resolve_fault (program : List Stmt) :
    (resolve program).fault =
      (violations (Stmt.allSites [] [] program)).head?.map Violation.diagnostic := by
  have htracks : Resolver.Tracks [] [] [] := ⟨fun ⟨e, he, _⟩ => absurd he List.not_mem_nil, fun _ => rfl⟩
  have h := Resolver.statements_check [] [] program (s := ⟨[], #[]⟩) rfl htracks rfl
  unfold Resolver.Checks Ends EStateM.run at h
  rw [Surroundings.context_nil] at h
  unfold resolve
  cases hrun : Resolver.statements Resolver.topLevel program ⟨[], #[]⟩ with
  | ok _ s =>
    rw [hrun] at h
    rw [h.1]
    rfl
  | error d s =>
    rw [hrun] at h
    obtain ⟨v, hv, rfl⟩ := h
    rw [hv]
    rfl

theorem breaks_iff {program : List Stmt} {v : Violation} :
    Breaks program v ↔ v ∈ violations (Stmt.allSites [] [] program) :=
  mem_violations.symm

theorem breaks_of_fault {program : List Stmt} {d : Diagnostic} (h : (resolve program).fault = some d) :
    ∃ v, Breaks program v ∧ d = v.diagnostic := by
  rw [resolve_fault, Option.map_eq_some_iff] at h
  obtain ⟨v, hv, rfl⟩ := h
  exact ⟨v, breaks_iff.mpr (List.mem_of_head? hv), rfl⟩

theorem fault_of_breaks {program : List Stmt} {v : Violation} (h : Breaks program v) :
    (resolve program).fault.isSome := by
  rw [resolve_fault, Option.isSome_map, List.isSome_head?]
  exact List.ne_nil_of_mem (breaks_iff.mp h)

/-- Before a program without other faults is executed, a run reports just what the resolver does. -/
theorem Session.reports_fault (s : Session) (steps : Nat) {ts : List Token}
    (hparse : (parse ts s.nextId).faults = []) :
    (s.runScanned steps [] ts).1.diagnostics.filter (fun d => !d.fault.isRuntime) =
      (resolve (parse ts s.nextId).statements).fault.toList := by
  have hfaults : [] ++ (parse ts s.nextId).faults = [] := hparse
  cases hfault : (resolve (parse ts s.nextId).statements).fault with
  | none =>
    have hrun : s.runScanned steps [] ts = _ := runScanned_of_none rfl hfaults hfault
    rw [hrun]
    have hnone := execute_hadError steps (parse ts s.nextId).statements
      (s.recorded (parse ts s.nextId).nextId (resolve (parse ts s.nextId).statements).lookups)
    refine List.filter_eq_nil_iff.mpr fun d hd hstatic => ?_
    exact Bool.false_ne_true (hnone.symm.trans (List.any_eq_true.mpr ⟨d, hd, hstatic⟩))
  | some d =>
    have hrun : s.runScanned steps [] ts = _ := runScanned_of_fault rfl hfaults hfault
    obtain ⟨v, _, rfl⟩ := breaks_of_fault hfault
    rw [hrun]
    rfl

/-- The resolver reports a fault just if a static rule is broken somewhere in the program: the report names
a rule that is broken and the place where it is. A run of the program reports this one fault and, before the
program begins, no other. -/
theorem static_rules_enforced (program : List Stmt) :
    ((resolve program).fault.isSome ↔ ∃ v, Breaks program v) ∧
      (∀ d, (resolve program).fault = some d → ∃ v, Breaks program v ∧ d = v.diagnostic) ∧
      ∀ (s : Session) (steps : Nat) (ts : List Token), (parse ts s.nextId).faults = [] →
        (parse ts s.nextId).statements = program →
          (s.runScanned steps [] ts).1.diagnostics.filter (fun d => !d.fault.isRuntime) =
            (resolve program).fault.toList := by
  refine ⟨⟨fun h => ?_, fun ⟨v, hv⟩ => fault_of_breaks hv⟩, fun d h => breaks_of_fault h, ?_⟩
  · obtain ⟨d, hd⟩ := Option.isSome_iff_exists.mp h
    obtain ⟨v, hv, _⟩ := breaks_of_fault hd
    exact ⟨v, hv⟩
  · rintro s steps ts hparse rfl
    exact s.reports_fault steps hparse

/-- A loop around a function, which has a break that the loop is not there for. -/
def breakInFunction : String :=
  "class A \x7b m() \x7b while (true) \x7b fun f() \x7b break; \x7d \x7d \x7d \x7d"

theorem static_rules_enforced_in_function :
    let s := Session.new default none [] default
    let p := parse (tokens breakInFunction) s.nextId
    p.faults = [] ∧ (resolve p.statements).fault.isSome ∧
      (s.runScanned 9 [] (tokens breakInFunction)).1.diagnostics.filter (fun d => !d.fault.isRuntime) =
        (resolve p.statements).fault.toList := by
  intro s p
  have hparse : p.faults = [] := by decide +kernel
  have hrules := static_rules_enforced p.statements
  have hbroken : (resolve p.statements).fault.isSome := by decide +kernel
  exact ⟨hparse, hbroken, hrules.2.2 s 9 _ hparse rfl⟩

end LoxLang

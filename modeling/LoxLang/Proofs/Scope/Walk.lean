import LoxLang.Proofs.Scope.SurveyedSession

/-!
Lookup by distance against lookup by walking. The walk outwards from the current scope stops at the first
frame that binds the name. Frames bind what their scopes allow, so in a program in time none of those that
it passes is ahead of the text: it stops at the scope that the resolver has found.
-/

namespace LoxLang

open Resolver (hopsTo?)

/-! ### The walk over a display -/

namespace Display

variable {h : Heap} {d : Display} {nest : List Opening} {x : String} {n : Nat}

theorem declared_of_allowed
    (hallowed : List.Forall₂ (fun (layer : Layer) (o : Opening) =>
      (h.ownValue? layer.frame x).isSome → o.Allows x) d nest)
    (hclear : List.Forall₂ (fun (o : Opening) (scope : Scope) => o.Allows x → (scope.lookup x).isSome) nest
      d.scopes) :
    ∀ layer ∈ d, (h.ownValue? layer.frame x).isSome → (layer.scope.lookup x).isSome := by
  induction hallowed with
  | nil => simp
  | cons hlayer _ ih =>
    cases hclear with
    | cons hscope hclear => exact List.forall_mem_cons.mpr ⟨fun hx => hscope (hlayer hx), ih hclear⟩

/-- If no scope outside the running function is ahead of the text, a frame binds the name only if it is
declared in its scope. -/
theorem declared_of_bound (hbound : ∀ layer ∈ d.head?, (h.ownValue? layer.frame x).isSome →
      (layer.scope.lookup x).isSome)
    (hallowed : List.Forall₂ (fun (layer : Layer) (o : Opening) =>
      (h.ownValue? layer.frame x).isSome → o.Allows x) d nest)
    (hsnug : d.Snug h nest) (hclear : Clear x nest d.scopes) :
    ∀ layer ∈ d, (h.ownValue? layer.frame x).isSome → (layer.scope.lookup x).isSome := by
  induction hallowed with
  | nil => simp
  | @cons layer o outer nest _ hrest ih =>
    refine List.forall_mem_cons.mpr ⟨hbound layer rfl, ?_⟩
    unfold Clear at hclear
    split at hclear
    case isTrue => exact declared_of_allowed hrest hclear
    case isFalse hother =>
      obtain ⟨hhead, htail⟩ := hsnug (by simpa using hother)
      exact ih (fun l hl hx => by rw [hhead l hl x hx]; rfl) htail hclear

/-- A name that is declared in one of the scopes is found in the nearest such scope. -/
theorem ownerWithin?_nearest (hd : d.Chained h)
    (holder : ∀ f g, h.parent? f = some g → g.index < f.index)
    (hdeclared : ∀ layer ∈ d, (h.ownValue? layer.frame x).isSome → (layer.scope.lookup x).isSome)
    {k : Nat} (hk : hopsTo? x d.scopes = some k) (hx : (h.getAt? d.frame k x).isSome)
    (hn : d.frame.index < n) : h.ownerWithin? x n d.frame = h.ancestor? d.frame k := by
  induction d generalizing k n with
  | nil => cases hk
  | cons layer outer ih =>
    obtain ⟨hlayer, houter⟩ := List.forall_mem_cons.mp hdeclared
    obtain ⟨m, rfl⟩ : ∃ m, n = m + 1 := ⟨n - 1, by omega⟩
    have hparent : h.parent? layer.frame = some (frame outer) := hd.1
    rw [scopes_cons, hopsTo?] at hk
    rw [frame, Heap.ownerWithin?]
    cases hlookup : (layer.scope.lookup x).isSome with
    | true =>
      obtain rfl : 0 = k := by simpa [hlookup] using hk
      rw [if_pos (show (h.ownValue? layer.frame x).isSome from hx)]
      rfl
    | false =>
      rw [hlookup] at hk
      obtain ⟨j, hj, rfl⟩ := Option.map_eq_some_iff.mp hk
      have hnot : ¬(h.ownValue? layer.frame x).isSome := fun hown => by
        rw [hlayer hown] at hlookup
        cases hlookup
      have hx : (h.getAt? (frame outer) j x).isSome := by
        rw [frame, Heap.getAt?, Heap.ancestor?, hparent] at hx
        exact hx
      have hm : (frame outer).index < m := by
        have : (frame outer).index < layer.frame.index := holder _ _ hparent
        have : layer.frame.index < m + 1 := hn
        omega
      rw [if_neg hnot, hparent, Heap.ancestor?, hparent]
      exact ih hd.2 houter hj hx hm

/-- A name that is declared in none of the scopes is looked for among the globals. -/
theorem ownerWithin?_global (hd : d.Chained h)
    (holder : ∀ f g, h.parent? f = some g → g.index < f.index)
    (hdeclared : ∀ layer ∈ d, (h.ownValue? layer.frame x).isSome → (layer.scope.lookup x).isSome)
    (hnone : hopsTo? x d.scopes = none) (hn : d.frame.index < n) :
    h.ownerWithin? x n d.frame =
      if (h.ownValue? .globals x).isSome then some .globals else none := by
  induction d generalizing n with
  | nil =>
    obtain ⟨m, rfl⟩ : ∃ m, n = m + 1 := ⟨n - 1, by omega⟩
    have hroot : h.parent? .globals = none := by
      cases hg : h.parent? .globals with
      | none => rfl
      | some g => exact absurd (holder _ _ hg) (Nat.not_lt_zero _)
    rw [frame, Heap.ownerWithin?, hroot]
    rfl
  | cons layer outer ih =>
    obtain ⟨hlayer, houter⟩ := List.forall_mem_cons.mp hdeclared
    obtain ⟨m, rfl⟩ : ∃ m, n = m + 1 := ⟨n - 1, by omega⟩
    have hparent : h.parent? layer.frame = some (frame outer) := hd.1
    rw [scopes_cons, hopsTo?] at hnone
    cases hlookup : (layer.scope.lookup x).isSome with
    | true => simp [hlookup] at hnone
    | false =>
      rw [hlookup] at hnone
      have hnot : ¬(h.ownValue? layer.frame x).isSome := fun hown => by
        rw [hlayer hown] at hlookup
        cases hlookup
      have hm : (frame outer).index < m := by
        have : (frame outer).index < layer.frame.index := holder _ _ hparent
        have : layer.frame.index < m + 1 := hn
        omega
      rw [frame, Heap.ownerWithin?, if_neg hnot, hparent]
      exact ih hd.2 houter (Option.map_eq_none_iff.mp hnone) hm

end Display

/-! ### Reads -/

/-- The value of a variable, looked for outwards from the current scope. -/
def Exec.readOutwards (reference : Reference) : Exec Value := do
  let m ← get
  match m.heap.get? m.current reference.ident.name with
  | some v => return v
  | none => fail reference.ident.position (.undefinedVariable reference.ident.name)

/-- Where no scope is ahead of the text, the walk finds what the distance leads to. -/
theorem Visit.Stands.lookUp? {known : Spot → Prop} {earlier : List Visit} {nest : List Opening} {v : Visit}
    {r : Reference} (h : v.Stands known earlier nest) (hread : v.mention = .read r)
    (hexact : v.ReadsExactly r) (hclear : Clear r.ident.name nest v.display.scopes) :
    Exec.lookUp? v.machine r = v.machine.heap.get? v.machine.current r.ident.name := by
  obtain ⟨-, hplaced, hresolved, ⟨holder, hstanding, hallowed, hsnug⟩, -, -⟩ := h
  rw [hread] at hresolved
  have hdeclared := Display.declared_of_bound
    (fun layer hl hx => by rw [hstanding.bound layer hl _ hx]; rfl)
    (hallowed.imp fun _ _ h => h r.ident.name) hsnug hclear
  have hresolved : v.machine.hops.find? r.id = hopsTo? r.ident.name v.display.scopes := hresolved
  have hchained := hstanding.chained
  cases hd : v.display with
  | nil =>
    rw [hd] at hplaced hresolved
    unfold Exec.lookUp?
    rw [hresolved, ← hplaced]
    rfl
  | cons layer outer =>
    have hlt : v.display.frame.index < v.machine.heap.frames.size := by
      rw [hd] at hchained ⊢
      exact Heap.lt_of_parent? hchained.1
    have hsize : FrameId.globals.index < v.machine.heap.frames.size := Nat.zero_lt_of_lt hlt
    unfold Exec.lookUp? Heap.get? Heap.owner?
    cases hk : hopsTo? r.ident.name v.display.scopes with
    | some k =>
      rw [hk] at hresolved
      obtain ⟨_, x, _, _, hx, _⟩ := hexact k hresolved
      rw [hresolved, ← hplaced, Display.ownerWithin?_nearest hchained holder hdeclared hk
        (by rw [hplaced, hx]; rfl) hlt]
      rfl
    | none =>
      have hglobal : Display.Chained v.machine.heap [] := trivial
      rw [hresolved, hk, ← hplaced, Display.ownerWithin?_global hchained holder hdeclared hk hlt]
      dsimp only
      rw [← Display.ownerWithin?_global hglobal holder (by simp) rfl hsize]
      rfl

theorem Exec.read_eq_readOutwards {m : Machine} {r : Reference}
    (h : lookUp? m r = m.heap.get? m.current r.ident.name) :
    (Exec.read r).run m = (Exec.readOutwards r).run m := by
  cases hv : m.heap.get? m.current r.ident.name with
  | none =>
    have hl : lookUp? m r = none := h.trans hv
    simp only [Exec.read, Exec.readOutwards, EStateM.run_bind, EStateM.run_get, hl, hv]
  | some v =>
    have hl : lookUp? m r = some v := h.trans hv
    simp only [Exec.read, Exec.readOutwards, EStateM.run_bind, EStateM.run_get, hl, hv]

/-! ### Sessions -/

/-- In a program whose scopes, but for the global one, declare no name that a function in front of the
declaration mentions, every read of a variable gives the same value or the same fault whether it is looked up
at the recorded distance or by walking outwards from the current scope. The program may run anywhere in a
session, and its functions may be called by later programs. -/
theorem reads_agree_with_walk (files : Files) (includeDir : Option String) (input : List InputLine)
    (clock : Clock) (regex : Pattern.Engine) (before after : List Session.Event) (e : Session.Event)
    {x : Session.Executed} {program : List Stmt}
    (hx : ((Session.new files includeDir input clock regex).follow before).2.executed e = some x)
    (hprogram : (parse (tokens x.source)
      ((Session.new files includeDir input clock regex).follow before).2.nextId).statements = program)
    (htime : Stmt.AllInTime program) :
    let events := before ++ e :: after
    let recorded := (RecordedSession.new files includeDir input clock regex).follow events
    (Session.new files includeDir input clock regex).follow events = (recorded.1, recorded.2.session) ∧
      ∀ v ∈ recorded.2.world.visits, ∀ r, v.mention = .read r → Plain r.ident.name →
        r.id ∈ Stmt.allNodes program →
          Exec.lookUp? v.machine r = v.machine.heap.get? v.machine.current r.ident.name ∧
            (Exec.read r).run v.machine = (Exec.readOutwards r).run v.machine := by
  intro events recorded
  refine ⟨RecordedSession.follow_session events (.new files includeDir input clock regex),
    fun v hv r hread hplain hr => ?_⟩
  have hexact := RecordedSession.visits_exact files includeDir input clock regex events v hv
  unfold Visit.Exact at hexact
  rw [hread] at hexact
  have hfirst : ((Session.new files includeDir input clock regex).follow before).2 =
      ((RecordedSession.new files includeDir input clock regex).follow before).2.session :=
    congrArg Prod.snd (RecordedSession.follow_session before (.new files includeDir input clock regex))
  rw [hfirst] at hx hprogram
  subst hprogram
  obtain ⟨-, openings, hsurveyed⟩ := RecordedSession.Surveyed.at_spots hx
    (RecordedSession.new_surveyed files includeDir input clock regex) after
  obtain ⟨later, earlier, hvisits⟩ := List.append_of_mem hv
  obtain ⟨nest, hstands⟩ := Chronicle.stands (hvisits ▸ hsurveyed.visits)
  have hspot := hstands.spot
  rw [hread] at hspot
  have hgiven := (parse_yields (tokens_words x.source) _).2.2.range r.id hr
  have hclear := allSpots_clear htime _ (hspot r.id rfl hgiven.1 hgiven.2) hplain
  have hlook := hstands.lookUp? hread hexact hclear
  exact ⟨hlook, Exec.read_eq_readOutwards hlook⟩

/-- A function in a block reads a variable of the block, and is called where a variable of its own name for
a global one has been declared. -/
def nestedReads : String :=
  "var a = 1; \x7b var b = a; fun f() \x7b return a + b; \x7d \x7b var a = 5; print f() + a; \x7d \x7d"

theorem reads_agree_with_walk_nested :
    ∃ program, (parse (tokens nestedReads) 0).statements = program ∧ Stmt.AllInTime program ∧
      ∃ v ∈ ((RecordedSession.new default none [] default).follow
          ([] ++ .run 30 nestedReads :: [.run 9 "print a;"])).2.world.visits,
        ∃ r, v.mention = .read r ∧ r.id ∈ Stmt.allNodes program ∧
          v.machine.hops.find? r.id = some 1 ∧
            Exec.lookUp? v.machine r = v.machine.heap.get? v.machine.current r.ident.name := by
  obtain ⟨program, hprogram⟩ : ∃ p, (parse (tokens nestedReads) 0).statements = p := ⟨_, rfl⟩
  have htime : Stmt.AllInTime program := by
    rw [← hprogram]
    decide +kernel
  have hvisit : (((RecordedSession.new default none [] default).follow
      ([] ++ .run 30 nestedReads :: [.run 9 "print a;"])).2.world.visits.any fun v => match v.mention with
      | .read r => decide (r.ident.name = "b" ∧ r.id ∈ Stmt.allNodes program ∧
          v.machine.hops.find? r.id = some 1)
      | _ => false) = true := by
    rw [← hprogram]
    decide +kernel
  have hagree := reads_agree_with_walk default none [] default .standard [] [.run 9 "print a;"] (.run 30 nestedReads)
    rfl hprogram htime
  obtain ⟨v, hv, hread⟩ := List.any_eq_true.mp hvisit
  refine ⟨program, hprogram, htime, v, hv, ?_⟩
  cases hr : v.mention with
  | read r =>
    rw [hr] at hread
    have hread := of_decide_eq_true hread
    have hplain : Plain r.ident.name := by
      rw [hread.1]
      exact ⟨by decide, by decide⟩
    exact ⟨r, rfl, hread.2.1, hread.2.2, (hagree.2 v hv r hr hplain hread.2.1).1⟩
  | _ =>
    rw [hr] at hread
    cases hread

end LoxLang

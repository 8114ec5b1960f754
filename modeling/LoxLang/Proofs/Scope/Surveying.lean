import LoxLang.Proofs.Scope.Exactness
import LoxLang.Proofs.Scope.Surveyed

/-!
Lexical evaluation keeps worlds surveyed. The induction is the one that shows it to be safe; beside the
display, which stands for the frames, goes the nest, which says what they were made for.
-/

namespace LoxLang

open Lexical (receiverScope superclassScope parameterScope)

namespace Lexical

open Account (lift inFrame)

/-- Code that stands in a nest is about to run under a display whose frames were made for it. -/
structure Post (openings : List Opening) (nest : List Opening) (d : Display) (w : World) : Prop where
  opened : d.Opened openings nest
  snug : d.Snug w.machine.heap nest

section

variable {α : Type} {a : Atlas} {n : Notes} {d : Display} {nest : List Opening} {w w' : World}
  {names : List String} {known : Spot → Prop} {openings openings' : List Opening}
  {good : α → List Opening → World → Prop}

/-- The scopes outside the innermost one do not notice what the innermost one gains. -/
theorem snug_grows {f : FrameId} {h h' : Heap} (hd : d.Snug h nest) (hchained : d.Chained h)
    (hgrows : Heap.Grows f names h h') (hnames : ∀ layer ∈ d.tail, layer.frame ≠ f ∨ names = []) :
    d.Snug h' nest := by
  induction d generalizing nest with
  | nil => cases nest <;> trivial
  | cons layer outer ih =>
    cases nest with
    | nil => trivial
    | cons o nest =>
      intro ho
      obtain ⟨hhead, htail⟩ := hd ho
      have hrest : ∀ layer ∈ outer.tail, layer.frame ≠ f ∨ names = [] := fun l hl =>
        hnames l (List.mem_of_mem_tail hl)
      refine ⟨fun l hl x hx => hhead l hl x ?_, ih htail hchained.2 hrest⟩
      cases outer with
      | nil => cases hl
      | cons head rest =>
        obtain rfl : head = l := by simpa using hl
        rcases (hgrows.bound head.frame x (Heap.lt_of_parent? hchained.2.1)).mp hx with hx | ⟨hf, hx⟩
        · exact hx
        · rcases hnames head List.mem_cons_self with hne | rfl
          · exact absurd hf hne
          · cases hx

theorem Post.grows (h : Post openings nest d w) (hplace : Place a n d w) (hgrows : w.Grows [] w')
    (hopenings : openings <+: openings') : Post openings' nest d w' :=
  ⟨h.opened.mono hopenings, snug_grows h.snug hplace.standing.chained hgrows.heap fun _ _ => .inr rfl⟩

/-- The frames around a frame are older. -/
theorem chained_older {h : Heap} (holder : ∀ f g, h.parent? f = some g → g.index < f.index)
    {layer : Layer} {outer : Display} (hchained : Display.Chained h (layer :: outer)) :
    ∀ l ∈ outer, l.frame.index < layer.frame.index := by
  induction outer generalizing layer with
  | nil => simp
  | cons head rest ih =>
    have hhead : head.frame.index < layer.frame.index := holder _ _ hchained.1
    intro l hl
    rcases List.mem_cons.mp hl with rfl | hl
    · exact hhead
    · exact Nat.lt_trans (ih hchained.2 l hl) hhead

theorem snug_enter {h : Heap} (name : String) (status : Scope.Status) (hd : d.Snug h nest) :
    (d.enter name status).Snug h nest := by
  cases d with
  | nil => exact hd
  | cons layer outer => cases nest <;> exact hd

theorem opened_enter (name : String) (status : Scope.Status) (hd : d.Opened openings nest) :
    (d.enter name status).Opened openings nest := by
  cases hd with
  | nil => exact .nil
  | cons hhead htail => exact .cons hhead htail

theorem Post.enter (h : Post openings nest d w) (name : String) (status : Scope.Status) :
    Post openings nest (d.enter name status) w :=
  ⟨opened_enter name status h.opened, snug_enter name status h.snug⟩

/-- The scope that code runs in has gained names. -/
theorem Post.gains (h : Post openings nest d w) (hplace : Place a n d w)
    (hw : w.Surveyed known openings) (hgrows : w.Grows names w') (hopenings : openings <+: openings') :
    Post openings' nest d w' := by
  refine ⟨h.opened.mono hopenings, snug_grows h.snug hplace.standing.chained hgrows.heap fun l hl => ?_⟩
  cases d with
  | nil => cases hl
  | cons layer outer =>
    have hlt := chained_older hw.older hplace.standing.chained l hl
    refine .inl fun hl => ?_
    rw [hl, ← hplace.frame] at hlt
    exact Nat.lt_irrefl _ hlt

theorem Post.declare (h : Post openings nest d w) (name : String) :
    Post openings nest (d.declare name) w :=
  (h.enter name .declared).enter name .defined

theorem Post.after (h : Post openings nest d w) (s : Stmt) : Post openings nest (d.after s) w := by
  unfold Display.after
  cases s.declared? with
  | none => exact h
  | some name => exact h.declare name

/-! ### Computations of the machine -/

theorem lift_surveys {x : Exec α} (hx : w.Sound a → w.Surveyed known openings → Ends x w.machine
      (fun v m => ∃ openings', openings <+: openings' ∧ w.Before { w with machine := m } ∧
        ({ w with machine := m } : World).Surveyed known openings' ∧
          good v openings' { w with machine := m })
      (fun _ m => ∃ openings', ({ w with machine := m } : World).Surveyed known openings')) :
    Surveys a known (lift x) w openings good := by
  intro hsound hw
  exact Account.lift_ends (hx hsound hw)

/-- A computation that does not change the machine. -/
theorem lift_still_surveys {x : Exec α} (hx : w.Surveyed known openings → Ends x w.machine
      (fun v m => m = w.machine ∧ good v openings w) (fun _ m => m = w.machine)) :
    Surveys a known (lift x) w openings good := by
  refine lift_surveys fun _ hw => Ends.imp (hx hw) ?_ ?_
  · rintro v _ ⟨rfl, hgood⟩
    exact ⟨openings, List.prefix_refl _, .refl w, hw, hgood⟩
  · rintro e _ rfl
    exact ⟨openings, hw⟩

theorem fail_surveys (position : Position) (fault : RuntimeFault) :
    Surveys a known (lift (Exec.fail position fault : Exec α)) w openings good :=
  lift_still_surveys fun _ => Ends.throw rfl

theorem exhausted_surveys : Surveys a known (lift (Exec.exhausted : Exec α)) w openings good :=
  lift_still_surveys fun _ => Ends.throw rfl

/-- How a computation leaves the machine that makes neither scopes nor classes. -/
structure Stays (known : Spot → Prop) (openings : List Opening) (w : World) (m : Machine) : Prop where
  frames : m.heap.frames = w.machine.heap.frames
  classes : m.heap.classes = w.machine.heap.classes
  holds : m.heap.Holds (SpottedFunction known openings w.captured)
    (SpottedMethod known openings w.captured)

theorem Stays.surveyed {m : Machine} (h : Stays known openings w m) (hw : w.Surveyed known openings) :
    ({ w with machine := m } : World).Surveyed known openings :=
  hw.leaves (Heap.Grows.of_frames h.frames) (congrArg Array.size h.frames) h.holds h.classes (by simp)

theorem lift_stays_surveys {x : Exec α} (hx : w.Surveyed known openings → Ends x w.machine
      (fun v m => Stays known openings w m ∧ w.Before { w with machine := m } ∧
        good v openings { w with machine := m })
      (fun _ m => Stays known openings w m)) :
    Surveys a known (lift x) w openings good := by
  refine lift_surveys fun _ hw => Ends.imp (hx hw) ?_ ?_
  · rintro v m ⟨hstays, hbefore, hgood⟩
    exact ⟨openings, List.prefix_refl _, hbefore, hstays.surveyed hw, hgood⟩
  · rintro e m hstays
    exact ⟨openings, hstays.surveyed hw⟩

/-! ### Operators -/

theorem unary_surveys (op : UnaryOp) (position : Position) (v : Value) :
    Surveys a known (lift (Exec.unary op position v)) w openings
      fun r openings' w' => w'.Spots known openings' r := by
  refine lift_still_surveys fun _ => ?_
  unfold Exec.unary
  split
  · exact Ends.pure ⟨rfl, trivial⟩
  · exact Ends.pure ⟨rfl, trivial⟩
  · exact Ends.throw rfl

theorem binary_surveys (op : BinaryOp) (position : Position) (left right : Value) :
    Surveys a known (lift (Exec.binary op position left right)) w openings
      fun r openings' w' => w'.Spots known openings' r := by
  refine lift_still_surveys fun _ => ?_
  unfold Exec.binary
  split
  · exact Ends.get_bind (Ends.pure ⟨rfl, trivial⟩)
  · exact Ends.get_bind (Ends.pure ⟨rfl, trivial⟩)
  · exact Ends.pure ⟨rfl, trivial⟩
  · exact Ends.pure ⟨rfl, trivial⟩
  · exact Ends.throw rfl
  · exact Ends.pure ⟨rfl, trivial⟩
  · exact Ends.throw rfl

/-! ### Mentions -/

/-- A spot is visited among fitting frames. -/
theorem Post.visit (h : Post openings nest d w) (hplace : Place a n d w)
    (hw : w.Surveyed known openings) {mention : Mention} (hr : n.Mentions d.scopes mention.reference)
    (hknown : known (.mention mention.reference nest d.scopes)) :
    Visit.Stands known w.visits nest ⟨mention, d, w.machine⟩ where
  spot := hknown
  placed := hplace.frame
  resolved := hplace.covers.find? hr
  fitted := ⟨hw.older, hplace.standing, h.opened.imp fun _ o ho x hx => hw.allowed _ o x ho hx, h.snug⟩
  clauses := h.opened.imp fun layer o ho clause hclause => by
    subst hclause
    exact hw.clauses layer.frame clause ho
  classes := hw.classes

theorem visit_surveys {mention : Mention} (hplace : Place a n d w) (hpost : Post openings nest d w)
    (hr : n.Mentions d.scopes mention.reference) (hknown : known (.mention mention.reference nest d.scopes)) :
    Surveys a known (visit mention d) w openings fun _ openings' w' =>
      openings' = openings ∧ w'.machine = w.machine ∧ ⟨mention, d, w.machine⟩ ∈ w'.visits := by
  intro _ hw
  have hbefore : w.Before { w with visits := ⟨mention, d, w.machine⟩ :: w.visits } :=
    ⟨List.subset_cons_self _ _, fun _ _ h => h⟩
  have hvisited : World.Surveyed known openings { w with
      visits := ⟨mention, d, w.machine⟩ :: w.visits } :=
    { hw with
      clauses := fun f clause hf => (hw.clauses f clause hf).mono hbefore.visits
      visits := ⟨⟨nest, hpost.visit hplace hw hr hknown⟩, hw.visits⟩ }
  exact Ends.of_modify ⟨openings, List.prefix_refl _, hbefore, hvisited, rfl, rfl, List.mem_cons_self⟩

theorem lookUp?_spots (hw : w.Surveyed known openings) {r : Reference} {v : Value}
    (hv : Exec.lookUp? w.machine r = some v) : w.Spots known openings v := by
  unfold Exec.lookUp? at hv
  split at hv
  · exact hw.holds.getAt? hv
  · exact hw.holds.get? hv

/-- What a clause was found to be by a visit on record, in the current scope and before any frames have been
made. -/
def Found (w : World) (r : Reference) (v : Value) : Prop :=
  ∃ u ∈ w.visits, u.mention = .read r ∧ u.machine.current = w.machine.current ∧
    u.machine.heap.frames.size = w.machine.heap.frames.size ∧ Exec.lookUp? u.machine r = some v

theorem read_finds {r : Reference} (hexact : Visit.Exact ⟨.read r, d, w.machine⟩)
    (hplace : Place a n d w) (hpost : Post openings nest d w) (hr : n.Mentions d.scopes r)
    (hknown : known (.mention r nest d.scopes)) :
    Surveys a known (read d r) w openings fun v openings' w' =>
      w'.Spots known openings' v ∧ Found w' r v := by
  refine Surveys.bind (visit_safe hexact) (visit_surveys hplace hpost hr hknown)
    fun _ w₁ openings₁ _ _ _ _ hvisit => lift_still_surveys fun hw => Ends.get_bind ?_
  obtain ⟨_, hmachine, hmem⟩ := hvisit
  cases hv : Exec.lookUp? w₁.machine r with
  | none => exact Ends.throw rfl
  | some v =>
    refine Ends.pure ⟨rfl, lookUp?_spots hw hv, _, hmem, rfl, by rw [hmachine], by rw [hmachine], ?_⟩
    rw [← hmachine]
    exact hv

theorem read_surveys {r : Reference} (hexact : Visit.Exact ⟨.read r, d, w.machine⟩)
    (hplace : Place a n d w) (hpost : Post openings nest d w) (hr : n.Mentions d.scopes r)
    (hknown : known (.mention r nest d.scopes)) :
    Surveys a known (read d r) w openings fun v openings' w' => w'.Spots known openings' v :=
  Surveys.imp (read_safe hexact) (read_finds hexact hplace hpost hr hknown) fun _ _ _ _ _ _ h => h.1

theorem assign_surveys {r : Reference} {v : Value} (hplain : Plain r.ident.name)
    (hexact : Visit.Exact ⟨.assign r v, d, w.machine⟩) (hplace : Place a n d w)
    (hpost : Post openings nest d w) (hr : n.Mentions d.scopes r)
    (hknown : known (.mention r nest d.scopes)) (hv : w.Spots known openings v) :
    Surveys a known (assign d r v) w openings fun _ _ _ => True := by
  refine Surveys.bind (visit_safe hexact) (visit_surveys hplace hpost hr hknown)
    fun _ w₁ openings₁ hgrows hprefix _ _ _ => ?_
  have hv := hv.mono hprefix hgrows
  refine lift_surveys fun _ hw => Ends.get_bind ?_
  cases hchanged : Exec.reassign? w₁.machine r v with
  | none => exact Ends.throw ⟨openings₁, hw⟩
  | some heap =>
    obtain ⟨g, hbound, rfl⟩ := Exec.reassign?_define hchanged
    have hgrows : Heap.Grows w₁.machine.current [] w₁.machine.heap
        (w₁.machine.heap.define g r.ident.name v) := .of_redefine hplain hbound
    refine ⟨openings₁, List.prefix_refl _, .of_objects rfl, hw.leaves hgrows ?_ ?_ rfl ?_, trivial⟩
    · simp [Heap.define]
    · exact hw.holds.define g _ hv
    · simp

/-! ### Declarations of variables -/

/-- The opening of the current scope allows the names. -/
def Allowed (nest : List Opening) (names : List String) : Prop :=
  ∀ o ∈ nest.head?, ∀ x ∈ names, o.Allows x

theorem Post.allowed (h : Post openings nest d w) (hplace : Place a n d w)
    (hw : w.Surveyed known openings) (hnames : Allowed nest names) :
    ∀ x ∈ names, ∀ o, openings[w.machine.current.index]? = some o → o.Allows x := by
  intro x hx o ho
  rw [← hplace.frame] at ho
  cases h.opened with
  | nil =>
    obtain rfl := Option.some.inj (hw.globals.symm.trans ho)
    trivial
  | cons hhead _ =>
    obtain rfl := Option.some.inj (hhead.symm.trans ho)
    exact hnames _ rfl x hx

theorem define_surveys {name : String} {v : Value} (hplain : Plain name) (hplace : Place a n d w)
    (hpost : Post openings nest d w) (hname : Allowed nest [name]) (hv : w.Spots known openings v) :
    Surveys a known (lift (Exec.define name v)) w openings fun _ openings' _ => openings' = openings :=
  lift_surveys fun _ hw => ⟨openings, List.prefix_refl _, .of_objects rfl,
    hw.leaves (.of_define hplain) (by simp [Heap.define]) (hw.holds.define _ _ hv) rfl
      (hpost.allowed hplace hw hname), rfl⟩

/-! ### Functions and methods -/

theorem displayOf_surveys (f : Closure) :
    Surveys a known (displayOf f) w openings fun _ openings' _ => openings' = openings :=
  Surveys.get_bind fun _ _ => Surveys.pure rfl

theorem capture_surveys {f : Closure} (hcharts : a.Charts w.machine.heap f.declaration.id f.frame d) :
    Surveys a known (capture f d) w openings fun _ openings' _ => openings' = openings := by
  intro hsound hw
  have hkeeps := hw.keeps (keep_kept hsound.globals hsound.charts hcharts)
  exact Ends.of_modify ⟨openings, List.prefix_refl _, ⟨List.Subset.refl _, fun _ _ h => h⟩, hkeeps, rfl⟩

theorem charts_lt {h : Heap} {id : NodeId} {frame : FrameId} (hcharts : a.Charts h id frame d)
    (hnonempty : 0 < h.frames.size) : frame.index < h.frames.size := by
  obtain rfl := hcharts.frame
  cases d with
  | nil => exact hnonempty
  | cons layer outer => exact Heap.lt_of_parent? hcharts.enclosed.chained.1

theorem Place.lt (h : Place a n d w) (hw : w.Sound a) :
    d.frame.index < w.machine.heap.frames.size := by
  cases d with
  | nil => exact hw.nonempty
  | cons layer outer => exact Heap.lt_of_parent? h.standing.chained.1

theorem opened_push {scope : Scope} {frame : FrameId} {o : Opening} (hw : w.Surveyed known openings)
    (hframe : frame.index = w.machine.heap.frames.size) (hd : d.Opened openings nest) :
    Display.Opened (openings ++ [o]) (⟨frame, scope⟩ :: d) (o :: nest) := by
  refine .cons ?_ (hd.mono (List.prefix_append _ _))
  rw [hframe, ← hw.size]
  exact List.getElem?_concat_length

theorem eq_of_lookup_singleton {x y : String} {v : Value}
    (h : (List.lookup y [(x, v)]).isSome) : y = x := by
  by_contra hne
  simp [List.lookup_cons, beq_false_of_ne hne] at h

theorem bindReceiver_run {m : Closure} (receiver : ObjectId)
    (hd : w.captured.lookup (m.declaration.id, m.frame) = some d) :
    (bindReceiver m receiver).run w = .ok (w.machine.heap.bind m receiver).1 { w with
      machine := { w.machine with heap := (w.machine.heap.bind m receiver).2 }
      captured := ((m.declaration.id, (w.machine.heap.bind m receiver).1.frame),
        ⟨(w.machine.heap.bind m receiver).1.frame, receiverScope⟩ :: d) :: w.captured } := by
  have hd : (w.captured.lookup (m.declaration.id, m.frame)).getD [] = d := by rw [hd]; rfl
  subst hd
  rfl

theorem bindReceiver_surveys {m : Closure} (receiver : ObjectId)
    (hknown : KnownMethod a w.machine.hops w.captured m) (hm : SpottedMethod known openings w.captured m) :
    Surveys a known (bindReceiver m receiver) w openings fun f openings' w' =>
      SpottedFunction known openings' w'.captured f := by
  obtain ⟨outer, nest, houter, hopened, hspots⟩ := hm
  intro hsound hw
  have hsafe := bindReceiver_safe receiver hknown hsound
  unfold Ends at hsafe ⊢
  rw [bindReceiver_run receiver houter] at hsafe ⊢
  obtain ⟨_, hgrows, _⟩ := hsafe
  have hbinding : ∀ b ∈ [(thisName, .object receiver)], w.Spots known openings b.2 := fun b hb => by
    obtain rfl : b = (thisName, .object receiver) := by simpa using hb
    trivial
  have hnew := hw.newFrame .receiver (charts_lt (hsound.charts _ _ _ houter) hsound.nonempty) hbinding
    (fun _ => eq_of_lookup_singleton) (fun _ h => by cases h) fun _ => ⟨receiver, by simp⟩
  exact ⟨_, List.prefix_append _ _, ⟨List.Subset.refl _, fun _ _ h => h⟩, hnew.keeps hgrows.captured,
    _, .receiver :: nest, (lookup_keep _ _ _ _).trans (if_pos rfl), opened_push hw rfl hopened,
    fun _ => rfl, hspots⟩

theorem bindMethod_surveys (cls : ClassId) (name : Ident) (receiver : ObjectId) :
    Surveys a known (bindMethod cls name receiver) w openings fun v openings' w' =>
      w'.Spots known openings' v := by
  refine Surveys.get_bind fun hsound hw => ?_
  cases hm : w.machine.heap.method? cls name.name with
  | none => exact fail_surveys _ _
  | some m =>
    have hknown := hsound.holds.method? hm
    exact Surveys.bind (bindReceiver_safe receiver hknown)
      (bindReceiver_surveys receiver hknown (hw.holds.method? hm)) fun f _ _ _ _ _ _ hf => Surveys.pure hf

theorem superMethod_surveys {id : NodeId} {position : Position} (method : Ident)
    (hexact : Visit.Exact ⟨.super id position, d, w.machine⟩) (hplace : Place a n d w)
    (hpost : Post openings nest d w) (hr : n.Mentions d.scopes (.super id position))
    (hknown : known (.mention (.super id position) nest d.scopes)) :
    Surveys a known (superMethod d id position method) w openings fun v openings' w' =>
      w'.Spots known openings' v := by
  refine Surveys.bind (visit_safe hexact) (visit_surveys hplace hpost hr hknown)
    fun _ w₁ openings₁ _ _ _ _ _ => Surveys.get_bind fun _ hw => ?_
  dsimp only
  cases w₁.machine.hops.find? id with
  | none => exact fail_surveys _ _
  | some hops =>
    dsimp only
    cases w₁.machine.heap.getAt? w₁.machine.current hops superName with
    | none => exact fail_surveys _ _
    | some v =>
      cases v with
      | cls c =>
        dsimp only
        cases Exec.receiver? w₁.machine hops with
        | none => exact fail_surveys _ _
        | some v =>
          cases v with
          | object o => exact bindMethod_surveys c method o
          | _ => exact fail_surveys _ _
      | _ => exact fail_surveys _ _

theorem property_surveys (v : Value) (name : Ident) :
    Surveys a known (property v name) w openings fun v openings' w' => w'.Spots known openings' v := by
  unfold property
  split
  case h_1 id =>
    refine Surveys.get_bind fun _ hw => ?_
    cases ho : w.machine.heap.object? id with
    | none => exact fail_surveys _ _
    | some o =>
      dsimp only
      cases hv : o.fields.lookup name.name with
      | none => exact bindMethod_surveys o.cls name id
      | some v => exact Surveys.pure (hw.holds.field ho hv)
  case h_2 hobject =>
    refine lift_still_surveys fun _ => ?_
    cases v with
    | object id => exact absurd rfl (hobject id)
    | array id =>
      simp only [Exec.property]
      cases ArrayMethod.ofName? name.name with
      | none => exact Ends.throw rfl
      | some m => exact Ends.pure ⟨rfl, trivial⟩
    | _ => exact Ends.throw rfl

/-! ### Native code -/

theorem callNative_surveys (f : Native) {vs : List Value} (hvs : ∀ v ∈ vs, w.Spots known openings v)
    (paren : Position) :
    Surveys a known (lift (Exec.callNative f vs paren)) w openings fun v openings' w' =>
      w'.Spots known openings' v := by
  refine lift_stays_surveys fun hw => ?_
  refine .callNative (((hw.holds.native f hvs).both (Heap.native_arrays f vs w.machine)).imp ?_ ?_)
  · rintro v m ⟨⟨hv, hholds, hframes, _⟩, hheap⟩
    exact ⟨⟨hframes, by rw [hheap], hholds⟩, .of_objects (by rw [hheap]), hv⟩
  · rintro fault m ⟨⟨hholds, hframes, _⟩, hheap⟩
    exact ⟨hframes, by rw [hheap], hholds⟩

theorem callArrayMethod_surveys (id : ArrayId) (method : ArrayMethod) (position : Position)
    {vs : List Value} (hvs : ∀ v ∈ vs, w.Spots known openings v) :
    Surveys a known (lift (Exec.callArrayMethod id method position vs)) w openings
      fun v openings' w' => w'.Spots known openings' v := by
  refine lift_stays_surveys fun hw => ?_
  unfold Ends EStateM.run Exec.callArrayMethod
  cases hresult : method.run w.machine.heap id vs with
  | error fault => exact ⟨rfl, rfl, hw.holds⟩
  | ok result =>
    obtain ⟨v, heap⟩ := result
    obtain ⟨hv, hholds, hframes⟩ := hw.holds.arrayMethod id method hvs hresult
    have hheap := Heap.arrayMethod_arrays hresult
    have hobjects : heap.objects = w.machine.heap.objects := by rw [hheap]
    exact ⟨⟨hframes, by rw [hheap], hholds⟩, .of_objects hobjects, hv⟩

/-! ### Objects -/

theorem newObject_surveys (cls : ClassId) :
    Surveys a known (lift (Exec.updateHeap fun h => h.newObject cls)) w openings fun id _ w' =>
      id.index = w.machine.heap.objects.size ∧ w'.machine.heap.classOf? id = some cls := by
  refine lift_stays_surveys fun hw => ⟨⟨rfl, rfl, hw.holds.newObject cls⟩,
    ⟨List.Subset.refl _, fun id c hc => ?_⟩, rfl, by simp [Heap.classOf?, Heap.object?]⟩
  obtain ⟨o, ho, rfl⟩ := Option.map_eq_some_iff.mp hc
  have hlt : id.index < w.machine.heap.objects.size := (Array.getElem?_eq_some_iff.mp ho).1
  simp only [Heap.classOf?, Heap.object?, Array.getElem?_push, if_neg (Nat.ne_of_lt hlt)]
  exact congrArg (Option.map ObjectRecord.cls) ho

theorem setField_surveys (id : ObjectId) (name : String) {v : Value} (hv : w.Spots known openings v) :
    Surveys a known (lift (modify fun m => { m with heap := m.heap.setField id name v })) w openings
      fun _ _ _ => True := by
  refine lift_stays_surveys fun hw => ⟨⟨rfl, rfl, hw.holds.setField id name hv⟩,
    ⟨List.Subset.refl _, fun other c hc => ?_⟩, trivial⟩
  obtain ⟨o, ho, rfl⟩ := Option.map_eq_some_iff.mp hc
  have ho : w.machine.heap.objects[other.index]? = some o := ho
  simp only [Heap.classOf?, Heap.object?, Heap.setField, Array.getElem?_modify, ho]
  split <;> rfl

theorem print_surveys (v : Value) :
    Surveys a known (lift (modify fun m => m.print (v.text m.heap ++ "\n"))) w openings
      fun _ _ _ => True :=
  lift_stays_surveys fun hw => ⟨⟨rfl, rfl, hw.holds⟩, .of_objects rfl, trivial⟩

/-! ### Scopes -/

theorem steady_parameters (parameters : List Ident) (x : String) :
    (parameterScope parameters).lookup x ≠ some .declared := by
  rw [Display.parameterScope_lookup]
  split <;> simp

theorem allowed_push {o : Opening} (h : ∀ x ∈ names, o.Allows x) : Allowed (o :: nest) names := by
  intro o' ho x hx
  obtain rfl : o = o' := by simpa using ho
  exact h x hx

/-- Behind the beginning of a block, the scope around it has the names whose declarations are done. -/
theorem Post.push_block {body : List Stmt} {w₁ : World} (h : Post openings nest d w)
    (hplace : Place a n d w) (hw : w.Surveyed known openings)
    (hmachine : w₁.machine = { w.machine with
      heap := (w.machine.heap.newFrame (some d.frame) []).2
      current := (w.machine.heap.newFrame (some d.frame) []).1 }) :
    Post (openings ++ [.block body]) (.block body :: nest)
      (⟨(w.machine.heap.newFrame (some d.frame) []).1, []⟩ :: d) w₁ := by
  refine ⟨opened_push hw rfl h.opened, fun _ => ?_⟩
  have hgrows : Heap.Grows w.machine.current [] w.machine.heap w₁.machine.heap := by
    rw [hmachine]
    exact .of_newFrame _ _
  have hstanding := hplace.standing.grows hgrows
  exact ⟨hstanding.bound, snug_grows h.snug hplace.standing.chained hgrows fun _ _ => .inr rfl⟩

/-- Code that runs in a new scope, which was made for an opening. -/
theorem scoped_surveys {body : FrameId → Lexical Completion} {parent : FrameId}
    {bindings : Bindings Value} (o : Opening) (hparent : parent.index < w.machine.heap.frames.size)
    (hbindings : ∀ b ∈ bindings, w.Knows a b.2 ∧ w.Spots known openings b.2)
    (hallowed : ∀ x, (bindings.lookup x).isSome → o.Allows x) (ho : ∀ clause, o ≠ .superclass clause)
    (hr : o ≠ .receiver)
    (hbody : ∀ w₁ : World,
      w₁.machine = { w.machine with
        heap := (w.machine.heap.newFrame (some parent) bindings).2
        current := (w.machine.heap.newFrame (some parent) bindings).1 } →
      w₁.captured = w.captured →
      Surveys a known (body (w.machine.heap.newFrame (some parent) bindings).1) w₁ (openings ++ [o])
        fun c openings' w' => w'.SpotsResult known openings' c) :
    Surveys a known (do
      let frame ← lift (Exec.newFrame parent bindings)
      inFrame frame (body frame)) w openings fun c openings' w' => w'.SpotsResult known openings' c := by
  intro hsound hw
  have hleaves := newFrame_leaves hsound parent fun b hb => (hbindings b hb).1
  have hnew := hw.newFrame o hparent (fun b hb => (hbindings b hb).2) hallowed
    (fun clause h => absurd h (ho clause)) fun h => absurd h hr
  let w₁ : World := { w with machine := { w.machine with
    heap := (w.machine.heap.newFrame (some parent) bindings).2
    current := (w.machine.heap.newFrame (some parent) bindings).1 } }
  have hsound₁ : w₁.Sound a := by
    have := hleaves.sound hsound
    exact ⟨this.nonempty, this.globals, this.holds, this.charts, this.visits⟩
  refine newScope_ends (Ends.imp (hbody w₁ rfl rfl hsound₁ (hnew.enters _)) ?_ ?_)
  · rintro c w' ⟨openings', hprefix, hbefore, hw', hspots⟩
    exact ⟨openings', (List.prefix_append _ _).trans hprefix, ⟨hbefore.visits, hbefore.objects⟩,
      hw'.enters _, hspots⟩
  · rintro e w' ⟨openings', hw'⟩
    exact ⟨openings', hw'.enters _⟩

/-! ### Declarations -/

theorem declareFunction_surveys (hplace : Place a n d w) (hsteady : d.Steady)
    (hpost : Post openings nest d w) {declaration : FunctionDecl}
    (hname : Plain declaration.name.name)
    (hsite : (declaration.id, Scope.declare declaration.name.name d.scopes) ∈ n.sites)
    (haddressed : declaration.Addressed n (Scope.declare declaration.name.name d.scopes))
    (hallowed : Allowed nest [declaration.name.name])
    (hknown : ∀ p ∈ declaration.spots nest (Scope.declare declaration.name.name d.scopes), known p) :
    Surveys a known (declareFunction d declaration) w openings fun _ _ _ => True := by
  intro hsound hw
  let f : Closure := ⟨declaration, w.machine.current, false⟩
  have hgrows : w.Grows [declaration.name.name] { w with
      machine := { w.machine with
        heap := w.machine.heap.define w.machine.current declaration.name.name (.function f) }
      captured := ((declaration.id, w.machine.current), d.declare declaration.name.name) :: w.captured } :=
    (declareFunction_safe hplace hsteady hname hsite haddressed hsound).2.1
  have hkeeps := hw.keeps hgrows.captured
  have hfunction : SpottedFunction known openings (((declaration.id, w.machine.current),
      d.declare declaration.name.name) :: w.captured) f := by
    refine ⟨d.declare declaration.name.name, nest, (lookup_keep _ _ _ _).trans (if_pos rfl),
      (hpost.declare _).opened, (fun h => by cases h), ?_⟩
    rw [Display.scopes_declare]
    exact hknown
  have hleaves := hkeeps.leaves hgrows.heap (by simp [Heap.define]) (hkeeps.holds.define _ _ hfunction) rfl
    (hpost.allowed hplace hw hallowed)
  exact ⟨openings, List.prefix_refl _, ⟨List.Subset.refl _, fun _ _ h => h⟩, hleaves, trivial⟩

theorem captureAll_surveys {methods : List FunctionDecl} (hcovers : a.Covers w.machine.hops n)
    (henclosed : d.Enclosed w.machine.heap)
    (hmethods : FunctionDecl.AllAddressed n d.scopes methods) (hopened : d.Opened openings nest)
    (hknown : ∀ p ∈ FunctionDecl.allSpots nest d.scopes methods, known p) :
    Surveys a known (captureAll d.frame d methods) w openings fun _ openings' w' =>
      ∀ m ∈ methods, ∀ initializer, SpottedMethod known openings' w'.captured
        ⟨m, d.frame, initializer⟩ := by
  induction methods generalizing w openings with
  | nil => exact Surveys.pure (by simp)
  | cons m rest ih =>
    obtain ⟨⟨hsite, haddressed⟩, hrest⟩ := hmethods
    have hcharts : a.Charts w.machine.heap m.id d.frame d :=
      ⟨rfl, henclosed, d.scopes, (hcovers.sites _ hsite).2, .inl rfl⟩
    have hcapture := capture_safe (f := ⟨m, d.frame, decide (m.name.name = initializerName)⟩) hcharts
    refine Surveys.bind hcapture (capture_surveys hcharts) fun _ w₁ openings₁ _ hprefix _ hcapture _ => ?_
    obtain ⟨hmachine, hlookup⟩ := hcapture
    have hcovers₁ : a.Covers w₁.machine.hops n := hmachine ▸ hcovers
    have henclosed₁ : d.Enclosed w₁.machine.heap := hmachine ▸ henclosed
    have hopened₁ := hopened.mono hprefix
    refine Surveys.imp (captureAll_safe hcovers₁ henclosed₁ hrest) (ih hcovers₁ henclosed₁ hrest hopened₁
      fun p hp => hknown p (List.mem_append_right _ hp)) fun _ w₂ openings₂ hgrows hprefix₂ _ h => ?_
    intro m' hm' initializer
    rcases List.mem_cons.mp hm' with rfl | hm'
    · exact ⟨d, nest, hgrows.captured _ _ hlookup, hopened₁.mono hprefix₂,
        fun p hp => hknown p (List.mem_append_left _ hp)⟩
    · exact h m' hm' initializer

theorem newClass_surveys {frame : FrameId} {methods : List FunctionDecl} (name : Ident)
    {clause : Option Reference} {superclass : Option ClassId} (hname : Plain name.name)
    (hclause : superclass.isSome = clause.isSome) (hdeclared : known (.classDecl ⟨name, clause, methods⟩))
    (hplace : Place a n d w)
    (hpost : Post openings nest d w) (hallowed : Allowed nest [name.name])
    (hknown : ∀ m ∈ methods, ∀ initializer, KnownMethod a w.machine.hops w.captured
      ⟨m, frame, initializer⟩)
    (hmethods : ∀ m ∈ methods, ∀ initializer, SpottedMethod known openings w.captured
      ⟨m, frame, initializer⟩) :
    Surveys a known (do
      let cls ← lift (Exec.updateHeap fun h =>
        h.newClass ⟨name.name, superclass, Exec.methodBindings frame methods⟩)
      lift (Exec.define name.name (.cls cls))) w openings fun _ _ _ => True := by
  have hsafe : Safe a (lift (Exec.updateHeap fun h =>
      h.newClass ⟨name.name, superclass, Exec.methodBindings frame methods⟩)) w [] fun _ _ => True :=
    lift_safe fun hw => ⟨⟨.of_frames rfl, rfl, rfl,
      hw.holds.newClass (Exec.methodBindings_each hknown)⟩, trivial⟩
  have hnew : Surveys a known (lift (Exec.updateHeap fun h =>
      h.newClass ⟨name.name, superclass, Exec.methodBindings frame methods⟩)) w openings
      fun _ _ _ => True :=
    lift_surveys fun _ hw => ⟨openings, List.prefix_refl _, .of_objects rfl,
      hw.newClass (Exec.methodBindings_each hmethods) ⟨_, hdeclared, rfl, hclause, frame, rfl⟩, trivial⟩
  refine Surveys.bind hsafe hnew fun cls w₁ openings₁ hgrows hprefix _ _ _ => ?_
  exact Surveys.imp (define_safe (v := .cls cls) hname trivial)
    (define_surveys hname (hplace.grows hgrows) (hpost.grows hplace hgrows hprefix) hallowed trivial)
    fun _ _ _ _ _ _ _ => trivial

/-- The nest around the methods of a class. -/
def classNest (nest : List Opening) : Option Reference → List Opening
  | none => nest
  | some clause => .superclass clause :: nest

/-- The superclass of a class is what its clause has been found to be. -/
def FoundClass (w : World) : Option Reference → Option ClassId → Prop
  | none, none => True
  | some clause, some c => Found w clause (.cls c)
  | _, _ => False

theorem FoundClass.isSome {clause : Option Reference} {superclass : Option ClassId}
    (h : FoundClass w clause superclass) : superclass.isSome = clause.isSome := by
  match clause, superclass, h with
  | none, none, _ => rfl
  | some _, some _, _ => rfl

theorem FoundClass.mono {clause : Option Reference} {superclass : Option ClassId}
    (h : FoundClass w clause superclass) (hvisits : w.visits ⊆ w'.visits)
    (hcurrent : w'.machine.current = w.machine.current)
    (hframes : w'.machine.heap.frames.size = w.machine.heap.frames.size) :
    FoundClass w' clause superclass := by
  match clause, superclass, h with
  | none, none, _ => trivial
  | some r, some c, ⟨v, hv, hread, hin, hsize, hc⟩ =>
    exact ⟨v, hvisits hv, hread, hin.trans hcurrent.symm, hsize.trans hframes.symm, hc⟩

theorem superclassFrame_safe (frame : FrameId) (c : ClassId) :
    Safe a (lift (Exec.newFrame frame [(superName, .cls c)])) w [] fun g w' =>
      g = (w.machine.heap.newFrame (some frame) [(superName, .cls c)]).1 ∧
        w'.machine.heap = (w.machine.heap.newFrame (some frame) [(superName, .cls c)]).2 := by
  refine lift_safe fun hw => ⟨newFrame_leaves hw _ fun b hb => ?_, rfl, rfl⟩
  obtain rfl : b = (superName, .cls c) := by simpa using hb
  trivial

theorem superclassFrame_surveys {clause : Reference} {c : ClassId} (hplace : Place a n d w)
    (hfound : Found w clause (.cls c)) :
    Surveys a known (lift (Exec.newFrame d.frame [(superName, .cls c)])) w openings
      fun _ openings' _ => openings' = openings ++ [.superclass clause] := by
  obtain ⟨v, hv, hread, hcurrent, hframes, hc⟩ := hfound
  refine lift_surveys fun hsound hw => ⟨_, List.prefix_append _ _, .of_objects rfl,
    hw.newFrame (.superclass clause) (hplace.lt hsound) (fun b hb => ?_)
      (fun _ => eq_of_lookup_singleton) (fun r hr => ?_) (fun h => by cases h), rfl⟩
  · obtain rfl : b = (superName, .cls c) := by simpa using hb
    trivial
  · obtain rfl : clause = r := Opening.superclass.inj hr
    have hnew := Heap.frame?_newFrame_self (h := w.machine.heap) (some d.frame) [(superName, .cls c)]
    refine ⟨v, hv, hread, hframes.symm, ?_, c, hc, ?_⟩
    · rw [Heap.parent?, hnew, hcurrent, hplace.frame]
      rfl
    · rw [Heap.ownValue?, hnew]
      simp

theorem declareClass_surveys (hplace : Place a n d w) (hsteady : d.Steady)
    (hpost : Post openings nest d w) {name : Ident} (clause : Option Reference)
    {superclass : Option ClassId} {methods : List FunctionDecl} (hname : Plain name.name)
    (hfound : FoundClass w clause superclass)
    (hmethods : FunctionDecl.AllAddressed n
      (classScopes (Scope.declare name.name d.scopes) superclass) methods)
    (hallowed : Allowed nest [name.name]) (hdeclared : known (.classDecl ⟨name, clause, methods⟩))
    (hknown : ∀ p ∈ FunctionDecl.allSpots (classNest nest clause)
      (classScopes (Scope.declare name.name d.scopes) superclass) methods, known p) :
    Surveys a known (declareClass d name superclass methods) w openings fun _ _ _ => True := by
  intro hsound hw
  refine Surveys.bind (define_safe (v := .nil) hname trivial)
    (define_surveys hname hplace hpost hallowed trivial)
    (fun _ w₁ openings₁ hgrows hprefix hbefore _ hopenings => ?_) hsound hw
  have hplace₁ := hplace.declare hname hgrows
  have hpost₁ := (hpost.gains hplace hw hgrows hprefix).declare name.name
  have henclosed := hplace₁.standing.enclosed (Display.steady_declare hsteady name.name)
  rw [← Display.scopes_declare] at hmethods hknown
  refine Surveys.get_bind fun hsound₁ hw₁ => ?_
  have hfound₁ := hfound.mono hbefore.visits hgrows.current
    (hw₁.size.symm.trans ((congrArg List.length hopenings).trans hw.size))
  rw [← hplace₁.frame]
  match clause, superclass, hfound₁ with
  | none, none, _ =>
    have hframe : Safe a (pure (d.declare name.name).frame) w₁ [] fun frame w =>
        frame = (d.declare name.name).frame ∧ w = w₁ := Safe.pure ⟨rfl, rfl⟩
    have hsame : Surveys a known (pure (d.declare name.name).frame) w₁ openings₁
        fun _ openings' _ => openings' = openings₁ := Surveys.pure rfl
    refine Surveys.bind hframe hsame fun frame w₂ openings₂ _ _ _ hframe hopenings => ?_
    obtain ⟨rfl, rfl⟩ := hframe
    subst hopenings
    refine Surveys.bind (captureAll_safe hplace₁.covers henclosed hmethods)
      (captureAll_surveys hplace₁.covers henclosed hmethods hpost₁.opened hknown)
      fun _ w₃ openings₃ hgrows₃ hprefix₃ _ hsafe hspots => ?_
    exact newClass_surveys name hname hfound.isSome hdeclared (hplace₁.grows hgrows₃)
      (hpost₁.grows hplace₁ hgrows₃ hprefix₃) hallowed hsafe.2 hspots
  | some clause, some c, hfound₁ =>
    refine Surveys.bind (superclassFrame_safe _ c) (superclassFrame_surveys hplace₁ hfound₁)
      fun frame w₂ openings₂ hgrows₂ hprefix₂ _ hframe hopenings => ?_
    obtain ⟨rfl, hheap⟩ := hframe
    subst hopenings
    have hspecial := henclosed.push_special (x := superName) (v := .cls c)
      ⟨fun h => absurd h (by decide), fun _ => ⟨c, rfl⟩⟩
    rw [← hheap] at hspecial
    have hplace₂ := hplace₁.grows hgrows₂
    have hpost₂ := hpost₁.grows hplace₁ hgrows₂ hprefix₂
    refine Surveys.bind (captureAll_safe hplace₂.covers hspecial hmethods)
      (captureAll_surveys hplace₂.covers hspecial hmethods (opened_push hw₁ rfl hpost₁.opened) hknown)
      fun _ w₃ openings₃ hgrows₃ hprefix₃ _ hsafe hspots => ?_
    exact newClass_surveys name hname hfound.isSome hdeclared (hplace₂.grows hgrows₃)
      (hpost₂.grows hplace₂ hgrows₃ hprefix₃) hallowed hsafe.2 hspots

theorem superclassOf_surveys {r : Reference} (hexact : Visit.Exact ⟨.read r, d, w.machine⟩)
    (hplace : Place a n d w) (hpost : Post openings nest d w) (hr : n.Mentions d.scopes r)
    (hknown : known (.mention r nest d.scopes)) :
    Surveys a known (superclassOf d r) w openings fun c _ w' => Found w' r (.cls c) := by
  refine Surveys.bind (read_safe hexact) (read_finds hexact hplace hpost hr hknown)
    fun v _ _ _ _ _ _ hfound => ?_
  cases v with
  | cls id => exact Surveys.pure hfound.2
  | _ => exact fail_surveys _ _

end

/-! ### Evaluation -/

section

theorem addressed_loop {n : Notes} {scopes : List Scope} {condition : Expr} {body : Stmt}
    {increment : Option Expr} (hs : (Stmt.loop condition body increment).Addressed n scopes) :
    condition.Addressed n scopes ∧ body.declared? = none ∧ body.Addressed n scopes ∧
      ∀ e ∈ increment, e.Addressed n scopes := by
  cases increment with
  | none => exact ⟨hs.1, hs.2.1, hs.2.2, by simp⟩
  | some e => exact ⟨hs.1, hs.2.1.1, hs.2.1.2, by simpa using hs.2.2⟩

theorem spots_loop {known : Spot → Prop} {nest : List Opening} {scopes : List Scope} {condition : Expr}
    {body : Stmt} {increment : Option Expr}
    (hknown : ∀ p ∈ (Stmt.loop condition body increment).spots nest scopes, known p) :
    (∀ p ∈ condition.spots nest scopes, known p) ∧ (∀ p ∈ body.spots nest scopes, known p) ∧
      ∀ e ∈ increment, ∀ p ∈ e.spots nest scopes, known p := by
  cases increment with
  | none =>
    exact ⟨fun p hp => hknown p (List.mem_append_left _ hp),
      fun p hp => hknown p (List.mem_append_right _ hp), by simp⟩
  | some e =>
    refine ⟨fun p hp => hknown p (List.mem_append_left _ hp),
      fun p hp => hknown p (List.mem_append_right _ (List.mem_append_left _ hp)), fun e' he' p hp => ?_⟩
    obtain rfl : e = e' := by simpa using he'
    exact hknown p (List.mem_append_right _ (List.mem_append_right _ hp))

theorem allowed_head {nest : List Opening} {s : Stmt} {rest : List Stmt}
    (h : Allowed nest ((s :: rest).filterMap Stmt.declared?)) : Allowed nest s.declared?.toList :=
  fun o ho x hx => h o ho x (by cases hs : s.declared? <;> simp_all)

theorem allowed_tail {nest : List Opening} {s : Stmt} {rest : List Stmt}
    (h : Allowed nest ((s :: rest).filterMap Stmt.declared?)) :
    Allowed nest (rest.filterMap Stmt.declared?) :=
  fun o ho x hx => h o ho x ((List.sublist_cons_self s rest).filterMap _ |>.subset hx)

variable {a : Atlas} {n : Notes} {d : Display} {w : World} {known : Spot → Prop} {nest : List Opening}
  {openings : List Opening}

/-- The body of a function runs in the nest that its declaration stands in. -/
theorem runBody_surveys {f : Closure} {vs : List Value} {run : Display → Lexical Completion}
    (hf : KnownFunction a w.machine.hops w.captured f) (hvs : ∀ v ∈ vs, w.Knows a v)
    (hlength : vs.length = f.declaration.parameters.length)
    (hfspots : SpottedFunction known openings w.captured f) (hvspots : ∀ v ∈ vs, w.Spots known openings v)
    (hrun : ∀ {n d w nest openings}, Place a n d w → d.Steady →
      Stmt.AllAddressed n d.scopes f.declaration.body → Post openings nest d w →
        Allowed nest (f.declaration.body.filterMap Stmt.declared?) →
          (∀ p ∈ Stmt.allSpots nest d.scopes f.declaration.body, known p) →
            Surveys a known (run d) w openings fun c openings' w' => w'.SpotsResult known openings' c) :
    Surveys a known (runBody f vs run) w openings fun c openings' w' =>
      w'.SpotsResult known openings' c := by
  obtain ⟨outer, n, houter, hcovers, haddressed⟩ := hf
  obtain ⟨outer', nest, houter', hopened, -, hspots⟩ := hfspots
  obtain rfl : outer = outer' := Option.some.inj (houter.symm.trans houter')
  intro hsound hw
  have hcharts := hsound.charts _ _ _ houter
  have hlt := charts_lt hcharts hsound.nonempty
  refine Surveys.bind (displayOf_safe houter) (displayOf_surveys f)
    (fun d w₁ openings₁ _ _ _ hd hopenings => ?_) hsound hw
  obtain ⟨rfl, rfl⟩ := hd
  subst hopenings
  obtain ⟨⟨id, name, parameters, body⟩, frame, isInitializer⟩ := f
  obtain ⟨hplain, hbody⟩ := haddressed
  obtain rfl : d.frame = frame := hcharts.frame
  have hstanding := hcharts.enclosed.push_parameters hlength hplain
  refine scoped_surveys (.function ⟨id, name, parameters, body⟩) hlt
    (fun b hb => ⟨Exec.argumentBindings_each parameters hvs b hb,
      Exec.argumentBindings_each parameters hvspots b hb⟩)
    (fun x hx => .inl ((Display.argumentBindings_lookup hlength x).mp hx)) (fun _ h => by cases h)
    (fun h => by cases h) fun w₂ hmachine _ => ?_
  exact hrun (Place.push hcovers hstanding hmachine) (Display.steady_push (steady_parameters parameters) d)
    hbody ⟨opened_push hw rfl hopened, fun h => by cases h⟩ (allowed_push fun _ hx => .inr hx) hspots

mutual

theorem evaluate_surveys : ∀ (fuel : Nat) {n : Notes} {d : Display} {w : World} {nest : List Opening}
    {openings : List Opening} (e : Expr), Place a n d w → e.Addressed n d.scopes →
      Post openings nest d w → (∀ p ∈ e.spots nest d.scopes, known p) →
        Surveys a known (keeper.evaluate fuel d e) w openings fun v openings' w' => w'.Spots known openings' v
  | 0, _, _, _, _, _, _, _, _, _, _ => exhausted_surveys
  | fuel + 1, n, d, w, nest, openings, e, hplace, he, hpost, hknown => by
    cases e with
    | constant value => exact Surveys.pure (Value.Each.ofConstant value)
    | grouping inner => exact evaluate_surveys fuel inner hplace he hpost hknown
    | unary op position operand =>
      exact Surveys.bind (evaluate_safe fuel operand hplace he)
        (evaluate_surveys fuel operand hplace he hpost hknown)
        fun v _ _ _ _ _ _ _ => unary_surveys op position v
    | binary left op position right =>
      refine Surveys.bind (evaluate_safe fuel left hplace he.1)
        (evaluate_surveys fuel left hplace he.1 hpost fun p hp => hknown p (List.mem_append_left _ hp))
        fun x w₁ openings₁ hgrows hprefix _ _ _ => ?_
      have hplace₁ := hplace.grows hgrows
      exact Surveys.bind (evaluate_safe fuel right hplace₁ he.2)
        (evaluate_surveys fuel right hplace₁ he.2 (hpost.grows hplace hgrows hprefix)
          fun p hp => hknown p (List.mem_append_right _ hp))
        fun y _ _ _ _ _ _ _ => binary_surveys op position x y
    | logical left op right =>
      refine Surveys.bind (evaluate_safe fuel left hplace he.1)
        (evaluate_surveys fuel left hplace he.1 hpost fun p hp => hknown p (List.mem_append_left _ hp))
        fun x w₁ openings₁ hgrows hprefix _ _ hx => ?_
      split
      · exact Surveys.pure hx
      · exact evaluate_surveys fuel right (hplace.grows hgrows) he.2 (hpost.grows hplace hgrows hprefix)
          fun p hp => hknown p (List.mem_append_right _ hp)
    | read r =>
      exact read_surveys (hplace.reads he.1 he.2.1 he.2.2) hplace hpost he.2.2
        (hknown _ (List.mem_singleton.mpr rfl))
    | assign r value =>
      refine Surveys.bind (evaluate_safe fuel value hplace he.2.1)
        (evaluate_surveys fuel value hplace he.2.1 hpost fun p hp => hknown p (List.mem_append_left _ hp))
        fun v w₁ openings₁ hgrows hprefix _ hv hspots => ?_
      have hplace₁ := hplace.grows hgrows
      have hexact := hplace₁.assigns (v := v) he.2.2
      refine Surveys.bind (assign_safe he.1 hexact hv)
        (assign_surveys he.1 hexact hplace₁ (hpost.grows hplace hgrows hprefix) he.2.2
          (hknown _ (List.mem_append_right _ (List.mem_singleton.mpr rfl))) hspots)
        fun _ w₂ openings₂ hgrows₂ hprefix₂ _ _ _ => ?_
      exact Surveys.pure (hspots.mono hprefix₂ hgrows₂)
    | call callee paren arguments =>
      refine Surveys.bind (evaluate_safe fuel callee hplace he.1)
        (evaluate_surveys fuel callee hplace he.1 hpost fun p hp => hknown p (List.mem_append_left _ hp))
        fun f w₁ openings₁ hgrows₁ hprefix₁ _ hf hfspots => ?_
      have hplace₁ := hplace.grows hgrows₁
      refine Surveys.bind (evaluateAll_safe fuel arguments hplace₁ he.2)
        (evaluateAll_surveys fuel arguments hplace₁ he.2 (hpost.grows hplace hgrows₁ hprefix₁)
          fun p hp => hknown p (List.mem_append_right _ hp))
        fun vs w₂ openings₂ hgrows₂ hprefix₂ _ hvs hvspots => ?_
      exact call_surveys fuel f vs paren (hgrows₂.knows hf) hvs (hfspots.mono hprefix₂ hgrows₂) hvspots
    | get object name =>
      exact Surveys.bind (evaluate_safe fuel object hplace he)
        (evaluate_surveys fuel object hplace he hpost hknown)
        fun v _ _ _ _ _ _ _ => property_surveys v name
    | set object name value =>
      refine Surveys.bind (evaluate_safe fuel object hplace he.2)
        (evaluate_surveys fuel object hplace he.2 hpost fun p hp => hknown p (List.mem_append_left _ hp))
        fun v w₁ openings₁ hgrows₁ hprefix₁ _ _ _ => ?_
      cases v with
      | object id =>
        have hplace₁ := hplace.grows hgrows₁
        refine Surveys.bind (evaluate_safe fuel value hplace₁ he.1)
          (evaluate_surveys fuel value hplace₁ he.1 (hpost.grows hplace hgrows₁ hprefix₁)
            fun p hp => hknown p (List.mem_append_right _ hp))
          fun v w₂ openings₂ _ _ _ hv hspots => ?_
        exact Surveys.bind (setField_safe id name.name hv) (setField_surveys id name.name hspots)
          fun _ w₃ openings₃ hgrows₃ hprefix₃ _ _ _ => Surveys.pure (hspots.mono hprefix₃ hgrows₃)
      | _ => exact fail_surveys _ _
    | this id position =>
      obtain ⟨hr, k, hk⟩ := he
      exact read_surveys (hplace.reads_receiver hr hk) hplace hpost hr
        (hknown _ (List.mem_singleton.mpr rfl))
    | super id position method =>
      obtain ⟨hr, k, hk, hsuper⟩ := he
      exact superMethod_surveys method (hplace.finds_superclass hr hk hsuper) hplace hpost hr
        (hknown _ (List.mem_singleton.mpr rfl))

theorem evaluateAll_surveys : ∀ (fuel : Nat) {n : Notes} {d : Display} {w : World}
    {nest : List Opening} {openings : List Opening} (es : List Expr), Place a n d w →
      Expr.AllAddressed n d.scopes es → Post openings nest d w →
        (∀ p ∈ Expr.allSpots nest d.scopes es, known p) →
          Surveys a known (keeper.evaluateAll fuel d es) w openings fun vs openings' w' =>
            ∀ v ∈ vs, w'.Spots known openings' v
  | 0, _, _, _, _, _, _, _, _, _, _ => exhausted_surveys
  | _ + 1, _, _, _, _, _, [], _, _, _, _ => Surveys.pure (by simp)
  | fuel + 1, n, d, w, nest, openings, e :: rest, hplace, hes, hpost, hknown => by
    refine Surveys.bind (evaluate_safe fuel e hplace hes.1)
      (evaluate_surveys fuel e hplace hes.1 hpost fun p hp => hknown p (List.mem_append_left _ hp))
      fun v w₁ openings₁ hgrows₁ hprefix₁ _ _ hv => ?_
    have hplace₁ := hplace.grows hgrows₁
    refine Surveys.bind (evaluateAll_safe fuel rest hplace₁ hes.2)
      (evaluateAll_surveys fuel rest hplace₁ hes.2 (hpost.grows hplace hgrows₁ hprefix₁)
        fun p hp => hknown p (List.mem_append_right _ hp))
      fun vs w₂ openings₂ hgrows₂ hprefix₂ _ _ hvs => Surveys.pure fun u hu => ?_
    rcases List.mem_cons.mp hu with rfl | hu
    · exact hv.mono hprefix₂ hgrows₂
    · exact hvs u hu

theorem call_surveys : ∀ (fuel : Nat) {w : World} {openings : List Opening} (f : Value)
    (vs : List Value) (paren : Position), w.Knows a f → (∀ v ∈ vs, w.Knows a v) →
      w.Spots known openings f → (∀ v ∈ vs, w.Spots known openings v) →
        Surveys a known (keeper.call fuel f vs paren) w openings fun v openings' w' =>
          w'.Spots known openings' v
  | 0, _, _, _, _, _, _, _, _, _ => by
    unfold Keeper.call
    exact exhausted_surveys
  | fuel + 1, w, openings, f, vs, paren, hf, hvs, hfspots, hvspots => by
    refine Surveys.get_bind fun _ _ => ?_
    cases harity : Exec.arity? w.machine.heap f with
    | none => exact fail_surveys _ _
    | some arity =>
      dsimp only
      split
      case isTrue => exact fail_surveys _ _
      case isFalse hlength =>
        have hlength : vs.length = arity := Decidable.not_not.mp hlength
        cases f with
        | native f => exact callNative_surveys f hvspots paren
        | function f =>
          have harity : f.declaration.parameters.length = arity := Option.some.inj harity
          exact invoke_surveys fuel f vs hf hvs (hlength.trans harity.symm) hfspots hvspots
        | cls id =>
          refine instantiate_surveys fuel id vs hvs (fun m hm => ?_) hvspots
          rw [Exec.arity?, hm] at harity
          exact hlength.trans (Option.some.inj harity).symm
        | arrayMethod id method position => exact callArrayMethod_surveys id method position hvspots
        | _ => exact fail_surveys _ _

theorem instantiate_surveys : ∀ (fuel : Nat) {w : World} {openings : List Opening} (id : ClassId)
    (vs : List Value), (∀ v ∈ vs, w.Knows a v) →
      (∀ m, w.machine.heap.method? id initializerName = some m →
        vs.length = m.declaration.parameters.length) → (∀ v ∈ vs, w.Spots known openings v) →
        Surveys a known (keeper.instantiate fuel id vs) w openings fun v openings' w' =>
          w'.Spots known openings' v
  | 0, _, _, _, _, _, _, _ => by
    unfold Keeper.instantiate
    exact exhausted_surveys
  | fuel + 1, w, openings, id, vs, hvs, hlength, hvspots => by
    refine Surveys.bind (newObject_safe id) (newObject_surveys id)
      fun object w₁ openings₁ hgrows₁ hprefix₁ _ hclasses _ => Surveys.get_bind fun hsound₁ hw₁ => ?_
    cases hm : w₁.machine.heap.method? id initializerName with
    | none => exact Surveys.pure trivial
    | some m =>
      have hknown := hsound₁.holds.method? hm
      refine Surveys.bind (bindReceiver_safe object hknown)
        (bindReceiver_surveys object hknown (hw₁.holds.method? hm))
        fun f w₂ openings₂ hgrows₂ hprefix₂ _ hf hfspots => ?_
      have hm' : w.machine.heap.method? id initializerName = some m :=
        (Heap.method?_congr hclasses id initializerName).symm.trans hm
      have hlength : vs.length = f.declaration.parameters.length := by
        rw [hf.2]
        exact hlength m hm'
      have hvs₂ : ∀ v ∈ vs, w₂.Knows a v := fun v hv => hgrows₂.knows (hgrows₁.knows (hvs v hv))
      have hvspots₂ : ∀ v ∈ vs, w₂.Spots known openings₂ v := fun v hv =>
        ((hvspots v hv).mono hprefix₁ hgrows₁).mono hprefix₂ hgrows₂
      exact Surveys.bind (invoke_safe fuel f vs hf.1 hvs₂ hlength)
        (invoke_surveys fuel f vs hf.1 hvs₂ hlength hfspots hvspots₂)
        fun _ _ _ _ _ _ _ _ => Surveys.pure trivial

theorem invoke_surveys : ∀ (fuel : Nat) {w : World} {openings : List Opening} (f : Closure)
    (vs : List Value), KnownFunction a w.machine.hops w.captured f → (∀ v ∈ vs, w.Knows a v) →
      vs.length = f.declaration.parameters.length → SpottedFunction known openings w.captured f →
        (∀ v ∈ vs, w.Spots known openings v) →
          Surveys a known (keeper.invoke fuel f vs) w openings fun v openings' w' =>
            w'.Spots known openings' v
  | 0, _, _, _, _, _, _, _, _, _ => by
    unfold Keeper.invoke
    exact exhausted_surveys
  | fuel + 1, w, openings, f, vs, hf, hvs, hlength, hfspots, hvspots => by
    have hsafe : Safe a (keeper.runBody f vs fun d => keeper.executeAll fuel d f.declaration.body) w []
        fun c w' => w'.KnowsResult a c :=
      runBody_safe hf hvs hlength fun hplace hsteady hbody =>
        executeAll_safe fuel f.declaration.body hplace hsteady hbody
    have hbody : Surveys a known (keeper.runBody f vs fun d => keeper.executeAll fuel d f.declaration.body) w
        openings fun c openings' w' => w'.SpotsResult known openings' c :=
      runBody_surveys hf hvs hlength hfspots hvspots fun hplace hsteady hbody hpost hallowed hspots =>
        executeAll_surveys fuel f.declaration.body hplace hsteady hbody hpost hallowed hspots
    refine Surveys.bind hsafe hbody fun c w₁ openings₁ _ _ _ _ hc => ?_
    split
    · refine Surveys.get_bind fun _ hw₁ => Surveys.pure ?_
      cases hthis : w₁.machine.heap.ownValue? f.frame thisName with
      | none => trivial
      | some v => exact hw₁.holds.ownValue? hthis
    · cases c with
      | returned v => exact Surveys.pure (hc v rfl)
      | _ => exact Surveys.pure trivial

theorem execute_surveys : ∀ (fuel : Nat) {n : Notes} {d : Display} {w : World} {nest : List Opening}
    {openings : List Opening} (s : Stmt), Place a n d w → d.Steady → s.Addressed n d.scopes →
      Post openings nest d w → Allowed nest s.declared?.toList →
        (∀ p ∈ s.spots nest d.scopes, known p) →
          Surveys a known (keeper.execute fuel d s) w openings fun c openings' w' =>
            w'.SpotsResult known openings' c
  | 0, _, _, _, _, _, _, _, _, _, _, _, _ => exhausted_surveys
  | fuel + 1, n, d, w, nest, openings, s, hplace, hsteady, hs, hpost, hallowed, hknown => by
    have hnormal : ∀ (w : World) openings, w.SpotsResult known openings .normal := fun _ _ _ h => by cases h
    cases s with
    | expression e =>
      exact Surveys.bind (evaluate_safe fuel e hplace hs) (evaluate_surveys fuel e hplace hs hpost hknown)
        fun _ w₁ openings₁ _ _ _ _ _ => Surveys.pure (hnormal w₁ openings₁)
    | print e =>
      refine Surveys.bind (evaluate_safe fuel e hplace hs)
        (evaluate_surveys fuel e hplace hs hpost hknown) fun v _ _ _ _ _ _ _ => ?_
      exact Surveys.bind (print_safe v) (print_surveys v)
        fun _ w₁ openings₁ _ _ _ _ _ => Surveys.pure (hnormal w₁ openings₁)
    | var name initializer =>
      cases initializer with
      | none =>
        exact Surveys.bind (define_safe (v := .nil) hs.1 trivial)
          (define_surveys hs.1 hplace hpost hallowed trivial)
          fun _ w₁ openings₁ _ _ _ _ _ => Surveys.pure (hnormal w₁ openings₁)
      | some e =>
        obtain ⟨hname, hfresh, he⟩ := hs
        have hknown : ∀ p ∈ e.spots nest (Scope.enter name.name .declared d.scopes), known p := hknown
        rw [← Display.scopes_enter] at he hknown
        have hplace' := hplace.enter hfresh
        have hpost' := hpost.enter name.name .declared
        refine Surveys.bind (evaluate_safe fuel e hplace' he)
          (evaluate_surveys fuel e hplace' he hpost' hknown)
          fun v w₁ openings₁ hgrows hprefix _ hv hspots => ?_
        exact Surveys.bind (define_safe hname hv)
          (define_surveys hname (hplace.grows hgrows) (hpost.grows hplace hgrows hprefix) hallowed hspots)
          fun _ w₂ openings₂ _ _ _ _ _ => Surveys.pure (hnormal w₂ openings₂)
    | block body =>
      refine Surveys.get_bind fun hsound hw => ?_
      have hcurrent : (HasMachine.machine w).current = d.frame := hplace.frame.symm
      rw [hcurrent]
      refine scoped_surveys (.block body) (hplace.lt hsound) (by simp) (by simp) (fun _ h => by cases h)
        (fun h => by cases h) fun w₁ hmachine _ => ?_
      have henclosed := hplace.standing.enclosed hsteady
      exact executeAll_surveys fuel body (Place.push hplace.covers henclosed.push_block hmachine)
        (Display.steady_push (by simp) d) hs (hpost.push_block hplace hw hmachine)
        (allowed_push fun _ hx => hx) hknown
    | ifThen condition thenBranch =>
      refine Surveys.bind (evaluate_safe fuel condition hplace hs.1)
        (evaluate_surveys fuel condition hplace hs.1 hpost
          fun p hp => hknown p (List.mem_append_left _ hp))
        fun v w₁ openings₁ hgrows hprefix _ _ _ => ?_
      split
      · exact execute_surveys fuel thenBranch (hplace.grows hgrows) hsteady hs.2.2
          (hpost.grows hplace hgrows hprefix) (by simp [hs.2.1, Allowed])
          fun p hp => hknown p (List.mem_append_right _ hp)
      · exact Surveys.pure (hnormal w₁ openings₁)
    | ifElse condition thenBranch elseBranch =>
      refine Surveys.bind (evaluate_safe fuel condition hplace hs.1)
        (evaluate_surveys fuel condition hplace hs.1 hpost
          fun p hp => hknown p (List.mem_append_left _ hp))
        fun v w₁ openings₁ hgrows hprefix _ _ _ => ?_
      have hplace₁ := hplace.grows hgrows
      have hpost₁ := hpost.grows hplace hgrows hprefix
      split
      · exact execute_surveys fuel thenBranch hplace₁ hsteady hs.2.1.2 hpost₁
          (by simp [hs.2.1.1, Allowed])
          fun p hp => hknown p (List.mem_append_right _ (List.mem_append_left _ hp))
      · exact execute_surveys fuel elseBranch hplace₁ hsteady hs.2.2.2 hpost₁
          (by simp [hs.2.2.1, Allowed])
          fun p hp => hknown p (List.mem_append_right _ (List.mem_append_right _ hp))
    | loop condition body increment =>
      exact loop_surveys fuel condition body increment hplace hsteady hs hpost hknown
    | breakLoop position => exact Surveys.pure fun v hv => by cases hv
    | continueLoop position => exact Surveys.pure fun v hv => by cases hv
    | function declaration =>
      obtain ⟨hname, _, hsite, haddressed⟩ := hs
      have hsafe : Safe a (keeper.declareFunction d declaration) w [declaration.name.name] fun _ _ => True :=
        declareFunction_safe hplace hsteady hname hsite haddressed
      have hdeclare : Surveys a known (keeper.declareFunction d declaration) w openings fun _ _ _ => True :=
        declareFunction_surveys hplace hsteady hpost hname hsite haddressed hallowed hknown
      exact Surveys.bind hsafe hdeclare
        fun _ w₁ openings₁ _ _ _ _ _ => Surveys.pure (hnormal w₁ openings₁)
    | returnValue position value =>
      cases value with
      | none =>
        refine Surveys.pure fun v hv => ?_
        obtain rfl := Completion.returned.inj hv
        trivial
      | some e =>
        refine Surveys.bind (evaluate_safe fuel e hplace hs)
          (evaluate_surveys fuel e hplace hs hpost hknown)
          fun v w₁ openings₁ _ _ _ _ hv => Surveys.pure fun u hu => ?_
        obtain rfl := Completion.returned.inj hu
        exact hv
    | classDecl name superclass methods =>
      cases superclass with
      | none =>
        have hsafe : Safe a (declareClass d name none methods) w [name.name] fun _ _ => True :=
          declareClass_safe hplace hsteady hs.1 hs.2.2
        have hclass : Surveys a known (declareClass d name none methods) w openings fun _ _ _ => True :=
          declareClass_surveys hplace hsteady hpost none hs.1 trivial hs.2.2 hallowed
            (hknown _ List.mem_cons_self) fun p hp => hknown p (List.mem_cons_of_mem _ hp)
        exact Surveys.bind hsafe hclass
          fun _ w₁ openings₁ _ _ _ _ _ => Surveys.pure (hnormal w₁ openings₁)
      | some superclass =>
        obtain ⟨hname, hfresh, ⟨hplain, hready, hmentions⟩, hmethods⟩ := hs
        obtain ⟨hdeclared, hknown⟩ := List.forall_mem_cons.mp hknown
        obtain ⟨hclause, hmethodsKnown⟩ := List.forall_mem_cons.mp hknown
        rw [← Display.scopes_enter] at hready hmentions hclause
        have hplace' := hplace.enter hfresh
        have hexact := hplace'.reads hplain hready hmentions
        refine Surveys.bind (superclassOf_safe hexact)
          (superclassOf_surveys hexact hplace' (hpost.enter name.name .declared) hmentions hclause)
          fun c w₁ openings₁ hgrows hprefix _ _ hfound => ?_
        have hplace₁ := hplace.grows hgrows
        have hsafe : Safe a (declareClass d name (some c) methods) w₁ [name.name] fun _ _ => True :=
          declareClass_safe hplace₁ hsteady hname hmethods
        have hclass : Surveys a known (declareClass d name (some c) methods) w₁ openings₁
            fun _ _ _ => True :=
          declareClass_surveys hplace₁ hsteady (hpost.grows hplace hgrows hprefix) (some superclass) hname hfound hmethods hallowed
            hdeclared hmethodsKnown
        exact Surveys.bind hsafe hclass
          fun _ w₂ openings₂ _ _ _ _ _ => Surveys.pure (hnormal w₂ openings₂)

theorem loop_surveys : ∀ (fuel : Nat) {n : Notes} {d : Display} {w : World} {nest : List Opening}
    {openings : List Opening} (condition : Expr) (body : Stmt) (increment : Option Expr),
      Place a n d w → d.Steady → (Stmt.loop condition body increment).Addressed n d.scopes →
        Post openings nest d w →
          (∀ p ∈ (Stmt.loop condition body increment).spots nest d.scopes, known p) →
            Surveys a known (keeper.loop fuel d condition body increment) w openings fun c openings' w' =>
              w'.SpotsResult known openings' c
  | 0, _, _, _, _, _, _, _, _, _, _, _, _, _ => exhausted_surveys
  | fuel + 1, n, d, w, nest, openings, condition, body, increment, hplace, hsteady, hs, hpost, hknown => by
    obtain ⟨hcondition, hbody, hincrement⟩ := spots_loop hknown
    obtain ⟨hconditionAddressed, hdeclared, hbodyAddressed, hincrementAddressed⟩ := addressed_loop hs
    have hagain : ∀ {w : World} {openings : List Opening}, Place a n d w → Post openings nest d w →
        Surveys a known (match increment with
          | none => keeper.loop fuel d condition body increment
          | some e => keeper.evaluate fuel d e >>= fun _ => keeper.loop fuel d condition body increment) w openings
          fun c openings' w' => w'.SpotsResult known openings' c := by
      intro w openings hplace hpost
      cases increment with
      | none => exact loop_surveys fuel condition body none hplace hsteady hs hpost hknown
      | some e =>
        refine Surveys.bind (evaluate_safe fuel e hplace (hincrementAddressed e rfl))
          (evaluate_surveys fuel e hplace (hincrementAddressed e rfl) hpost (hincrement e rfl))
          fun _ w₁ openings₁ hgrows hprefix _ _ _ => ?_
        exact loop_surveys fuel condition body (some e) (hplace.grows hgrows) hsteady hs
          (hpost.grows hplace hgrows hprefix) hknown
    refine Surveys.bind (evaluate_safe fuel condition hplace hconditionAddressed)
      (evaluate_surveys fuel condition hplace hconditionAddressed hpost hcondition)
      fun v w₁ openings₁ hgrows₁ hprefix₁ _ _ _ => ?_
    have hplace₁ := hplace.grows hgrows₁
    have hpost₁ := hpost.grows hplace hgrows₁ hprefix₁
    split
    · have hsafe := execute_safe fuel body hplace₁ hsteady hbodyAddressed
      rw [hdeclared] at hsafe
      refine Surveys.bind hsafe (execute_surveys fuel body hplace₁ hsteady hbodyAddressed hpost₁
        (by simp [hdeclared, Allowed]) hbody) fun c w₂ openings₂ hgrows₂ hprefix₂ _ _ hc => ?_
      have hplace₂ := hplace₁.grows hgrows₂
      have hpost₂ := hpost₁.grows hplace₁ hgrows₂ hprefix₂
      cases c with
      | broke => exact Surveys.pure fun v hv => by cases hv
      | returned v => exact Surveys.pure hc
      | normal => exact hagain hplace₂ hpost₂
      | continued => exact hagain hplace₂ hpost₂
    · exact Surveys.pure fun v hv => by cases hv

theorem executeAll_surveys : ∀ (fuel : Nat) {n : Notes} {d : Display} {w : World}
    {nest : List Opening} {openings : List Opening} (body : List Stmt), Place a n d w → d.Steady →
      Stmt.AllAddressed n d.scopes body → Post openings nest d w →
        Allowed nest (body.filterMap Stmt.declared?) →
          (∀ p ∈ Stmt.allSpots nest d.scopes body, known p) →
            Surveys a known (keeper.executeAll fuel d body) w openings fun c openings' w' =>
              w'.SpotsResult known openings' c
  | 0, _, _, _, _, _, _, _, _, _, _, _, _ => exhausted_surveys
  | _ + 1, _, _, _, _, _, [], _, _, _, _, _, _ => Surveys.pure fun v hv => by cases hv
  | fuel + 1, n, d, w, nest, openings, s :: rest, hplace, hsteady, hbody, hpost, hallowed, hknown => by
    intro hsound hw
    refine Surveys.bind (execute_safe fuel s hplace hsteady hbody.1)
      (execute_surveys fuel s hplace hsteady hbody.1 hpost (allowed_head hallowed)
        fun p hp => hknown p (List.mem_append_left _ hp))
      (fun c w₁ openings₁ hgrows hprefix _ _ hc => ?_) hsound hw
    cases c with
    | normal =>
      refine executeAll_surveys fuel rest (hplace.after hbody.1 hgrows) (steady_after hsteady) ?_
        ((hpost.gains hplace hw hgrows hprefix).after s) (allowed_tail hallowed) ?_
      · change Stmt.AllAddressed n (d.after s).scopes rest
        rw [Display.scopes_after]
        exact hbody.2
      · change ∀ p ∈ Stmt.allSpots nest (d.after s).scopes rest, known p
        rw [Display.scopes_after]
        exact fun p hp => hknown p (List.mem_append_right _ hp)
    | _ => exact Surveys.pure hc

end

end

end Lexical

end LoxLang

import LoxLang.Proofs.Scope.Spots
import LoxLang.Proofs.Scope.Steps

/-!
Surveyed worlds: it is known what every frame of the heap was made for, and running code finds the frames of
the scopes that enclose it in the text. A frame binds no names but those its scope declares. In the scopes
of the function that is running, only the names are bound whose declarations are done; the scopes around
the function may have gone on since it was made.
-/

namespace LoxLang

open Resolver (hopsTo?)
open Lexical (receiverScope superclassScope parameterScope)

/-! ### Frames and what they are made for -/

namespace Display

/-- The frames of the display were made for the openings of a nest. -/
def Opened (openings : List Opening) (d : Display) (nest : List Opening) : Prop :=
  List.Forall₂ (fun (layer : Layer) o => openings[layer.frame.index]? = some o) d nest

/-- In the scopes around the innermost one, up to the innermost function, only the names are bound whose
declarations are done. -/
def Snug (h : Heap) : Display → List Opening → Prop
  | _ :: outer, o :: nest => o.isFunction = false →
    (∀ layer ∈ outer.head?, ∀ x, (h.ownValue? layer.frame x).isSome →
      layer.scope.lookup x = some .defined) ∧ Snug h outer nest
  | _, _ => True

/-- The frames of a display bind what the scopes they are made for allow, and no more than has been declared
in those of the running function. -/
structure Fitted (h : Heap) (d : Display) (nest : List Opening) : Prop where
  older : ∀ f g, h.parent? f = some g → g.index < f.index
  standing : d.Standing h
  allowed : List.Forall₂ (fun (layer : Layer) (o : Opening) =>
    ∀ x, (h.ownValue? layer.frame x).isSome → o.Allows x) d nest
  snug : d.Snug h nest

end Display

/-! ### Surveyed worlds -/

namespace Mention

/-- What is mentioned. -/
def reference : Mention → Reference
  | .read r => r
  | .assign r _ => r
  | .super id position => .super id position

end Mention

/-- The visit is the evaluation of a superclass clause, and the frame binds the class that it yielded. It is
the next frame that was made, inside the scope in which the clause was evaluated. -/
def Visit.Yields (v : Visit) (clause : Reference) (h : Heap) (f : FrameId) : Prop :=
  v.mention = .read clause ∧ f.index = v.machine.heap.frames.size ∧
    h.parent? f = some v.machine.current ∧
      ∃ c, Exec.lookUp? v.machine clause = some (.cls c) ∧ h.ownValue? f superName = some (.cls c)

/-- The frame was made for the superclass of a class that has been declared. -/
def Yielded (visits : List Visit) (clause : Reference) (h : Heap) (f : FrameId) : Prop :=
  ∃ v ∈ visits, v.Yields clause h f

/-- The class was made by the declaration. -/
structure ClassRecord.Declared (c : ClassRecord) (d : ClassDecl) : Prop where
  name : c.name = d.name.name
  superclass : c.superclass.isSome = d.superclass.isSome
  methods : ∃ frame, c.methods = Exec.methodBindings frame d.methods

/-- The classes were made by declarations that are known. -/
def Heap.Classified (known : Spot → Prop) (h : Heap) : Prop :=
  ∀ id c, h.class? id = some c → ∃ d, known (.classDecl d) ∧ c.Declared d

/-- The mention is evaluated at a known spot of a program, in a nest of scopes: the display fits the frames,
and the distance on record is the one of the name among the scopes. -/
structure Visit.Stands (known : Spot → Prop) (earlier : List Visit) (nest : List Opening) (v : Visit) :
    Prop where
  spot : known (.mention v.mention.reference nest v.display.scopes)
  placed : v.display.frame = v.machine.current
  resolved : v.machine.hops.find? v.mention.reference.id =
    hopsTo? v.mention.reference.ident.name v.display.scopes
  fitted : v.display.Fitted v.machine.heap nest
  clauses : List.Forall₂ (fun (layer : Layer) o => ∀ clause, o = .superclass clause →
    Yielded earlier clause v.machine.heap layer.frame) v.display nest
  classes : v.machine.heap.Classified known

/-- Every mention on record was evaluated at a known spot, when the earlier ones had been. -/
def Chronicle (known : Spot → Prop) : List Visit → Prop
  | [] => True
  | v :: earlier => (∃ nest, v.Stands known earlier nest) ∧ Chronicle known earlier

theorem Chronicle.stands {known : Spot → Prop} {later : List Visit} {v : Visit} {earlier : List Visit}
    (h : Chronicle known (later ++ v :: earlier)) : ∃ nest, v.Stands known earlier nest := by
  induction later with
  | nil => exact h.1
  | cons u later ih => exact ih h.2

/-- The spots of the function's body are known. An initializer has a receiver. -/
def SpottedFunction (known : Spot → Prop) (openings : List Opening) (captured : Captured)
    (f : Closure) : Prop :=
  ∃ d nest, captured.lookup (f.declaration.id, f.frame) = some d ∧ d.Opened openings nest ∧
    (f.isInitializer → nest.head? = some .receiver) ∧ ∀ p ∈ f.declaration.spots nest d.scopes, known p

/-- The spots of the method's body are known, with a receiver. -/
def SpottedMethod (known : Spot → Prop) (openings : List Opening) (captured : Captured)
    (m : Closure) : Prop :=
  ∃ d nest, captured.lookup (m.declaration.id, m.frame) = some d ∧ d.Opened openings nest ∧
    ∀ p ∈ m.declaration.spots (.receiver :: nest) (receiverScope :: d.scopes), known p

structure World.Surveyed (known : Spot → Prop) (openings : List Opening) (w : World) : Prop where
  size : openings.length = w.machine.heap.frames.size
  globals : openings[FrameId.globals.index]? = some .globals
  older : ∀ f g, w.machine.heap.parent? f = some g → g.index < f.index
  holds : w.machine.heap.Holds (SpottedFunction known openings w.captured)
    (SpottedMethod known openings w.captured)
  allowed : ∀ (f : FrameId) o x, openings[f.index]? = some o →
    (w.machine.heap.ownValue? f x).isSome → o.Allows x
  clauses : ∀ (f : FrameId) clause, openings[f.index]? = some (.superclass clause) →
    Yielded w.visits clause w.machine.heap f
  receivers : ∀ f : FrameId, openings[f.index]? = some .receiver →
    ∃ o, w.machine.heap.ownValue? f thisName = some (.object o)
  classes : w.machine.heap.Classified known
  visits : Chronicle known w.visits

/-- The functions in a value have known spots. -/
def World.Spots (known : Spot → Prop) (openings : List Opening) (w : World) (v : Value) : Prop :=
  v.Each (SpottedFunction known openings w.captured)

/-- The functions in what a statement returns have known spots. -/
def World.SpotsResult (known : Spot → Prop) (openings : List Opening) (w : World) (c : Completion) :
    Prop :=
  ∀ v, c = .returned v → w.Spots known openings v

section

variable {known : Spot → Prop} {openings openings' : List Opening} {w w' : World} {names : List String}
  {h h' : Heap} {f : FrameId} {clause : Reference} {visits visits' : List Visit} {d : Display}
  {nest : List Opening} {captured captured' : Captured}

theorem getElem?_of_prefix {o : Opening} {i : Nat} (hi : openings[i]? = some o)
    (hopenings : openings <+: openings') : openings'[i]? = some o := by
  obtain ⟨more, rfl⟩ := hopenings
  obtain ⟨hlt, -⟩ := List.getElem?_eq_some_iff.mp hi
  rw [List.getElem?_append_left hlt, hi]

theorem Display.Opened.mono (hd : d.Opened openings nest) (hopenings : openings <+: openings') :
    d.Opened openings' nest :=
  hd.imp fun _ _ h => getElem?_of_prefix h hopenings

theorem SpottedFunction.mono {f : Closure} (hf : SpottedFunction known openings captured f)
    (hopenings : openings <+: openings')
    (hcaptured : ∀ key d, captured.lookup key = some d → captured'.lookup key = some d) :
    SpottedFunction known openings' captured' f := by
  obtain ⟨d, nest, hd, hopened, hreceiver, hspots⟩ := hf
  exact ⟨d, nest, hcaptured _ d hd, hopened.mono hopenings, hreceiver, hspots⟩

theorem SpottedMethod.mono {m : Closure} (hm : SpottedMethod known openings captured m)
    (hopenings : openings <+: openings')
    (hcaptured : ∀ key d, captured.lookup key = some d → captured'.lookup key = some d) :
    SpottedMethod known openings' captured' m := by
  obtain ⟨d, nest, hd, hopened, hspots⟩ := hm
  exact ⟨d, nest, hcaptured _ d hd, hopened.mono hopenings, hspots⟩

theorem World.Spots.mono {v : Value} (hv : w.Spots known openings v) (hopenings : openings <+: openings')
    (hgrows : w.Grows names w') : w'.Spots known openings' v :=
  Value.Each.mono hv fun _ hf => hf.mono hopenings hgrows.captured

theorem Yielded.grows {g : FrameId} (hf : Yielded visits clause h f)
    (hgrows : Heap.Grows g names h h') : Yielded visits clause h' f := by
  obtain ⟨v, hv, hread, hnext, hparent, c, hc, hsuper⟩ := hf
  have hlt := Heap.lt_of_parent? hparent
  refine ⟨v, hv, hread, hnext, (hgrows.parent f hlt).trans hparent, c, hc, ?_⟩
  rw [hgrows.special f superName hlt fun hplain => hplain.2 rfl]
  exact hsuper

theorem Yielded.mono (hf : Yielded visits clause h f) (hvisits : visits ⊆ visits') :
    Yielded visits' clause h f := by
  obtain ⟨v, hv, hyields⟩ := hf
  exact ⟨v, hvisits hv, hyields⟩

end

/-! ### Objects and their classes -/

/-- The class of an object. -/
def Heap.classOf? (h : Heap) (id : ObjectId) : Option ClassId :=
  (h.object? id).map ObjectRecord.cls

/-- What comes before: visits stay on record, and objects stay in their classes. -/
structure World.Before (w w' : World) : Prop where
  visits : w.visits ⊆ w'.visits
  objects : ∀ id c, w.machine.heap.classOf? id = some c → w'.machine.heap.classOf? id = some c

theorem World.Before.refl (w : World) : w.Before w :=
  ⟨List.Subset.refl _, fun _ _ h => h⟩

theorem World.Before.trans {w w' w'' : World} (h : w.Before w') (h' : w'.Before w'') : w.Before w'' :=
  ⟨List.Subset.trans h.visits h'.visits, fun id c hc => h'.objects id c (h.objects id c hc)⟩

/-- Only the machine changes, and in it no object. -/
theorem World.Before.of_objects {w : World} {m : Machine}
    (hobjects : m.heap.objects = w.machine.heap.objects) : w.Before { w with machine := m } :=
  ⟨List.Subset.refl _, fun id c hc => by
    rw [Heap.classOf?, Heap.object?, hobjects]
    exact hc⟩

/-! ### How worlds stay surveyed -/

section

variable {a : Atlas} {known : Spot → Prop} {openings : List Opening} {w w' : World} {names : List String}

/-- The scopes stay as they are, but for names that the current one gains and its opening allows. -/
theorem World.Surveyed.leaves (hw : w.Surveyed known openings) {m : Machine}
    (hgrows : Heap.Grows w.machine.current names w.machine.heap m.heap)
    (hframes : m.heap.frames.size = w.machine.heap.frames.size)
    (hholds : m.heap.Holds (SpottedFunction known openings w.captured)
      (SpottedMethod known openings w.captured))
    (hclasses : m.heap.classes = w.machine.heap.classes)
    (hnames : ∀ x ∈ names, ∀ o, openings[w.machine.current.index]? = some o → o.Allows x) :
    ({ w with machine := m } : World).Surveyed known openings := by
  have hlt : ∀ {f : FrameId} {o : Opening}, openings[f.index]? = some o →
      f.index < w.machine.heap.frames.size := by
    intro f o hf
    rw [← hw.size]
    exact (List.getElem?_eq_some_iff.mp hf).1
  constructor
  case size => exact hw.size.trans hframes.symm
  case globals => exact hw.globals
  case older =>
    intro f g hparent
    have hf : f.index < w.machine.heap.frames.size := hframes ▸ Heap.lt_of_parent? hparent
    exact hw.older f g ((hgrows.parent f hf).symm.trans hparent)
  case holds => exact hholds
  case allowed =>
    intro f o x hf hx
    rcases (hgrows.bound f x (hlt hf)).mp hx with hx | ⟨rfl, hname⟩
    · exact hw.allowed f o x hf hx
    · exact hnames x hname o hf
  case clauses => exact fun f clause hf => (hw.clauses f clause hf).grows hgrows
  case receivers =>
    intro f hf
    rw [hgrows.special f thisName (hlt hf) fun hplain => hplain.1 rfl]
    exact hw.receivers f hf
  case classes =>
    intro id c hc
    rw [Heap.class?, hclasses] at hc
    exact hw.classes id c hc
  case visits => exact hw.visits

/-- More displays have been kept. -/
theorem World.Surveyed.keeps (hw : w.Surveyed known openings) {captured : Captured}
    (hcaptured : ∀ key d, w.captured.lookup key = some d → captured.lookup key = some d) :
    ({ w with captured := captured } : World).Surveyed known openings where
  size := hw.size
  globals := hw.globals
  older := hw.older
  holds := hw.holds.mono (fun _ hf => SpottedFunction.mono hf (List.prefix_refl _) hcaptured)
    fun _ hm => SpottedMethod.mono hm (List.prefix_refl _) hcaptured
  allowed := hw.allowed
  clauses := hw.clauses
  receivers := hw.receivers
  classes := hw.classes
  visits := hw.visits

/-- Code runs in another scope. -/
theorem World.Surveyed.enters (hw : w.Surveyed known openings) (frame : FrameId) :
    ({ w with machine := { w.machine with current := frame } } : World).Surveyed known openings where
  size := hw.size
  globals := hw.globals
  older := hw.older
  holds := hw.holds
  allowed := hw.allowed
  clauses := hw.clauses
  receivers := hw.receivers
  classes := hw.classes
  visits := hw.visits

/-- A new frame, whose opening allows the names it binds. -/
theorem World.Surveyed.newFrame (hw : w.Surveyed known openings) {parent : FrameId}
    {bindings : Bindings Value} (o : Opening) (hparent : parent.index < w.machine.heap.frames.size)
    (hbindings : ∀ b ∈ bindings, w.Spots known openings b.2)
    (hallowed : ∀ x, (bindings.lookup x).isSome → o.Allows x)
    (hclause : ∀ clause, o = .superclass clause → Yielded w.visits clause
      (w.machine.heap.newFrame (some parent) bindings).2
      (w.machine.heap.newFrame (some parent) bindings).1)
    (hreceiver : o = .receiver → ∃ id, bindings.lookup thisName = some (.object id)) :
    ({ w with machine := { w.machine with
      heap := (w.machine.heap.newFrame (some parent) bindings).2 } } : World).Surveyed known
        (openings ++ [o]) := by
  have hprefix : openings <+: openings ++ [o] := List.prefix_append _ _
  have hgrows : Heap.Grows w.machine.current [] w.machine.heap
      (w.machine.heap.newFrame (some parent) bindings).2 := .of_newFrame _ _
  have hold : ∀ {f : FrameId} {o' : Opening}, (openings ++ [o])[f.index]? = some o' →
      openings[f.index]? = some o' ∧ f.index < w.machine.heap.frames.size ∨
        f = (w.machine.heap.newFrame (some parent) bindings).1 ∧ o' = o := by
    intro f o' hf
    by_cases hlt : f.index < openings.length
    · rw [List.getElem?_append_left hlt] at hf
      exact .inl ⟨hf, hw.size ▸ hlt⟩
    · rw [List.getElem?_append_right (Nat.le_of_not_lt hlt), List.getElem?_singleton] at hf
      split at hf
      next hzero =>
        refine .inr ⟨?_, (Option.some.inj hf).symm⟩
        have hindex : f.index = w.machine.heap.frames.size := by
          have := hw.size
          omega
        cases f
        cases hindex
        rfl
      next => cases hf
  have hnew := Heap.frame?_newFrame_self (h := w.machine.heap) (some parent) bindings
  constructor
  case size => simp [Heap.newFrame, hw.size]
  case globals => exact getElem?_of_prefix hw.globals hprefix
  case older =>
    intro f g hf
    have hlt : f.index < (w.machine.heap.newFrame (some parent) bindings).2.frames.size :=
      Heap.lt_of_parent? hf
    by_cases hf' : f.index < w.machine.heap.frames.size
    · exact hw.older f g ((hgrows.parent f hf').symm.trans hf)
    · have hindex : f.index = w.machine.heap.frames.size := by
        have : (w.machine.heap.newFrame (some parent) bindings).2.frames.size =
          w.machine.heap.frames.size + 1 := by simp [Heap.newFrame]
        omega
      obtain rfl : f = (w.machine.heap.newFrame (some parent) bindings).1 := by
        cases f
        cases hindex
        rfl
      rw [Heap.parent?, hnew] at hf
      obtain rfl : parent = g := Option.some.inj hf
      omega
  case holds =>
    have hmono := hw.holds.mono (fun _ hf => SpottedFunction.mono hf hprefix fun _ _ hd => hd)
      fun _ hm => SpottedMethod.mono hm hprefix fun _ _ hd => hd
    exact hmono.newFrame _ fun b hb => (hbindings b hb).mono hprefix (.refl w)
  case allowed =>
    intro f o' x hf hx
    rcases hold hf with ⟨hf, hlt⟩ | ⟨rfl, rfl⟩
    · have hx := (hgrows.bound f x hlt).mp hx
      exact hw.allowed f o' x hf (by simpa using hx)
    · rw [Heap.ownValue?, hnew] at hx
      exact hallowed x hx
  case clauses =>
    intro f clause hf
    rcases hold hf with ⟨hf, -⟩ | ⟨rfl, ho⟩
    · exact (hw.clauses f clause hf).grows hgrows
    · exact hclause clause ho.symm
  case receivers =>
    intro f hf
    rcases hold hf with ⟨hf, hlt⟩ | ⟨rfl, ho⟩
    · rw [hgrows.special f thisName hlt fun hplain => hplain.1 rfl]
      exact hw.receivers f hf
    · rw [Heap.ownValue?, hnew]
      exact hreceiver ho.symm
  case classes => exact hw.classes
  case visits => exact hw.visits

/-- A new class, which was made by a known declaration. -/
theorem World.Surveyed.newClass (hw : w.Surveyed known openings) {c : ClassRecord}
    (hmethods : ∀ b ∈ c.methods, SpottedMethod known openings w.captured b.2)
    (hdeclared : ∃ d, known (.classDecl d) ∧ c.Declared d) :
    ({ w with machine := { w.machine with heap := (w.machine.heap.newClass c).2 } } : World).Surveyed
      known openings where
  size := hw.size
  globals := hw.globals
  older := hw.older
  holds := hw.holds.newClass hmethods
  allowed := hw.allowed
  clauses := hw.clauses
  receivers := hw.receivers
  classes := fun id c' hc => by
    have hc : (w.machine.heap.classes.push c)[id.index]? = some c' := hc
    rw [Array.getElem?_push] at hc
    split at hc
    · obtain rfl := Option.some.inj hc
      exact hdeclared
    · exact hw.classes id c' hc
  visits := hw.visits

end

/-! ### Surveyed computations -/

namespace Lexical

/-- From a sound and surveyed world, the computation ends in a surveyed one. -/
def Surveys {α : Type} (a : Atlas) (known : Spot → Prop) (x : Lexical α) (w : World)
    (openings : List Opening) (good : α → List Opening → World → Prop) : Prop :=
  w.Sound a → w.Surveyed known openings → Ends x w
    (fun v w' => ∃ openings', openings <+: openings' ∧ w.Before w' ∧
      w'.Surveyed known openings' ∧ good v openings' w')
    (fun _ w' => ∃ openings', w'.Surveyed known openings')

namespace Surveys

variable {α β : Type} {a : Atlas} {known : Spot → Prop} {x : Lexical α} {f : α → Lexical β} {w : World}
  {names : List String} {openings : List Opening} {safe : α → World → Prop}
  {good good₂ : α → List Opening → World → Prop} {good' : β → List Opening → World → Prop}

theorem pure {v : α} (h : good v openings w) : Surveys a known (Pure.pure v) w openings good :=
  fun _ hw => Ends.pure ⟨openings, List.prefix_refl _, .refl w, hw, h⟩

/-- What is known of the first part because it is safe is known in the second. -/
theorem bind (hsafe : Safe a x w names safe) (hx : Surveys a known x w openings good)
    (hf : ∀ v w' openings', w.Grows names w' → openings <+: openings' → w.Before w' →
      safe v w' → good v openings' w' → Surveys a known (f v) w' openings' good') :
    Surveys a known (x >>= f) w openings good' := by
  intro hsound hw
  have hfirst := Ends.imp ((hsafe hsound).both (hx hsound hw)) (fun _ _ h => h) fun _ _ h => h.2
  refine Ends.bind hfirst ?_
  rintro v w' ⟨⟨hsound', hgrows, hsafe'⟩, openings', hprefix, hbefore, hw', hgood⟩
  refine Ends.imp (hf v w' openings' hgrows hprefix hbefore hsafe' hgood hsound' hw') ?_
    fun _ _ he => he
  rintro u w'' ⟨openings'', hprefix', hbefore', hw'', hgood'⟩
  exact ⟨openings'', hprefix.trans hprefix', hbefore.trans hbefore', hw'', hgood'⟩

theorem imp (hsafe : Safe a x w names safe) (hx : Surveys a known x w openings good)
    (h : ∀ v w' openings', w.Grows names w' → openings <+: openings' → safe v w' →
      good v openings' w' → good₂ v openings' w') :
    Surveys a known x w openings good₂ := by
  intro hsound hw
  refine Ends.imp ((hsafe hsound).both (hx hsound hw)) ?_ fun _ _ he => he.2
  rintro v w' ⟨⟨_, hgrows, hsafe'⟩, openings', hprefix, hbefore, hw', hgood⟩
  exact ⟨openings', hprefix, hbefore, hw', h v w' openings' hgrows hprefix hsafe' hgood⟩

theorem get_bind {f : World → Lexical β} (h : w.Sound a → w.Surveyed known openings →
    Surveys a known (f w) w openings good') : Surveys a known (get >>= f) w openings good' :=
  fun hsound hw => Ends.get_bind (h hsound hw hsound hw)

end Surveys

end Lexical

end LoxLang

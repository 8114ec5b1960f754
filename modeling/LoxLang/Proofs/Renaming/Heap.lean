import LoxLang.Machine
import LoxLang.Proofs.Heap.Contents
import LoxLang.Proofs.Renaming.Code

/-!
Heaps that differ by a renaming. A frame is marked if it was made for a marked scope; then it binds the
variable by its new name, and all other frames bind the same names in both heaps. So a variable is found in
both heaps if it is looked for in one frame by the name that belongs to the frame, which is how code finds
variables that are not global.
-/

namespace LoxLang

/-- For each frame of a heap, the marks of the scope that it was made for and of those around it. -/
abbrev Marking := List Marks

/-- The marks of a frame and of those around it. -/
def Marking.marks? (w : Marking) (f : FrameId) : Option Marks :=
  w[f.index]?

/-- The same closure, in code that is renamed under the marks `inner` and those of its frame. -/
structure Closure.Renamed (R : Renaming) (w : Marking) (inner : Marks) (f g : Closure) : Prop where
  frame : f.frame = g.frame
  isInitializer : f.isInitializer = g.isInitializer
  declaration : ∃ μ, w.marks? f.frame = some μ ∧
    FunctionDecl.Renamed R (inner ++ μ) f.declaration g.declaration

/-- Values that are the same but for a renaming of the code they refer to. -/
abbrev Value.Renamed (R : Renaming) (w : Marking) : Value → Value → Prop :=
  Value.Related (Closure.Renamed R w []) Position.SameLine

/-- The entries of a scope, marked or not. -/
def Bindings.Renamed (R : Renaming) (w : Marking) (marked : Bool) (bs cs : Bindings Value) : Prop :=
  List.Forall₂ (fun b c => c.1 = R.name marked b.1 ∧ R.Free marked b.1 ∧ Value.Renamed R w b.2 c.2) bs cs

/-- Frames with the marks `μ` around their entries. -/
structure Frame.Renamed (R : Renaming) (w : Marking) (μ : Marks) (f g : Frame) : Prop where
  bindings : Bindings.Renamed R w μ.own f.bindings g.bindings
  parent : f.parent = g.parent
  outer : ∀ p, f.parent = some p → ∃ b ν, w.marks? p = some ν ∧ μ = b :: ν

/-- Heaps that are the same but for a renaming. A method sees the scope of its receiver, which is made when it
is looked up, around its own. -/
structure Heap.Renamed (R : Renaming) (w : Marking) (h h' : Heap) : Prop where
  size : w.length = h.frames.size
  size' : h.frames.size = h'.frames.size
  frames : ∀ (i : Nat) (f g : Frame), h.frames[i]? = some f → h'.frames[i]? = some g →
    ∃ μ, w[i]? = some μ ∧ f.Renamed R w μ g
  globals : w.marks? .globals = some []
  contents : h.ContentsRelated (Closure.Renamed R w []) (Closure.Renamed R w [false]) Position.SameLine h'

section Growth

variable {R : Renaming} {w w' : Marking} (hw : w <+: w')

include hw

theorem Marking.marks?_grow {f : FrameId} {μ : Marks} (h : w.marks? f = some μ) : w'.marks? f = some μ := by
  obtain ⟨more, rfl⟩ := hw
  unfold Marking.marks? at h ⊢
  rw [List.getElem?_append_left (List.getElem?_eq_some_iff.mp h).1]
  exact h

theorem Closure.Renamed.grow {inner : Marks} {f g : Closure} (h : f.Renamed R w inner g) :
    f.Renamed R w' inner g := by
  obtain ⟨μ, hμ, hdeclaration⟩ := h.declaration
  exact ⟨h.frame, h.isInitializer, μ, Marking.marks?_grow hw hμ, hdeclaration⟩

theorem Value.renamed_grow {v u : Value} (h : v.Renamed R w u) : v.Renamed R w' u :=
  Value.Related.imp h (fun _ _ hfg => hfg.grow hw) fun _ _ hpq => hpq

theorem Bindings.Renamed.grow {b : Bool} {bs cs : Bindings Value} (h : Bindings.Renamed R w b bs cs) :
    Bindings.Renamed R w' b bs cs :=
  List.Forall₂.imp (fun _ _ he => ⟨he.1, he.2.1, Value.renamed_grow hw he.2.2⟩) h

theorem Frame.Renamed.grow {μ : Marks} {f g : Frame} (h : f.Renamed R w μ g) : f.Renamed R w' μ g := by
  refine ⟨h.bindings.grow hw, h.parent, fun p hp => ?_⟩
  obtain ⟨b, ν, hν, hμ⟩ := h.outer p hp
  exact ⟨b, ν, Marking.marks?_grow hw hν, hμ⟩

end Growth

/-! ### Bindings -/

namespace Bindings.Renamed

variable {R : Renaming} {w : Marking} {b : Bool} {bs cs : Bindings Value} {x : String}

theorem lookup (h : Bindings.Renamed R w b bs cs) (hx : R.Free b x) :
    Option.Rel (Value.Renamed R w) (bs.lookup x) (cs.lookup (R.name b x)) := by
  induction h with
  | nil => exact .none
  | @cons e e' _ _ he _ ih =>
    obtain ⟨k, v⟩ := e
    obtain ⟨_, u⟩ := e'
    obtain ⟨rfl, hk, hvu⟩ := he
    have hsame : (R.name b x == R.name b k) = (x == k) := by
      rw [Bool.eq_iff_iff, beq_iff_eq, beq_iff_eq]
      exact Renaming.name_inj hx hk
    rw [List.lookup_cons, List.lookup_cons, hsame]
    cases x == k with
    | true => exact .some hvu
    | false => exact ih

theorem put (h : Bindings.Renamed R w b bs cs) (hx : R.Free b x) {v u : Value} (hvu : v.Renamed R w u) :
    Bindings.Renamed R w b (bs.put x v) (cs.put (R.name b x) u) := by
  induction h with
  | nil => exact .cons ⟨rfl, hx, hvu⟩ .nil
  | @cons e e' _ _ he hrest ih =>
    obtain ⟨k, v'⟩ := e
    obtain ⟨_, u'⟩ := e'
    obtain ⟨rfl, hk, hvu'⟩ := he
    have hsame : R.name b k = R.name b x ↔ k = x := Renaming.name_inj hk hx
    unfold Bindings.put
    by_cases hkx : k = x
    · rw [if_pos hkx, if_pos (hsame.mpr hkx)]
      exact .cons ⟨rfl, hk, hvu⟩ hrest
    · rw [if_neg hkx, if_neg fun h => hkx (hsame.mp h)]
      exact .cons ⟨rfl, hk, hvu'⟩ ih

end Bindings.Renamed

namespace Heap.Renamed

variable {R : Renaming} {w : Marking} {h h' : Heap} {v u : Value} {f : FrameId} {μ : Marks} {x : String}

/-! ### Scopes -/

theorem frame? (hh : h.Renamed R w h') (f : FrameId) :
    Option.Rel (fun a b => ∃ μ, w.marks? f = some μ ∧ a.Renamed R w μ b) (h.frame? f) (h'.frame? f) := by
  unfold Heap.frame?
  by_cases hf : f.index < h.frames.size
  · have ha := Array.getElem?_eq_getElem hf
    have hb := Array.getElem?_eq_getElem (hh.size' ▸ hf)
    rw [ha, hb]
    exact .some (hh.frames _ _ _ ha hb)
  · have hf' : ¬f.index < h'.frames.size := hh.size' ▸ hf
    rw [Array.getElem?_eq_none (Nat.le_of_not_lt hf), Array.getElem?_eq_none (Nat.le_of_not_lt hf')]
    exact .none

theorem parent? (hh : h.Renamed R w h') (f : FrameId) : h.parent? f = h'.parent? f :=
  rel_eq <| rel_bind (hh.frame? f) fun a b hab => by
    obtain ⟨_, _, hab⟩ := hab
    rw [hab.parent]
    cases b.parent with
    | none => exact .none
    | some _ => exact .some rfl

/-- The marks around a frame go on with those around its parent. -/
theorem marks?_parent (hh : h.Renamed R w h') {p : FrameId} (hp : h.parent? f = some p)
    (hμ : w.marks? f = some μ) : ∃ b ν, w.marks? p = some ν ∧ μ = b :: ν := by
  have hframe := hh.frame? f
  unfold Heap.parent? at hp
  generalize h.frame? f = a at hp hframe
  generalize h'.frame? f = b at hframe
  cases hframe with
  | none => cases hp
  | some hab =>
    obtain ⟨μ', hμ', hab⟩ := hab
    obtain rfl : μ' = μ := Option.some.inj (hμ'.symm.trans hμ)
    exact hab.outer p hp

theorem ownValue? (hh : h.Renamed R w h') (hμ : w.marks? f = some μ) (hx : R.Free μ.own x) :
    Option.Rel (Value.Renamed R w) (h.ownValue? f x) (h'.ownValue? f (R.name μ.own x)) :=
  rel_bind (hh.frame? f) fun _ _ hab => by
    obtain ⟨μ', hμ', hab⟩ := hab
    obtain rfl : μ' = μ := Option.some.inj (hμ'.symm.trans hμ)
    exact hab.bindings.lookup hx

/-- The names that a class gives to the receiver and the superclass are never renamed. -/
theorem ownValue?_fixed (hh : h.Renamed R w h') (hx : x ≠ R.old) (hx' : x ≠ R.new) (f : FrameId) :
    Option.Rel (Value.Renamed R w) (h.ownValue? f x) (h'.ownValue? f x) :=
  rel_bind (hh.frame? f) fun _ _ hab => by
    obtain ⟨μ, _, hab⟩ := hab
    have hlookup := hab.bindings.lookup (x := x) fun _ => hx'
    rw [Renaming.name_of_ne hx] at hlookup
    exact hlookup

theorem ancestor? (hh : h.Renamed R w h') (f : FrameId) (hops : Nat) :
    h.ancestor? f hops = h'.ancestor? f hops := by
  induction hops generalizing f with
  | zero => rfl
  | succ hops ih => simp only [Heap.ancestor?, hh.parent?, ih]

theorem marks?_ancestor (hh : h.Renamed R w h') {hops : Nat} {g : FrameId} (hg : h.ancestor? f hops = some g)
    (hμ : w.marks? f = some μ) : ∃ ν, w.marks? g = some ν ∧ ν.own = μ.reach (some hops) := by
  induction hops generalizing f μ with
  | zero =>
    obtain rfl := Option.some.inj hg
    exact ⟨μ, hμ, rfl⟩
  | succ hops ih =>
    obtain ⟨p, hp, hg⟩ := Option.bind_eq_some_iff.mp hg
    obtain ⟨b, ν, hν, rfl⟩ := hh.marks?_parent hp hμ
    exact ih hg hν

theorem getAt? (hh : h.Renamed R w h') (hμ : w.marks? f = some μ) {hops : Nat}
    (hx : R.Free (μ.reach (some hops)) x) :
    Option.Rel (Value.Renamed R w) (h.getAt? f hops x)
      (h'.getAt? f hops (R.name (μ.reach (some hops)) x)) := by
  unfold Heap.getAt?
  rw [← hh.ancestor?]
  cases hg : h.ancestor? f hops with
  | none => exact .none
  | some g =>
    obtain ⟨ν, hν, hown⟩ := hh.marks?_ancestor hg hμ
    rw [← hown] at hx ⊢
    exact hh.ownValue? hν hx

theorem getAt?_fixed (hh : h.Renamed R w h') (hx : x ≠ R.old) (hx' : x ≠ R.new) (f : FrameId) (hops : Nat) :
    Option.Rel (Value.Renamed R w) (h.getAt? f hops x) (h'.getAt? f hops x) := by
  unfold Heap.getAt?
  rw [hh.ancestor?]
  cases h'.ancestor? f hops with
  | none => exact .none
  | some g => exact hh.ownValue?_fixed hx hx' g

/-- The global scope is not marked. -/
theorem ownValue?_globals (hh : h.Renamed R w h') (x : String) :
    Option.Rel (Value.Renamed R w) (h.ownValue? .globals x) (h'.ownValue? .globals x) := by
  have hglobal := hh.ownValue? hh.globals (x := x) nofun
  rw [show Marks.own [] = false from rfl, Renaming.name_false] at hglobal
  exact hglobal

theorem parent?_globals (hh : h.Renamed R w h') : h.parent? .globals = none := by
  cases hp : h.parent? .globals with
  | none => rfl
  | some p =>
    obtain ⟨b, ν, _, hnil⟩ := hh.marks?_parent hp hh.globals
    cases hnil

theorem owner?_globals (hh : h.Renamed R w h') (x : String) : h.owner? .globals x = h'.owner? .globals x := by
  have hparent := hh.parent?_globals
  unfold Heap.owner?
  rw [hh.size']
  cases h'.frames.size with
  | zero => rfl
  | succ n =>
    unfold Heap.ownerWithin?
    rw [← hh.parent?, hparent, rel_isSome (hh.ownValue?_globals x)]
    rfl

/-- The owner of a global variable is the global scope. -/
theorem globals_of_owner? (hh : h.Renamed R w h') {g : FrameId} (hg : h.owner? .globals x = some g) :
    g = .globals := by
  have hparent := hh.parent?_globals
  unfold Heap.owner? at hg
  cases hsize : h.frames.size with
  | zero =>
    rw [hsize] at hg
    cases hg
  | succ n =>
    rw [hsize] at hg
    unfold Heap.ownerWithin? at hg
    rw [hparent] at hg
    split at hg
    · exact (Option.some.inj hg).symm
    · cases hg

theorem get?_globals (hh : h.Renamed R w h') (x : String) :
    Option.Rel (Value.Renamed R w) (h.get? .globals x) (h'.get? .globals x) := by
  unfold Heap.get?
  rw [← hh.owner?_globals]
  cases hg : h.owner? .globals x with
  | none => exact .none
  | some g =>
    obtain rfl := hh.globals_of_owner? hg
    exact hh.ownValue?_globals x

theorem define (hh : h.Renamed R w h') (hμ : w.marks? f = some μ) (hx : R.Free μ.own x)
    (hvu : v.Renamed R w u) : (h.define f x v).Renamed R w (h'.define f (R.name μ.own x) u) := by
  refine ⟨by simp [Heap.define, hh.size], by simp [Heap.define, hh.size'], fun i a b ha hb => ?_, hh.globals,
    ⟨hh.contents.classes, hh.contents.objects, hh.contents.arrays⟩⟩
  simp only [Heap.define, Array.getElem?_modify] at ha hb
  by_cases hi : f.index = i
  · subst hi
    rw [if_pos rfl] at ha hb
    obtain ⟨a₀, ha₀, rfl⟩ := Option.map_eq_some_iff.mp ha
    obtain ⟨b₀, hb₀, rfl⟩ := Option.map_eq_some_iff.mp hb
    obtain ⟨μ', hμ', hab⟩ := hh.frames _ a₀ b₀ ha₀ hb₀
    obtain rfl : μ' = μ := Option.some.inj (hμ'.symm.trans hμ)
    exact ⟨μ', hμ', hab.bindings.put hx hvu, hab.parent, hab.outer⟩
  · rw [if_neg hi] at ha hb
    exact hh.frames i a b ha hb

theorem assignAt? (hh : h.Renamed R w h') (hμ : w.marks? f = some μ) {hops : Nat}
    (hx : R.Free (μ.reach (some hops)) x) (hvu : v.Renamed R w u) :
    Option.Rel (Heap.Renamed R w) (h.assignAt? f hops x v)
      (h'.assignAt? f hops (R.name (μ.reach (some hops)) x) u) := by
  unfold Heap.assignAt?
  rw [← hh.ancestor?]
  cases hg : h.ancestor? f hops with
  | none => exact .none
  | some g =>
    obtain ⟨ν, hν, hown⟩ := hh.marks?_ancestor hg hμ
    rw [← hown] at hx ⊢
    simp only [rel_isSome (hh.ownValue? hν hx)]
    split
    · exact .some (hh.define hν hx hvu)
    · exact .none

theorem assign?_globals (hh : h.Renamed R w h') (x : String) (hvu : v.Renamed R w u) :
    Option.Rel (Heap.Renamed R w) (h.assign? .globals x v) (h'.assign? .globals x u) := by
  unfold Heap.assign?
  rw [← hh.owner?_globals]
  cases hg : h.owner? .globals x with
  | none => exact .none
  | some g =>
    obtain rfl := hh.globals_of_owner? hg
    have hdefine := hh.define hh.globals (x := x) nofun hvu
    rw [show Marks.own [] = false from rfl, Renaming.name_false] at hdefine
    exact .some hdefine

/-! ### New things -/

/-- A new scope, marked or not, inside another one. -/
theorem newFrame (hh : h.Renamed R w h') (hμ : w.marks? f = some μ) (marked : Bool) {bs cs : Bindings Value}
    (hbs : Bindings.Renamed R w marked bs cs) :
    (h.newFrame (some f) bs).1 = (h'.newFrame (some f) cs).1 ∧
      Marking.marks? (w ++ [marked :: μ]) (h.newFrame (some f) bs).1 = some (marked :: μ) ∧
      (h.newFrame (some f) bs).2.Renamed R (w ++ [marked :: μ]) (h'.newFrame (some f) cs).2 := by
  have hgrow : w <+: w ++ [marked :: μ] := List.prefix_append _ _
  have hnew : Marking.marks? (w ++ [marked :: μ]) ⟨h.frames.size⟩ = some (marked :: μ) := by
    unfold Marking.marks?
    rw [← hh.size]
    exact List.getElem?_concat_length
  refine ⟨by rw [Heap.newFrame, Heap.newFrame, hh.size'], hnew, ?_, ?_, fun i a b ha hb => ?_,
    Marking.marks?_grow hgrow hh.globals, ?_⟩
  · simp [Heap.newFrame, hh.size]
  · simp [Heap.newFrame, hh.size']
  · simp only [Heap.newFrame, Array.getElem?_push] at ha hb
    by_cases hi : i = h.frames.size
    · rw [if_pos hi] at ha
      rw [if_pos (hi.trans hh.size')] at hb
      obtain rfl := Option.some.inj ha
      obtain rfl := Option.some.inj hb
      subst hi
      refine ⟨_, hnew, hbs.grow hgrow, rfl, fun p hp => ?_⟩
      obtain rfl := Option.some.inj hp
      exact ⟨marked, μ, Marking.marks?_grow hgrow hμ, rfl⟩
    · rw [if_neg hi] at ha
      rw [if_neg fun h => hi (h.trans hh.size'.symm)] at hb
      obtain ⟨ν, hν, hab⟩ := hh.frames i a b ha hb
      exact ⟨ν, Marking.marks?_grow hgrow (f := ⟨i⟩) hν, hab.grow hgrow⟩
  · have hcontents := hh.contents.imp (fun _ _ hf => hf.grow hgrow) (fun _ _ hf => hf.grow hgrow)
      fun _ _ hp => hp
    exact ⟨hcontents.classes, hcontents.objects, hcontents.arrays⟩

/-- Apart from their scopes the heaps may change in any way that keeps them related. -/
theorem withContents (hh : h.Renamed R w h') {k k' : Heap} (hk : k.frames = h.frames)
    (hk' : k'.frames = h'.frames)
    (hcontents : k.ContentsRelated (Closure.Renamed R w []) (Closure.Renamed R w [false])
      Position.SameLine k') : k.Renamed R w k' := by
  refine ⟨hk ▸ hh.size, ?_, ?_, hh.globals, hcontents⟩
  · rw [hk, hk']
    exact hh.size'
  · rw [hk, hk']
    exact hh.frames

/-- A method with a receiver sees the scope of the receiver around its own. -/
theorem bind (hh : h.Renamed R w h') {c d : Closure} (hcd : c.Renamed R w [false] d) (receiver : ObjectId) :
    ∃ w', w <+: w' ∧ (h.bind c receiver).1.Renamed R w' [] (h'.bind d receiver).1 ∧
      (h.bind c receiver).2.Renamed R w' (h'.bind d receiver).2 := by
  obtain ⟨μ, hμ, hdeclaration⟩ := hcd.declaration
  have hbindings : Bindings.Renamed R w false [(thisName, .object receiver)]
      [(thisName, .object receiver)] := .cons ⟨Renaming.name_false.symm, nofun, .data trivial⟩ .nil
  obtain ⟨hid, hnew, hheap⟩ := hh.newFrame hμ false hbindings
  refine ⟨w ++ [false :: μ], List.prefix_append _ _, ?_⟩
  unfold Heap.bind
  rw [← hcd.frame]
  exact ⟨⟨hid, hcd.isInitializer, false :: μ, hnew, hdeclaration⟩, hheap⟩

/-! ### What programs see of values -/

theorem sameClosure (hh : h.Renamed R w h') {c c' d d' : Closure} (hc : c.Renamed R w [] c')
    (hd : d.Renamed R w [] d') : Value.sameClosure h c d = Value.sameClosure h' c' d' := by
  obtain ⟨_, _, hdeclaration⟩ := hc.declaration
  obtain ⟨_, _, hdeclaration'⟩ := hd.declaration
  have hthis := hh.ownValue?_fixed R.old_plain.1.symm R.new_plain.1.symm
  unfold Value.sameClosure
  rw [hdeclaration.id, hdeclaration'.id, hc.frame, hd.frame, hh.parent?, hh.parent?,
    ContentsRelated.sameObject (hthis c'.frame) (hthis d'.frame)]

/-- Equality does not tell values apart that differ by a renaming. -/
theorem equalAgrees (hh : h.Renamed R w h') :
    Value.EqualAgrees (Closure.Renamed R w []) Position.SameLine h h' :=
  ContentsRelated.equalAgrees fun _ _ _ _ hc hd => hh.sameClosure hc hd

/-- Values that differ by a renaming print as the same text: the text of a function shows the name of its
declaration, which is kept. -/
theorem text (hh : h.Renamed R w h') (hvu : v.Renamed R w u) : v.text h = u.text h' := by
  refine hh.contents.text (fun c d hcd => ?_) hvu
  obtain ⟨_, _, hdeclaration⟩ := hcd.declaration
  exact hdeclaration.name.name

end Heap.Renamed

/-! ### Further nodes -/

section Within

variable {R R' : Renaming} {w : Marking} (hR : R.Within R')

include hR

theorem Closure.Renamed.within {inner : Marks} {f g : Closure} (h : f.Renamed R w inner g) :
    f.Renamed R' w inner g := by
  obtain ⟨μ, hμ, hdeclaration⟩ := h.declaration
  exact ⟨h.frame, h.isInitializer, μ, hμ, hdeclaration.within hR⟩

theorem Frame.Renamed.within {μ : Marks} {f g : Frame} (h : f.Renamed R w μ g) : f.Renamed R' w μ g :=
  ⟨h.bindings.imp fun _ _ he =>
    ⟨he.1.trans (hR.name _).symm, hR.free he.2.1, he.2.2.imp (fun _ _ hfg => hfg.within hR) fun _ _ hp => hp⟩,
    h.parent, h.outer⟩

/-- Heaps that differ by a renaming still do when there are further nodes. -/
theorem Heap.Renamed.within {h h' : Heap} (hh : h.Renamed R w h') : h.Renamed R' w h' := by
  refine ⟨hh.size, hh.size', fun i f g hf hg => ?_, hh.globals,
    hh.contents.imp (fun _ _ hfg => hfg.within hR) (fun _ _ hfg => hfg.within hR) fun _ _ hp => hp⟩
  obtain ⟨μ, hμ, hfg⟩ := hh.frames i f g hf hg
  exact ⟨μ, hμ, hfg.within hR⟩

end Within

end LoxLang

import LoxLang.Proofs.Heap.Founded
import LoxLang.Proofs.Scope.Walk
import Mathlib.Logic.Relation
import Mathlib.Order.Bounds.Defs

/-!
The two ways to a variable: by its name, through a scope and those around it, and by its name and a
distance, in the one scope that many steps outwards. In every tree of scopes, however it was built, both
ways lead to the same place if the distance is the least at which the name is bound; where it is bound at
none, both fail.
-/

namespace LoxLang

namespace Heap

variable {h h' : Heap} {f g : FrameId} {x : String} {v : Value} {owner : Option FrameId}

/-! ### Trees of scopes -/

/-- What is done to a tree of scopes, one thing at a time. An assignment that fails leaves the tree as it
is. -/
inductive ScopeStep : Heap → Heap → Prop where
  | root {h : Heap} : ScopeStep h (h.newFrame none []).2
  | child {h : Heap} (outer : FrameId) (houter : outer.index < h.frames.size) :
    ScopeStep h (h.newFrame (some outer) []).2
  | define {h : Heap} (f : FrameId) (x : String) (v : Value) : ScopeStep h (h.define f x v)
  | assign {h : Heap} (f : FrameId) (x : String) (v : Value) : ScopeStep h ((h.assign? f x v).getD h)
  | assignAt {h : Heap} (f : FrameId) (hops : Nat) (x : String) (v : Value) :
    ScopeStep h ((h.assignAt? f hops x v).getD h)

/-- The trees of scopes that can be built from nothing. There may be more than one scope without a parent.
-/
def ScopeTree (h : Heap) : Prop :=
  Relation.ReflTransGen ScopeStep .empty h

namespace Layered

theorem define (hh : h.Layered) (k : FrameId) (x : String) (v : Value) : (h.define k x v).Layered := by
  intro f g hparent
  rw [parent?_define] at hparent
  exact hh f g hparent

theorem newFrame (hh : h.Layered) {parent : Option FrameId}
    (hparent : ∀ g, parent = some g → g.index < h.frames.size) (bindings : Bindings Value) :
    (h.newFrame parent bindings).2.Layered := by
  intro f g hg
  by_cases hf : f.index < h.frames.size
  · rw [parent?, frame?_newFrame parent bindings hf] at hg
    exact hh f g hg
  · have hlt : f.index < h.frames.size + 1 := by
      have := lt_of_parent? hg
      simpa [Heap.newFrame] using this
    obtain rfl : f = (h.newFrame parent bindings).1 := by
      obtain ⟨i⟩ := f
      exact congrArg FrameId.mk (by dsimp only at hf hlt; omega)
    rw [parent?, frame?_newFrame_self] at hg
    exact hparent g hg

theorem getD (hh : h.Layered) (target : Option FrameId) (x : String) (v : Value) :
    ((target.map fun k => h.define k x v).getD h).Layered := by
  cases target with
  | none => exact hh
  | some k => exact hh.define k x v

end Layered

theorem ScopeStep.layered (hstep : ScopeStep h h') (hh : h.Layered) : h'.Layered := by
  cases hstep with
  | root => exact hh.newFrame (fun _ hg => by cases hg) []
  | child outer houter => exact hh.newFrame (fun _ hg => Option.some.inj hg ▸ houter) []
  | define k y w => exact hh.define k y w
  | assign k y w =>
    rw [assign?_eq]
    exact hh.getD _ y w
  | assignAt k hops y w =>
    rw [assignAt?_eq]
    exact hh.getD _ y w

/-- In such a tree the parent of a scope is older than the scope. -/
theorem ScopeTree.layered (hh : h.ScopeTree) : h.Layered := by
  induction hh with
  | refl =>
    intro f g hparent
    exact absurd (lt_of_parent? hparent) (Nat.not_lt_zero _)
  | tail _ hlast ih => exact hlast.layered ih

/-! ### Distances -/

/-- The scope a number of steps outwards binds the name. -/
def BindsAt (h : Heap) (f : FrameId) (x : String) (hops : Nat) : Prop :=
  ∃ g, h.ancestor? f hops = some g ∧ (h.ownValue? g x).isSome

theorem bindsAt_succ {hops : Nat} :
    h.BindsAt f x (hops + 1) ↔ ∃ g, h.parent? f = some g ∧ h.BindsAt g x hops := by
  unfold BindsAt
  rw [ancestor?]
  cases h.parent? f with
  | none => simp
  | some g => simp

theorem not_bindsAt_zero (hbound : ¬(h.ownValue? f x).isSome) : ¬h.BindsAt f x 0 := by
  rintro ⟨g, hg, hown⟩
  cases hg
  exact hbound hown

/-- The search by name finds the scope at the least distance that binds the name. -/
theorem Finds.nearest (hfinds : h.Finds x f owner) (howner : owner = some g) :
    ∃ k, h.ancestor? f k = some g ∧ (h.ownValue? g x).isSome ∧ ∀ j < k, ¬h.BindsAt f x j := by
  induction hfinds with
  | here hbound =>
    obtain rfl := Option.some.inj howner
    exact ⟨0, rfl, hbound, fun j hj => absurd hj (Nat.not_lt_zero j)⟩
  | @outside f outer owner hbound hparent _ ih =>
    obtain ⟨k, hancestor, hown, hleast⟩ := ih howner
    refine ⟨k + 1, ?_, hown, fun j hj => ?_⟩
    · rw [ancestor?, hparent]
      exact hancestor
    · cases j with
      | zero => exact not_bindsAt_zero hbound
      | succ j =>
        rw [bindsAt_succ]
        rintro ⟨g, hg, hbinds⟩
        obtain rfl := Option.some.inj (hparent.symm.trans hg)
        exact hleast j (Nat.lt_of_succ_lt_succ hj) hbinds
  | nowhere => cases howner

theorem Finds.unbound (hfinds : h.Finds x f owner) (howner : owner = none) (hops : Nat) :
    ¬h.BindsAt f x hops := by
  induction hfinds generalizing hops with
  | here => cases howner
  | outside hbound hparent _ ih =>
    cases hops with
    | zero => exact not_bindsAt_zero hbound
    | succ hops =>
      rw [bindsAt_succ]
      rintro ⟨g, hg, hbinds⟩
      obtain rfl := Option.some.inj (hparent.symm.trans hg)
      exact ih howner hops hbinds
  | nowhere hbound hparent =>
    cases hops with
    | zero => exact not_bindsAt_zero hbound
    | succ hops =>
      rw [bindsAt_succ]
      rintro ⟨g, hg, -⟩
      cases hparent.symm.trans hg

/-- The scope that a search by name finds is the one at the least distance that binds the name. -/
theorem owner?_of_isLeast (hh : h.Layered) (hf : f.index < h.frames.size) {k : Nat}
    (hk : IsLeast {d | h.BindsAt f x d} k) :
    ∃ g, h.owner? f x = some g ∧ h.ancestor? f k = some g ∧ (h.ownValue? g x).isSome := by
  have hfinds : h.Finds x f (h.owner? f x) := hh.finds_within x hf
  cases howner : h.owner? f x with
  | none => exact absurd hk.1 (hfinds.unbound howner k)
  | some g =>
    obtain ⟨j, hancestor, hown, hleast⟩ := hfinds.nearest howner
    have hkj : k ≤ j := hk.2 ⟨g, hancestor, hown⟩
    obtain rfl : j = k := Nat.le_antisymm (Nat.le_of_not_lt fun hlt => hleast k hlt hk.1) hkj
    exact ⟨g, rfl, hancestor, hown⟩

theorem owner?_eq_none (hh : h.Layered) (hf : f.index < h.frames.size)
    (hnone : ∀ d, ¬h.BindsAt f x d) : h.owner? f x = none := by
  have hfinds : h.Finds x f (h.owner? f x) := hh.finds_within x hf
  cases howner : h.owner? f x with
  | none => rfl
  | some g =>
    obtain ⟨k, hancestor, hown, -⟩ := hfinds.nearest howner
    exact absurd ⟨g, hancestor, hown⟩ (hnone k)

/-- Where a name is not bound at a distance, nothing is found there and nothing can be assigned there. -/
theorem at_unbound {hops : Nat} (hunbound : ¬h.BindsAt f x hops) (v : Value) :
    h.getAt? f hops x = none ∧ h.assignAt? f hops x v = none := by
  unfold getAt? assignAt?
  cases hancestor : h.ancestor? f hops with
  | none => exact ⟨rfl, rfl⟩
  | some g =>
    have hown : ¬(h.ownValue? g x).isSome := fun hown => hunbound ⟨g, hancestor, hown⟩
    exact ⟨Option.not_isSome_iff_eq_none.mp hown, if_neg hown⟩

/-! ### Changes of one value -/

/-- The second heap differs from the first one in the value that one scope has for one name, and has the new
value there. -/
structure Rebinds (h : Heap) (f : FrameId) (x : String) (v : Value) (h' : Heap) : Prop where
  rest : h' = { h with frames := h'.frames }
  size : h'.frames.size = h.frames.size
  parent : ∀ g, h'.parent? g = h.parent? g
  value : ∀ g y, h'.ownValue? g y = if g = f ∧ y = x then some v else h.ownValue? g y

theorem rebinds_define (hbound : (h.ownValue? f x).isSome) (v : Value) :
    h.Rebinds f x v (h.define f x v) where
  rest := rfl
  size := by simp [define]
  parent g := parent?_define h f g x v
  value _ _ := ownValue?_define (lt_of_ownValue? hbound)

end Heap

/-! ### Both ways -/

/-- Changes the value of a variable, looked for outwards from the current scope. -/
def Exec.assignOutwards (reference : Reference) (v : Value) : Exec Unit := do
  let m ← get
  match m.heap.assign? m.current reference.ident.name v with
  | some heap => set { m with heap := heap }
  | none => fail reference.ident.position (.undefinedVariable reference.ident.name)

/-- The computation fails for want of the variable, and leaves the state as it is. -/
def Exec.Misses {α : Type} (x : Exec α) (reference : Reference) (m : Machine) : Prop :=
  x.run m =
    .error (.failed ⟨reference.ident.position, .runtime (.undefinedVariable reference.ident.name), none⟩) m

namespace Exec

variable {m : Machine} {r : Reference} {v : Value}

theorem readOutwards_misses (hnone : m.heap.get? m.current r.ident.name = none) :
    Misses (readOutwards r) r m := by
  simp only [Misses, readOutwards, EStateM.run_bind, EStateM.run_get, hnone]
  rfl

theorem assignOutwards_misses (hnone : m.heap.assign? m.current r.ident.name v = none) :
    Misses (assignOutwards r v) r m := by
  simp only [Misses, assignOutwards, EStateM.run_bind, EStateM.run_get, hnone]
  rfl

theorem read_misses (hnone : lookUp? m r = none) : Misses (read r) r m := by
  simp only [Misses, read, EStateM.run_bind, EStateM.run_get, hnone]
  rfl

theorem assign_misses (hnone : reassign? m r v = none) : Misses (assign r v) r m := by
  simp only [Misses, assign, EStateM.run_bind, EStateM.run_get, hnone]
  rfl

end Exec

/-- In every tree of scopes, a name that is bound somewhere around a scope has the same value when it is
looked for outwards and when it is looked up at the least distance at which it is bound; and an assignment
either way gives the same tree, in which only that value has changed. A name that is bound nowhere around
the scope is found at no distance and not by looking for it either, and reading it or assigning to it fails
and changes nothing. -/
theorem access_paths_agree {h : Heap} (hh : h.ScopeTree) {f : FrameId} (hf : f.index < h.frames.size)
    (x : String) (v : Value) :
    (∀ k, IsLeast {d | h.BindsAt f x d} k →
      ∃ g w h', h.ancestor? f k = some g ∧ h.get? f x = some w ∧ h.getAt? f k x = some w ∧
        h.assign? f x v = some h' ∧ h.assignAt? f k x v = some h' ∧ h.Rebinds g x v h') ∧
      ((∀ d, ¬h.BindsAt f x d) →
        h.get? f x = none ∧ h.assign? f x v = none ∧
          (∀ d, h.getAt? f d x = none ∧ h.assignAt? f d x v = none) ∧
          ∀ m r, m.heap = h → m.current = f → r.ident.name = x →
            (Exec.readOutwards r).Misses r m ∧ (Exec.assignOutwards r v).Misses r m ∧
              ((m.hops.find? r.id).isSome ∨ f = .globals →
                (Exec.read r).Misses r m ∧ (Exec.assign r v).Misses r m)) := by
  constructor
  · intro k hk
    obtain ⟨g, howner, hancestor, hown⟩ := Heap.owner?_of_isLeast hh.layered hf hk
    obtain ⟨w, hw⟩ := Option.isSome_iff_exists.mp hown
    refine ⟨g, w, h.define g x v, hancestor, ?_, ?_, ?_, ?_, Heap.rebinds_define hown v⟩
    · rw [Heap.get?, howner, Option.bind_some, hw]
    · rw [Heap.getAt?, hancestor, Option.bind_some, hw]
    · rw [Heap.assign?, howner]
    · rw [Heap.assignAt?, hancestor]
      dsimp only
      rw [if_pos hown]
  · intro hnone
    have howner := Heap.owner?_eq_none hh.layered hf hnone
    have hget : h.get? f x = none := by rw [Heap.get?, howner, Option.bind_none]
    have hassign : h.assign? f x v = none := by rw [Heap.assign?, howner]
    have hat : ∀ d, h.getAt? f d x = none ∧ h.assignAt? f d x v = none := fun d => Heap.at_unbound (hnone d) v
    refine ⟨hget, hassign, hat, ?_⟩
    rintro m r rfl rfl rfl
    refine ⟨Exec.readOutwards_misses hget, Exec.assignOutwards_misses hassign, fun hreach => ?_⟩
    cases hhops : m.hops.find? r.id with
    | some d =>
      refine ⟨Exec.read_misses ?_, Exec.assign_misses ?_⟩
      · rw [Exec.lookUp?, hhops]
        exact (hat d).1
      · rw [Exec.reassign?, hhops]
        exact (hat d).2
    | none =>
      have hglobals : m.current = .globals := by simpa [hhops] using hreach
      refine ⟨Exec.read_misses ?_, Exec.assign_misses ?_⟩
      · rw [Exec.lookUp?, hhops, ← hglobals]
        exact hget
      · rw [Exec.reassign?, hhops, ← hglobals]
        exact hassign

/-- An empty scope inside two that bind the same name. -/
def shadowedScopes : Heap :=
  let outer := (Heap.empty.newFrame none []).2.define ⟨0⟩ "x" (.int 1)
  let inner := (outer.newFrame (some ⟨0⟩) []).2.define ⟨1⟩ "x" (.int 2)
  (inner.newFrame (some ⟨1⟩) []).2

/-- The nearer one of the two is found and changed; a name that none of them binds is found at no distance.
-/
theorem access_paths_agree_shadowed :
    shadowedScopes.ScopeTree ∧ (⟨2⟩ : FrameId).index < shadowedScopes.frames.size ∧
      (∃ g w h', shadowedScopes.ancestor? ⟨2⟩ 1 = some g ∧ shadowedScopes.get? ⟨2⟩ "x" = some w ∧
        shadowedScopes.getAt? ⟨2⟩ 1 "x" = some w ∧ shadowedScopes.assign? ⟨2⟩ "x" .nil = some h' ∧
        shadowedScopes.assignAt? ⟨2⟩ 1 "x" .nil = some h' ∧ shadowedScopes.Rebinds g "x" .nil h') ∧
      shadowedScopes.get? ⟨2⟩ "y" = none ∧ ∀ d, shadowedScopes.getAt? ⟨2⟩ d "y" = none := by
  have htree : shadowedScopes.ScopeTree :=
    .tail (.tail (.tail (.tail (.tail .refl .root) (.define ⟨0⟩ "x" (.int 1))) (.child ⟨0⟩ (by decide)))
      (.define ⟨1⟩ "x" (.int 2))) (.child ⟨1⟩ (by decide))
  have hlt : (⟨2⟩ : FrameId).index < shadowedScopes.frames.size := by decide
  have hleast : IsLeast {d | shadowedScopes.BindsAt ⟨2⟩ "x" d} 1 := by
    refine ⟨⟨⟨1⟩, rfl, rfl⟩, fun d hd => Nat.pos_of_ne_zero ?_⟩
    rintro rfl
    exact Heap.not_bindsAt_zero (by decide) hd
  have hunbound : ∀ d, ¬shadowedScopes.BindsAt ⟨2⟩ "y" d := by
    rintro (_ | _ | _ | d) ⟨g, hg, hown⟩ <;> cases hg <;> cases hown
  have hmissing := (access_paths_agree htree hlt "y" .nil).2 hunbound
  exact ⟨htree, hlt, (access_paths_agree htree hlt "x" .nil).1 1 hleast, hmissing.1,
    fun d => (hmissing.2.2.1 d).1⟩

end LoxLang

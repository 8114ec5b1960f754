import LoxLang.Heap.Basic
import LoxLang.Proofs.Syntax.WellFormed

/-!
How the scopes of a heap change. A running program makes new scopes and gives names new values, but the
scopes that are there keep their parents and never lose a name; one that gains a name is the one that code
runs in. What classes bind to `this` and `super` never changes at all.
-/

namespace LoxLang

theorem Bindings.lookup_put {α : Type} (name key : String) (a : α) (bindings : Bindings α) :
    (bindings.put name a).lookup key = if key = name then some a else bindings.lookup key := by
  induction bindings with
  | nil =>
    by_cases h : key = name
    · simp [put, h]
    · simp [put, List.lookup_cons, beq_false_of_ne h, h]
  | cons entry rest ih =>
    obtain ⟨k, b⟩ := entry
    by_cases hk : k = name
    · subst hk
      by_cases h : key = k
      · simp [put, h]
      · simp [put, List.lookup_cons, beq_false_of_ne h, h]
    · by_cases h : key = k
      · subst h
        simp [put, hk]
      · simp [put, hk, List.lookup_cons, beq_false_of_ne h, ih]

theorem Bindings.forall_put {α : Type} {good : α → Prop} {name : String} {a : α}
    {bindings : Bindings α} (h : ∀ b ∈ bindings, good b.2) (ha : good a) :
    ∀ b ∈ bindings.put name a, good b.2 := by
  induction bindings with
  | nil => simpa [put] using ha
  | cons entry rest ih =>
    obtain ⟨k, b⟩ := entry
    have hrest := ih fun b hb => h b (List.mem_cons_of_mem _ hb)
    have hb := h (k, b) List.mem_cons_self
    intro c hc
    unfold put at hc
    split at hc
    · rcases List.mem_cons.mp hc with rfl | hc
      · exact ha
      · exact h c (List.mem_cons_of_mem _ hc)
    · rcases List.mem_cons.mp hc with rfl | hc
      · exact hb
      · exact hrest c hc

theorem Bindings.mem_of_lookup {α : Type} {name : String} {a : α} {bindings : Bindings α}
    (ha : bindings.lookup name = some a) : (name, a) ∈ bindings := by
  obtain ⟨before, after, hsplit, _⟩ := List.lookup_eq_some_iff.mp ha
  simp [hsplit]

theorem Bindings.forall_lookup {α : Type} {good : α → Prop} {name : String} {a : α}
    {bindings : Bindings α} (h : ∀ b ∈ bindings, good b.2) (ha : bindings.lookup name = some a) :
    good a :=
  h (name, a) (mem_of_lookup ha)

namespace Heap

variable {h h' h'' : Heap} {f g : FrameId} {name x : String} {v : Value}

/-! ### Scopes -/

theorem frame?_eq_none (hf : ¬f.index < h.frames.size) : h.frame? f = none :=
  Array.getElem?_eq_none (Nat.le_of_not_lt hf)

theorem lt_of_parent? (hparent : h.parent? f = some g) : f.index < h.frames.size := by
  by_cases hf : f.index < h.frames.size
  · exact hf
  · rw [parent?, frame?_eq_none hf] at hparent
    cases hparent

theorem lt_of_ownValue? (hown : (h.ownValue? f x).isSome) : f.index < h.frames.size := by
  by_cases hf : f.index < h.frames.size
  · exact hf
  · rw [ownValue?, frame?_eq_none hf] at hown
    cases hown

theorem frame?_newFrame (parent : Option FrameId) (bindings : Bindings Value)
    (hf : f.index < h.frames.size) : (h.newFrame parent bindings).2.frame? f = h.frame? f := by
  simp only [frame?, newFrame, Array.getElem?_push]
  rw [if_neg (Nat.ne_of_lt hf)]

theorem frame?_newFrame_self (parent : Option FrameId) (bindings : Bindings Value) :
    (h.newFrame parent bindings).2.frame? (h.newFrame parent bindings).1 =
      some ⟨bindings, parent⟩ := by
  simp [frame?, newFrame]

theorem frame?_define (h : Heap) (f g : FrameId) (name : String) (v : Value) :
    (h.define f name v).frame? g = if g = f then (h.frame? g).map
      (fun frame => { frame with bindings := frame.bindings.put name v }) else h.frame? g := by
  simp only [frame?, define, Array.getElem?_modify]
  by_cases hfg : g = f
  · simp [hfg]
  · have hindex : f.index ≠ g.index := by
      intro h
      apply hfg
      cases f
      cases g
      simp_all
    simp [hfg, hindex]

theorem parent?_define (h : Heap) (f g : FrameId) (name : String) (v : Value) :
    (h.define f name v).parent? g = h.parent? g := by
  rw [parent?, parent?, frame?_define]
  split
  · cases h.frame? g <;> rfl
  · rfl

theorem ownValue?_define (hf : f.index < h.frames.size) :
    (h.define f name v).ownValue? g x = if g = f ∧ x = name then some v else h.ownValue? g x := by
  rw [ownValue?, ownValue?, frame?_define]
  by_cases hgf : g = f
  · subst hgf
    obtain ⟨frame, hframe⟩ : ∃ frame, h.frame? g = some frame :=
      ⟨_, Array.getElem?_eq_getElem hf⟩
    simp [hframe, Bindings.lookup_put]
  · simp [hgf]

/-! ### Assignments -/

theorem assign?_eq (h : Heap) (f : FrameId) (x : String) (v : Value) :
    h.assign? f x v = (h.owner? f x).map fun g => h.define g x v := by
  unfold assign?
  cases h.owner? f x <;> rfl

theorem assignAt?_eq (h : Heap) (f : FrameId) (hops : Nat) (x : String) (v : Value) :
    h.assignAt? f hops x v =
      ((h.ancestor? f hops).filter fun g => (h.ownValue? g x).isSome).map fun g => h.define g x v := by
  unfold assignAt?
  cases h.ancestor? f hops with
  | none => rfl
  | some g =>
    dsimp only [Option.filter]
    split <;> rfl

/-! ### Growth -/

/-- Scopes keep their parents and their names, and what `this` and `super` are in them. `f` alone may
gain the given names. -/
structure Grows (f : FrameId) (names : List String) (h h' : Heap) : Prop where
  size : h.frames.size ≤ h'.frames.size
  parent : ∀ g : FrameId, g.index < h.frames.size → h'.parent? g = h.parent? g
  bound : ∀ (g : FrameId) (x : String), g.index < h.frames.size →
    ((h'.ownValue? g x).isSome ↔ (h.ownValue? g x).isSome ∨ g = f ∧ x ∈ names)
  special : ∀ (g : FrameId) (x : String), g.index < h.frames.size → ¬Plain x →
    h'.ownValue? g x = h.ownValue? g x

namespace Grows

variable {names names' : List String}

/-- Nothing changes in the scopes. -/
theorem of_frames (hframes : h'.frames = h.frames) : Grows f [] h h' := by
  have hframe : ∀ g, h'.frame? g = h.frame? g := fun g => by rw [frame?, frame?, hframes]
  have hparent : ∀ g, h'.parent? g = h.parent? g := fun g => by rw [parent?, parent?, hframe]
  have hown : ∀ g x, h'.ownValue? g x = h.ownValue? g x := fun g x => by
    rw [ownValue?, ownValue?, hframe]
  exact ⟨Nat.le_of_eq (by rw [hframes]), fun g _ => hparent g, fun g x _ => by simp [hown], fun g x _ _ => hown g x⟩

theorem trans (h₁ : Grows f names h h') (h₂ : Grows f names' h' h'') :
    Grows f (names ++ names') h h'' := by
  refine ⟨Nat.le_trans h₁.size h₂.size, fun g hg => ?_, fun g x hg => ?_, fun g x hg hx => ?_⟩
  · have hg' := Nat.lt_of_lt_of_le hg h₁.size
    rw [h₂.parent g hg', h₁.parent g hg]
  · have hg' := Nat.lt_of_lt_of_le hg h₁.size
    rw [h₂.bound g x hg', h₁.bound g x hg, List.mem_append, and_or_left, or_assoc]
  · have hg' := Nat.lt_of_lt_of_le hg h₁.size
    rw [h₂.special g x hg' hx, h₁.special g x hg hx]

/-- What a newer scope gains does not show in the older ones. -/
theorem of_newer (h₁ : Grows f names h h') (hg : ¬g.index < h.frames.size)
    (h₂ : Grows g names' h' h'') : Grows f names h h'' := by
  refine ⟨Nat.le_trans h₁.size h₂.size, fun k hk => ?_, fun k x hk => ?_, fun k x hk hx => ?_⟩
  · have hk' := Nat.lt_of_lt_of_le hk h₁.size
    rw [h₂.parent k hk', h₁.parent k hk]
  · have hk' := Nat.lt_of_lt_of_le hk h₁.size
    rw [h₂.bound k x hk', h₁.bound k x hk]
    have hkg : k ≠ g := fun heq => hg (heq ▸ hk)
    simp [hkg]
  · have hk' := Nat.lt_of_lt_of_le hk h₁.size
    rw [h₂.special k x hk' hx, h₁.special k x hk hx]

theorem of_newFrame (parent : Option FrameId) (bindings : Bindings Value) :
    Grows f [] h (h.newFrame parent bindings).2 := by
  refine ⟨?_, fun g hg => ?_, fun g x hg => ?_, fun g x hg _ => ?_⟩
  · simp [newFrame]
  · rw [parent?, parent?, frame?_newFrame _ _ hg]
  · rw [ownValue?, ownValue?, frame?_newFrame _ _ hg]
    simp
  · rw [ownValue?, ownValue?, frame?_newFrame _ _ hg]

theorem of_define (hname : Plain name) : Grows f [name] h (h.define f name v) := by
  by_cases hf : f.index < h.frames.size
  · refine ⟨by simp [define], fun g _ => parent?_define h f g name v, fun g x _ => ?_,
      fun g x _ hx => ?_⟩
    · rw [ownValue?_define hf]
      split
      · simp_all
      · simp_all
    · rw [ownValue?_define hf, if_neg]
      rintro ⟨_, rfl⟩
      exact hx hname
  · have hframe : ∀ g : FrameId, g.index < h.frames.size → (h.define f name v).frame? g = h.frame? g := by
      intro g hg
      rw [frame?_define, if_neg fun heq : g = f => hf (heq ▸ hg)]
    refine ⟨by simp [define], fun g _ => parent?_define h f g name v, fun g x hg => ?_,
      fun g x hg _ => ?_⟩
    · rw [ownValue?, ownValue?, hframe g hg]
      have hgf : g ≠ f := fun heq => hf (heq ▸ hg)
      simp [hgf]
    · rw [ownValue?, ownValue?, hframe g hg]

/-- A name that is bound already is not new. -/
theorem of_redefine (hname : Plain name) (hbound : (h.ownValue? g name).isSome) :
    Grows f [] h (h.define g name v) := by
  have hg := lt_of_ownValue? hbound
  refine ⟨by simp [define], fun k _ => parent?_define h g k name v, fun k x _ => ?_,
    fun k x _ hx => ?_⟩
  · rw [ownValue?_define hg]
    split
    case isTrue heq =>
      obtain ⟨rfl, rfl⟩ := heq
      simp [hbound]
    case isFalse => simp
  · rw [ownValue?_define hg, if_neg]
    rintro ⟨_, rfl⟩
    exact hx hname

end Grows

end Heap

end LoxLang

import LoxLang.Proofs.Session.Passage

/-!
What running code does to the scopes that were there before. None of them loses a name, and only the scope
that the code runs in can gain one: the name that the code itself declares. The value of a name changes by
nothing but assignments to it and declarations of it in its own scope, which are among the parts of the code.
-/

namespace LoxLang

open Exec
open Heap (Changes)

namespace Task

/-- The task comes, over its parts and theirs, to a task that begins in a state. -/
inductive Comes (t : Task) (m : Machine) : Task → Machine → Prop where
  | self : Comes t m t m
  | part {t' m' t'' m''} (h : Comes t m t' m') (hleads : Leads t' m' t'' m'') : Comes t m t'' m''

/-- The task is an assignment, and the variable that it changes is the one of a scope. -/
inductive Assigns : Task → Machine → FrameId → String → Prop where
  | intro {n r e m v m' f} (hrun : (LoxLang.evaluate n e).run m = .ok v m') (hf : target? m' r = some f) :
    Assigns (evaluate (n + 1) (.assign r e)) m f r.ident.name

/-- The task is a declaration of a name that is executed in the name's own scope. -/
inductive Introduces : Task → Machine → FrameId → String → Prop where
  | intro {n s m x} (hs : s.declared? = some x) : Introduces (execute (n + 1) s) m m.current x

/-- The name that the task itself declares, if it executes a declaration. -/
def declared? : Task → Option String
  | execute _ s => s.declared?
  | _ => none

/-- What the task does to the scopes that are there when it begins. -/
structure KeepsScopes (t : Task) (m : Machine) : Prop where
  kept : ∀ f x, (m.heap.ownValue? f x).isSome → ((t.after m).heap.ownValue? f x).isSome
  gained : ∀ f x, f.index < m.heap.frames.size → m.heap.ownValue? f x = none →
    ((t.after m).heap.ownValue? f x).isSome → f = m.current ∧ t.declared? = some x
  changed : ∀ f x v, m.heap.ownValue? f x = some v → (t.after m).heap.ownValue? f x ≠ some v →
    ∃ t' m', t.Comes m t' m' ∧ (t'.Assigns m' f x ∨ t'.Introduces m' f x)

end Task

/-! ### Single changes -/

namespace Heap

variable {R : Task → Machine → Prop} {h h' : Heap} {f : FrameId} {x : String}

theorem ownValue?_of_frames (hframes : h'.frames = h.frames) : h'.ownValue? f x = h.ownValue? f x := by
  rw [ownValue?, ownValue?, frame?, frame?, hframes]

/-- A change gives a value to no name of an older scope unless it is one of an assignment, to a name that is
bound, or of a declaration. -/
theorem Change.ownValue? (hc : Change R h h') (hf : f.index < h.frames.size) :
    h'.ownValue? f x = h.ownValue? f x ∨ (h'.ownValue? f x).isSome ∧ ∃ t m, R t m ∧
      (t.Assigns m f x ∧ (h.ownValue? f x).isSome ∨ t.Introduces m f x) := by
  cases hc with
  | arrays hheap =>
    rw [hheap]
    exact .inl (ownValue?_of_frames rfl)
  | setField => exact .inl (ownValue?_of_frames rfl)
  | newObject => exact .inl (ownValue?_of_frames rfl)
  | newFrame => exact .inl (Machine.Kept.ownValue?_newFrame h _ _ hf x)
  | newClass => exact .inl (ownValue?_of_frames rfl)
  | @declare n s m _ y v htask hs hv =>
    by_cases hcurrent : f = m.current
    · subst hcurrent
      rw [ownValue?_define hf]
      by_cases hx : x = y
      · subst hx
        rw [if_pos ⟨rfl, rfl⟩]
        exact .inr ⟨rfl, _, m, htask, .inr (.intro hs)⟩
      · rw [if_neg fun h => hx h.2]
        exact .inl rfl
    · rw [Heap.ownValue?, frame?_define, if_neg hcurrent]
      exact .inl rfl
  | @assign n r e m v m' g htask hrun hg hv =>
    have hbound := target?_binds hg
    rw [ownValue?_define (lt_of_ownValue? hbound)]
    by_cases hslot : f = g ∧ x = r.ident.name
    · rw [if_pos hslot]
      obtain ⟨rfl, rfl⟩ := hslot
      exact .inr ⟨rfl, _, m, htask, .inl ⟨.intro hrun hg, hbound⟩⟩
    · rw [if_neg hslot]
      exact .inl rfl

namespace Changes

theorem kept (hc : Changes R h h') (hx : (h.ownValue? f x).isSome) : (h'.ownValue? f x).isSome := by
  induction hc with
  | refl => exact hx
  | @tail h₁ h₂ _ hlast ih =>
    rcases hlast.ownValue? (x := x) (lt_of_ownValue? ih) with hsame | ⟨hbound, -⟩
    · rwa [hsame]
    · exact hbound

/-- A name that an older scope gains is one that is declared in it. -/
theorem gained (hc : Changes R h h') (hf : f.index < h.frames.size) (hx : h.ownValue? f x = none)
    (hx' : (h'.ownValue? f x).isSome) : ∃ t m, R t m ∧ t.Introduces m f x := by
  induction hc with
  | refl =>
    rw [hx] at hx'
    cases hx'
  | @tail h₁ h₂ hfirst hlast ih =>
    by_cases hbound : (h₁.ownValue? f x).isSome
    · exact ih hbound
    · rcases hlast.ownValue? (x := x) (Nat.lt_of_lt_of_le hf (Changes.extends hfirst).frames) with
        hsame | ⟨-, t, m, hR, ⟨-, hbound'⟩ | hdeclares⟩
      · rw [hsame] at hx'
        exact absurd hx' hbound
      · exact absurd hbound' hbound
      · exact ⟨t, m, hR, hdeclares⟩

/-- A value that changes is one of an assignment or a declaration. -/
theorem changed (hc : Changes R h h') {v : Value} (hx : h.ownValue? f x = some v)
    (hx' : h'.ownValue? f x ≠ some v) : ∃ t m, R t m ∧ (t.Assigns m f x ∨ t.Introduces m f x) := by
  induction hc with
  | refl => exact absurd hx hx'
  | @tail h₁ h₂ hfirst hlast ih =>
    by_cases hsame₁ : h₁.ownValue? f x = some v
    · have hf : f.index < h₁.frames.size := lt_of_ownValue? (by rw [hsame₁]; rfl)
      rcases hlast.ownValue? (x := x) hf with hsame | ⟨-, t, m, hR, ⟨hassigns, -⟩ | hdeclares⟩
      · rw [hsame] at hx'
        exact absurd hsame₁ hx'
      · exact ⟨t, m, hR, .inl hassigns⟩
      · exact ⟨t, m, hR, .inr hdeclares⟩
    · exact ih hsame₁

end Changes

end Heap

/-! ### Parts of tasks -/

namespace Task

variable {t t' : Task} {m m' : Machine}

/-- The task is no list of statements, and it declares nothing itself. -/
def Quiet (t : Task) : Prop :=
  t.declared? = none ∧ ∀ n body, t ≠ executeAll n body

theorem comes_closed (t : Task) (m : Machine) : Leads.Closed (t.Comes m) :=
  fun h hleads => h.part hleads

/-- The parts of anything but a list of statements are quiet, except for lists in new scopes. -/
theorem quiet_of_leads (hleads : Leads t m t' m') (hcode : t.WellFormed)
    (ht : ∀ n body, t ≠ executeAll n body) : t'.Quiet ∨ m.heap.frames.size ≤ m'.current.index := by
  have hbranch : ∀ {n s}, s.declared? = none → (execute n s).Quiet := fun hs => ⟨hs, by simp⟩
  cases hleads with
  | body => exact .inr (Nat.le_refl _)
  | block => exact .inr (Nat.le_refl _)
  | ifThen => exact .inl (hbranch hcode.2.1)
  | ifElseThen => exact .inl (hbranch hcode.2.1.1)
  | ifElseElse => exact .inl (hbranch hcode.2.2.1)
  | @loopBody _ _ _ increment =>
    cases increment with
    | none => exact .inl (hbranch hcode.2.1)
    | some e => exact .inl (hbranch hcode.2.1.1)
  | first => exact absurd rfl (ht _ _)
  | next => exact absurd rfl (ht _ _)
  | _ => exact .inl ⟨rfl, by simp⟩

/-- What a task comes to is passed on the way to its end. In the scopes that were there before, it is the
task itself or quiet. -/
theorem Comes.passed (h : t.Comes m t' m') (ht : t.Prepared m) (hsingle : ∀ n body, t ≠ executeAll n body) :
    t'.Passed (t.Comes m) m' m (t.after m) ∧
      ((t' = t ∧ m' = m) ∨ t'.Quiet ∨ m.heap.frames.size ≤ m'.current.index) := by
  induction h with
  | self =>
    have hafter := (ht.course (t.comes_closed m) .self).1
    exact ⟨⟨ht, .inl rfl, .refl, .refl⟩, .inl ⟨rfl, rfl⟩⟩
  | @part t₁ m₁ t₂ m₂ hcomes hleads ih =>
    obtain ⟨hpassed, hlevel⟩ := ih
    have hpart := (hpassed.prepared.course (t.comes_closed m) hcomes).2 t₂ m₂ hleads
    refine ⟨hpassed.leads (t.comes_closed m) hcomes hleads, .inr ?_⟩
    by_cases hnew : m.heap.frames.size ≤ m₁.current.index
    · rcases hpart.scope with hsame | hnewer
      · exact .inr (hsame ▸ hnew)
      · exact .inr (Nat.le_trans hpassed.before.extends.frames hnewer)
    · have hlist : ∀ n body, t₁ ≠ executeAll n body := by
        rcases hlevel with ⟨rfl, -⟩ | hquiet | hnew'
        · exact hsingle
        · exact hquiet.2
        · exact absurd hnew' hnew
      rcases quiet_of_leads hleads hpassed.prepared.code hlist with hquiet | hnewer
      · exact .inl hquiet
      · exact .inr (Nat.le_trans hpassed.before.extends.frames hnewer)

/-- A task that is prepared keeps the scopes that are there, unless it is a list of statements. -/
theorem Prepared.keepsScopes (ht : t.Prepared m) (hsingle : ∀ n body, t ≠ executeAll n body) :
    t.KeepsScopes m := by
  have hchanges := (ht.course (t.comes_closed m) .self).1.changes
  constructor
  case kept => exact fun f x hx => hchanges.kept hx
  case gained =>
    intro f x hf hx hx'
    obtain ⟨t', m', hcomes, hdeclares⟩ := hchanges.gained hf hx hx'
    obtain ⟨hpassed, hlevel⟩ := hcomes.passed ht hsingle
    cases hdeclares with
    | intro hs =>
      rcases hlevel with ⟨rfl, rfl⟩ | hquiet | hnew
      · exact ⟨rfl, hs⟩
      · exact absurd (hs.symm.trans hquiet.1) (by simp)
      · exact absurd hf (Nat.not_lt.mpr hnew)
  case changed => exact fun f x v hx hx' => hchanges.changed hx hx'

end Task

/-- An assignment to a variable that is not bound changes nothing. -/
theorem assign_unbound {n : Nat} {r : Reference} {e : Expr} {m m' : Machine} {v : Value}
    (hrun : (evaluate n e).run m = .ok v m') (hunbound : target? m' r = none) :
    (evaluate (n + 1) (.assign r e)).run m = .error
      (.failed ⟨r.ident.position, .runtime (.undefinedVariable r.ident.name), none⟩) m' := by
  have hassign : (assign r v).run m' = .error
      (.failed ⟨r.ident.position, .runtime (.undefinedVariable r.ident.name), none⟩) m' := by
    unfold assign
    rw [EStateM.run_bind, EStateM.run_get]
    dsimp only
    rw [reassign?_eq, hunbound]
    rfl
  rw [evaluate, EStateM.run_bind, hrun]
  dsimp only
  rw [EStateM.run_bind, hassign]

/-- Scopes do not leak, whatever expression or statement is run at whatever point of a session, and however
it ends. -/
theorem scopes_do_not_leak (files : Files) (includeDir : Option String) (input : List InputLine)
    (clock : Clock) (regex : Pattern.Engine) (events : List Session.Event) :
    let s := Session.new files includeDir input clock regex
    (∀ fuel e m, s.Does events (.evaluate fuel e) m → (Task.evaluate fuel e).KeepsScopes m) ∧
      (∀ fuel stmt m, s.Does events (.execute fuel stmt) m → (Task.execute fuel stmt).KeepsScopes m) ∧
        ∀ fuel r e m v m', s.Does events (.evaluate (fuel + 1) (.assign r e)) m →
          (evaluate fuel e).run m = .ok v m' → target? m' r = none →
            (evaluate (fuel + 1) (.assign r e)).run m = .error
              (.failed ⟨r.ident.position, .runtime (.undefinedVariable r.ident.name), none⟩) m' := by
  intro s
  have hs := Session.new_intact files includeDir input clock regex
  have hpassed := (Session.follow_course hs (s.does_closed events) fun _ _ ht => ht).2
  refine ⟨fun fuel e m ht => ?_, fun fuel stmt m ht => ?_, fun fuel r e m v m' _ => assign_unbound⟩
  · exact (hpassed _ m ht).prepared.keepsScopes (by simp)
  · exact (hpassed _ m ht).prepared.keepsScopes (by simp)

end LoxLang

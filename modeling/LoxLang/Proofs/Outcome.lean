import LoxLang.Machine

/-!
What holds of the outcome of a computation that changes a state and may fail, and of the outcomes of two
computations side by side. Each statement is about one run from one state, so the facts that hold at its
beginning are ordinary hypotheses; the rules for sequences hand the state in between to the second part.
-/

namespace LoxLang

variable {ε σ α β : Type}

/-- The computation ends in a value and a state as `value` says, or in a fault and a state as `fault`
says. -/
def Ends (x : EStateM ε σ α) (s : σ) (value : α → σ → Prop) (fault : ε → σ → Prop) : Prop :=
  match x.run s with
  | .ok a s' => value a s'
  | .error e s' => fault e s'

namespace Ends

variable {x : EStateM ε σ α} {f : α → EStateM ε σ β} {s : σ}
  {value : α → σ → Prop} {value' : β → σ → Prop} {fault : ε → σ → Prop}

theorem pure {a : α} (h : value a s) : Ends (Pure.pure a) s value fault := h

theorem throw {e : ε} (h : fault e s) : Ends (throw e : EStateM ε σ α) s value fault := h

/-- The second part may use how the first one has run. -/
theorem bind_run (hx : Ends x s value fault)
    (hf : ∀ a s', x.run s = .ok a s' → value a s' → Ends (f a) s' value' fault) :
    Ends (x >>= f) s value' fault := by
  unfold Ends at hx ⊢
  rw [EStateM.run_bind]
  cases hrun : x.run s with
  | ok a s' =>
    rw [hrun] at hx
    exact hf a s' hrun hx
  | error e s' =>
    rw [hrun] at hx
    exact hx

theorem bind (hx : Ends x s value fault)
    (hf : ∀ a s', value a s' → Ends (f a) s' value' fault) : Ends (x >>= f) s value' fault :=
  hx.bind_run fun a s' _ => hf a s'

theorem imp {value₂ : α → σ → Prop} {fault₂ : ε → σ → Prop} (hx : Ends x s value fault)
    (hvalue : ∀ a s', value a s' → value₂ a s') (hfault : ∀ e s', fault e s' → fault₂ e s') :
    Ends x s value₂ fault₂ := by
  unfold Ends at hx ⊢
  cases hrun : x.run s with
  | ok a s' =>
    rw [hrun] at hx
    exact hvalue a s' hx
  | error e s' =>
    rw [hrun] at hx
    exact hfault e s' hx

/-- What is known of an outcome in two ways. -/
theorem both {value₂ : α → σ → Prop} {fault₂ : ε → σ → Prop} (hx : Ends x s value fault)
    (hx₂ : Ends x s value₂ fault₂) :
    Ends x s (fun a s' => value a s' ∧ value₂ a s') (fun e s' => fault e s' ∧ fault₂ e s') := by
  unfold Ends at hx hx₂ ⊢
  cases hrun : x.run s with
  | ok a s' =>
    rw [hrun] at hx hx₂
    exact ⟨hx, hx₂⟩
  | error e s' =>
    rw [hrun] at hx hx₂
    exact ⟨hx, hx₂⟩

/-- Reading the state hands it on. -/
theorem get_bind {f : σ → EStateM ε σ β} (h : Ends (f s) s value' fault) :
    Ends (get >>= f) s value' fault := h

theorem set_bind {s' : σ} {f : PUnit → EStateM ε σ β} (h : Ends (f ⟨⟩) s' value' fault) :
    Ends (set s' >>= f) s value' fault := h

theorem modify_bind {u : σ → σ} {f : PUnit → EStateM ε σ β} (h : Ends (f ⟨⟩) (u s) value' fault) :
    Ends (modify u >>= f) s value' fault := h

theorem of_modify {u : σ → σ} {value : PUnit → σ → Prop} (h : value ⟨⟩ (u s)) :
    Ends (modify u) s value fault := h

end Ends

variable {ε' τ α' β' : Type}

/-- Two computations both end in values or both in faults, related as `value` and `fault` say. -/
def Agree (x : EStateM ε σ α) (y : EStateM ε' τ α') (s : σ) (t : τ)
    (value : α → σ → α' → τ → Prop) (fault : ε → σ → ε' → τ → Prop) : Prop :=
  match x.run s, y.run t with
  | .ok a s', .ok b t' => value a s' b t'
  | .error e s', .error e' t' => fault e s' e' t'
  | _, _ => False

namespace Agree

variable {x : EStateM ε σ α} {y : EStateM ε' τ α'} {f : α → EStateM ε σ β} {g : α' → EStateM ε' τ β'}
  {s : σ} {t : τ} {value : α → σ → α' → τ → Prop} {value' : β → σ → β' → τ → Prop}
  {fault : ε → σ → ε' → τ → Prop}

theorem pure {a : α} {b : α'} (h : value a s b t) :
    Agree (Pure.pure a) (Pure.pure b) s t value fault := h

theorem throw {e : ε} {e' : ε'} (h : fault e s e' t) :
    Agree (throw e : EStateM ε σ α) (throw e' : EStateM ε' τ α') s t value fault := h

/-- How two computations that agree have run. -/
theorem runs (hx : Agree x y s t value fault) :
    (∃ a s' b t', x.run s = .ok a s' ∧ y.run t = .ok b t' ∧ value a s' b t') ∨
      ∃ e s' e' t', x.run s = .error e s' ∧ y.run t = .error e' t' ∧ fault e s' e' t' := by
  unfold Agree at hx
  split at hx
  · next a s' b t' hrun hrun' => exact .inl ⟨a, s', b, t', hrun, hrun', hx⟩
  · next e s' e' t' hrun hrun' => exact .inr ⟨e, s', e', t', hrun, hrun', hx⟩
  · exact hx.elim

/-- The second computation ends in a value if the first one does. -/
theorem run_of_ok (hx : Agree x y s t value fault) {a : α} {s' : σ} (hrun : x.run s = .ok a s') :
    ∃ b t', y.run t = .ok b t' ∧ value a s' b t' := by
  obtain ⟨_, _, b, t', hx, hy, h⟩ | ⟨_, _, _, _, hx, -, -⟩ := hx.runs
  · cases hrun.symm.trans hx
    exact ⟨b, t', hy, h⟩
  · cases hrun.symm.trans hx

/-- The second computation ends in a fault if the first one does. -/
theorem run_of_error (hx : Agree x y s t value fault) {e : ε} {s' : σ} (hrun : x.run s = .error e s') :
    ∃ e' t', y.run t = .error e' t' ∧ fault e s' e' t' := by
  obtain ⟨_, _, _, _, hx, -, -⟩ | ⟨_, _, e', t', hx, hy, h⟩ := hx.runs
  · cases hrun.symm.trans hx
  · cases hrun.symm.trans hx
    exact ⟨e', t', hy, h⟩

theorem of_ok {a : α} {s' : σ} {b : α'} {t' : τ} (hrun : x.run s = .ok a s') (hrun' : y.run t = .ok b t')
    (h : value a s' b t') : Agree x y s t value fault := by
  unfold Agree
  rw [hrun, hrun']
  exact h

theorem of_error {e : ε} {s' : σ} {e' : ε'} {t' : τ} (hrun : x.run s = .error e s')
    (hrun' : y.run t = .error e' t') (h : fault e s' e' t') : Agree x y s t value fault := by
  unfold Agree
  rw [hrun, hrun']
  exact h

/-- The second parts may use how the first ones have run. -/
theorem bind_run (hx : Agree x y s t value fault)
    (hf : ∀ a s' b t', x.run s = .ok a s' → y.run t = .ok b t' → value a s' b t' →
      Agree (f a) (g b) s' t' value' fault) : Agree (x >>= f) (y >>= g) s t value' fault := by
  obtain ⟨a, s', b, t', hrun, hrun', h⟩ | ⟨e, s', e', t', hrun, hrun', h⟩ := hx.runs
  · unfold Agree
    rw [EStateM.run_bind, EStateM.run_bind, hrun, hrun']
    exact hf a s' b t' hrun hrun' h
  · unfold Agree
    rw [EStateM.run_bind, EStateM.run_bind, hrun, hrun']
    exact h

theorem bind (hx : Agree x y s t value fault)
    (hf : ∀ a s' b t', value a s' b t' → Agree (f a) (g b) s' t' value' fault) :
    Agree (x >>= f) (y >>= g) s t value' fault :=
  hx.bind_run fun a s' b t' _ _ => hf a s' b t'

theorem imp {value₂ : α → σ → α' → τ → Prop} {fault₂ : ε → σ → ε' → τ → Prop}
    (hx : Agree x y s t value fault) (hvalue : ∀ a s' b t', value a s' b t' → value₂ a s' b t')
    (hfault : ∀ e s' e' t', fault e s' e' t' → fault₂ e s' e' t') : Agree x y s t value₂ fault₂ := by
  obtain ⟨a, s', b, t', hrun, hrun', h⟩ | ⟨e, s', e', t', hrun, hrun', h⟩ := hx.runs
  · exact of_ok hrun hrun' (hvalue a s' b t' h)
  · exact of_error hrun hrun' (hfault e s' e' t' h)

theorem get_bind {f : σ → EStateM ε σ β} {g : τ → EStateM ε' τ β'}
    (h : Agree (f s) (g t) s t value' fault) : Agree (get >>= f) (get >>= g) s t value' fault := h

theorem set_bind {s' : σ} {t' : τ} {f : PUnit → EStateM ε σ β} {g : PUnit → EStateM ε' τ β'}
    (h : Agree (f ⟨⟩) (g ⟨⟩) s' t' value' fault) :
    Agree (set s' >>= f) (set t' >>= g) s t value' fault := h

theorem modify_bind {u : σ → σ} {v : τ → τ} {f : PUnit → EStateM ε σ β} {g : PUnit → EStateM ε' τ β'}
    (h : Agree (f ⟨⟩) (g ⟨⟩) (u s) (v t) value' fault) :
    Agree (modify u >>= f) (modify v >>= g) s t value' fault := h

end Agree

end LoxLang

import LoxLang.Proofs.Value.Related

/-!
Methods of arrays on related values. They move values around without looking into them, so arrays with
related items stay related.
-/

namespace LoxLang.ArrayMethod

open Value (Related)

variable {C : Closure → Closure → Prop} {P : Position → Position → Prop}

theorem position_related (length : Nat) {v w : Value} (h : Related C P v w) :
    position length v = position length w := by
  cases h <;> rfl

theorem bound_related {v w : Value} (h : Related C P v w) : bound v = bound w := by
  cases h <;> rfl

theorem strings_related {vs ws : List Value} (h : List.Forall₂ (Related C P) vs ws) (i : Nat) :
    strings i vs = strings i ws := by
  induction h generalizing i with
  | nil => rfl
  | @cons a b _ _ hab _ ih =>
    cases hab with
    | data hdata =>
      cases a with
      | string s => simp only [strings, ih]
      | _ => rfl
    | function => rfl
    | arrayMethod => rfl

theorem every_related (step : Nat) {vs ws : List Value} (h : List.Forall₂ (Related C P) vs ws)
    (wait : Nat) : List.Forall₂ (Related C P) (sliced.every step wait vs) (sliced.every step wait ws) := by
  induction h generalizing wait with
  | nil => cases wait <;> exact .nil
  | cons hvw _ ih =>
    cases wait with
    | zero => exact .cons hvw (ih _)
    | succ wait => exact ih wait

theorem sliced_related {vs ws : List Value} (h : List.Forall₂ (Related C P) vs ws)
    (start stop step : Nat) :
    List.Forall₂ (Related C P) (sliced vs start stop step) (sliced ws start stop step) :=
  every_related step (List.forall₂_drop start (List.forall₂_take stop h)) 0

/-- Effects that take related arrays to related arrays. -/
inductive Effect.Related (C : Closure → Closure → Prop) (P : Position → Position → Prop) :
    Effect → Effect → Prop where
  | keep {v w : Value} (h : v.Related C P w) : Related C P (keep v) (keep w)
  | change {f g : Array Value → Array Value} {v w : Value}
      (hfg : ∀ a b : Array Value, List.Forall₂ (Value.Related C P) a.toList b.toList →
        List.Forall₂ (Value.Related C P) (f a).toList (g b).toList)
      (h : v.Related C P w) : Related C P (change f v) (change g w)
  | slice {vs ws : List Value} (h : List.Forall₂ (Value.Related C P) vs ws) :
      Related C P (slice vs) (slice ws)

section Effects

variable {a b : Array Value}

theorem getElem?_related (h : List.Forall₂ (Related C P) a.toList b.toList) (i : Nat) :
    Option.Rel (Related C P) a[i]? b[i]? := by
  have hlist : ∀ {vs ws : List Value} (i : Nat), List.Forall₂ (Related C P) vs ws →
      Option.Rel (Related C P) vs[i]? ws[i]? := by
    intro vs ws i hall
    induction hall generalizing i with
    | nil => exact .none
    | cons hvw _ ih =>
      cases i with
      | zero => exact .some hvw
      | succ i => exact ih i
  have := hlist i h
  rwa [Array.getElem?_toList, Array.getElem?_toList] at this

theorem set_related (h : List.Forall₂ (Related C P) a.toList b.toList) (i : Nat) {v w : Value}
    (hvw : Related C P v w) :
    List.Forall₂ (Related C P) (a.setIfInBounds i v).toList (b.setIfInBounds i w).toList := by
  have hlist : ∀ {vs ws : List Value} (i : Nat), List.Forall₂ (Related C P) vs ws →
      List.Forall₂ (Related C P) (vs.set i v) (ws.set i w) := by
    intro vs ws i hall
    induction hall generalizing i with
    | nil => exact .nil
    | cons hab hrest ih =>
      cases i with
      | zero => exact .cons hvw hrest
      | succ i => exact .cons hab (ih i)
  rw [Array.toList_setIfInBounds, Array.toList_setIfInBounds]
  exact hlist i h

theorem append_related {c d : Array Value} (h : List.Forall₂ (Related C P) a.toList b.toList)
    (h' : List.Forall₂ (Related C P) c.toList d.toList) :
    List.Forall₂ (Related C P) (a ++ c).toList (b ++ d).toList := by
  rw [Array.toList_append, Array.toList_append]
  exact List.rel_append h h'

theorem effect_related (hitems : List.Forall₂ (Related C P) a.toList b.toList)
    (m : ArrayMethod) {vs ws : List Value} (hargs : List.Forall₂ (Related C P) vs ws) :
    Answering (Effect.Related C P) (effect a m vs) (effect b m ws) := by
  have hsize : a.size = b.size := by simpa using hitems.length_eq
  have hnil : Related C P .nil .nil := .data trivial
  have hother : Answering (Effect.Related C P) (.ok (.keep .nil)) (.ok (.keep .nil)) :=
    .ok (.keep hnil)
  cases m with
  | pop =>
    have hlast : Option.Rel (Related C P) a.back? b.back? := by
      rw [Array.back?_eq_getElem?, Array.back?_eq_getElem?, hsize]
      exact getElem?_related hitems _
    simp only [effect]
    generalize a.back? = x at hlast
    generalize b.back? = y at hlast
    cases hlast with
    | none => exact .error _
    | some hvw =>
      refine .ok (.change (fun a b hab => ?_) hvw)
      rw [Array.toList_pop, Array.toList_pop, List.dropLast_eq_take, List.dropLast_eq_take,
        hab.length_eq]
      exact List.forall₂_take _ hab
  | popleft =>
    have hfirst : Option.Rel (Related C P) a[0]? b[0]? := getElem?_related hitems 0
    simp only [effect]
    generalize a[0]? = x at hfirst
    generalize b[0]? = y at hfirst
    cases hfirst with
    | none => exact .error _
    | some hvw =>
      refine .ok (.change (fun a b hab => ?_) hvw)
      rw [Array.toList_extract, Array.toList_extract, List.extract_eq_take_drop,
        List.extract_eq_take_drop]
      have : a.size = b.size := by simpa using hab.length_eq
      rw [this]
      exact List.forall₂_take _ (List.forall₂_drop _ hab)
  | clear => exact .ok (.change (fun _ _ _ => .nil) hnil)
  | reverse =>
    refine .ok (.change (fun a b hab => ?_) hnil)
    rw [Array.toList_reverse, Array.toList_reverse]
    exact List.rel_reverse hab
  | get =>
    cases hargs with
    | nil => exact hother
    | cons hindex hrest =>
      cases hrest with
      | cons => exact hother
      | nil =>
        refine Answering.bind_same (hsize ▸ position_related _ hindex) fun i => ?_
        cases i with
        | none => exact .error _
        | some i =>
          refine .ok (.keep ?_)
          have hitem := getElem?_related hitems i
          generalize a[i]? = x at hitem
          generalize b[i]? = y at hitem
          cases hitem with
          | none => exact hnil
          | some h => exact h
  | set =>
    cases hargs with
    | nil => exact hother
    | cons hindex hrest =>
      cases hrest with
      | nil => exact hother
      | cons hv hrest =>
        cases hrest with
        | cons => exact hother
        | nil =>
          refine Answering.bind_same (hsize ▸ position_related _ hindex) fun i => ?_
          cases i with
          | none => exact .error _
          | some i => exact .ok (.change (fun a b hab => set_related hab i hv) hnil)
  | append =>
    cases hargs with
    | nil => exact hother
    | cons hv hrest =>
      cases hrest with
      | cons => exact hother
      | nil =>
        refine .ok (.change (fun a b hab => ?_) hnil)
        simp only [Array.toList_push]
        exact List.rel_append hab (.cons hv .nil)
  | appendleft =>
    cases hargs with
    | nil => exact hother
    | cons hv hrest =>
      cases hrest with
      | cons => exact hother
      | nil => exact .ok (.change (fun a b hab => append_related (.cons hv .nil) hab) hnil)
  | join =>
    cases hargs with
    | nil => exact hother
    | @cons v w _ _ hvw hrest =>
      cases hrest with
      | cons =>
        cases hvw with
        | data hdata => cases v <;> exact hother
        | function => exact hother
        | arrayMethod => exact hother
      | nil =>
        cases hvw with
        | function => exact .error _
        | arrayMethod => exact .error _
        | data hdata =>
          cases v with
          | string separator =>
            exact Answering.bind_same (strings_related hitems 0) fun texts => .ok (.keep (.data trivial))
          | function f => cases hdata
          | arrayMethod id method p => cases hdata
          | _ => exact .error _
  | slice =>
    cases hargs with
    | nil => exact hother
    | cons hstart hrest =>
    cases hrest with
    | nil => exact hother
    | cons hstop hrest =>
    cases hrest with
    | nil => exact hother
    | cons hstep hrest =>
    cases hrest with
    | cons => exact hother
    | nil =>
      refine Answering.bind_same (bound_related hstart) fun start => ?_
      refine Answering.bind_same (bound_related hstop) fun stop => ?_
      refine Answering.bind_same (bound_related hstep) fun step => ?_
      rw [hsize]
      dsimp only
      split
      · exact .error _
      · exact .ok (.slice (sliced_related hitems _ _ _))

/-- A method that is called on related arguments gives a related value and leaves related arrays. -/
theorem run_related {h h' : Heap} (harrays : h.ArraysRelated C P h') (id : ArrayId) (m : ArrayMethod)
    {vs ws : List Value} (hargs : List.Forall₂ (Related C P) vs ws) :
    Answering (fun r r' => Related C P r.1 r'.1 ∧ r.2.ArraysRelated C P r'.2 ∧
      r.2 = { h with arrays := r.2.arrays } ∧ r'.2 = { h' with arrays := r'.2.arrays })
      (run h id m vs) (run h' id m ws) := by
  refine (effect_related (harrays.items id) m hargs).bind ?_
  intro e e' he
  cases he with
  | keep hvw => exact .ok ⟨hvw, harrays, rfl, rfl⟩
  | change hfg hvw => exact .ok ⟨hvw, harrays.modifyArray id hfg, rfl, rfl⟩
  | @slice vs ws hall =>
    obtain ⟨hid, hnew⟩ := harrays.newArray (a := vs.toArray) (b := ws.toArray) hall
    refine .ok ⟨?_, hnew, rfl, rfl⟩
    change Related C P (.array (h.newArray vs.toArray).1) (.array (h'.newArray ws.toArray).1)
    rw [hid]
    exact .data trivial

end Effects

end LoxLang.ArrayMethod

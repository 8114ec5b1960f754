import LoxLang.Proofs.Heap.Scopes
import Mathlib.Data.List.Perm.Subperm
import Mathlib.Data.Nat.Find

/-!
The search for a method going up from a class. The heap bounds it by the number of its classes. That is
always enough: a search that ends at all ends at a class that it has not come to before.
-/

namespace LoxLang.Heap

variable {h : Heap} {id : ClassId} {name : String} {n : Nat} {m : Closure}

theorem methodWithin?_succ (h : Heap) (name : String) (n : Nat) (id : ClassId) :
    h.methodWithin? name (n + 1) id = (h.class? id).bind fun c =>
      match c.methods.lookup name with
      | some m => some m
      | none => c.superclass.bind (h.methodWithin? name n) := rfl

/-- Methods are looked up among classes alone. -/
theorem method?_congr {h' : Heap} (hclasses : h'.classes = h.classes) (id : ClassId) (name : String) :
    h'.method? id name = h.method? id name := by
  unfold Heap.method?
  rw [hclasses]
  generalize h.classes.size = size
  induction size generalizing id with
  | zero => rfl
  | succ size ih =>
    have hclass : h'.class? id = h.class? id := by rw [Heap.class?, Heap.class?, hclasses]
    have hup : h'.methodWithin? name size = h.methodWithin? name size := funext fun id => ih id
    rw [methodWithin?_succ, methodWithin?_succ, hclass, hup]

/-- What is found within some classes is found within more of them. -/
theorem methodWithin?_le (hm : h.methodWithin? name n id = some m) {k : Nat} (hk : n ≤ k) :
    h.methodWithin? name k id = some m := by
  induction n generalizing id k with
  | zero => cases hm
  | succ n ih =>
    obtain ⟨k, rfl⟩ : ∃ j, k = j + 1 := ⟨k - 1, by omega⟩
    rw [methodWithin?_succ] at hm ⊢
    obtain ⟨c, hc, hm⟩ := Option.bind_eq_some_iff.mp hm
    rw [hc, Option.bind_some]
    cases hown : c.methods.lookup name with
    | some own => simpa [hown] using hm
    | none =>
      rw [hown] at hm
      obtain ⟨s, hs, hm⟩ := Option.bind_eq_some_iff.mp hm
      rw [hs]
      exact ih hm (by omega)

/-- A search that needs its whole bound comes to as many different classes. -/
theorem methodWithin?_visits (hm : h.methodWithin? name n id = some m)
    (hleast : ∀ k < n, h.methodWithin? name k id ≠ some m) :
    ∃ path : List Nat, path.length = n ∧ path.Nodup ∧
      ∀ i ∈ path, i < h.classes.size ∧ ∃ k ≤ n, h.methodWithin? name k ⟨i⟩ = some m := by
  induction n generalizing id with
  | zero => cases hm
  | succ n ih =>
    have hfound := hm
    rw [methodWithin?_succ] at hm
    obtain ⟨c, hc, hm⟩ := Option.bind_eq_some_iff.mp hm
    have hlt : id.index < h.classes.size := (Array.getElem?_eq_some_iff.mp hc).1
    have hhere : id.index < h.classes.size ∧ ∃ k ≤ n + 1, h.methodWithin? name k ⟨id.index⟩ = some m :=
      ⟨hlt, n + 1, Nat.le_refl _, hfound⟩
    cases hown : c.methods.lookup name with
    | some own =>
      have hone : h.methodWithin? name 1 id = some m := by
        rw [methodWithin?_succ, hc, Option.bind_some]
        simpa [hown] using hm
      obtain rfl : n = 0 := by
        by_contra hn
        exact hleast 1 (by omega) hone
      exact ⟨[id.index], rfl, by simp, by simpa using hhere⟩
    | none =>
      rw [hown] at hm
      obtain ⟨s, hs, hm⟩ := Option.bind_eq_some_iff.mp hm
      obtain ⟨path, hlength, hnodup, hpath⟩ := ih hm fun k hk hsooner => by
        refine hleast (k + 1) (by omega) ?_
        rw [methodWithin?_succ, hc, Option.bind_some]
        simpa [hown, hs] using hsooner
      refine ⟨id.index :: path, by simp [hlength], List.nodup_cons.mpr ⟨fun hagain => ?_, hnodup⟩, ?_⟩
      · -- A class that the search came to twice would be searched within a smaller bound.
        obtain ⟨_, k, hk, hsooner⟩ := hpath id.index hagain
        exact hleast k (by omega) hsooner
      · refine List.forall_mem_cons.mpr ⟨hhere, fun i hi => ?_⟩
        obtain ⟨hi, k, hk, hfound⟩ := hpath i hi
        exact ⟨hi, k, by omega, hfound⟩

/-- What is found within any number of classes is found. -/
theorem method?_of_methodWithin? (hm : h.methodWithin? name n id = some m) :
    h.method? id name = some m := by
  classical
  have hfinds : ∃ k, h.methodWithin? name k id = some m := ⟨n, hm⟩
  obtain ⟨path, hlength, hnodup, hpath⟩ :=
    methodWithin?_visits (Nat.find_spec hfinds) fun k hk => Nat.find_min hfinds hk
  have hsubset : path ⊆ List.range h.classes.size := fun i hi => List.mem_range.mpr (hpath i hi).1
  have hsize : path.length ≤ h.classes.size := by
    simpa using (List.subperm_of_subset hnodup hsubset).length_le
  exact methodWithin?_le (Nat.find_spec hfinds) (hlength ▸ hsize)

/-- The method of a class is its own, or else its superclass's. -/
theorem method?_eq (h : Heap) (id : ClassId) (name : String) :
    h.method? id name = (h.class? id).bind fun c =>
      match c.methods.lookup name with
      | some m => some m
      | none => c.superclass.bind (h.method? · name) := by
  have hstep : ∀ {n m}, h.methodWithin? name (n + 1) id = some m →
      ((h.class? id).bind fun c => match c.methods.lookup name with
        | some m => some m
        | none => c.superclass.bind (h.method? · name)) = some m := by
    intro n m hm
    rw [methodWithin?_succ] at hm
    obtain ⟨c, hc, hm⟩ := Option.bind_eq_some_iff.mp hm
    rw [hc, Option.bind_some]
    cases hown : c.methods.lookup name with
    | some own => simpa [hown] using hm
    | none =>
      rw [hown] at hm
      obtain ⟨s, hs, hm⟩ := Option.bind_eq_some_iff.mp hm
      simpa [hs] using method?_of_methodWithin? hm
  have hback : ∀ m, ((h.class? id).bind fun c => match c.methods.lookup name with
        | some m => some m
        | none => c.superclass.bind (h.method? · name)) = some m → h.method? id name = some m := by
    intro m hm
    refine method?_of_methodWithin? (n := h.classes.size + 1) ?_
    rwa [methodWithin?_succ]
  refine Option.ext fun m => ⟨fun hm => ?_, hback m⟩
  exact hstep (methodWithin?_le hm (Nat.le_succ _))

/-! ### Where a method comes from -/

/-- The class nearest to a class, going up, that has a method of the name, and the method. -/
inductive Offers (h : Heap) (name : String) : ClassId → ClassId → Closure → Prop where
  | own {id c m} (hclass : h.class? id = some c) (hmethod : c.methods.lookup name = some m) : Offers h name id id m
  | above {id c up owner m} (hclass : h.class? id = some c) (hmethod : c.methods.lookup name = none)
    (hsuperclass : c.superclass = some up) (hrest : Offers h name up owner m) : Offers h name id owner m

namespace Offers

variable {owner : ClassId}

theorem record (hm : h.Offers name id owner m) : ∃ c, h.class? owner = some c ∧ c.methods.lookup name = some m := by
  induction hm with
  | own hclass hmethod => exact ⟨_, hclass, hmethod⟩
  | above _ _ _ _ ih => exact ih

theorem method? (hm : h.Offers name id owner m) : h.method? id name = some m := by
  induction hm with
  | own hclass hmethod => rw [method?_eq, hclass, Option.bind_some, hmethod]
  | above hclass hmethod hsuperclass _ ih =>
    rw [method?_eq, hclass, Option.bind_some, hmethod, hsuperclass]
    exact ih

end Offers

/-- A method that is found is one of the nearest class that has one. -/
theorem exists_offers (hm : h.method? id name = some m) : ∃ owner, h.Offers name id owner m := by
  unfold method? at hm
  generalize h.classes.size = n at hm
  induction n generalizing id with
  | zero => cases hm
  | succ n ih =>
    rw [methodWithin?_succ] at hm
    obtain ⟨c, hc, hm⟩ := Option.bind_eq_some_iff.mp hm
    cases hown : c.methods.lookup name with
    | some own =>
      rw [hown] at hm
      obtain rfl := Option.some.inj hm
      exact ⟨id, .own hc hown⟩
    | none =>
      rw [hown] at hm
      obtain ⟨up, hup, hm⟩ := Option.bind_eq_some_iff.mp hm
      obtain ⟨owner, howner⟩ := ih hm
      exact ⟨owner, .above hc hown hup howner⟩

end LoxLang.Heap

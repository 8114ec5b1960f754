import LoxLang.Scope.Resolution

/-!
Where variables live, by the identity of the node that mentions them. A node without an entry refers to a
global variable. When the lookups of a program are recorded, the nodes of the program get the distances that
were found for them, if any were, and all other nodes keep theirs.
-/

namespace LoxLang

/-- The recorded distances, at the index of the node's identity. -/
structure HopTable where
  entries : Array (Option Nat)
deriving Inhabited

namespace HopTable

def empty : HopTable := ⟨#[]⟩

/-- The distance recorded for a node. -/
def find? (t : HopTable) (id : NodeId) : Option Nat :=
  t.entries[id]?.join

/-- The table with a distance recorded for a node. -/
def record (t : HopTable) (id : NodeId) (hops : Nat) : HopTable :=
  let entries := t.entries
  let missing := id + 1 - entries.size
  ⟨(entries ++ Array.replicate missing none).setIfInBounds id (some hops)⟩

/-- The table with the distance of one mention recorded, if it is local. -/
def recordLookup (t : HopTable) (l : Lookup) : HopTable :=
  match l.hops with
  | some hops => t.record l.reference.id hops
  | none => t

/-- The table with the distances of all local mentions among some lookups recorded. -/
def recordAll (t : HopTable) (lookups : Array Lookup) : HopTable :=
  lookups.foldl recordLookup t

theorem find?_record (t : HopTable) (id : Nat) (hops : Nat) (j : Nat) :
    (t.record id hops).find? j = if id = j then some hops else t.find? j := by
  simp only [find?, record, Array.getElem?_setIfInBounds, Array.size_append, Array.size_replicate]
  by_cases h : id = j
  · subst h
    have : id < t.entries.size + (id + 1 - t.entries.size) := by omega
    simp [this]
  · simp only [h, ↓reduceIte, Array.getElem?_append]
    by_cases hj : j < t.entries.size
    · simp [hj]
    · simp only [hj, ↓reduceIte, Array.getElem?_replicate]
      have : t.entries[j]? = none := Array.getElem?_eq_none (Nat.le_of_not_lt hj)
      rw [this]
      split <;> rfl

theorem recordAll_eq (t : HopTable) (lookups : Array Lookup) :
    t.recordAll lookups = lookups.toList.foldl recordLookup t :=
  (Array.foldl_toList recordLookup).symm

theorem find?_recordLookup_ne (t : HopTable) {l : Lookup} {id : Nat} (h : l.reference.id ≠ id) :
    (t.recordLookup l).find? id = t.find? id := by
  unfold recordLookup
  split
  · rw [find?_record, if_neg h]
  · rfl

theorem find?_foldl_ne (t : HopTable) {ls : List Lookup} {id : Nat}
    (h : ∀ l ∈ ls, @Ne Nat l.reference.id id) : (ls.foldl recordLookup t).find? id = t.find? id := by
  induction ls generalizing t with
  | nil => rfl
  | cons l rest ih =>
    rw [List.foldl_cons, ih _ fun l' hl' => h l' (List.mem_cons_of_mem _ hl')]
    exact find?_recordLookup_ne t (h l List.mem_cons_self)

/-- Nodes that are not mentioned keep their distances. -/
theorem find?_recordAll_ne (t : HopTable) {lookups : Array Lookup} {id : Nat}
    (h : ∀ l ∈ lookups.toList, @Ne Nat l.reference.id id) :
    (t.recordAll lookups).find? id = t.find? id := by
  rw [recordAll_eq]
  exact find?_foldl_ne t h

/-- New nodes that are mentioned once each get the distances of their lookups. -/
theorem find?_recordAll_mem (t : HopTable) {lookups : Array Lookup}
    (hnodup : (lookups.toList.map (·.reference.id)).Nodup)
    (hnew : ∀ l ∈ lookups.toList, t.find? l.reference.id = none) :
    ∀ l ∈ lookups.toList, (t.recordAll lookups).find? l.reference.id = l.hops := by
  rw [recordAll_eq]
  generalize lookups.toList = ls at hnodup hnew
  induction ls generalizing t with
  | nil => simp
  | cons l rest ih =>
    obtain ⟨hl, hrest⟩ := List.nodup_cons.mp hnodup
    have hne : ∀ l' ∈ rest, @Ne Nat l'.reference.id l.reference.id := fun l' hl' heq =>
      hl (List.mem_map.mpr ⟨l', hl', heq⟩)
    intro l' hl'
    rw [List.foldl_cons]
    rcases List.mem_cons.mp hl' with rfl | hl'
    · rw [find?_foldl_ne _ hne, recordLookup]
      split
      case h_1 hops hhops => rw [find?_record, if_pos rfl, hhops]
      case h_2 hhops => rw [hnew l' List.mem_cons_self, hhops]
    · refine ih _ hrest (fun l'' hl'' => ?_) l' hl'
      rw [find?_recordLookup_ne t (hne l'' hl'').symm]
      exact hnew l'' (List.mem_cons_of_mem _ hl'')

end HopTable

end LoxLang

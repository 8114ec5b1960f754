import LoxLang.Value.Text
import Mathlib.Data.List.Nodup
import Mathlib.Data.List.Perm.Subperm
import Mathlib.Logic.Relation

/-!
How arrays print that may be shared and may lie in themselves. The text of an array is that of a tree, which
follows the items until an array is reached again inside itself. The tree is finite in any heap: the arrays
around an occurrence are different, so there are no more of them than the heap has. Where an array has come
up before, but not around the occurrence, it is printed in full.
-/

namespace LoxLang

/-! ### Renderings -/

/-- What is printed of an array, as a tree. -/
inductive Rendering where
  /-- A value that is no array. -/
  | leaf (v : Value)
  /-- An array inside itself. -/
  | again (id : ArrayId)
  /-- An array in full. -/
  | full (id : ArrayId) (items : List Rendering)

namespace Rendering

mutual

/-- The text of a rendering. -/
def text (h : Heap) : Rendering → String
  | leaf v => v.itemText h fun _ => "[...]"
  | again _ => "[...]"
  | full _ items => "[" ++ ", ".intercalate (texts h items) ++ "]"

def texts (h : Heap) : List Rendering → List String
  | [] => []
  | r :: rest => r.text h :: texts h rest

end

theorem texts_eq_map (h : Heap) (items : List Rendering) : texts h items = items.map (text h) := by
  induction items with
  | nil => rfl
  | cons r rest ih => rw [texts, List.map_cons, ih]

/-- What stands at a place, which is given by the numbers of the items on the way to it. -/
def at? : Rendering → List Nat → Option Rendering
  | r, [] => some r
  | full _ items, i :: path => items[i]?.bind fun r => r.at? path
  | _, _ :: _ => none

end Rendering

namespace Heap

/-- A value is rendered inside some arrays: an array by its items, unless it is one of those that it is
inside. -/
inductive Renders (h : Heap) : List ArrayId → Value → Rendering → Prop where
  | leaf {around v} (hv : ∀ id, v ≠ .array id) : Renders h around v (.leaf v)
  | again {around id} (hmem : id ∈ around) : Renders h around (.array id) (.again id)
  | full {around id items} (hmem : id ∉ around) (hlength : items.length = (h.items id).size)
    (hitems : ∀ (i : Nat) v r, (h.items id)[i]? = some v → items[i]? = some r →
      Renders h (id :: around) v r) :
    Renders h around (.array id) (.full id items)

/-- The numbers of the items on a path from a value to another one, and the arrays that it goes through. -/
inductive Leads (h : Heap) : Value → List Nat → List ArrayId → Value → Prop where
  | here {v} : Leads h v [] [] v
  | into {id} {i : Nat} {v path outer w} (hitem : (h.items id)[i]? = some v)
    (hrest : Leads h v path outer w) :
    Leads h (.array id) (i :: path) (id :: outer) w

/-- An array is an item of the other one. -/
def Contains (h : Heap) (outer inner : ArrayId) : Prop :=
  .array inner ∈ h.items outer

/-- An array lies in the other one, or is the same. -/
abbrev Reaches (h : Heap) : ArrayId → ArrayId → Prop :=
  Relation.ReflTransGen h.Contains

/-- An array lies in itself. -/
def SelfContaining (h : Heap) (id : ArrayId) : Prop :=
  Relation.TransGen h.Contains id id

variable {h : Heap} {around around' outer : List ArrayId} {id : ArrayId} {v w : Value} {r r' : Rendering}
  {path : List Nat}

/-! ### There is one rendering -/

namespace Renders

theorem unique (hr : h.Renders around v r) (hr' : h.Renders around v r') : r = r' := by
  induction hr generalizing r' with
  | leaf hv =>
    cases hr' with
    | leaf => rfl
    | again => exact absurd rfl (hv _)
    | full => exact absurd rfl (hv _)
  | again hmem =>
    cases hr' with
    | leaf hv => exact absurd rfl (hv _)
    | again => rfl
    | full hmem' => exact absurd hmem hmem'
  | @full around id items hmem hlength hitems ih =>
    cases hr' with
    | leaf hv => exact absurd rfl (hv _)
    | again hmem' => exact absurd hmem' hmem
    | @full _ _ items' _ hlength' hitems' =>
      congr 1
      refine List.ext_getElem (hlength.trans hlength'.symm) fun i hi hi' => ?_
      have hv := Array.getElem?_eq_getElem (hlength ▸ hi : i < (h.items id).size)
      exact ih i _ _ hv (List.getElem?_eq_getElem hi) (hitems' i _ _ hv (List.getElem?_eq_getElem hi'))

/-- The rendering of a value only hangs on those of the arrays around it that it reaches. -/
theorem congr_around (hr : h.Renders around v r)
    (hsame : ∀ a b, v = .array a → h.Reaches a b → (b ∈ around ↔ b ∈ around')) : h.Renders around' v r := by
  induction hr generalizing around' with
  | leaf hv => exact .leaf hv
  | again hmem => exact .again ((hsame _ _ rfl .refl).mp hmem)
  | @full around id items hmem hlength _ ih =>
    refine .full (fun hmem' => hmem ((hsame _ _ rfl .refl).mpr hmem')) hlength fun i w r hw hr => ?_
    refine ih i w r hw hr ?_
    rintro a b rfl hb
    have hcontains : h.Contains id a := Array.mem_of_getElem? hw
    simp only [List.mem_cons, hsame id b rfl (.head hcontains hb)]

end Renders

/-! ### There is a rendering -/

theorem items_of_size_le (hid : h.arrays.size ≤ id.index) : h.items id = #[] := by
  rw [items, Array.getElem?_eq_none hid]
  rfl

/-- Different arrays of a heap are no more than it has. -/
theorem length_le_of_nodup (hnodup : around.Nodup) (hlive : ∀ b ∈ around, b.index < h.arrays.size) :
    around.length ≤ h.arrays.size := by
  have hindices : (around.map ArrayId.index).Nodup :=
    hnodup.map fun a b hab => by cases a; cases b; exact congrArg _ hab
  have hsub : around.map ArrayId.index ⊆ List.range h.arrays.size := by
    intro i hi
    obtain ⟨b, hb, rfl⟩ := List.mem_map.mp hi
    exact List.mem_range.mpr (hlive b hb)
  have hlength := (hindices.subperm hsub).length_le
  rwa [List.length_map, List.length_range] at hlength

theorem itemText_of_not_array (nested nested' : ArrayId → String) (hv : ∀ id, v ≠ .array id) :
    v.itemText h nested = v.itemText h nested' := by
  cases v with
  | array id => exact absurd rfl (hv id)
  | _ => rfl

/-- If the depth allows for all arrays that are not around, the printed text is that of a rendering. What is
around grows by an array of the heap, and there are only so many. -/
theorem exists_renders (n : Nat) (id : ArrayId) (hnodup : around.Nodup)
    (hlive : ∀ b ∈ around, b.index < h.arrays.size) (hn : h.arrays.size < n + around.length) :
    ∃ r, h.Renders around (.array id) r ∧ Value.arrayText h n around id = r.text h := by
  induction n generalizing around id with
  | zero =>
    have hfull := length_le_of_nodup hnodup hlive
    omega
  | succ n ih =>
    unfold Value.arrayText
    by_cases hmem : id ∈ around
    · exact ⟨_, .again hmem, if_pos (List.contains_iff_mem.mpr hmem)⟩
    have hitem : ∀ v ∈ (h.items id).toList, ∃ r, h.Renders (id :: around) v r ∧
        v.itemText h (Value.arrayText h n (id :: around)) = r.text h := by
      intro v hv
      -- What has an item is one of the heap's arrays, so it counts among those around.
      have hid : id.index < h.arrays.size := by
        by_contra hid
        rw [items_of_size_le (Nat.le_of_not_lt hid)] at hv
        cases hv
      by_cases harray : ∃ b, v = .array b
      · obtain ⟨b, rfl⟩ := harray
        refine ih b (List.nodup_cons.mpr ⟨hmem, hnodup⟩) ?_ (by rw [List.length_cons]; omega)
        exact fun b hb => (List.mem_cons.mp hb).elim (fun hb => hb ▸ hid) (hlive b)
      · have hv : ∀ b, v ≠ .array b := fun b hb => harray ⟨b, hb⟩
        exact ⟨_, .leaf hv, itemText_of_not_array _ _ hv⟩
    have : Nonempty Rendering := ⟨.again id⟩
    choose! render hrenders htext using hitem
    refine ⟨.full id ((h.items id).toList.map render), .full hmem ?_ ?_, ?_⟩
    · rw [List.length_map, Array.length_toList]
    · intro i v r hv hr
      rw [List.getElem?_map, Array.getElem?_toList, hv] at hr
      obtain rfl := Option.some.inj hr
      exact hrenders v (Array.mem_toList_iff.mpr (Array.mem_of_getElem? hv))
    · rw [if_neg (by rwa [List.contains_iff_mem]), Rendering.text, Rendering.texts_eq_map, List.map_map,
        List.map_congr_left htext]
      rfl

theorem exists_rendering (h : Heap) (id : ArrayId) :
    ∃ r, h.Renders [] (.array id) r ∧ (Value.array id).text h = r.text h :=
  exists_renders (h.arrays.size + 1) id List.nodup_nil (List.forall_mem_nil _)
    (Nat.lt_succ_self h.arrays.size)

/-- The text of an array is that of its rendering, whatever depth is allowed for. -/
theorem Renders.arrayText (hr : h.Renders [] (.array id) r) {n : Nat} (hn : h.arrays.size < n) :
    Value.arrayText h n [] id = r.text h := by
  obtain ⟨r', hr', htext⟩ := exists_renders n id List.nodup_nil (List.forall_mem_nil _) hn
  rw [htext, hr.unique hr']

/-! ### Places -/

/-- Down a path along which no array is met again, the rendering goes on. -/
theorem Leads.renders (hleads : h.Leads v path outer w) (hr : h.Renders around v r) (hnodup : outer.Nodup)
    (hapart : ∀ b ∈ outer, b ∉ around) :
    ∃ r', r.at? path = some r' ∧ h.Renders (outer.reverse ++ around) w r' := by
  induction hleads generalizing around r with
  | here => exact ⟨r, rfl, hr⟩
  | @into id i v path outer w hitem _ ih =>
    have ⟨hnew, hnodup⟩ := List.nodup_cons.mp hnodup
    cases hr with
    | leaf hv => exact absurd rfl (hv id)
    | again hmem => exact absurd hmem (hapart id List.mem_cons_self)
    | @full _ _ items _ hlength hitems =>
      have hi : i < items.length := hlength ▸ (Array.getElem?_eq_some_iff.mp hitem).1
      have hr := hitems i v items[i] hitem (List.getElem?_eq_getElem hi)
      have hapart : ∀ b ∈ outer, b ∉ id :: around := by
        intro b hb hmem
        rcases List.mem_cons.mp hmem with rfl | hmem
        · exact hnew hb
        · exact hapart b (List.mem_cons_of_mem _ hb) hmem
      obtain ⟨r', hat, hr'⟩ := ih hr hnodup hapart
      refine ⟨r', ?_, ?_⟩
      · rw [Rendering.at?, List.getElem?_eq_getElem hi, Option.bind_some, hat]
      · rwa [List.reverse_cons, List.append_assoc]

/-- A place in a rendering is reached on a path along which no array is met again. -/
theorem Renders.leads (hr : h.Renders around v r) (hat : r.at? path = some r') :
    ∃ outer w, h.Leads v path outer w ∧ outer.Nodup ∧ (∀ b ∈ outer, b ∉ around) ∧
      h.Renders (outer.reverse ++ around) w r' := by
  induction path generalizing around v r with
  | nil =>
    obtain rfl := Option.some.inj hat
    exact ⟨[], v, .here, List.nodup_nil, List.forall_mem_nil _, hr⟩
  | cons i path ih =>
    cases hr with
    | leaf => cases hat
    | again => cases hat
    | @full _ id items hmem hlength hitems =>
      obtain ⟨r, hr, hat⟩ := Option.bind_eq_some_iff.mp hat
      have hi : i < (h.items id).size := hlength ▸ (List.getElem?_eq_some_iff.mp hr).1
      have hv := Array.getElem?_eq_getElem hi
      obtain ⟨outer, w, hleads, hnodup, hapart, hr'⟩ := ih (hitems i _ r hv hr) hat
      have hnew : id ∉ outer := fun hid => hapart id hid List.mem_cons_self
      refine ⟨id :: outer, w, .into hv hleads, List.nodup_cons.mpr ⟨hnew, hnodup⟩, fun b hb => ?_, ?_⟩
      · rcases List.mem_cons.mp hb with rfl | hb
        · exact hmem
        · exact fun hmem => hapart b hb (List.mem_cons_of_mem _ hmem)
      · rwa [List.reverse_cons, List.append_assoc]

theorem Renders.at_iff (hr : h.Renders [] v r) :
    r.at? path = some r' ↔
      ∃ outer w, h.Leads v path outer w ∧ outer.Nodup ∧ h.Renders outer.reverse w r' := by
  constructor
  · intro hat
    obtain ⟨outer, w, hleads, hnodup, -, hr'⟩ := hr.leads hat
    exact ⟨outer, w, hleads, hnodup, List.append_nil outer.reverse ▸ hr'⟩
  · rintro ⟨outer, w, hleads, hnodup, hr'⟩
    obtain ⟨r'', hat, hr''⟩ := hleads.renders hr hnodup fun _ _ => List.not_mem_nil
    rw [List.append_nil] at hr''
    rw [hat, hr'.unique hr'']

/-- An array is left out where it is met again on the way. -/
theorem Renders.at_again_iff (hr : h.Renders [] v r) :
    r.at? path = some (.again id) ↔ ∃ outer, h.Leads v path outer (.array id) ∧ outer.Nodup ∧ id ∈ outer := by
  rw [hr.at_iff]
  constructor
  · rintro ⟨outer, w, hleads, hnodup, hr'⟩
    cases hr' with
    | again hmem => exact ⟨outer, hleads, hnodup, List.mem_reverse.mp hmem⟩
  · rintro ⟨outer, hleads, hnodup, hmem⟩
    exact ⟨outer, _, hleads, hnodup, .again (List.mem_reverse.mpr hmem)⟩

/-- An array is there in full where it is not met on the way, wherever else it is. -/
theorem Renders.at_full_iff (hr : h.Renders [] v r) :
    (∃ items, r.at? path = some (.full id items)) ↔
      ∃ outer, h.Leads v path outer (.array id) ∧ outer.Nodup ∧ id ∉ outer := by
  constructor
  · rintro ⟨items, hat⟩
    obtain ⟨outer, w, hleads, hnodup, hr'⟩ := hr.at_iff.mp hat
    cases hr' with
    | full hmem => exact ⟨outer, hleads, hnodup, fun hid => hmem (List.mem_reverse.mpr hid)⟩
  · rintro ⟨outer, hleads, hnodup, hmem⟩
    obtain ⟨r', hat, hr'⟩ := hleads.renders hr hnodup fun _ _ => List.not_mem_nil
    rw [List.append_nil] at hr'
    cases hr' with
    | leaf hv => exact absurd rfl (hv id)
    | again hid => exact absurd (List.mem_reverse.mp hid) hmem
    | full => exact ⟨_, hat⟩

theorem Renders.at_leaf_iff (hr : h.Renders [] v r) :
    r.at? path = some (.leaf w) ↔ ∃ outer, h.Leads v path outer w ∧ outer.Nodup ∧ ∀ id, w ≠ .array id := by
  rw [hr.at_iff]
  constructor
  · rintro ⟨outer, w, hleads, hnodup, hr'⟩
    cases hr' with
    | leaf hv => exact ⟨outer, hleads, hnodup, hv⟩
  · rintro ⟨outer, hleads, hnodup, hv⟩
    exact ⟨outer, w, hleads, hnodup, .leaf hv⟩

/-! ### Arrays that do not lie in themselves -/

/-- Where a path ends at an array, all arrays on the way hold it. -/
theorem Leads.reaches {a b : ArrayId} (hleads : h.Leads v path outer w) (hv : v = .array a)
    (hw : w = .array b) : h.Reaches a b ∧ ∀ c ∈ outer, h.Reaches a c ∧ Relation.TransGen h.Contains c b := by
  induction hleads generalizing a with
  | here =>
    obtain rfl : a = b := Value.array.inj (hv.symm.trans hw)
    exact ⟨.refl, List.forall_mem_nil _⟩
  | @into id i v path outer w hitem hrest ih =>
    obtain rfl := Value.array.inj hv
    obtain ⟨d, rfl⟩ : ∃ d, v = .array d := by
      cases hrest with
      | here => exact ⟨b, hw⟩
      | @into d => exact ⟨d, rfl⟩
    have hcontains : h.Contains id d := Array.mem_of_getElem? hitem
    obtain ⟨hreaches, houter⟩ := ih rfl hw
    refine ⟨.head hcontains hreaches, fun c hc => ?_⟩
    rcases List.mem_cons.mp hc with rfl | hc
    · exact ⟨.refl, .head' hcontains hreaches⟩
    · exact ⟨.head hcontains (houter c hc).1, (houter c hc).2⟩

theorem Renders.at_ne_again (hr : h.Renders [] (.array id) r)
    (hself : ∀ b, h.Reaches id b → ¬h.SelfContaining b) (b : ArrayId) : r.at? path ≠ some (.again b) := by
  intro hat
  obtain ⟨outer, hleads, -, hmem⟩ := hr.at_again_iff.mp hat
  obtain ⟨hreaches, houter⟩ := hleads.reaches rfl rfl
  exact hself b hreaches (houter b hmem).2

theorem Renders.itemText (hr : h.Renders [] v r) :
    v.itemText h (fun id => (Value.array id).text h) = r.text h := by
  cases hr with
  | leaf hv => exact itemText_of_not_array _ _ hv
  | again hmem => cases hmem
  | @full _ id items hmem hlength hitems =>
    exact Renders.arrayText (.full hmem hlength hitems) (Nat.lt_succ_self h.arrays.size)

/-- An array that does not lie in itself prints with the texts of its items, as they print on their own. -/
theorem text_of_not_selfContaining (hself : ¬h.SelfContaining id) :
    (Value.array id).text h = "[" ++ ", ".intercalate
      ((h.items id).toList.map (Value.itemText h fun b => (Value.array b).text h)) ++ "]" := by
  obtain ⟨r, hr, htext⟩ := h.exists_rendering id
  cases hr with
  | leaf hv => exact absurd rfl (hv id)
  | again hmem => cases hmem
  | @full _ _ items _ hlength hitems =>
    have hsame : items.map (Rendering.text h) =
        (h.items id).toList.map (Value.itemText h fun b => (Value.array b).text h) := by
      refine List.ext_getElem (by simp [hlength]) fun i hi hi' => ?_
      rw [List.length_map] at hi hi'
      rw [Array.length_toList] at hi'
      have hv := Array.getElem?_eq_getElem hi'
      have hr : h.Renders [] (h.items id)[i] items[i] := by
        refine (hitems i _ _ hv (List.getElem?_eq_getElem hi)).congr_around ?_
        intro a b ha hb
        have hcontains : h.Contains id a := Array.mem_of_getElem? (ha ▸ hv)
        refine ⟨fun hmem => ?_, fun hmem => nomatch hmem⟩
        obtain rfl := List.mem_singleton.mp hmem
        exact absurd (.head' hcontains hb) hself
      rw [List.getElem_map, List.getElem_map]
      exact hr.itemText.symm
    rw [htext, Rendering.text, Rendering.texts_eq_map, hsame]

end Heap

/-- Printing an array ends in any heap: its text is that of a tree, and allowing for more depth changes
nothing. In the tree an array is left out at just those places where it is met again on the way from the
outermost array, and at all others it is there in full, however often it comes up. If no array that is
reached lies in itself, nothing is left out, and each array prints with the texts of its items. -/
theorem array_text_is_rendering (h : Heap) (id : ArrayId) :
    ∃ r, h.Renders [] (.array id) r ∧ (Value.array id).text h = r.text h ∧
      (∀ n, h.arrays.size < n → Value.arrayText h n [] id = r.text h) ∧
      (∀ path b, r.at? path = some (.again b) ↔
        ∃ outer, h.Leads (.array id) path outer (.array b) ∧ outer.Nodup ∧ b ∈ outer) ∧
      (∀ path b, (∃ items, r.at? path = some (.full b items)) ↔
        ∃ outer, h.Leads (.array id) path outer (.array b) ∧ outer.Nodup ∧ b ∉ outer) ∧
      (∀ path v, r.at? path = some (.leaf v) ↔
        ∃ outer, h.Leads (.array id) path outer v ∧ outer.Nodup ∧ ∀ b, v ≠ .array b) ∧
      ((∀ b, h.Reaches id b → ¬h.SelfContaining b) →
        (∀ path b, r.at? path ≠ some (.again b)) ∧
          ∀ b, h.Reaches id b → (Value.array b).text h = "[" ++ ", ".intercalate
            ((h.items b).toList.map (Value.itemText h fun c => (Value.array c).text h)) ++ "]") := by
  obtain ⟨r, hr, htext⟩ := h.exists_rendering id
  refine ⟨r, hr, htext, fun n hn => hr.arrayText hn, fun path b => hr.at_again_iff,
    fun path b => hr.at_full_iff, fun path v => hr.at_leaf_iff, fun hself => ?_⟩
  refine ⟨fun path b => hr.at_ne_again hself b, fun b hb => ?_⟩
  exact Heap.text_of_not_selfContaining (hself b hb)

/-- An array with an empty one in it twice, and itself in the array behind. -/
example : (Value.array ⟨0⟩).text { Heap.empty with arrays := #[#[.array ⟨1⟩, .array ⟨1⟩, .array ⟨2⟩], #[],
    #[.array ⟨0⟩, .array ⟨1⟩]] } = "[[], [], [[...], []]]" := by
  decide

end LoxLang

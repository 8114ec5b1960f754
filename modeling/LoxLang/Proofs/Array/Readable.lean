import LoxLang.Proofs.Array.Datum
import LoxLang.Proofs.Array.Rendering

/-!
What the text of an array says of it. An array of simple values in which no array lies in itself is a nested
list, and prints as one. Such texts can be read back, so arrays with the same text have the same structure.
-/

namespace LoxLang

/-- Nil, a truth value, an integer, a string or an array. -/
def Value.Simple : Value → Prop
  | .nil | .bool _ | .number (.int _) | .string _ | .array _ => True
  | _ => False

namespace Heap

/-- What an array holds, in the end, are simple values, and no array in it lies in itself. -/
structure Plain (h : Heap) (id : ArrayId) : Prop where
  acyclic : ∀ b, h.Reaches id b → ¬h.SelfContaining b
  simple : ∀ b, h.Reaches id b → ∀ v ∈ h.items b, v.Simple

/-- A value stands for a nested list. -/
inductive Unfolds (h : Heap) : Value → Datum → Prop where
  | nil : Unfolds h .nil .nil
  | bool {b} : Unfolds h (.bool b) (.bool b)
  | int {n} : Unfolds h (.number (.int n)) (.int n)
  | string {s} : Unfolds h (.string s) (.string s)
  | array {id items} (hlength : items.length = (h.items id).size)
    (hitems : ∀ (i : Nat) v d, (h.items id)[i]? = some v → items[i]? = some d → Unfolds h v d) :
    Unfolds h (.array id) (.list items)

/-- The values have the same structure: they are equal, or arrays of one length with items of the same
structure. -/
inductive Same (h h' : Heap) : Value → Value → Prop where
  | leaf {v} (hv : ∀ id, v ≠ .array id) : Same h h' v v
  | array {a b} (hsize : (h.items a).size = (h'.items b).size)
    (hitems : ∀ (i : Nat) v w, (h.items a)[i]? = some v → (h'.items b)[i]? = some w → Same h h' v w) :
    Same h h' (.array a) (.array b)

variable {h h' : Heap} {around : List ArrayId} {a b : ArrayId} {v w : Value} {r : Rendering} {d e : Datum}

/-! ### Nested lists -/

theorem Plain.inner (ha : h.Plain a) (hcontains : h.Contains a b) : h.Plain b :=
  ⟨fun c hc => ha.acyclic c (.head hcontains hc), fun c hc => ha.simple c (.head hcontains hc)⟩

/-- Arrays that were made from the inside out. -/
theorem Plain.of_older (hsimple : ∀ b, ∀ v ∈ h.items b, v.Simple)
    (holder : ∀ b c, h.Contains b c → c.index < b.index) : h.Plain a := by
  refine ⟨fun b _ hself => ?_, fun b _ => hsimple b⟩
  have hlt : ∀ c, Relation.TransGen h.Contains b c → c.index < b.index := by
    intro c hc
    induction hc with
    | single hc => exact holder b _ hc
    | tail _ hc ih => exact (holder _ _ hc).trans ih
  exact Nat.lt_irrefl _ (hlt b hself)

/-- Where the items of an array stand for lists, so does the array, and the texts are the same. -/
theorem unfolds_items {id : ArrayId} {items : List Rendering} (hlength : items.length = (h.items id).size)
    (hitems : ∀ (i : Nat) v r, (h.items id)[i]? = some v → items[i]? = some r →
      ∃ d, h.Unfolds v d ∧ r.text h = d.text) :
    ∃ data, h.Unfolds (.array id) (.list data) ∧ items.map (Rendering.text h) = data.map Datum.text := by
  have hitem : ∀ i < items.length, ∃ d, ∀ v r, (h.items id)[i]? = some v → items[i]? = some r →
      h.Unfolds v d ∧ r.text h = d.text := by
    intro i hi
    have hr := List.getElem?_eq_getElem hi
    have hv := Array.getElem?_eq_getElem (hlength ▸ hi : i < (h.items id).size)
    obtain ⟨d, hd⟩ := hitems i _ _ hv hr
    refine ⟨d, fun v r hv' hr' => ?_⟩
    obtain rfl := Option.some.inj (hv.symm.trans hv')
    obtain rfl := Option.some.inj (hr.symm.trans hr')
    exact hd
  have : Nonempty Datum := ⟨.nil⟩
  choose! datum hdatum using hitem
  refine ⟨(List.range items.length).map datum, .array ?_ fun i v d hv hd => ?_, ?_⟩
  · rw [List.length_map, List.length_range, hlength]
  · have hi : i < items.length := hlength ▸ (Array.getElem?_eq_some_iff.mp hv).1
    rw [List.getElem?_map, List.getElem?_range hi] at hd
    exact Option.some.inj hd ▸ (hdatum i hi v _ hv (List.getElem?_eq_getElem hi)).1
  · refine List.ext_getElem (by simp) fun i hi _ => ?_
    rw [List.length_map] at hi
    rw [List.getElem_map, List.getElem_map, List.getElem_map, List.getElem_range]
    have hv := Array.getElem?_eq_getElem (hlength ▸ hi : i < (h.items id).size)
    exact (hdatum i hi _ _ hv (List.getElem?_eq_getElem hi)).2

/-- A rendering in which nothing is left out is the text of a nested list. The arrays around a value hold
it, so none of them comes up again. -/
theorem Renders.unfolds (hr : h.Renders around v r) (hsimple : v.Simple)
    (hplain : ∀ a, v = .array a → h.Plain a ∧ ∀ c ∈ around, Relation.TransGen h.Contains c a) :
    ∃ d, h.Unfolds v d ∧ r.text h = d.text := by
  induction hr with
  | @leaf _ v hv =>
    cases v with
    | nil => exact ⟨.nil, .nil, rfl⟩
    | bool b => exact ⟨.bool b, .bool, rfl⟩
    | string s => exact ⟨.string s, .string, rfl⟩
    | number x =>
      cases x with
      | int n => exact ⟨.int n, .int, rfl⟩
      | float x => exact hsimple.elim
    | array id => exact absurd rfl (hv id)
    | _ => exact hsimple.elim
  | @again _ id hmem =>
    -- It would lie in itself.
    obtain ⟨hid, haround⟩ := hplain id rfl
    exact absurd (haround id hmem) (hid.acyclic id .refl)
  | @full around id items hmem hlength _ ih =>
    obtain ⟨hid, haround⟩ := hplain id rfl
    obtain ⟨data, hdata, htexts⟩ : ∃ data, h.Unfolds (.array id) (.list data) ∧
        items.map (Rendering.text h) = data.map Datum.text := by
      refine unfolds_items hlength fun i v r hv hr => ?_
      have hmem := Array.mem_of_getElem? hv
      refine ih i v r hv hr (hid.simple id .refl v hmem) fun b hb => ?_
      subst hb
      refine ⟨hid.inner hmem, fun c hc => ?_⟩
      rcases List.mem_cons.mp hc with rfl | hc
      · exact .single hmem
      · exact (haround c hc).tail hmem
    refine ⟨.list data, hdata, ?_⟩
    rw [Rendering.text, Rendering.texts_eq_map, htexts, Datum.text, Datum.texts_eq_map]

theorem Plain.unfolds (ha : h.Plain a) : ∃ d, h.Unfolds (.array a) d ∧ (Value.array a).text h = d.text := by
  obtain ⟨r, hr, htext⟩ := h.exists_rendering a
  rw [htext]
  refine hr.unfolds trivial fun b hb => ?_
  obtain rfl := Value.array.inj hb
  exact ⟨ha, List.forall_mem_nil _⟩

/-! ### The same structure -/

theorem Unfolds.same (hv : h.Unfolds v d) (hw : h'.Unfolds w d) : h.Same h' v w := by
  induction hv generalizing w with
  | @array id items hlength _ ih =>
    cases hw with
    | array hlength' hitems' =>
      refine .array (hlength.symm.trans hlength') fun i v w hv hw => ?_
      have hi : i < items.length := hlength ▸ (Array.getElem?_eq_some_iff.mp hv).1
      have hd := List.getElem?_eq_getElem hi
      exact ih i v _ hv hd (hitems' i w _ hw hd)
  | nil => cases hw; exact .leaf fun _ => nofun
  | bool => cases hw; exact .leaf fun _ => nofun
  | int => cases hw; exact .leaf fun _ => nofun
  | string => cases hw; exact .leaf fun _ => nofun

theorem Same.datum_eq (hsame : h.Same h' v w) (hv : h.Unfolds v d) (hw : h'.Unfolds w e) : d = e := by
  induction hsame generalizing d e with
  | leaf hleaf =>
    cases hv with
    | array => exact absurd rfl (hleaf _)
    | nil => cases hw; rfl
    | bool => cases hw; rfl
    | int => cases hw; rfl
    | string => cases hw; rfl
  | @array a b hsize _ ih =>
    cases hv with
    | @array _ items hlength hitems =>
      cases hw with
      | @array _ items' hlength' hitems' =>
        congr 1
        refine List.ext_getElem (hlength.trans (hsize.trans hlength'.symm)) fun i hi hi' => ?_
        have hd := List.getElem?_eq_getElem hi
        have he := List.getElem?_eq_getElem hi'
        have hv := Array.getElem?_eq_getElem (hlength ▸ hi : i < (h.items a).size)
        have hw := Array.getElem?_eq_getElem (hlength' ▸ hi' : i < (h'.items b).size)
        exact ih i _ _ hv hw (hitems i _ _ hv hd) (hitems' i _ _ hw he)

end Heap

/-- Arrays of simple values, none of which lies in itself, print as the same text only if they have the same
structure: one length, the same nesting, and equal leaves. What is between quotes can be read back for every
string. -/
theorem array_text_eq_iff {h h' : Heap} {a b : ArrayId} (ha : h.Plain a) (hb : h'.Plain b) :
    ((Value.array a).text h = (Value.array b).text h' ↔ h.Same h' (.array a) (.array b)) ∧
      ∀ s, Text.unquote (Text.quoted s) = some s := by
  refine ⟨?_, Text.unquote_quoted⟩
  obtain ⟨d, hd, htext⟩ := ha.unfolds
  obtain ⟨e, he, htext'⟩ := hb.unfolds
  rw [htext, htext', Datum.text_inj]
  constructor
  · rintro rfl
    exact hd.same he
  · intro hsame
    exact hsame.datum_eq hd he

/-- Two strings, one string that looks like them, and the two once more; then two arrays with the first one
in both places, and with the first one and its copy. -/
def lookalikes : Heap :=
  { Heap.empty with
    arrays := #[#[.string "a", .string "b"], #[.string "a', 'b"], #[.string "a", .string "b"],
      #[.array ⟨0⟩, .array ⟨0⟩], #[.array ⟨0⟩, .array ⟨2⟩]] }

theorem lookalikes_plain (a : ArrayId) : lookalikes.Plain a := by
  have hitems : ∀ b, ∀ v ∈ lookalikes.items b, v.Simple ∧ ∀ c, v = .array c → c.index < b.index := by
    rintro ⟨i⟩ v hv
    have hmem := Array.mem_toList_iff.mpr hv
    rcases i with _ | _ | _ | _ | _ | i
    · rcases List.mem_pair.mp hmem with rfl | rfl <;> exact ⟨trivial, nofun⟩
    · obtain rfl := List.mem_singleton.mp hmem
      exact ⟨trivial, nofun⟩
    · rcases List.mem_pair.mp hmem with rfl | rfl <;> exact ⟨trivial, nofun⟩
    · rcases List.mem_pair.mp hmem with rfl | rfl <;>
        exact ⟨trivial, fun c hc => Value.array.inj hc ▸ by decide⟩
    · rcases List.mem_pair.mp hmem with rfl | rfl <;>
        exact ⟨trivial, fun c hc => Value.array.inj hc ▸ by decide⟩
    · cases hmem
  exact .of_older (fun b v hv => (hitems b v hv).1) fun b c hc => (hitems b _ hc).2 c rfl

theorem array_text_eq_iff_lookalikes :
    (Value.array ⟨3⟩).text lookalikes = (Value.array ⟨4⟩).text lookalikes ∧
      (Value.array ⟨0⟩).text lookalikes ≠ (Value.array ⟨1⟩).text lookalikes := by
  have hplain := lookalikes_plain
  have hstrings {b : ArrayId} (hb : lookalikes.items b = #[.string "a", .string "b"]) :
      lookalikes.Same lookalikes (.array ⟨0⟩) (.array b) := by
    refine .array (by rw [hb]; rfl) fun i v w hv hw => ?_
    rw [hb] at hw
    obtain rfl := Option.some.inj (hv.symm.trans hw)
    have hmem := Array.mem_toList_iff.mpr (Array.mem_of_getElem? hw)
    rcases List.mem_pair.mp hmem with rfl | rfl <;> exact .leaf nofun
  constructor
  · refine (array_text_eq_iff (hplain _) (hplain _)).1.mpr (.array rfl fun i v w hv hw => ?_)
    rcases i with _ | _ | i
    · obtain rfl := Option.some.inj hv
      obtain rfl := Option.some.inj hw
      exact hstrings rfl
    · obtain rfl := Option.some.inj hv
      obtain rfl := Option.some.inj hw
      exact hstrings rfl
    · cases hv
  · intro htext
    cases (array_text_eq_iff (hplain _) (hplain _)).1.mp htext with
    | array hsize => exact absurd hsize (by decide)

end LoxLang

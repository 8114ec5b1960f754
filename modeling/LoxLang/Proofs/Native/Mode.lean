import LoxLang.Proofs.Native.Calls
import LoxLang.Proofs.Value.Equality

/-!
The most common value. A tally has one entry for each class of equal values, under the first value of the class,
in the order in which these come, and a NaN is a class by itself. So the first entry with the greatest count is
the first element that is equal to most elements.
-/

namespace LoxLang

/-- The first value is in a tally on behalf of the second one. -/
def Value.StandsFor (h : Heap) (v w : Value) : Prop :=
  v = w ∨ v.equal h w = true

namespace Sample

variable {h : Heap} {v w : Value} {seen vs : List Value} {counts : List (Value × Nat)}

/-- How many elements are equal to the one at a place, which counts itself in any case. -/
def occurrences (h : Heap) (vs : List Value) (i : Fin vs.length) : Nat :=
  (List.finRange vs.length).countP fun j => j == i || vs[j].equal h vs[i]

/-- How many elements of a list are equal to one of them. -/
def frequency (h : Heap) (vs : List Value) (v : Value) : Nat :=
  if v.equal h v then vs.countP (v.equal h) else 1

theorem occurrences_eq_frequency (i : Fin vs.length) : occurrences h vs i = frequency h vs vs[i] := by
  unfold occurrences frequency
  split
  · rename_i hself
    have hsame : (fun j : Fin vs.length => j == i || vs[j].equal h vs[i]) = vs[i].equal h ∘ vs.get := by
      funext j
      rw [Function.comp_apply, List.get_eq_getElem, Value.equal_comm h vs[j]]
      by_cases hj : j = i
      · subst hj
        simpa using hself
      · simp [hj]
    rw [hsame, ← List.countP_map, List.map_get_finRange]
  · rename_i hself
    have hnone : ∀ j : Fin vs.length, vs[j].equal h vs[i] = false := by
      intro j
      refine Bool.eq_false_iff.mpr fun hj => hself ?_
      exact Value.equal_trans (Value.equal_comm h vs[j] vs[i] ▸ hj) hj
    simp only [hnone, Bool.or_false]
    rw [← List.count, List.count_eq_one_of_mem (List.nodup_finRange _) (List.mem_finRange i)]

theorem frequency_congr (hvw : Value.StandsFor h v w) : frequency h vs v = frequency h vs w := by
  rcases hvw with rfl | hvw
  · rfl
  have hwv : w.equal h v = true := Value.equal_comm h v w ▸ hvw
  have hclass : v.equal h = w.equal h := by
    funext u
    exact Bool.eq_iff_iff.mpr ⟨Value.equal_trans hwv, Value.equal_trans hvw⟩
  unfold frequency
  rw [if_pos (Value.equal_trans hvw hwv), if_pos (Value.equal_trans hwv hvw), hclass]

theorem frequency_append (v w : Value) :
    frequency h (seen ++ [v]) w = frequency h seen w + if w.equal h v then 1 else 0 := by
  unfold frequency
  by_cases hself : w.equal h w = true
  · rw [if_pos hself, if_pos hself, List.countP_append, List.countP_singleton]
  · have hother : ¬w.equal h v = true := fun hwv =>
      hself (Value.equal_trans hwv (Value.equal_comm h w v ▸ hwv))
    rw [if_neg hself, if_neg hself, if_neg hother]

/-- A value that none before it is equal to is counted once. -/
theorem frequency_new (hnew : ∀ w ∈ seen, v.equal h w = false) : frequency h (seen ++ [v]) v = 1 := by
  unfold frequency
  split
  · rename_i hself
    have hnone : seen.countP (v.equal h) = 0 := List.countP_eq_zero.mpr fun w hw => by simp [hnew w hw]
    rw [List.countP_append, hnone, List.countP_singleton, if_pos hself]
  · rfl

/-! ### The tally -/

/-- One more in the entry of a value. -/
def bump (h : Heap) (v : Value) (entry : Value × Nat) : Value × Nat :=
  (entry.1, entry.2 + if entry.1.equal h v then 1 else 0)

/-- The entries of a tally stand for different values, so at most one of them counts a further value. -/
theorem add_eq (hapart : counts.Pairwise fun a b => a.1.equal h b.1 = false) :
    tally.add h v counts =
      counts.map (bump h v) ++ if counts.any fun e => e.1.equal h v then [] else [(v, 1)] := by
  induction counts with
  | nil => rfl
  | cons e rest ih =>
    obtain ⟨hfirst, hrest⟩ := List.pairwise_cons.mp hapart
    obtain ⟨seen, n⟩ := e
    unfold tally.add
    by_cases hv : seen.equal h v = true
    · have hothers : ∀ e ∈ rest, bump h v e = e := by
        intro e he
        have hne : ¬e.1.equal h v = true := fun hev => by
          have := Value.equal_trans hv (Value.equal_comm h e.1 v ▸ hev)
          simp [hfirst e he] at this
        simp [bump, hne]
      rw [if_pos hv, List.map_cons, List.map_congr_left hothers, List.map_id']
      simp [bump, hv]
    · have hfalse : seen.equal h v = false := Bool.eq_false_iff.mpr hv
      rw [if_neg hv, ih hrest, List.any_cons, hfalse, Bool.false_or]
      simp [bump, hfalse]

/-- The tally of the values seen so far. -/
structure Tallied (h : Heap) (seen : List Value) (counts : List (Value × Nat)) : Prop where
  apart : counts.Pairwise fun a b => a.1.equal h b.1 = false
  counted : ∀ e ∈ counts, e.2 = frequency h seen e.1
  covered : ∀ w ∈ seen, ∃ e ∈ counts, Value.StandsFor h e.1 w
  /-- An entry is under the first value that it stands for, behind the entries of those before. -/
  placed : ∀ pre e post, counts = pre ++ e :: post → ∃ before after, seen = before ++ e.1 :: after ∧
    ∀ w ∈ before, ∃ e' ∈ pre, Value.StandsFor h e'.1 w

theorem Tallied.nil : Tallied h [] [] := by
  refine ⟨List.Pairwise.nil, ?_, ?_, ?_⟩ <;> simp

theorem bump_fst (h : Heap) (v : Value) (e : Value × Nat) : (bump h v e).1 = e.1 := rfl

/-- A value that an entry stands for is counted there. -/
theorem Tallied.again (ht : Tallied h seen counts) (hold : ∃ e ∈ counts, e.1.equal h v = true) :
    Tallied h (seen ++ [v]) (counts.map (bump h v)) := by
  refine ⟨List.pairwise_map.mpr ht.apart, ?_, ?_, ?_⟩
  · intro e' he'
    obtain ⟨e, he, rfl⟩ := List.mem_map.mp he'
    rw [bump_fst, frequency_append, ← ht.counted e he]
    rfl
  · intro w hw
    have hentry : ∃ e ∈ counts, Value.StandsFor h e.1 w := by
      rcases List.mem_append.mp hw with hw | hw
      · exact ht.covered w hw
      · obtain ⟨e, he, hev⟩ := hold
        rw [List.mem_singleton.mp hw]
        exact ⟨e, he, .inr hev⟩
    obtain ⟨e, he, hew⟩ := hentry
    exact ⟨bump h v e, List.mem_map_of_mem he, hew⟩
  · intro pre e post hcounts
    obtain ⟨pre', rest, rfl, rfl, hrest⟩ := List.map_eq_append_iff.mp hcounts
    obtain ⟨e', post', rfl, rfl, rfl⟩ := List.map_eq_cons_iff.mp hrest
    obtain ⟨before, after, hseen, hbefore⟩ := ht.placed pre' e' post' rfl
    refine ⟨before, after ++ [v], by rw [hseen, bump_fst, List.append_assoc, List.cons_append], ?_⟩
    intro w hw
    obtain ⟨e, he, hew⟩ := hbefore w hw
    exact ⟨bump h v e, List.mem_map_of_mem he, hew⟩

/-- A value that no entry stands for gets an entry behind the others. -/
theorem Tallied.new (ht : Tallied h seen counts) (hnew : ∀ e ∈ counts, e.1.equal h v = false) :
    Tallied h (seen ++ [v]) (counts ++ [(v, 1)]) := by
  have hunseen : ∀ w ∈ seen, v.equal h w = false := by
    intro w hw
    obtain ⟨e, he, hew⟩ := ht.covered w hw
    refine Bool.eq_false_iff.mpr fun hvw => ?_
    have hwv : w.equal h v = true := Value.equal_comm h v w ▸ hvw
    have hev : e.1.equal h v = true := by
      rcases hew with hew | hew
      · exact hew ▸ hwv
      · exact Value.equal_trans hew hwv
    simp [hnew e he] at hev
  refine ⟨List.pairwise_append.mpr ⟨ht.apart, List.pairwise_singleton _ _, ?_⟩, ?_, ?_, ?_⟩
  · intro e he e' he'
    rw [List.mem_singleton.mp he']
    exact hnew e he
  · intro e he
    rcases List.mem_append.mp he with he | he
    · rw [frequency_append, hnew e he, ht.counted e he]
      rfl
    · rw [List.mem_singleton.mp he]
      exact (frequency_new hunseen).symm
  · intro w hw
    rcases List.mem_append.mp hw with hw | hw
    · obtain ⟨e, he, hew⟩ := ht.covered w hw
      exact ⟨e, List.mem_append_left _ he, hew⟩
    · rw [List.mem_singleton.mp hw]
      exact ⟨(v, 1), by simp, .inl rfl⟩
  · intro pre e post hcounts
    rcases List.append_eq_append_iff.mp hcounts with ⟨middle, rfl, hlast⟩ | ⟨middle, hcounts', hpost⟩
    · -- The entry is the new one.
      obtain ⟨rfl, hlast⟩ : middle = [] ∧ [(v, 1)] = e :: post := by
        rcases middle with _ | ⟨a, middle⟩
        · exact ⟨rfl, hlast⟩
        · simp at hlast
      obtain ⟨rfl, rfl⟩ := by simpa using hlast
      refine ⟨seen, [], rfl, fun w hw => ?_⟩
      rw [List.append_nil]
      exact ht.covered w hw
    · rcases middle with _ | ⟨a, middle⟩
      · obtain ⟨rfl, rfl⟩ := by simpa using hpost
        refine ⟨seen, [], rfl, fun w hw => ?_⟩
        rw [List.append_nil] at hcounts'
        exact hcounts' ▸ ht.covered w hw
      · obtain ⟨rfl, rfl⟩ := by simpa using hpost
        obtain ⟨before, after, hseen, hbefore⟩ := ht.placed _ _ _ hcounts'
        exact ⟨before, after ++ [v], by rw [hseen, List.append_assoc, List.cons_append], hbefore⟩

theorem Tallied.add (ht : Tallied h seen counts) : Tallied h (seen ++ [v]) (tally.add h v counts) := by
  rw [add_eq ht.apart]
  split
  · rename_i hold
    rw [List.append_nil]
    exact ht.again (List.any_eq_true.mp hold)
  · rename_i hnew
    have hnone : ∀ e ∈ counts, e.1.equal h v = false := by simpa using hnew
    have hbumped : counts.map (bump h v) = counts := by
      refine (List.map_congr_left fun e he => ?_).trans (List.map_id counts)
      simp [bump, hnone e he]
    rw [hbumped]
    exact ht.new hnone

theorem Tallied.tally (ht : Tallied h seen counts) : Tallied h (seen ++ vs) (tally h vs counts) := by
  induction vs generalizing seen counts with
  | nil => rwa [List.append_nil]
  | cons v rest ih =>
    have := ih (ht.add (v := v))
    rwa [List.append_assoc] at this

/-! ### The leading entry -/

/-- Of the entries gone through so far, the leading one is the first with the greatest count. -/
structure Leads (best : Value × Nat) (pre post : List (Value × Nat)) : Prop where
  before : ∀ e ∈ pre, e.2 < best.2
  after : ∀ e ∈ post, e.2 ≤ best.2

theorem Leads.foldl {best : Value × Nat} {pre post : List (Value × Nat)} (hlead : Leads best pre post)
    (rest : List (Value × Nat)) :
    ∃ e pre' post', rest.foldl leading (some best) = some e ∧ pre ++ best :: (post ++ rest) = pre' ++ e :: post' ∧
      Leads e pre' post' := by
  induction rest generalizing best pre post with
  | nil => exact ⟨best, pre, post, rfl, by rw [List.append_nil], hlead⟩
  | cons e rest ih =>
    rw [List.foldl_cons]
    by_cases hmore : best.2 < e.2
    · have hnext : Leads e (pre ++ best :: post) [] := by
        refine ⟨fun e' he' => ?_, by simp⟩
        rcases List.mem_append.mp he' with he' | he'
        · exact (hlead.before e' he').trans hmore
        · rcases List.mem_cons.mp he' with rfl | he'
          · exact hmore
          · exact (hlead.after e' he').trans_lt hmore
      obtain ⟨e', pre', post', hfold, hsplit, hlead'⟩ := ih hnext
      refine ⟨e', pre', post', ?_, ?_, hlead'⟩
      · simpa [leading, hmore] using hfold
      · simpa using hsplit
    · have hnext : Leads best pre (post ++ [e]) := by
        refine ⟨hlead.before, fun e' he' => ?_⟩
        rcases List.mem_append.mp he' with he' | he'
        · exact hlead.after e' he'
        · rw [List.mem_singleton.mp he']
          exact not_lt.mp hmore
      obtain ⟨e', pre', post', hfold, hsplit, hlead'⟩ := ih hnext
      refine ⟨e', pre', post', ?_, ?_, hlead'⟩
      · simpa [leading, hmore] using hfold
      · simpa using hsplit

/-- The first element that occurs most often. -/
structure IsMode (h : Heap) (vs : List Value) (i : Fin vs.length) : Prop where
  most : ∀ j, occurrences h vs j ≤ occurrences h vs i
  first : ∀ j < i, occurrences h vs j < occurrences h vs i

theorem mode_eq (hvs : vs ≠ []) : ∃ i, mode h vs = .ok vs[i] ∧ IsMode h vs i := by
  have htally : Tallied h vs (tally h vs []) := Tallied.nil.tally
  obtain ⟨first, rest, hcounts⟩ : ∃ first rest, tally h vs [] = first :: rest := by
    obtain ⟨e, he, -⟩ := htally.covered _ (List.head_mem hvs)
    exact List.exists_cons_of_ne_nil (List.ne_nil_of_mem he)
  have hstart : Leads first [] [] := by constructor <;> simp
  obtain ⟨e, pre, post, hfold, hsplit, hlead⟩ := hstart.foldl rest
  rw [List.nil_append, List.nil_append, ← hcounts] at hsplit
  obtain ⟨before, after, hsplitVs, hbefore⟩ := htally.placed pre e post hsplit
  have hcounted : ∀ e' ∈ pre ++ e :: post, ∀ w, Value.StandsFor h e'.1 w → e'.2 = frequency h vs w :=
    fun e' he' w hw => (htally.counted e' (hsplit ▸ he')).trans (frequency_congr hw)
  have hlength : before.length < vs.length := by rw [hsplitVs]; simp
  have hvalue : vs[before.length] = e.1 := by simp [hsplitVs]
  have hoccurrences : occurrences h vs ⟨before.length, hlength⟩ = e.2 := by
    rw [occurrences_eq_frequency]
    exact (hcounted e (by simp) _ (.inl hvalue.symm)).symm
  refine ⟨⟨before.length, hlength⟩, ?_, ?_, ?_⟩
  · have hleading : (tally h vs []).foldl leading none = some e := by
      rw [hcounts]
      exact hfold
    unfold mode
    rw [hleading]
    exact congrArg Except.ok hvalue.symm
  · intro j
    obtain ⟨e', he', hstands⟩ := htally.covered vs[j] (List.getElem_mem j.isLt)
    rw [hsplit] at he'
    rw [occurrences_eq_frequency, ← hcounted e' he' _ hstands, hoccurrences]
    rcases List.mem_append.mp he' with he' | he'
    · exact (hlead.before e' he').le
    · rcases List.mem_cons.mp he' with rfl | he'
      · exact le_rfl
      · exact hlead.after e' he'
  · rintro ⟨j, hlt⟩ hj
    have hget : vs[j]? = before[j]? := by
      rw [hsplitVs]
      exact List.getElem?_append_left hj
    have hmem : vs[j] ∈ before := List.mem_of_getElem? (hget.symm.trans (List.getElem?_eq_getElem hlt))
    obtain ⟨e', he', hstands⟩ := hbefore vs[j] hmem
    rw [occurrences_eq_frequency, hoccurrences]
    exact hcounted e' (List.mem_append_left _ he') _ hstands ▸ hlead.before e' he'

end Sample

namespace Native

/-- The most common element of an array of any values: of those that are equal to most elements, the first. A NaN
counts itself although it is not equal to itself. -/
theorem mode_gives_first_of_most (m : Machine) (id : ArrayId) (hitems : (m.heap.items id).toList ≠ []) :
    ∃ i, Sample.IsMode m.heap (m.heap.items id).toList i ∧
      mode.Gives [.array id] m (m.heap.items id).toList[i] m := by
  obtain ⟨i, hmode, hfirst⟩ := Sample.mode_eq (h := m.heap) hitems
  refine ⟨i, hfirst, ?_⟩
  refine gives_of_answer (a := .value (m.heap.items id).toList[i]) rfl rfl ?_
  change some (do return Answer.value (← Sample.mode m.heap (m.heap.items id).toList)) = _
  rw [hmode]
  rfl

/-- Two NaNs are not equal, so of two NaNs and twice the same instance the instance is the most common. -/
theorem mode_gives_instance_of_nans :
    let items := #[.float .nan, .object ⟨0⟩, .float .nan, .object ⟨0⟩]
    let m : Machine := { (default : Machine) with heap := (Heap.empty.newArray items).2 }
    (m.heap.items ⟨0⟩).toList ≠ [] ∧ mode.Gives [.array ⟨0⟩] m (.object ⟨0⟩) m := by
  intro items m
  have hitems : (m.heap.items ⟨0⟩).toList ≠ [] := by simp [m, items, Heap.items, Heap.newArray, Heap.empty]
  refine ⟨hitems, ?_⟩
  obtain ⟨i, hmode, hgives⟩ := mode_gives_first_of_most m ⟨0⟩ hitems
  have hsecond : i = ⟨1, by decide⟩ := by
    have hmost := hmode.most ⟨1, by decide⟩
    have hfirst := hmode.first
    revert hmost hfirst
    clear hmode hgives
    revert i
    decide +kernel
  subst hsecond
  exact hgives

end Native

end LoxLang

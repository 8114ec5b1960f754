import LoxLang.Proofs.Native.Calls
import LoxLang.Proofs.Number.Integers
import Mathlib.Algebra.Order.BigOperators.Group.List

/-!
The mean of integers. It is an integer if it is whole and no partial sum from the left leaves the 64-bit range, and a
double precision number otherwise. So one array may have an integer for its mean and another array with the same
elements in another order a double precision number. That cannot happen where the sum of the positive elements fits in
64 bits and that of the negative ones does too.
-/

namespace LoxLang

namespace Sample

/-- The sum of integers, whatever its size. -/
def total (ns : List Int64) : Int :=
  (ns.map Int64.toInt).sum

/-- No partial sum from the left leaves the 64-bit range. -/
def PartialSumsFit (ns : List Int64) : Prop :=
  ∀ part, part <+: ns → Fits (total part)

def positives (ns : List Int64) : List Int64 :=
  ns.filter fun n => 0 < n.toInt

def negatives (ns : List Int64) : List Int64 :=
  ns.filter fun n => n.toInt < 0

@[simp]
theorem total_nil : total [] = 0 :=
  rfl

@[simp]
theorem total_cons (n : Int64) (ns : List Int64) : total (n :: ns) = n.toInt + total ns :=
  rfl

theorem total_perm {ns ns' : List Int64} (h : ns'.Perm ns) : total ns' = total ns :=
  (h.map Int64.toInt).sum_eq

theorem PartialSumsFit.total {ns : List Int64} (h : PartialSumsFit ns) : Fits (total ns) :=
  h ns List.prefix_rfl

/-! ### The running sum -/

/-- The sum of a running total and an integer, if it fits. -/
def addFitting (acc : Int) (n : Int64) : Option Int :=
  (Number.ofInt? (acc + n.toInt)).map fun _ => acc + n.toInt

theorem parts_cons_iff {n : Int64} {rest : List Int64} {acc : Int} (hacc : Fits acc) :
    (∀ part, part <+: n :: rest → Fits (acc + total part)) ↔
      ∀ part, part <+: rest → Fits (acc + n.toInt + total part) := by
  simp only [List.prefix_cons_iff]
  constructor
  · intro h part hpart
    rw [Int.add_assoc]
    exact h _ (.inr ⟨part, rfl, hpart⟩)
  · rintro h part (rfl | ⟨part, rfl, hpart⟩)
    · rwa [total_nil, Int.add_zero]
    · rw [total_cons, ← Int.add_assoc]
      exact h part hpart

theorem foldlM_addFitting {ns : List Int64} {acc t : Int} (hacc : Fits acc) :
    ns.foldlM addFitting acc = some t ↔
      (∀ part, part <+: ns → Fits (acc + total part)) ∧ t = acc + total ns := by
  induction ns generalizing acc with
  | nil =>
    have hparts : ∀ part : List Int64, part <+: [] → Fits (acc + total part) := by
      intro part hpart
      rwa [List.prefix_nil.mp hpart, total_nil, Int.add_zero]
    rw [List.foldlM_nil, total_nil, Int.add_zero]
    exact ⟨fun h => ⟨hparts, (Option.some.inj h).symm⟩, fun h => congrArg some h.2.symm⟩
  | cons n rest ih =>
    rw [List.foldlM_cons, parts_cons_iff hacc, total_cons, ← Int.add_assoc]
    by_cases hfits : Fits (acc + n.toInt)
    · rw [addFitting, Number.ofInt?_of_fits hfits]
      exact ih hfits
    · rw [addFitting, Number.ofInt?_eq_none hfits]
      constructor
      · rintro ⟨⟩
      · rintro ⟨h, -⟩
        have hfirst := h [] List.nil_prefix
        rw [total_nil, Int.add_zero] at hfirst
        exact absurd hfirst hfits

theorem intSum?_eq_some {ns : List Int64} {t : Int} :
    intSum? (ns.map .int) = some t ↔ PartialSumsFit ns ∧ t = total ns := by
  have hsum : intSum? (ns.map .int) = ns.foldlM addFitting 0 := List.foldlM_map
  rw [hsum, foldlM_addFitting ⟨by decide, by decide⟩]
  simp only [Int.zero_add]
  rfl

/-! ### Whole means -/

/-- The integer that is found to be the mean. -/
def Whole (ns : List Int64) (q : Int64) : Prop :=
  PartialSumsFit ns ∧ total ns = q.toInt * ns.length

theorem fits_of_mul {q : Int} {k : Nat} (hk : k ≠ 0) (h : Fits (q * k)) : Fits q := by
  have hone : (1 : Int) ≤ k := by omega
  obtain ⟨hlow, hhigh⟩ := h
  rcases Int.le_total 0 q with hq | hq
  · have := le_mul_of_one_le_right hq hone
    exact ⟨by omega, by omega⟩
  · have := mul_le_of_one_le_right hq hone
    exact ⟨by omega, by omega⟩

theorem exists_whole_iff {ns : List Int64} (hne : ns ≠ []) :
    (∃ q, Whole ns q) ↔ PartialSumsFit ns ∧ (ns.length : Int) ∣ total ns := by
  constructor
  · rintro ⟨q, hparts, htotal⟩
    exact ⟨hparts, q.toInt, by rw [htotal, Int.mul_comm]⟩
  · rintro ⟨hparts, q, htotal⟩
    rw [Int.mul_comm] at htotal
    have hq : Fits q := fits_of_mul (by simpa using hne) (htotal ▸ hparts.total)
    exact ⟨Int64.ofInt q, hparts, by rw [Number.toInt_ofInt hq, htotal]⟩

theorem Whole.unique {ns : List Int64} {q q' : Int64} (hne : ns ≠ []) (h : Whole ns q) (h' : Whole ns q') :
    q = q' := by
  have hlength : (ns.length : Int) ≠ 0 := by simpa using hne
  exact Int64.toInt_inj.mp (mul_right_cancel₀ hlength (h.2.symm.trans h'.2))

theorem mean_of_whole {ns : List Int64} {q : Int64} (hne : ns ≠ []) (hq : Whole ns q) :
    mean (ns.map .int) = .ok (.int q) := by
  have hsome : (ns.map Number.int).isEmpty = false := by simpa using hne
  have hlength : (ns.length : Int) ≠ 0 := by simpa using hne
  have hsum : intSum? (ns.map .int) = some (q.toInt * ns.length) := intSum?_eq_some.mpr ⟨hq.1, hq.2.symm⟩
  rw [mean, hsome, hsum]
  dsimp only
  rw [List.length_map, Int.mul_emod_left, Int.mul_ediv_cancel _ hlength, Number.ofInt?_of_fits (fits_toInt q),
    Int64.ofInt_toInt]
  rfl

theorem mean_of_not_whole {ns : List Int64} (hne : ns ≠ []) (hnone : ¬∃ q, Whole ns q) :
    ∃ x, mean (ns.map .int) = .ok (.float x) := by
  have hsome : (ns.map Number.int).isEmpty = false := by simpa using hne
  rw [mean, hsome]
  cases hsum : intSum? (ns.map .int) with
  | none => exact ⟨_, rfl⟩
  | some t =>
    obtain ⟨hparts, rfl⟩ := intSum?_eq_some.mp hsum
    have hrest : ¬total ns % (ns.length : Int) = 0 := fun h =>
      hnone ((exists_whole_iff hne).mpr ⟨hparts, Int.dvd_of_emod_eq_zero h⟩)
    dsimp only
    rw [List.length_map, if_neg hrest]
    exact ⟨_, rfl⟩

/-- The mean of integers is the integer that is found for it. Without one it is a double precision number. -/
theorem mean_ints (ns : List Int64) (hne : ns ≠ []) :
    ∃ r, mean (ns.map .int) = .ok r ∧ (∀ q, r = .int q ↔ Whole ns q) ∧
      ((∃ x, r = .float x) ↔ ¬∃ q, Whole ns q) := by
  by_cases hwhole : ∃ q, Whole ns q
  · obtain ⟨q, hq⟩ := hwhole
    refine ⟨_, mean_of_whole hne hq, fun q' => ⟨?_, ?_⟩, ⟨?_, ?_⟩⟩
    · rintro ⟨⟩
      exact hq
    · intro h
      rw [hq.unique hne h]
    · rintro ⟨x, ⟨⟩⟩
    · intro h
      exact absurd ⟨q, hq⟩ h
  · obtain ⟨x, hx⟩ := mean_of_not_whole hne hwhole
    refine ⟨_, hx, fun q => ⟨?_, ?_⟩, ⟨fun _ => hwhole, fun _ => ⟨x, rfl⟩⟩⟩
    · rintro ⟨⟩
    · intro h
      exact absurd ⟨q, h⟩ hwhole

/-! ### Other orders -/

theorem total_positives_cons (n : Int64) (ns : List Int64) :
    total (positives (n :: ns)) = max n.toInt 0 + total (positives ns) := by
  unfold positives
  rw [List.filter_cons]
  by_cases h : 0 < n.toInt
  · rw [if_pos (decide_eq_true h), total_cons, max_eq_left h.le]
  · rw [if_neg (mt of_decide_eq_true h), max_eq_right (not_lt.mp h), Int.zero_add]

theorem total_negatives_cons (n : Int64) (ns : List Int64) :
    total (negatives (n :: ns)) = min n.toInt 0 + total (negatives ns) := by
  unfold negatives
  rw [List.filter_cons]
  by_cases h : n.toInt < 0
  · rw [if_pos (decide_eq_true h), total_cons, min_eq_left h.le]
  · rw [if_neg (mt of_decide_eq_true h), min_eq_right (not_lt.mp h), Int.zero_add]

theorem total_part_bounds {part ns : List Int64} (h : part.Sublist ns) :
    total (negatives ns) ≤ total part ∧ total part ≤ total (positives ns) := by
  induction h with
  | slnil => exact ⟨le_rfl, le_rfl⟩
  | cons n _ ih =>
    rw [total_positives_cons, total_negatives_cons]
    omega
  | cons_cons n _ ih =>
    rw [total_positives_cons, total_negatives_cons, total_cons]
    omega

theorem every_order_fits_iff {ns : List Int64} :
    (∀ ns', ns'.Perm ns → PartialSumsFit ns') ↔ Fits (total (positives ns)) ∧ Fits (total (negatives ns)) := by
  constructor
  · intro h
    exact ⟨h _ (List.filter_append_perm _ ns) _ (List.prefix_append _ _),
      h _ (List.filter_append_perm _ ns) _ (List.prefix_append _ _)⟩
  · rintro ⟨hpositives, hnegatives⟩ ns' hperm part hpart
    have hbounds := total_part_bounds hpart.sublist
    rw [positives, total_perm (hperm.filter _), ← positives, negatives, total_perm (hperm.filter _), ← negatives]
      at hbounds
    exact ⟨hnegatives.1.trans hbounds.1, hbounds.2.trans_lt hpositives.2⟩

/-- If what all elements lead to fits, so does what some element leads to: one that leads towards zero, or
else any of them, as all the others lead on in its direction. -/
theorem exists_next {ns : List Int64} {acc : Int} (hne : ns ≠ []) (hacc : Fits acc)
    (hend : Fits (acc + total ns)) : ∃ n ∈ ns, Fits (acc + n.toInt) := by
  by_cases hback : ∃ n ∈ ns, (acc ≤ 0 ↔ 0 < n.toInt)
  · obtain ⟨n, hn, hsign⟩ := hback
    have := fits_toInt n
    unfold Fits at *
    exact ⟨n, hn, by omega⟩
  obtain ⟨n, rest, rfl⟩ := List.exists_cons_of_ne_nil hne
  have honward : ∀ k ∈ n :: rest, (0 < acc ↔ 0 < k.toInt) := by
    intro k hk
    have := mt (fun h => ⟨k, hk, h⟩) hback
    omega
  have hn := honward n List.mem_cons_self
  refine ⟨n, List.mem_cons_self, ?_⟩
  rw [total_cons] at hend
  have hbounds := total_part_bounds (List.Sublist.refl rest)
  rcases lt_or_ge 0 acc with hsign | hsign
  · have hnone : negatives rest = [] := List.filter_eq_nil_iff.mpr fun k hk hless =>
      (of_decide_eq_true hless).not_gt ((honward k (List.mem_cons_of_mem n hk)).mp hsign)
    rw [hnone, total_nil] at hbounds
    unfold Fits at *
    omega
  · have hnone : positives rest = [] := List.filter_eq_nil_iff.mpr fun k hk hless =>
      hsign.not_gt ((honward k (List.mem_cons_of_mem n hk)).mpr (of_decide_eq_true hless))
    rw [hnone, total_nil] at hbounds
    unfold Fits at *
    omega

theorem exists_order_fits {ns : List Int64} {acc : Int} (hacc : Fits acc) (hend : Fits (acc + total ns)) :
    ∃ ns', ns'.Perm ns ∧ ∀ part, part <+: ns' → Fits (acc + total part) := by
  induction hlength : ns.length generalizing ns acc with
  | zero =>
    obtain rfl := List.length_eq_zero_iff.mp hlength
    exact ⟨[], .refl _, fun part hpart => by rwa [List.prefix_nil.mp hpart]⟩
  | succ k ih =>
    obtain ⟨n, hn, hnext⟩ := exists_next (List.ne_nil_of_length_eq_add_one hlength) hacc hend
    have hperm := List.perm_cons_erase hn
    have hrest : Fits (acc + n.toInt + total (ns.erase n)) := by
      rwa [← total_perm hperm.symm, total_cons, ← Int.add_assoc] at hend
    obtain ⟨rest, hrestperm, hparts⟩ := ih hnext hrest (by rw [List.length_erase_of_mem hn, hlength]; rfl)
    exact ⟨n :: rest, (hrestperm.cons n).trans hperm.symm, (parts_cons_iff hacc).mpr hparts⟩

/-- Integers whose sum fits have an order in which every partial sum does. -/
theorem exists_perm_partialSumsFit {ns : List Int64} (h : Fits (total ns)) :
    ∃ ns', ns'.Perm ns ∧ PartialSumsFit ns' := by
  rw [← Int.zero_add (total ns)] at h
  obtain ⟨ns', hperm, hparts⟩ := exists_order_fits ⟨by decide, by decide⟩ h
  simp only [Int.zero_add] at hparts
  exact ⟨ns', hperm, hparts⟩

/-- In every order of the elements the same integer is found, or none. It is so if the mean is not whole, if
the sum itself does not fit, or if the positive and the negative elements by themselves have sums that do. -/
theorem whole_in_every_order_iff {ns : List Int64} (hne : ns ≠ []) :
    (∀ ns', ns'.Perm ns → ∀ q, Whole ns' q ↔ Whole ns q) ↔
      ¬(ns.length : Int) ∣ total ns ∨ ¬Fits (total ns) ∨
        Fits (total (positives ns)) ∧ Fits (total (negatives ns)) := by
  have hsome : ∀ ns', ns'.Perm ns → ((∃ q, Whole ns' q) ↔ PartialSumsFit ns' ∧ (ns.length : Int) ∣ total ns) := by
    intro ns' hperm
    rw [exists_whole_iff (mt (fun h => List.perm_nil.mp (h ▸ hperm.symm)) hne), hperm.length_eq, total_perm hperm]
  rw [← every_order_fits_iff]
  constructor
  · intro hsame
    by_contra hnone
    rw [not_or, not_or, not_not, not_not] at hnone
    obtain ⟨hwhole, hfits, hfails⟩ := hnone
    -- One order leads to an integer, and so does every other one.
    obtain ⟨ns', hperm, hparts⟩ := exists_perm_partialSumsFit hfits
    obtain ⟨q, hq⟩ := (hsome ns' hperm).mpr ⟨hparts, hwhole⟩
    have hwholes : ∀ other, other.Perm ns → Whole other q := fun other hother =>
      (hsame other hother q).mpr ((hsame ns' hperm q).mp hq)
    exact hfails fun other hother => (hwholes other hother).1
  · rintro (hwhole | hfits | hparts) ns' hperm q
    · exact ⟨fun h => absurd ((hsome ns' hperm).mp ⟨q, h⟩).2 hwhole,
        fun h => absurd ((hsome ns (.refl ns)).mp ⟨q, h⟩).2 hwhole⟩
    · exact ⟨fun h => absurd (total_perm hperm ▸ h.1.total) hfits, fun h => absurd h.1.total hfits⟩
    · unfold Whole
      rw [total_perm hperm, hperm.length_eq]
      exact and_congr_left fun _ => ⟨fun _ => hparts ns (.refl ns), fun _ => hparts ns' hperm⟩

end Sample

/-! ### The function -/

/-- The mean of integers in any order is the integer that makes up their sum when it is taken as often as there are
elements, if there is one and no partial sum from the left leaves the 64-bit range; else it is a double precision
number. The same integer comes out in every order, or none in any, exactly if the sum is not a multiple of the
count or does not fit in 64 bits itself, or if the sum of the positive elements and that of the negative ones do. -/
theorem mean_whole_if_partial_sums_fit (ns : List Int64) (hne : ns ≠ []) :
    ∃ answer : List Int64 → Number,
      (∀ ns', ns'.Perm ns → Native.mean.GivesOnInts ns' (answer ns') ∧
        (∀ q, answer ns' = .int q ↔ Sample.PartialSumsFit ns' ∧ Sample.total ns = q.toInt * ns.length) ∧
        ((∃ x, answer ns' = .float x) ↔ ¬(Sample.PartialSumsFit ns' ∧ (ns.length : Int) ∣ Sample.total ns))) ∧
      ((∀ ns', ns'.Perm ns → ∀ q, answer ns' = .int q ↔ answer ns = .int q) ↔
        ¬(ns.length : Int) ∣ Sample.total ns ∨ ¬Fits (Sample.total ns) ∨
          Fits (Sample.total (Sample.positives ns)) ∧ Fits (Sample.total (Sample.negatives ns))) := by
  choose! answer hanswer hint hfloat using Sample.mean_ints
  have hnonempty : ∀ ns', ns'.Perm ns → ns' ≠ [] :=
    fun ns' hperm h => hne (List.perm_nil.mp (h ▸ hperm.symm))
  refine ⟨answer, fun ns' hperm => ⟨?_, ?_, ?_⟩, ?_⟩
  · exact Native.givesOnInts_of_statistic rfl (fun _ => rfl) (fun _ _ _ => rfl) (hanswer ns' (hnonempty ns' hperm))
  · intro q
    rw [hint ns' (hnonempty ns' hperm), Sample.Whole, Sample.total_perm hperm, hperm.length_eq]
  · rw [hfloat ns' (hnonempty ns' hperm), Sample.exists_whole_iff (hnonempty ns' hperm), Sample.total_perm hperm,
      hperm.length_eq]
  · rw [← Sample.whole_in_every_order_iff hne]
    refine forall₂_congr fun ns' hperm => forall_congr' fun q => ?_
    rw [hint ns' (hnonempty ns' hperm), hint ns hne]

/-- Three integers whose sum is zero, in two orders. In the first one the sum of the first two is too large. -/
theorem mean_whole_if_partial_sums_fit_zero :
    (∃ id m x, m.heap.HoldsInts id [Int64.maxValue, 1, Int64.minValue] ∧
      Native.mean.Gives [.array id] m (.number (.float x)) m) ∧
    ∃ id m, m.heap.HoldsInts id [Int64.maxValue, Int64.minValue, 1] ∧
      Native.mean.Gives [.array id] m (.number (.int 0)) m := by
  obtain ⟨answer, heach, -⟩ :=
    mean_whole_if_partial_sums_fit [Int64.maxValue, 1, Int64.minValue] (by decide)
  obtain ⟨hfirst, -, hfloat⟩ := heach _ (.refl _)
  obtain ⟨hsecond, hint, -⟩ := heach [Int64.maxValue, Int64.minValue, 1] (by decide)
  constructor
  · have hoverflow : ¬Sample.PartialSumsFit [Int64.maxValue, 1, Int64.minValue] := fun h =>
      absurd (h [Int64.maxValue, 1] (by decide)).2 (by decide)
    obtain ⟨x, hx⟩ := hfloat.mpr fun h => hoverflow h.1
    rw [hx] at hfirst
    obtain ⟨id, m, hgives⟩ := hfirst.exists_gives
    exact ⟨id, m, x, hgives⟩
  · have hsum : Sample.intSum? ([Int64.maxValue, Int64.minValue, 1].map .int) = some 0 := by decide
    have hparts := Sample.intSum?_eq_some.mp hsum
    rw [(hint 0).mpr ⟨hparts.1, by decide⟩] at hsecond
    exact hsecond.exists_gives

end LoxLang

import LoxLang.Proofs.Native.Calls
import LoxLang.Proofs.Number.Order

/-!
Ranks of integers. The larger and the smaller of two integers and the middle one of an odd number of them are found
among the double precision numbers that they are converted to. Integers that are one such number tie, and a tie goes
to the one that comes first. So an answer is right up to ties, and the middle one is right in every order of the
integers exactly if no other one ties with it.
-/

namespace LoxLang

/-! ### Lists in the order of a key -/

section

variable {α : Type} {key : α → Int} {l : List α}

/-- The element has middle rank in the order of a key: half of the list, rounded down, is enough for those before it,
but not for those up to it. -/
structure OfMiddleRank (key : α → Int) (l : List α) (c : α) : Prop where
  mem : c ∈ l
  before : l.countP (fun x => key x < key c) ≤ l.length / 2
  upTo : l.length / 2 < l.countP (fun x => key x ≤ key c)

theorem OfMiddleRank.not_lt {c d : α} (hc : OfMiddleRank key l c) (hd : OfMiddleRank key l d) : ¬key c < key d := by
  intro hless
  have hcount : l.countP (fun x => key x ≤ key c) ≤ l.countP (fun x => key x < key d) :=
    List.countP_mono_left fun x _ hx => decide_eq_true (lt_of_le_of_lt (of_decide_eq_true hx) hless)
  exact absurd (hcount.trans hd.before) (Nat.not_le.mpr hc.upTo)

theorem OfMiddleRank.perm {l' : List α} {c : α} (hc : OfMiddleRank key l c) (h : l'.Perm l) : OfMiddleRank key l' c := by
  refine ⟨h.mem_iff.mpr hc.mem, ?_, ?_⟩
  · rw [h.countP_eq, h.length_eq]
    exact hc.before
  · rw [h.countP_eq, h.length_eq]
    exact hc.upTo

/-- All elements of middle rank have one key. -/
theorem OfMiddleRank.key_eq {c d : α} (hc : OfMiddleRank key l c) (hd : OfMiddleRank key l d) : key c = key d := by
  have := hc.not_lt hd
  have := hd.not_lt hc
  omega

/-- The order of a key. -/
def byKey (key : α → Int) (a b : α) : Bool :=
  decide (key a ≤ key b)

theorem byKey_trans (a b c : α) (hab : byKey key a b = true) (hbc : byKey key b c = true) : byKey key a c = true :=
  decide_eq_true ((of_decide_eq_true hab).trans (of_decide_eq_true hbc))

theorem byKey_total (a b : α) : (byKey key a b || byKey key b a) = true := by
  rcases le_total (key a) (key b) with h | h <;> simp [byKey, h]

/-- Sorting leaves the elements of one key in their order. -/
theorem filter_mergeSort (k : Int) :
    (l.mergeSort (byKey key)).filter (fun x => key x = k) = l.filter fun x => key x = k := by
  have htied : (l.filter fun x => key x = k).Pairwise fun a b => byKey key a b = true := by
    refine List.pairwise_of_forall_mem_list fun a ha b hb => decide_eq_true ?_
    rw [of_decide_eq_true (List.mem_filter.mp ha).2, of_decide_eq_true (List.mem_filter.mp hb).2]
  have hkept := (List.sublist_mergeSort byKey_trans byKey_total htied List.filter_sublist).filter fun x => key x = k
  rw [List.filter_filter] at hkept
  simp only [Bool.and_self] at hkept
  exact (hkept.eq_of_length ((List.mergeSort_perm l _).filter _).length_eq.symm).symm

/-- A sorted list is made of the elements before a key, those of that key and those after it. -/
theorem eq_blocks {s : List α} (hsorted : s.Pairwise fun a b => byKey key a b = true) (k : Int) :
    s = s.filter (fun x => key x < k) ++ (s.filter (fun x => key x = k) ++ s.filter fun x => k < key x) := by
  induction s with
  | nil => rfl
  | cons x rest ih =>
    obtain ⟨hfirst, hrest⟩ := List.pairwise_cons.mp hsorted
    have hle : ∀ y ∈ rest, key x ≤ key y := fun y hy => of_decide_eq_true (hfirst y hy)
    have hnone : k ≤ key x → rest.filter (fun y => key y < k) = [] := fun hk => List.filter_eq_nil_iff.mpr
      fun y hy hless => absurd (of_decide_eq_true hless) (hk.trans (hle y hy)).not_gt
    have hsplit := ih hrest
    rcases lt_trichotomy (key x) k with hless | htied | hless
    · rw [List.filter_cons_of_pos (by simpa), List.filter_cons_of_neg (by simpa using hless.ne),
        List.filter_cons_of_neg (by simpa using hless.le), List.cons_append, ← hsplit]
    · rw [hnone htied.ge, List.nil_append] at hsplit
      rw [List.filter_cons_of_neg (by simpa using htied.ge), List.filter_cons_of_pos (by simpa),
        List.filter_cons_of_neg (by simpa using htied.le), hnone htied.ge, List.nil_append, List.cons_append, ← hsplit]
    · have htie : rest.filter (fun y => key y = k) = [] := List.filter_eq_nil_iff.mpr
        fun y hy htied => absurd (of_decide_eq_true htied) (hless.trans_le (hle y hy)).ne'
      rw [hnone hless.le, htie, List.nil_append, List.nil_append] at hsplit
      rw [List.filter_cons_of_neg (by simpa using hless.le), List.filter_cons_of_neg (by simpa using hless.ne'),
        List.filter_cons_of_pos (by simpa), hnone hless.le, htie, List.nil_append, List.nil_append, ← hsplit]

theorem countP_le_eq (k : Int) :
    l.countP (fun x => key x ≤ k) = l.countP (fun x => key x < k) + (l.filter fun x => key x = k).length := by
  induction l with
  | nil => rfl
  | cons x rest ih =>
    rw [← List.countP_eq_length_filter] at ih ⊢
    simp only [List.countP_cons, decide_eq_true_eq, ih]
    split_ifs <;> omega

theorem getElem?_mergeSort {i : Nat} {r : α} (h : (l.mergeSort (byKey key))[i]? = some r) :
    l.countP (fun x => key x < key r) ≤ i ∧ i < l.countP (fun x => key x ≤ key r) ∧
      (l.filter fun x => key x = key r)[i - l.countP fun x => key x < key r]? = some r := by
  have hbefore : ((l.mergeSort (byKey key)).filter fun x => key x < key r).length = l.countP fun x => key x < key r := by
    rw [← List.countP_eq_length_filter, (List.mergeSort_perm l _).countP_eq]
  rw [eq_blocks (List.pairwise_mergeSort byKey_trans byKey_total l) (key r), filter_mergeSort, List.getElem?_append,
    List.getElem?_append, hbefore] at h
  rw [countP_le_eq]
  split_ifs at h with hless htied
  · have := (List.mem_filter.mp (List.mem_of_getElem? h)).2
    exact absurd this (by simp)
  · exact ⟨by omega, by omega, h⟩
  · have := (List.mem_filter.mp (List.mem_of_getElem? h)).2
    exact absurd this (by simp)

theorem ofMiddleRank_mergeSort {c : α} (h : (l.mergeSort (byKey key))[l.length / 2]? = some c) : OfMiddleRank key l c :=
  ⟨(List.mergeSort_perm l _).mem_iff.mp (List.mem_of_getElem? h), (getElem?_mergeSort h).1, (getElem?_mergeSort h).2.1⟩

theorem exists_middle (key : α → Int) (hodd : l.length % 2 = 1) :
    ∃ c, (l.mergeSort (byKey key))[l.length / 2]? = some c := by
  refine ⟨_, List.getElem?_eq_getElem ?_⟩
  rw [List.length_mergeSort]
  omega

/-- Any element may stand at any place in another order. -/
theorem exists_perm_getElem? {d : α} (hd : d ∈ l) {i : Nat} (hi : i < l.length) :
    ∃ l' : List α, l'.Perm l ∧ l'[i]? = some d := by
  obtain ⟨front, back, rfl⟩ := List.append_of_mem hd
  have hlength : i ≤ (front ++ back).length := by
    simp only [List.length_append, List.length_cons] at hi ⊢
    omega
  refine ⟨(front ++ back).insertIdx i d, (List.perm_insertIdx d _ hlength).trans List.perm_middle.symm, ?_⟩
  rw [List.getElem?_insertIdx_self, if_pos hlength]

end

/-! ### Integers as double precision numbers -/

open Binary64 (ofInt)

/-- Two integers that are converted to one double precision number. -/
def RoundAlike (a b : Int64) : Prop :=
  ofInt a.toInt = ofInt b.toInt

instance (a b : Int64) : Decidable (RoundAlike a b) :=
  inferInstanceAs (Decidable (_ = _))

theorem RoundAlike.symm {a b : Int64} (h : RoundAlike a b) : RoundAlike b a :=
  Eq.symm h

/-- Orders integers as the double precision numbers that they are converted to. -/
def roundedKey (n : Int64) : Int :=
  (ofInt n.toInt).orderKey

theorem roundAlike_iff {a b : Int64} : RoundAlike a b ↔ roundedKey a = roundedKey b :=
  Binary64.ofInt_eq_iff

theorem roundedKey_mono {a b : Int64} (h : a.toInt ≤ b.toInt) : roundedKey a ≤ roundedKey b :=
  Binary64.orderKey_ofInt_mono h

theorem roundedKey_lt_iff {a b : Int64} : roundedKey a < roundedKey b ↔ a.toInt < b.toInt ∧ ¬RoundAlike a b := by
  rw [roundAlike_iff]
  constructor
  · intro h
    exact ⟨lt_of_not_ge fun hle => (roundedKey_mono hle).not_gt h, h.ne⟩
  · rintro ⟨hless, hne⟩
    exact lt_of_le_of_ne (roundedKey_mono hless.le) hne

/-- Different integers of at most 53 bits stay different. -/
theorem RoundAlike.eq {a b : Int64} (h : RoundAlike a b) (ha : a.toInt.natAbs ≤ 2 ^ 53) (hb : b.toInt.natAbs ≤ 2 ^ 53) :
    a = b :=
  Int64.toInt_inj.mp (Binary64.ofInt_injective ha hb h)

theorem OfMiddleRank.rounded {ns : List Int64} {c : Int64} (h : OfMiddleRank Int64.toInt ns c) :
    OfMiddleRank roundedKey ns c := by
  refine ⟨h.mem, le_trans (List.countP_mono_left fun n _ hn => ?_) h.before,
    h.upTo.trans_le (List.countP_mono_left fun n _ hn => ?_)⟩
  · exact decide_eq_true (roundedKey_lt_iff.mp (of_decide_eq_true hn)).1
  · exact decide_eq_true (roundedKey_mono (of_decide_eq_true hn))

/-- The integers that are converted to the same number. -/
def tied (ns : List Int64) (c : Int64) : List Int64 :=
  ns.filter fun n => RoundAlike n c

/-- What is left of the middle place after the integers that are converted to smaller numbers. -/
def tiedPlace (ns : List Int64) (c : Int64) : Nat :=
  ns.length / 2 - ns.countP fun n => n.toInt < c.toInt ∧ ¬RoundAlike n c

theorem tiedPlace_perm {ns ns' : List Int64} (h : ns'.Perm ns) (c : Int64) : tiedPlace ns' c = tiedPlace ns c := by
  unfold tiedPlace
  rw [h.length_eq, h.countP_eq]

/-! ### The functions -/

namespace Number

theorem pick_int (test : Ordering → Bool) (a b : Int64) :
    pick test (.int a) (.int b) = .int (if test (compare (roundedKey a) (roundedKey b)) then a else b) := by
  have hcompare := compare?_converted (x := .int a) (y := .int b) trivial trivial
  unfold pick
  rw [hcompare, apply_ite int]
  rfl

/-- The larger of two integers, the first one if they tie. -/
theorem maximum_int (a b : Int64) : ∃ r : Int64, maximum (.int a) (.int b) = .int r ∧
    r.toInt = if RoundAlike a b then a.toInt else max a.toInt b.toInt := by
  refine ⟨_, pick_int _ a b, ?_⟩
  rw [if_congr (bne_iff_ne.trans compare_lt_iff_lt.not) rfl rfl, ite_not, apply_ite Int64.toInt,
    if_congr roundedKey_lt_iff rfl rfl]
  by_cases halike : RoundAlike a b
  · rw [if_pos halike, if_neg fun h => h.2 halike]
  · rw [if_neg halike, if_congr (and_iff_left halike) rfl rfl]
    split_ifs <;> omega

/-- The smaller of two integers, the first one if they tie. -/
theorem minimum_int (a b : Int64) : ∃ r : Int64, minimum (.int a) (.int b) = .int r ∧
    r.toInt = if RoundAlike a b then a.toInt else min a.toInt b.toInt := by
  refine ⟨_, pick_int _ a b, ?_⟩
  rw [if_congr (bne_iff_ne.trans compare_gt_iff_gt.not) rfl rfl, ite_not, apply_ite Int64.toInt,
    if_congr roundedKey_lt_iff rfl rfl]
  by_cases halike : RoundAlike a b
  · rw [if_pos halike, if_neg fun h => h.2 halike.symm]
  · rw [if_neg halike, if_congr (and_iff_left (mt RoundAlike.symm halike)) rfl rfl]
    split_ifs <;> omega

end Number

namespace Sample

/-- The middle one of an odd number of integers is taken from a sorted list of them. -/
theorem median_ints {ns : List Int64} {r : Int64} (hodd : ns.length % 2 = 1)
    (hmiddle : (ns.mergeSort (byKey roundedKey))[ns.length / 2]? = some r) :
    median (ns.map .int) = .ok (.int r) := by
  have hsorted : ((ns.map .int).mergeSort fun a b => decide (a.toBinary64.totalKey ≤ b.toBinary64.totalKey)) =
      (ns.mergeSort (byKey roundedKey)).map Number.int :=
    (List.map_mergeSort fun a _ b _ => decide_eq_decide.mpr Binary64.totalKey_ofInt_le_iff.symm).symm
  have hlength : (ns.mergeSort (byKey roundedKey)).length = ns.length := List.length_mergeSort _
  unfold median
  dsimp only
  rw [hsorted, List.length_map, hlength, List.getElem?_map, hmiddle]
  exact if_pos hodd

/-- The median of integers is one of those that are converted to the same number as the integer of middle rank. -/
theorem median_tied {ns : List Int64} {c : Int64} (hodd : ns.length % 2 = 1)
    (hc : OfMiddleRank Int64.toInt ns c) :
    ∃ r, median (ns.map .int) = .ok (.int r) ∧ (tied ns c)[tiedPlace ns c]? = some r := by
  obtain ⟨r, hmiddle⟩ := exists_middle roundedKey hodd
  have hkey : roundedKey r = roundedKey c := (ofMiddleRank_mergeSort hmiddle).key_eq hc.rounded
  have hplace := (getElem?_mergeSort hmiddle).2.2
  simp only [hkey, ← roundAlike_iff, roundedKey_lt_iff] at hplace
  exact ⟨r, median_ints hodd hmiddle, hplace⟩

/-- Any of those is the median in some order of the integers. -/
theorem exists_perm_median {ns : List Int64} {c d : Int64} (hodd : ns.length % 2 = 1)
    (hc : OfMiddleRank Int64.toInt ns c) (hd : d ∈ tied ns c) :
    ∃ ns' : List Int64, ns'.Perm ns ∧ median (ns'.map .int) = .ok (.int d) := by
  obtain ⟨_, -, hplace⟩ := median_tied hodd hc
  obtain ⟨hshort, -⟩ := List.getElem?_eq_some_iff.mp hplace
  obtain ⟨front, hfront, hd'⟩ := exists_perm_getElem? hd hshort
  -- The tied integers come first, in the order that puts this one in its place, and the others follow.
  let others := ns.filter fun n => !decide (RoundAlike n c)
  have hperm : (front ++ others).Perm ns := (hfront.append_right others).trans (List.filter_append_perm _ ns)
  have htied : tied (front ++ others) c = front := by
    have hnone : others.filter (fun n => RoundAlike n c) = [] := by simp [others, List.filter_filter]
    have hall : front.filter (fun n => RoundAlike n c) = front := List.filter_eq_self.mpr fun n hn =>
      (List.mem_filter.mp (hfront.mem_iff.mp hn)).2
    rw [tied, List.filter_append, hall, hnone, List.append_nil]
  obtain ⟨r, hmedian, hplace⟩ := median_tied (hperm.length_eq ▸ hodd) (hc.perm hperm)
  rw [htied, tiedPlace_perm hperm, hd'] at hplace
  exact ⟨_, hperm, (Option.some.inj hplace) ▸ hmedian⟩

/-- The integer of middle rank is the median in every order exactly if no other one is tied with it. -/
theorem exists_median {ns : List Int64} (hodd : ns.length % 2 = 1) :
    ∃ c, (∀ c', OfMiddleRank Int64.toInt ns c' ↔ c' = c) ∧ ∃ answer : List Int64 → Int64,
      (∀ ns', ns'.Perm ns → median (ns'.map .int) = .ok (.int (answer ns')) ∧
        (tied ns' c)[tiedPlace ns c]? = some (answer ns')) ∧
      ((∀ ns', ns'.Perm ns → answer ns' = c) ↔ ∀ n ∈ ns, RoundAlike n c → n = c) := by
  obtain ⟨c, hmiddle⟩ := exists_middle Int64.toInt hodd
  have hc := ofMiddleRank_mergeSort hmiddle
  have hmedian : ∀ ns' : List Int64, ns'.Perm ns → ∃ r : Int64,
      median (ns'.map .int) = .ok (.int r) ∧ (tied ns' c)[tiedPlace ns c]? = some r := by
    intro ns' hperm
    rw [← tiedPlace_perm hperm c]
    exact median_tied (hperm.length_eq ▸ hodd) (hc.perm hperm)
  choose! answer hanswer hplace using hmedian
  refine ⟨c, fun c' => ⟨fun h => Int64.toInt_inj.mp (h.key_eq hc), fun h => h ▸ hc⟩, answer,
    fun ns' hperm => ⟨hanswer ns' hperm, hplace ns' hperm⟩, fun hright n hn halike => ?_, fun hlone ns' hperm => ?_⟩
  · obtain ⟨ns', hperm, hn'⟩ := exists_perm_median hodd hc (List.mem_filter.mpr ⟨hn, decide_eq_true halike⟩)
    have hsame := (hanswer ns' hperm).symm.trans hn'
    rw [hright ns' hperm] at hsame
    injection hsame with hsame
    injection hsame with hsame
    exact hsame.symm
  · obtain ⟨hmem, halike⟩ := List.mem_filter.mp (List.mem_of_getElem? (hplace ns' hperm))
    exact hlone _ (hperm.mem_iff.mp hmem) (of_decide_eq_true halike)

end Sample

/-- The larger and the smaller of two integers are the first one if both are converted to one double precision
number, and right otherwise. The median of an odd number of integers in any order is one that is converted to the
same number as the integer of middle rank, by its place among those; it is that integer itself in every order
exactly if no other of the integers is converted so. Different integers of at most 53 bits are never converted to
one number. -/
theorem ranks_right_up_to_rounding (a b : Int64) (ns : List Int64) (hodd : ns.length % 2 = 1) :
    (∃ r : Int64, (∀ m, Native.max.Gives [.number (.int a), .number (.int b)] m (.number (.int r)) m) ∧
      r.toInt = if RoundAlike a b then a.toInt else max a.toInt b.toInt) ∧
    (∃ r : Int64, (∀ m, Native.min.Gives [.number (.int a), .number (.int b)] m (.number (.int r)) m) ∧
      r.toInt = if RoundAlike a b then a.toInt else min a.toInt b.toInt) ∧
    (∃ c, (∀ c', OfMiddleRank Int64.toInt ns c' ↔ c' = c) ∧ ∃ answer : List Int64 → Int64,
      (∀ ns', ns'.Perm ns → Native.median.GivesOnInts ns' (.int (answer ns')) ∧
        (tied ns' c)[tiedPlace ns c]? = some (answer ns')) ∧
      ((∀ ns', ns'.Perm ns → answer ns' = c) ↔ ∀ n ∈ ns, RoundAlike n c → n = c)) ∧
    ∀ x y : Int64, x.toInt.natAbs ≤ 2 ^ 53 → y.toInt.natAbs ≤ 2 ^ 53 → RoundAlike x y → x = y := by
  obtain ⟨larger, hmax, hlarger⟩ := Number.maximum_int a b
  obtain ⟨smaller, hmin, hsmaller⟩ := Number.minimum_int a b
  refine ⟨⟨larger, fun m => ?_, hlarger⟩, ⟨smaller, fun m => ?_, hsmaller⟩, ?_, fun x y hx hy h => h.eq hx hy⟩
  · rw [← hmax]
    exact Native.gives_of_answer (a := .value (.number (Number.maximum (.int a) (.int b)))) rfl rfl rfl
  · rw [← hmin]
    exact Native.gives_of_answer (a := .value (.number (Number.minimum (.int a) (.int b)))) rfl rfl rfl
  · obtain ⟨c, hunique, answer, hanswer, hright⟩ := Sample.exists_median hodd
    refine ⟨c, hunique, answer, fun ns' hperm => ⟨?_, (hanswer ns' hperm).2⟩, hright⟩
    exact Native.givesOnInts_of_statistic rfl (fun _ => rfl) (fun _ _ _ => rfl) (hanswer ns' hperm).1

/-- At `2 ^ 53` there are ties: the smaller of two integers is found to be the larger one, and the largest of three to
be the middle one. -/
theorem ranks_right_up_to_rounding_tie :
    (∀ m, Native.max.Gives [.number (.int 9007199254740992), .number (.int 9007199254740993)] m
      (.number (.int 9007199254740992)) m) ∧
    ∃ id m, m.heap.HoldsInts id [9007199254740993, 9007199254740992, 1] ∧
      Native.median.Gives [.array id] m (.number (.int 9007199254740993)) m := by
  obtain ⟨⟨r, hmax, hr⟩, -, ⟨c, hunique, answer, hanswer, -⟩, -⟩ :=
    ranks_right_up_to_rounding 9007199254740992 9007199254740993 [9007199254740993, 9007199254740992, 1] (by decide)
  constructor
  · rw [if_pos (by decide +kernel)] at hr
    exact Int64.toInt_inj.mp hr ▸ hmax
  · obtain rfl : 9007199254740992 = c := (hunique _).mp ⟨by decide, by decide, by decide⟩
    obtain ⟨hmedian, hplace⟩ := hanswer _ (.refl _)
    have hfirst : (tied [9007199254740993, 9007199254740992, 1] 9007199254740992)[
        tiedPlace [9007199254740993, 9007199254740992, 1] 9007199254740992]? = some 9007199254740993 := by
      decide +kernel
    rw [← Option.some.inj (hfirst.symm.trans hplace)] at hmedian
    exact hmedian.exists_gives

end LoxLang

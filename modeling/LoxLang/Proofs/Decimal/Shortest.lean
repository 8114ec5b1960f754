import LoxLang.Proofs.Decimal.Interval

/-!
The search for the shortest decimal ends with a decimal that rounds to the number it is searched for: the number
itself is on the last grid that is tried.
-/

namespace LoxLang.Decimal

variable {x : Binary64} {i : Interval} {u e : Int} {tie : Tie} {c : Nat}

/-- The factors that clear the denominators of a step of a grid and of the unit of an interval. -/
theorem onGrid_quotient (c : Nat) (u e : Int) :
    ((c * (tenTo e.toNat * twoTo (-u).toNat) : Nat) : ℚ) / (tenTo (-e).toNat * twoTo u.toNat : Nat) =
      c * 10 ^ e / 2 ^ u := by
  have hten : (0 : ℚ) < tenTo (-e).toNat := by exact_mod_cast tenTo_pos _
  have htwo : (0 : ℚ) < twoTo u.toNat := by exact_mod_cast Binary64.twoTo_pos _
  have htwo' : (0 : ℚ) < twoTo (-u).toNat := by exact_mod_cast Binary64.twoTo_pos _
  rw [ten_zpow_eq, Binary64.two_zpow_eq]
  push_cast
  field_simp

theorem Interval.onGrid?_contains (h : i.onGrid? u tie e = some c) : i.Contains (c * 10 ^ e / 2 ^ u) := by
  have hcontains : ∀ {c}, i.has (tenTo (-e).toNat * twoTo u.toNat) (tenTo e.toNat * twoTo (-u).toNat) c = true →
      i.Contains (c * 10 ^ e / 2 ^ u) := by
    intro c hc
    have := (Interval.has_iff (Nat.mul_pos (tenTo_pos _) (Binary64.twoTo_pos _))).mp hc
    rwa [onGrid_quotient] at this
  unfold Interval.onGrid? at h
  dsimp only at h
  generalize i.value * (tenTo (-e).toNat * twoTo u.toNat) / (tenTo e.toNat * twoTo (-u).toNat) = c' at h
  split at h
  case h_1 hbelow habove =>
    split_ifs at h
    · exact Option.some.inj h ▸ hcontains hbelow
    · exact Option.some.inj h ▸ hcontains habove
    · cases tie with
      | up => exact Option.some.inj h ▸ hcontains habove
      | even =>
        refine Option.some.inj h ▸ ?_
        rcases Nat.mod_two_eq_zero_or_one c' with hparity | hparity
        · exact hparity ▸ hcontains hbelow
        · exact hparity ▸ hcontains habove
  case h_2 hbelow _ => exact Option.some.inj h ▸ hcontains hbelow
  case h_3 _ habove => exact Option.some.inj h ▸ hcontains habove
  case h_4 => cases h

/-- The value of an interval is on the grid whose step divides both the unit and one. -/
theorem Interval.onGrid?_last (hvalue : i.Contains i.value) : (i.onGrid? u tie (min u 0)).isSome = true := by
  obtain ⟨s, hs⟩ : ∃ s, tenTo (min u 0).toNat * twoTo (-u).toNat = s := ⟨_, rfl⟩
  obtain ⟨t, ht⟩ : ∃ t, tenTo (-min u 0).toNat * twoTo u.toNat = t := ⟨_, rfl⟩
  have hpos : 0 < t := ht ▸ Nat.mul_pos (tenTo_pos _) (Binary64.twoTo_pos _)
  have hdvd : s ∣ t := by
    rcases le_total u 0 with hu | hu
    · have hs' : s = 2 ^ (-u).toNat := by
        rw [← hs, min_eq_left hu, Int.toNat_of_nonpos hu]
        exact Nat.one_mul _
      have ht' : t = 10 ^ (-u).toNat := by
        rw [← ht, min_eq_left hu, Int.toNat_of_nonpos hu]
        exact Nat.mul_one _
      rw [hs', ht']
      exact pow_dvd_pow_of_dvd (by decide) _
    · have hs' : s = 1 := by
        rw [← hs, min_eq_right hu, Int.toNat_of_nonpos (neg_nonpos.mpr hu)]
        rfl
      exact hs' ▸ Nat.one_dvd t
  have hexact : i.value * t / s * s = i.value * t := Nat.div_mul_cancel (Dvd.dvd.mul_left hdvd _)
  have hhit : i.has t s (i.value * t / s) = true := by
    have hne : (t : ℚ) ≠ 0 := by exact_mod_cast hpos.ne'
    rw [Interval.has_iff hpos, hexact, Nat.cast_mul, mul_div_cancel_right₀ _ hne]
    exact hvalue
  unfold Interval.onGrid?
  dsimp only
  rw [hs, ht, hhit]
  split <;> simp_all
  split_ifs <;> first | rfl | (cases tie <;> rfl)

theorem Interval.firstGrid_contains (n : Nat) (hlast : ∃ k < n, (i.onGrid? u tie (e - k)).isSome = true) :
    i.Contains ((i.firstGrid u tie n e).value / 2 ^ u) := by
  induction n generalizing e with
  | zero =>
    obtain ⟨k, hk, -⟩ := hlast
    cases hk
  | succ n ih =>
    unfold Interval.firstGrid
    split
    case h_1 c hc => exact Interval.onGrid?_contains hc
    case h_2 hnone =>
      refine ih ?_
      obtain ⟨k, hk, hsome⟩ := hlast
      cases k with
      | zero => simp [hnone] at hsome
      | succ k =>
        refine ⟨k, Nat.lt_of_succ_lt_succ hk, ?_⟩
        rwa [sub_sub, add_comm (1 : Int), ← Nat.cast_succ]

theorem strip_value (n : Nat) (d : Decimal) : (strip n d).value = d.value := by
  induction n generalizing d with
  | zero => rfl
  | succ n ih =>
    unfold strip
    split_ifs with h
    · have hdigits : (d.digits : ℚ) = 10 * (d.digits / 10 : Nat) := by
        exact_mod_cast (Nat.mul_div_cancel' (Nat.dvd_of_mod_eq_zero h.2)).symm
      rw [ih, value, value, hdigits, zpow_add_one₀ (by norm_num)]
      ring
    · rfl

/-- The shortest decimal of a number rounds to the number. -/
theorem shortest_roundsTo (tie : Tie) (hzero : x.isZero = false) : RoundsTo (shortest tie x).value x := by
  have hvalue : (Interval.around x).Contains (Interval.around x).value := by
    have hpos := Binary64.significand_pos hzero
    have hlow : (Interval.around x).low < (Interval.around x).value := by
      unfold Interval.around
      dsimp only
      split_ifs <;> omega
    have hhigh : (Interval.around x).value < (Interval.around x).high := Nat.lt_add_of_pos_right (by decide)
    have hlow' : ((Interval.around x).low : ℚ) < (Interval.around x).value := by exact_mod_cast hlow
    have hhigh' : ((Interval.around x).value : ℚ) < (Interval.around x).high := by exact_mod_cast hhigh
    exact ⟨hlow'.le, hhigh'.le, fun _ => ⟨hlow'.ne, hhigh'.ne⟩⟩
  unfold shortest RoundsTo
  rw [hzero]
  dsimp only [Bool.false_eq_true]
  rw [if_neg Bool.false_ne_true, strip_value]
  refine Interval.firstGrid_contains _ ?_
  -- The first grid is not below the last one, which is the one of the value.
  obtain ⟨first, hfirst⟩ : ∃ first, ((x.significand.log2 : Int) + x.exponent + 1) * 30103 / 100000 + 1 = first :=
    ⟨_, rfl⟩
  have horder : min (x.exponent - 2) 0 ≤ first := by omega
  rw [hfirst]
  refine ⟨(first - min (x.exponent - 2) 0).toNat, Nat.lt_succ_self _, ?_⟩
  rw [Int.toNat_of_nonneg (sub_nonneg.mpr horder), sub_sub_cancel]
  exact Interval.onGrid?_last hvalue

end LoxLang.Decimal

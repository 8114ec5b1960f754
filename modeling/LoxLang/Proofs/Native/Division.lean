import LoxLang.Proofs.Native.Calls
import LoxLang.Proofs.Number.Integers

/-!
Floor division. There are two ways to it from the quotient that is rounded towards zero: the operator looks
at the signs of its operands, and `divmod` at the signs of the remainder and the divisor. On integers both
lead to the one quotient whose remainder lies between zero and the divisor, and no step on the way of
`divmod` leaves the 64-bit range. On other numbers, and where the quotient has more than 64 bits, both
go the same way with double precision numbers.
-/

namespace LoxLang

namespace Number

/-- No step on the way of `divmod` leaves the 64-bit range: the exact results of them all fit. -/
structure DivmodStepsFit (a b : Int64) : Prop where
  quotient : Fits (a.toInt.tdiv b.toInt)
  remainder : Fits (a.toInt.tmod b.toInt)
  lower : strays (a % b) b → Fits ((a / b).toInt - 1)
  moved : strays (a % b) b → Fits ((a % b).toInt + b.toInt)

theorem strays_iff {r b : Int64} : strays r b = true ↔ r.toInt ≠ 0 ∧ ¬(r.toInt < 0 ↔ b.toInt < 0) := by
  have hzero : r = 0 ↔ r.toInt = 0 := Int64.toInt_inj.symm
  unfold strays
  rw [Bool.and_eq_true, bne_iff_ne, bne_iff_ne, ne_eq, ne_eq, decide_eq_decide, hzero, Int64.lt_iff_toInt_lt,
    Int64.lt_iff_toInt_lt]
  rfl

/-! ### The steps on integers -/

section

variable {a b : Int64} (hslip : ¬(a = Int64.minValue ∧ b = -1))
include hslip

theorem toInt_quotient : (a / b).toInt = a.toInt.tdiv b.toInt := by
  by_cases h : b = -1
  · exact Int64.toInt_div_of_ne_left _ _ fun ha => hslip ⟨ha, h⟩
  · exact Int64.toInt_div_of_ne_right _ _ h

theorem divmodStepsFit (hb : b.toInt ≠ 0) : DivmodStepsFit a b := by
  have hrest := Int64.toInt_mod a b
  have ha := fits_toInt a
  have hdivisor := fits_toInt b
  have hsmaller := (Arithmetic.exact_rem a.toInt hb).2.1
  refine ⟨?_, hrest ▸ fits_toInt _, fun hstrays => ?_, fun hstrays => ?_⟩
  · exact (Arithmetic.fits_tdiv ha hb).mpr fun h =>
      hslip ⟨Int64.toInt_inj.mp h.1, Int64.toInt_inj.mp h.2⟩
  · -- A remainder that is not zero needs a divisor beyond one, and then the quotient is far from the ends.
    have hnonzero := (strays_iff.mp hstrays).1
    have htwo : 2 ≤ b.toInt.natAbs := by
      by_contra hone
      obtain h | h : b.toInt = 1 ∨ b.toInt = -1 := by omega
      · exact hnonzero (by rw [hrest, h, Int.tmod_one])
      · exact hnonzero (by rw [hrest, h, Int.tmod_neg, Int.tmod_one])
    have hhalf : (a.toInt.tdiv b.toInt).natAbs ≤ a.toInt.natAbs / 2 := by
      rw [Int.natAbs_tdiv]
      exact Nat.div_le_div_left htwo (by decide)
    rw [toInt_quotient hslip]
    unfold Fits at *
    omega
  · have hsigns := (strays_iff.mp hstrays).2
    unfold Fits at *
    omega

/-- On integers, `divmod` gives a quotient with a remainder between zero and the divisor. -/
theorem intDivmod?_eq (hb : b.toInt ≠ 0) : ∃ q r, intDivmod? a b = some (q, r) ∧
    a.toInt = q.toInt * b.toInt + r.toInt ∧
    (0 ≤ r.toInt ∧ r.toInt < b.toInt ∨ b.toInt < r.toInt ∧ r.toInt ≤ 0) := by
  have hfit := divmodStepsFit hslip hb
  have hsmaller := (Arithmetic.exact_rem a.toInt hb).2.1
  rw [← Int64.toInt_mod] at hsmaller
  have hsum : (a / b).toInt * b.toInt + (a % b).toInt = a.toInt := by
    rw [toInt_quotient hslip, Int64.toInt_mod, Int.tdiv_mul_add_tmod]
  unfold intDivmod?
  rw [if_neg hslip]
  dsimp only
  split
  case isTrue hstrays =>
    obtain ⟨hnonzero, hsigns⟩ := strays_iff.mp hstrays
    have hlower : (a / b - 1).toInt = (a / b).toInt - 1 := by
      rw [Int64.toInt_sub]
      exact bmod_of_fits (hfit.lower hstrays)
    have hmoved : (a % b + b).toInt = (a % b).toInt + b.toInt := by
      rw [Int64.toInt_add]
      exact bmod_of_fits (hfit.moved hstrays)
    refine ⟨_, _, rfl, ?_, by omega⟩
    rw [hlower, hmoved, Int.sub_mul]
    omega
  case isFalse hstays =>
    rw [strays_iff] at hstays
    exact ⟨_, _, rfl, hsum.symm, by omega⟩

end

/-! ### The two ways -/

theorem floatDivmod_fst (x y : Binary64) :
    (floatDivmod x y).1 = .float (Arithmetic.floorDiv.onFloats x y) := by
  simp only [floatDivmod, Arithmetic.onFloats]
  split <;> rfl

/-- Without an integer result, the operator converts its operands. -/
theorem apply_floorDiv_none {a b : Int64}
    (hnone : (Arithmetic.floorDiv.onInts? a.toInt b.toInt).bind ofInt? = none) :
    Arithmetic.floorDiv.apply (.int a) (.int b) =
      .float (Arithmetic.floorDiv.onFloats (Binary64.ofInt a.toInt) (Binary64.ofInt b.toInt)) := by
  rw [Arithmetic.apply, hnone]
  rfl

/-- Both ways lead to one quotient. -/
theorem divmod_fst (a b : Number) : (a.divmod b).1 = Arithmetic.floorDiv.apply a b := by
  cases a with
  | float x => cases b <;> exact floatDivmod_fst _ _
  | int a =>
    cases b with
    | float y => exact floatDivmod_fst _ _
    | int b =>
      by_cases hb : b = 0
      · subst hb
        rw [divmod, if_pos rfl, floatDivmod_fst, apply_floorDiv_none rfl]
      by_cases hslip : a = Int64.minValue ∧ b = -1
      · have hnone : intDivmod? a b = none := if_pos hslip
        obtain ⟨rfl, rfl⟩ := hslip
        rw [divmod, if_neg hb, hnone, apply_floorDiv_none (by decide)]
        exact floatDivmod_fst _ _
      obtain ⟨q, r, hdivmod, hsum, hbounds⟩ := intDivmod?_eq hslip fun h => hb (Int64.toInt_inj.mp h)
      have hexact : Arithmetic.floorDiv.Exact a.toInt b.toInt q.toInt :=
        ⟨r.toInt, by rw [Int.mul_comm, hsum], hbounds⟩
      obtain ⟨i, hi, hvalue⟩ := (Arithmetic.apply_of_exact hexact).1 ⟨fits_toInt q, by
        rintro (⟨h, -⟩ | ⟨h, -⟩) <;> cases h⟩
      rw [divmod, if_neg hb, hdivmod, hi, Int64.toInt_inj.mp hvalue]

end Number

/-! ### The function and the operator -/

/-- On every two numbers, `divmod` makes an array of a quotient and a remainder, and the quotient is what the
operator gives. If both numbers are integers, the divisor is not zero and the quotient fits in 64 bits, both
parts are integers: they make up the dividend, the remainder is smaller than the divisor and has its sign
unless it is zero, and no step on the way overflows. -/
theorem divmod_divides_downwards (a b : Number) (m : Machine) :
    ∃ q r id m', Native.divmod.Gives [.number a, .number b] m (.array id) m' ∧
      m'.heap.items id = #[.number q, .number r] ∧
      (∀ position, (Exec.binary (.arithmetic .floorDiv) position (.number a) (.number b)).run m =
        .ok (.number q) m) ∧
      ∀ x y : Int64, a = .int x → b = .int y → y ≠ 0 → ¬(x = Int64.minValue ∧ y = -1) →
        Number.DivmodStepsFit x y ∧ ∃ i j : Int64, q = .int i ∧ r = .int j ∧
          x.toInt = i.toInt * y.toInt + j.toInt ∧ j.toInt.natAbs < y.toInt.natAbs ∧ (j = 0 ∨ (j < 0 ↔ y < 0)) := by
  have hgives : Native.divmod.Gives [.number a, .number b] m _ _ :=
    Native.gives_of_answer (a := .row [.number (a.divmod b).1, .number (a.divmod b).2]) rfl rfl rfl
  refine ⟨_, _, _, _, hgives, Heap.items_newArray _ _, ?_, ?_⟩
  · intro position
    rw [Number.divmod_fst]
    rfl
  · rintro x y rfl rfl hy hslip
    have hy' : y.toInt ≠ 0 := fun h => hy (Int64.toInt_inj.mp h)
    obtain ⟨i, j, hdivmod, hsum, hbounds⟩ := Number.intDivmod?_eq hslip hy'
    have hpair : Number.divmod (.int x) (.int y) = (.int i, .int j) := by
      rw [Number.divmod, if_neg hy, hdivmod]
    refine ⟨Number.divmodStepsFit hslip hy', i, j, congrArg Prod.fst hpair, congrArg Prod.snd hpair, hsum,
      by omega, ?_⟩
    rw [← Int64.toInt_inj, Int64.lt_iff_toInt_lt, Int64.lt_iff_toInt_lt, Int64.toInt_zero]
    omega

/-- The quotient of the least integer by ten is not exact, and is rounded down. -/
theorem divmod_of_least_integer : ∃ id m',
    Native.divmod.Gives [.number (.int Int64.minValue), .number (.int 10)] default (.array id) m' ∧
      m'.heap.items id = #[.number (.int (-922337203685477581)), .number (.int 2)] := by
  obtain ⟨q, r, id, m', hgives, hitems, -, hints⟩ :=
    divmod_divides_downwards (.int Int64.minValue) (.int 10) default
  obtain ⟨-, i, j, rfl, rfl, hsum, hsmaller, hsign⟩ := hints _ _ rfl rfl (by decide) (by decide)
  have hten : (10 : Int64).toInt = 10 := by decide
  rw [← Int64.toInt_inj, Int64.lt_iff_toInt_lt, Int64.lt_iff_toInt_lt, Int64.toInt_zero, hten] at hsign
  rw [Int64.toInt_minValue, hten] at hsum
  rw [hten] at hsmaller
  obtain rfl : i = -922337203685477581 := Int64.toInt_inj.mp (by rw [show i.toInt = -922337203685477581 by omega]; decide)
  obtain rfl : j = 2 := Int64.toInt_inj.mp (by rw [show j.toInt = 2 by omega]; decide)
  exact ⟨id, m', hgives, hitems⟩

end LoxLang

import LoxLang.Proofs.Decimal.Readback
import LoxLang.Proofs.Native.Calls
import LoxLang.Proofs.Number.Integers
import LoxLang.Proofs.Number.Order

/-!
Printed numbers read back. The text of an integer is read as that integer, and the text of a double precision
number as that number, bit for bit; only a NaN is read as a NaN that may be another one. No text of a double
precision number is one of an integer, since it has a point, an exponent or letters.
-/

namespace LoxLang

/-! ### Blanks -/

namespace Text

theorem dropWhile_blank {a cs : List Char} (ha : ∀ c ∈ a, isBlank c = true) (hcs : ∀ c ∈ cs.head?, isBlank c = false) :
    (a ++ cs).dropWhile isBlank = cs := by
  rw [List.dropWhile_append_of_pos ha]
  cases cs with
  | nil => rfl
  | cons c cs => rw [List.dropWhile_cons_of_neg (by simp [hcs c rfl])]

/-- Blanks around a text without blanks are removed. -/
theorem trim_between {a cs b : List Char} (ha : ∀ c ∈ a, isBlank c = true) (hb : ∀ c ∈ b, isBlank c = true)
    (hne : cs ≠ []) (hcs : ∀ c ∈ cs, isBlank c = false) : trim (a ++ cs ++ b) = cs := by
  have hstart : trimStart (a ++ cs ++ b) = cs ++ b := by
    rw [trimStart, List.append_assoc]
    refine dropWhile_blank ha fun c hc => hcs c ?_
    rw [List.head?_append_of_ne_nil _ hne] at hc
    exact List.mem_of_mem_head? hc
  rw [trim, hstart, trimEnd, List.reverse_append, dropWhile_blank, List.reverse_reverse]
  · exact fun c hc => hb c (List.mem_reverse.mp hc)
  · exact fun c hc => hcs c (List.mem_reverse.mp (List.mem_of_mem_head? hc))

theorem isBlank_of_code {c : Char} (h : 33 ≤ c.toNat ∧ c.toNat ≤ 126) : isBlank c = false := by
  unfold isBlank
  simp only [Bool.or_eq_false_iff, Bool.and_eq_false_iff, decide_eq_false_iff_not, beq_eq_false_iff_ne]
  omega

end Text

namespace Decimal

variable {cs : List Char} {v : ℚ}

theorem NumberChar.not_blank {c : Char} (h : NumberChar c) : Text.isBlank c = false := by
  refine Text.isBlank_of_code ?_
  rcases h with h | h
  · have := (Lexis.digit_iff c).mp ((Lexer.isDigit_iff c).mp h)
    omega
  · simp only [List.mem_cons, List.not_mem_nil, or_false] at h
    rcases h with rfl | rfl | rfl | rfl <;> decide

/-- A text behind its sign. -/
def signed (negative : Bool) (cs : List Char) : List Char :=
  if negative then '-' :: cs else cs

theorem splitSign_signed (negative : Bool) (h : Lexer.Begins Char.isDigit cs = true) :
    splitSign (signed negative cs) = (negative, cs) := by
  cases negative with
  | true => rfl
  | false =>
    cases cs with
    | nil => cases h
    | cons c cs => exact splitSign_digit h cs

theorem Numeral.readInt? (h : Numeral cs v) (negative : Bool) : Decimal.readInt? (signed negative cs) = none := by
  have hnot : ¬isDigits cs = true := fun hcs => h.notInt (isDigits_iff.mp hcs).2
  unfold Decimal.readInt?
  rw [splitSign_signed negative h.begins]
  exact if_neg hnot

theorem Numeral.readFloat? (h : Numeral cs v) (negative : Bool) : ∃ d : Decimal, d.value = v ∧
    Decimal.readFloat? (signed negative cs) = some (Binary64.ofDecimal negative d.digits d.exponent) := by
  obtain ⟨d, hreads, hvalue⟩ := h.reads
  refine ⟨d, hvalue, ?_⟩
  unfold Decimal.readFloat?
  rw [splitSign_signed negative h.begins]
  dsimp only
  rw [hreads]

end Decimal

namespace Binary64

variable {x : Binary64}

theorem ofMagnitude_self (x : Binary64) : ofMagnitude x.isNegative x.magnitude = x := by
  obtain ⟨bits⟩ := x
  have hbound := bits.toNat_lt
  have hsum : (if decide (2 ^ 63 ≤ bits.toNat) then 2 ^ 63 else 0) + bits.toNat % 2 ^ 63 = bits.toNat := by
    simp only [decide_eq_true_eq]
    split <;> omega
  change mk (UInt64.ofNat ((if decide (2 ^ 63 ≤ bits.toNat) then 2 ^ 63 else 0) + bits.toNat % 2 ^ 63)) = mk bits
  rw [hsum, UInt64.ofNat_toNat]

theorem isFinite_iff : x.isFinite = true ↔ x.isNaN = false ∧ x.isInfinite = false := by
  unfold isFinite isNaN isInfinite
  simp only [decide_eq_true_eq, decide_eq_false_iff_not]
  omega

/-- The digits of a decimal with the value of the shortest one of a number are read as that number. -/
theorem ofDecimal_of_value {tie : Decimal.Tie} (hfinite : x.isFinite = true) {d : Decimal}
    (hd : d.value = (Decimal.shortest tie x).value) : ofDecimal x.isNegative d.digits d.exponent = x := by
  cases hzero : x.isZero with
  | true =>
    have hmagnitude : x.magnitude = 0 := of_decide_eq_true hzero
    have hdigits : d.digits = 0 := by
      have hnone : d.value = 0 := by
        rw [hd, Decimal.shortest, if_pos hzero]
        exact (congrArg (· * _) Nat.cast_zero).trans (zero_mul _)
      rcases mul_eq_zero.mp hnone with h | h
      · exact_mod_cast h
      · exact absurd h (by positivity)
    unfold ofDecimal
    rw [if_pos hdigits, ← hmagnitude, ofMagnitude_self]
  | false =>
    have hrounds : Decimal.RoundsTo d.value x := hd ▸ Decimal.shortest_roundsTo tie hzero
    rw [hrounds.ofDecimal hfinite hzero, ofMagnitude_self]

theorem write_finite (f : FloatNotation) (hfinite : x.isFinite = true) : (f.write x).toList =
    Decimal.signed x.isNegative (f.decimal (Decimal.shortest f.tie x)).toList := by
  obtain ⟨hnan, hinfinite⟩ := isFinite_iff.mp hfinite
  unfold FloatNotation.write
  rw [hnan, hinfinite, if_neg Bool.false_ne_true, if_neg Bool.false_ne_true]
  cases x.isNegative with
  | true => exact String.toList_append
  | false => rfl

/-- A finite number is read back from what any notation writes for it, and not as an integer. -/
theorem write_finite_reads (f : FloatNotation) (hfinite : x.isFinite = true) :
    Decimal.readFloat? (f.write x).toList = some x ∧ Decimal.readInt? (f.write x).toList = none := by
  have hnumeral := f.decimal_numeral (Decimal.shortest f.tie x)
  obtain ⟨d, hvalue, hreads⟩ := hnumeral.readFloat? x.isNegative
  rw [write_finite f hfinite, hreads, ofDecimal_of_value hfinite hvalue]
  exact ⟨rfl, hnumeral.readInt? x.isNegative⟩

/-- The texts of numbers without digits. -/
theorem text_cases (x : Binary64) : x.isFinite = true ∨
    x.text = "nan" ∧ x.isNaN = true ∨ x.text = "inf" ∧ x = infinity ∨
      x.text = "-inf" ∧ x = ofMagnitude true infiniteMagnitude := by
  cases hnan : x.isNaN with
  | true => exact .inr (.inl ⟨if_pos hnan, rfl⟩)
  | false =>
    cases hinfinite : x.isInfinite with
    | false => exact .inl (isFinite_iff.mpr ⟨hnan, hinfinite⟩)
    | true =>
      have hself := ofMagnitude_self x
      have hmagnitude : x.magnitude = infiniteMagnitude := of_decide_eq_true hinfinite
      have htext : x.text = if x.isNegative then "-inf" else "inf" := by
        unfold text FloatNotation.write
        rw [hnan, hinfinite, if_neg Bool.false_ne_true, if_pos rfl]
        rfl
      rw [htext]
      rw [hmagnitude] at hself
      cases hsign : x.isNegative <;> rw [hsign] at hself
      · exact .inr (.inr (.inl ⟨rfl, hself.symm⟩))
      · exact .inr (.inr (.inr ⟨rfl, hself.symm⟩))

theorem text_finite_chars (hfinite : x.isFinite = true) :
    x.text.toList ≠ [] ∧ ∀ c ∈ x.text.toList, Text.isBlank c = false := by
  have hnumeral := FloatNotation.printed.decimal_numeral (Decimal.shortest FloatNotation.printed.tie x)
  have hchars : ∀ c ∈ x.text.toList, Decimal.NumberChar c := by
    rw [text, write_finite _ hfinite]
    cases x.isNegative with
    | true => exact List.forall_mem_cons.mpr ⟨.inr (by decide), hnumeral.chars⟩
    | false => exact hnumeral.chars
  refine ⟨fun hnone => ?_, fun c hc => (hchars c hc).not_blank⟩
  have hreads := (write_finite_reads FloatNotation.printed hfinite).1
  rw [text] at hnone
  rw [hnone] at hreads
  cases hreads

end Binary64

theorem intText_chars (n : Int) : (intText n).toList ≠ [] ∧ ∀ c ∈ (intText n).toList, Text.isBlank c = false := by
  have hdigits : ∀ c ∈ (natText n.natAbs).toList, Text.isBlank c = false :=
    fun c hc => Decimal.NumberChar.not_blank (.inl (Datum.natText_isDigit n.natAbs c hc))
  constructor
  · obtain ⟨c, cs, hcs, -⟩ := Datum.intText_toList n
    simp [hcs]
  · unfold intText
    split
    · rw [String.toList_append]
      exact List.forall_mem_cons.mpr ⟨by decide, hdigits⟩
    · exact hdigits

theorem readInt?_intText (n : Int) : Decimal.readInt? (intText n).toList = some n := by
  have hdigits : Digits (natText n.natAbs).toList := Datum.natText_isDigit n.natAbs
  have hne : (natText n.natAbs).toList ≠ [] := by
    obtain ⟨c, cs, hcs, -⟩ := Datum.natText_toList n.natAbs
    simp [hcs]
  have hvalue : Decimal.digitsValue (natText n.natAbs).toList = n.natAbs := Datum.ofDigitChars_natText n.natAbs
  obtain ⟨hminus, -, hnone⟩ := Decimal.readInt?_signed hne hdigits
  rw [hvalue] at hminus hnone
  unfold intText
  split
  · rw [String.toList_append]
    exact hminus.trans (congrArg some (by omega))
  · exact hnone.trans (congrArg some (by omega))

namespace Number

/-- The number itself, or a NaN for a NaN. -/
inductive ReadsAs : Number → Number → Prop
  | same {n : Number} (hn : n.IsComparable) : ReadsAs n n
  | nan {x y : Binary64} (hx : x.isNaN = true) (hy : y.isNaN = true) : ReadsAs (float x) (float y)

theorem text_chars (n : Number) : n.text.toList ≠ [] ∧ ∀ c ∈ n.text.toList, Text.isBlank c = false := by
  cases n with
  | int i => exact intText_chars i.toInt
  | float x =>
    change x.text.toList ≠ [] ∧ ∀ c ∈ x.text.toList, Text.isBlank c = false
    rcases x.text_cases with hfinite | ⟨htext, -⟩ | ⟨htext, -⟩ | ⟨htext, -⟩
    · exact Binary64.text_finite_chars hfinite
    all_goals
      rw [htext]
      simp [Text.isBlank]

theorem reads_text (n : Number) : ∃ r, n.ReadsAs r ∧
    ((Decimal.readInt? n.text.toList).bind ofInt? = some r ∨
      (Decimal.readInt? n.text.toList).bind ofInt? = none ∧ ∃ x, r = float x ∧
        Decimal.readFloat? n.text.toList = some x) := by
  cases n with
  | int i =>
    have hread : (Decimal.readInt? (int i).text.toList).bind ofInt? = some (int i) := by
      rw [text, readInt?_intText, Option.bind_some, ofInt?_of_fits (fits_toInt i), Int64.ofInt_toInt]
    exact ⟨int i, .same trivial, .inl hread⟩
  | float x =>
    change ∃ r, (float x).ReadsAs r ∧ ((Decimal.readInt? x.text.toList).bind ofInt? = some r ∨
      (Decimal.readInt? x.text.toList).bind ofInt? = none ∧ ∃ y, r = float y ∧
        Decimal.readFloat? x.text.toList = some y)
    rcases x.text_cases with hfinite | ⟨htext, hx⟩ | ⟨htext, rfl⟩ | ⟨htext, rfl⟩
    · obtain ⟨hfloat, hint⟩ := Binary64.write_finite_reads FloatNotation.printed hfinite
      refine ⟨float x, .same (Binary64.isFinite_iff.mp hfinite).1, .inr ⟨?_, x, rfl, hfloat⟩⟩
      rw [Binary64.text, hint]
      rfl
    · rw [htext]
      exact ⟨float Binary64.nan, .nan hx (by decide), .inr ⟨by decide, _, rfl, by decide +kernel⟩⟩
    · have hinfinity : Binary64.infinity.isNaN = false := by decide
      rw [htext]
      exact ⟨_, .same hinfinity, .inr ⟨by decide, _, rfl, by decide +kernel⟩⟩
    · have hinfinity : (Binary64.ofMagnitude true Binary64.infiniteMagnitude).isNaN = false := by decide
      rw [htext]
      exact ⟨_, .same hinfinity, .inr ⟨by decide, _, rfl, by decide +kernel⟩⟩

end Number

namespace Native

theorem readNumber_printed (n : Number) {a b : String} (ha : ∀ c ∈ a.toList, Text.isBlank c = true)
    (hb : ∀ c ∈ b.toList, Text.isBlank c = true) : ∃ r, n.ReadsAs r ∧ readNumber (a ++ n.text ++ b) = .ok r := by
  obtain ⟨hne, hsolid⟩ := n.text_chars
  have htrim : Text.trim (a ++ n.text ++ b).toList = n.text.toList := by
    rw [String.toList_append, String.toList_append]
    exact Text.trim_between ha hb hne hsolid
  obtain ⟨r, hr, hint | ⟨hint, x, rfl, hfloat⟩⟩ := n.reads_text
  · refine ⟨r, hr, ?_⟩
    unfold readNumber
    rw [htrim]
    dsimp only
    rw [hint]
  · refine ⟨_, hr, ?_⟩
    unfold readNumber
    rw [htrim]
    dsimp only
    rw [hint, hfloat]

/-- What a program gets from the printed text of a number, with any blanks around it, is that number. -/
theorem printed_number_reads_back (n : Number) (m : Machine) {a b : String}
    (ha : ∀ c ∈ a.toList, Text.isBlank c = true) (hb : ∀ c ∈ b.toList, Text.isBlank c = true) :
    ∃ r, n.ReadsAs r ∧ str2num.Gives [.string (a ++ (Value.number n).text m.heap ++ b)] m (.number r) m := by
  obtain ⟨r, hr, hread⟩ := readNumber_printed n ha hb
  refine ⟨r, hr, gives_of_answer (a := .value (.number r)) rfl rfl ?_⟩
  exact congrArg (fun result => some do return Answer.value (.number (← result))) hread

/-- Negative zero between blanks. -/
theorem negative_zero_reads_back :
    (∀ c ∈ " \t".toList, Text.isBlank c = true) ∧ (∀ c ∈ "\n".toList, Text.isBlank c = true) ∧
      str2num.Gives [.string " \t-0.0\n"] default (.float .negativeZero) default := by
  have ha : ∀ c ∈ " \t".toList, Text.isBlank c = true := by simp [Text.isBlank]
  have hb : ∀ c ∈ "\n".toList, Text.isBlank c = true := by simp [Text.isBlank]
  refine ⟨ha, hb, ?_⟩
  obtain ⟨r, hr, hgives⟩ := printed_number_reads_back (.float .negativeZero) default ha hb
  have hsame : r = .float .negativeZero := by
    cases hr with
    | same => rfl
    | nan hx => exact absurd hx (by decide)
  have htext : " \t" ++ (Value.number (.float .negativeZero)).text (default : Machine).heap ++ "\n" = " \t-0.0\n" := by
    decide +kernel
  rw [htext, hsame] at hgives
  exact hgives

end Native

end LoxLang

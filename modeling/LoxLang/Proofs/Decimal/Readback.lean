import LoxLang.Decimal.Notation
import LoxLang.Decimal.Reader
import LoxLang.Proofs.Array.Datum
import LoxLang.Proofs.Decimal.Shortest
import LoxLang.Proofs.Token.Partition
import LoxLang.Text.Blank

/-!
Reading decimals that were written. Positional texts and texts with an exponent are read as digits and a power of
ten. These need not be the digits that were written, as zeros may have been added, but they stand for the same
rational.
-/

namespace LoxLang

/-! ### Runs of digits -/

/-- A list of digits. -/
def Digits (cs : List Char) : Prop :=
  ∀ c ∈ cs, c.isDigit = true

theorem Digits.append {a b : List Char} (ha : Digits a) (hb : Digits b) : Digits (a ++ b) :=
  List.forall_mem_append.mpr ⟨ha, hb⟩

theorem Digits.zeros (n : Nat) : Digits (List.replicate n '0') := by
  intro c hc
  rw [List.eq_of_mem_replicate hc]
  rfl

theorem Digits.toDigits (n : Nat) : Digits (Nat.toDigits 10 n) :=
  fun _ hc => Nat.isDigit_of_mem_toDigits (by decide) (by decide) hc

namespace Decimal

theorem digitsValue_from (n : Nat) (cs : List Char) :
    cs.foldl (fun n c => 10 * n + (c.toNat - '0'.toNat)) n = n * 10 ^ cs.length + digitsValue cs := by
  unfold digitsValue
  induction cs generalizing n with
  | nil => simp
  | cons c cs ih =>
    rw [List.foldl_cons, List.foldl_cons, ih, ih (10 * 0 + _), List.length_cons, pow_succ]
    ring

theorem digitsValue_append (a b : List Char) :
    digitsValue (a ++ b) = digitsValue a * 10 ^ b.length + digitsValue b := by
  rw [← digitsValue_from (digitsValue a) b]
  exact List.foldl_append

theorem digitsValue_zeros (n : Nat) : digitsValue (List.replicate n '0') = 0 := by
  induction n with
  | zero => rfl
  | succ n ih =>
    rw [List.replicate_succ', digitsValue_append, ih]
    rfl

theorem digitsValue_toDigits (n : Nat) : digitsValue (Nat.toDigits 10 n) = n :=
  Nat.ofDigitChars_ten_toDigits

/-! ### Reading -/

variable {whole fraction rest cs : List Char} {k : Int}

theorem isDigits_iff : isDigits cs = true ↔ cs ≠ [] ∧ Digits cs := by
  simp [isDigits, Digits]

/-- A text that begins with a digit has no sign. -/
theorem splitSign_digit {c : Char} (hc : c.isDigit = true) (cs : List Char) :
    splitSign (c :: cs) = (false, c :: cs) := by
  unfold splitSign
  split
  · rename_i heq
    obtain ⟨rfl, -⟩ := List.cons_eq_cons.mp heq
    exact absurd hc (by decide)
  · rename_i heq
    obtain ⟨rfl, -⟩ := List.cons_eq_cons.mp heq
    exact absurd hc (by decide)
  · rfl

/-- What can stand behind the digits of a number: nothing, or an exponent. -/
structure Tail (rest : List Char) (k : Int) : Prop where
  noDigit : Lexer.Begins Char.isDigit rest = false
  noPoint : ∀ r, rest ≠ '.' :: r
  reads : readExponent? rest = some k

theorem Tail.nil : Tail [] 0 :=
  ⟨rfl, by simp, rfl⟩

theorem readUnsigned?_whole (hne : whole ≠ []) (hwhole : Digits whole) (hrest : Tail rest k) :
    readUnsigned? (whole ++ rest) = some (digitsValue whole, k) := by
  obtain ⟨htake, hdrop⟩ := Lexer.takeWhile_run hwhole hrest.noDigit
  have hparts : readUnsigned? (whole ++ rest) =
      if whole.isEmpty && true then none
      else (readExponent? rest).map fun e => (digitsValue (whole ++ []), e - 0) := by
    unfold readUnsigned?
    simp only [htake, hdrop]
    rcases rest with _ | ⟨c, r⟩
    · rfl
    · have hpoint : c ≠ '.' := fun h => hrest.noPoint r (h ▸ rfl)
      split
      · rename_i heq
        obtain ⟨rfl, -⟩ := List.cons_eq_cons.mp heq
        exact absurd rfl hpoint
      · rfl
  rw [hparts, hrest.reads, List.append_nil, if_neg (by simp [hne]), Option.map_some, sub_zero]

theorem readUnsigned?_fraction (hne : whole ≠ []) (hwhole : Digits whole) (hfraction : Digits fraction)
    (hrest : Tail rest k) : readUnsigned? (whole ++ '.' :: (fraction ++ rest)) =
      some (digitsValue (whole ++ fraction), k - fraction.length) := by
  obtain ⟨htake, hdrop⟩ := Lexer.takeWhile_run hwhole (b := '.' :: (fraction ++ rest)) rfl
  obtain ⟨htake', hdrop'⟩ := Lexer.takeWhile_run hfraction hrest.noDigit
  unfold readUnsigned?
  simp only [htake, hdrop, htake', hdrop', hrest.reads]
  rw [if_neg (by simp [hne])]
  rfl

/-- An integer behind the letter of an exponent. -/
theorem readInt?_signed (hne : cs ≠ []) (h : Digits cs) :
    readInt? ('-' :: cs) = some (-(digitsValue cs : Int)) ∧ readInt? ('+' :: cs) = some (digitsValue cs : Int) ∧
      readInt? cs = some (digitsValue cs : Int) := by
  have hdigits : isDigits cs = true := isDigits_iff.mpr ⟨hne, h⟩
  refine ⟨?_, ?_, ?_⟩
  · exact if_pos hdigits
  · exact if_pos hdigits
  · obtain ⟨c, rest, rfl⟩ := List.exists_cons_of_ne_nil hne
    unfold readInt?
    rw [splitSign_digit (h c List.mem_cons_self)]
    exact if_pos hdigits

theorem Tail.exponent (h : readInt? cs = some k) : Tail ('e' :: cs) k :=
  ⟨rfl, by simp, h⟩

/-! ### Texts of numbers -/

/-- The characters that numbers are written with. -/
def NumberChar (c : Char) : Prop :=
  c.isDigit = true ∨ c ∈ ['.', 'e', '+', '-']

/-- A text without a sign that is read as a number of some value, but not as an integer. -/
structure Numeral (cs : List Char) (v : ℚ) : Prop where
  reads : ∃ d : Decimal, readUnsigned? cs = some (d.digits, d.exponent) ∧ d.value = v
  begins : Lexer.Begins Char.isDigit cs = true
  notInt : ¬Digits cs
  chars : ∀ c ∈ cs, NumberChar c

theorem NumberChar.of_digits (h : Digits cs) : ∀ c ∈ cs, NumberChar c :=
  fun c hc => .inl (h c hc)

theorem begins_digits (hne : whole ≠ []) (hwhole : Digits whole) (rest : List Char) :
    Lexer.Begins Char.isDigit (whole ++ rest) = true := by
  obtain ⟨c, tail, rfl⟩ := List.exists_cons_of_ne_nil hne
  exact hwhole c List.mem_cons_self

/-- Digits, a point, and more digits, in front of an exponent or of nothing. -/
theorem Numeral.pointed (hne : whole ≠ []) (hwhole : Digits whole) (hfraction : Digits fraction)
    (hrest : Tail rest k) (hchars : ∀ c ∈ rest, NumberChar c) :
    Numeral (whole ++ '.' :: (fraction ++ rest))
      (digitsValue (whole ++ fraction) * 10 ^ (k - fraction.length)) := by
  refine ⟨⟨⟨_, _⟩, readUnsigned?_fraction hne hwhole hfraction hrest, rfl⟩, begins_digits hne hwhole _, ?_, ?_⟩
  · intro h
    exact absurd (h '.' (by simp)) (by decide)
  · intro c hc
    simp only [List.mem_append, List.mem_cons] at hc
    rcases hc with hc | rfl | hc | hc
    · exact .inl (hwhole c hc)
    · exact .inr (by decide)
    · exact .inl (hfraction c hc)
    · exact hchars c hc

/-- Digits in front of an exponent. -/
theorem Numeral.unpointed {tail : List Char} (hne : whole ≠ []) (hwhole : Digits whole) (hrest : Tail ('e' :: tail) k)
    (hchars : ∀ c ∈ tail, NumberChar c) : Numeral (whole ++ 'e' :: tail) (digitsValue whole * 10 ^ k) := by
  refine ⟨⟨⟨_, _⟩, readUnsigned?_whole hne hwhole hrest, rfl⟩, begins_digits hne hwhole _, ?_, ?_⟩
  · intro h
    exact absurd (h 'e' (by simp)) (by decide)
  · intro c hc
    simp only [List.mem_append, List.mem_cons] at hc
    rcases hc with hc | rfl | hc
    · exact .inl (hwhole c hc)
    · exact .inr (by decide)
    · exact hchars c hc

end Decimal

namespace FloatNotation

open Decimal

variable {f : FloatNotation} {ds : List Char} {lead : Int}

theorem zeros_toList (n : Nat) : (zeros n).toList = List.replicate n '0' :=
  String.toList_ofList

/-- Digits with a point: zeros are added where the point is not among the digits. -/
theorem positional_numeral (hne : ds ≠ []) (hds : Digits ds) (lead : Int) :
    Numeral (positional ds lead).toList (digitsValue ds * 10 ^ (lead + 1 - ds.length)) := by
  unfold positional
  split
  case isTrue hlead =>
    have hnumeral := Numeral.pointed (List.cons_ne_nil '0' []) (.zeros 1)
      ((Digits.zeros ((-lead).toNat - 1)).append hds) .nil (by simp)
    have htext : ("0." ++ zeros ((-lead).toNat - 1) ++ String.ofList ds).toList =
        ['0'] ++ '.' :: (List.replicate ((-lead).toNat - 1) '0' ++ ds ++ []) := by
      simp [zeros_toList]
    have hvalue : digitsValue (['0'] ++ (List.replicate ((-lead).toNat - 1) '0' ++ ds)) = digitsValue ds := by
      rw [digitsValue_append, digitsValue_append, digitsValue_zeros, Nat.zero_mul, Nat.zero_add]
      exact (congrArg (· + _) (Nat.zero_mul _)).trans (Nat.zero_add _)
    have hexponent : (0 : Int) - (List.replicate ((-lead).toNat - 1) '0' ++ ds).length = lead + 1 - ds.length := by
      rw [List.length_append, List.length_replicate]
      omega
    rwa [hvalue, hexponent, ← htext] at hnumeral
  case isFalse hlead =>
    dsimp only
    split
    case isTrue hshort =>
      obtain ⟨n, hn⟩ : ∃ n, lead.toNat + 1 - ds.length = n := ⟨_, rfl⟩
      have hzero : Digits ['0'] := .zeros 1
      have hnumeral := Numeral.pointed (List.append_ne_nil_of_left_ne_nil hne (List.replicate n '0'))
        (hds.append (.zeros n)) hzero .nil (by simp)
      have htext : (String.ofList ds ++ zeros (lead.toNat + 1 - ds.length) ++ ".0").toList =
          ds ++ List.replicate n '0' ++ '.' :: (['0'] ++ []) := by
        simp [hn, zeros_toList]
      have hvalue : ((digitsValue (ds ++ List.replicate n '0' ++ ['0']) : Nat) : ℚ) * 10 ^ (0 - (['0'].length : ℤ)) =
          digitsValue ds * 10 ^ (lead + 1 - ds.length) := by
        have hpower : lead + 1 - ds.length = n := by omega
        have hdigits : digitsValue (ds ++ List.replicate n '0' ++ ['0']) = digitsValue ds * 10 ^ n * 10 := by
          rw [digitsValue_append, digitsValue_append, digitsValue_zeros, List.length_replicate]
          rfl
        rw [hdigits, hpower, zpow_natCast]
        push_cast
        rw [List.length_singleton, Nat.cast_one, zero_sub, zpow_neg_one, mul_inv_cancel_right₀ (by norm_num)]
      rwa [hvalue, ← htext] at hnumeral
    case isFalse hlong =>
      obtain ⟨n, hn⟩ : ∃ n, lead.toNat + 1 = n := ⟨_, rfl⟩
      have hsplit := List.take_append_drop n ds
      have hparts : Digits (ds.take n) ∧ Digits (ds.drop n) :=
        ⟨fun c hc => hds c (List.mem_of_mem_take hc), fun c hc => hds c (List.mem_of_mem_drop hc)⟩
      have htake : ds.take n ≠ [] := by
        intro h
        rcases List.take_eq_nil_iff.mp h with h | h
        · omega
        · exact hne h
      have hnumeral := Numeral.pointed htake hparts.1 hparts.2 .nil (by simp)
      have htext : (String.ofList (ds.take (lead.toNat + 1)) ++ "." ++ String.ofList (ds.drop (lead.toNat + 1))).toList =
          ds.take n ++ '.' :: (ds.drop n ++ []) := by
        simp [hn]
      have hexponent : (0 : Int) - (ds.drop n).length = lead + 1 - ds.length := by
        rw [List.length_drop]
        omega
      rwa [hsplit, hexponent, ← htext] at hnumeral

/-- The sign of an exponent. -/
def exponentSign (f : FloatNotation) (lead : Int) : String :=
  if lead < 0 then "-" else if f.exponentPlus then "+" else ""

/-- The text of an exponent, with its sign and padding, is read as the exponent. -/
theorem readInt?_exponent (f : FloatNotation) (width : Nat) (lead : Int) :
    let text := (f.exponentSign lead ++ zeros width ++ natText lead.natAbs).toList
    readInt? text = some lead ∧ ∀ c ∈ text, NumberChar c := by
  obtain ⟨ds, hds⟩ : ∃ ds, List.replicate width '0' ++ Nat.toDigits 10 lead.natAbs = ds := ⟨_, rfl⟩
  have hdigits : Digits ds := hds ▸ (Digits.zeros width).append (.toDigits _)
  have hne : ds ≠ [] := by simp [← hds, Nat.toDigits_ne_nil]
  have hvalue : digitsValue ds = lead.natAbs := by
    rw [← hds, digitsValue_append, digitsValue_zeros, digitsValue_toDigits, Nat.zero_mul, Nat.zero_add]
  have htext : (f.exponentSign lead ++ zeros width ++ natText lead.natAbs).toList =
      (f.exponentSign lead).toList ++ ds := by
    simp [← hds, zeros_toList, natText]
  obtain ⟨hminus, hplus, hnone⟩ := readInt?_signed hne hdigits
  rw [hvalue] at hminus hplus hnone
  have hchars := NumberChar.of_digits hdigits
  rw [htext]
  unfold exponentSign
  split_ifs with hlead
  · have habs : -(lead.natAbs : Int) = lead := by omega
    exact ⟨hminus.trans (congrArg some habs), List.forall_mem_cons.mpr ⟨.inr (by decide), hchars⟩⟩
  · have habs : (lead.natAbs : Int) = lead := by omega
    exact ⟨hplus.trans (congrArg some habs), List.forall_mem_cons.mpr ⟨.inr (by decide), hchars⟩⟩
  · have habs : (lead.natAbs : Int) = lead := by omega
    exact ⟨hnone.trans (congrArg some habs), hchars⟩

/-- One digit, a point if there are more of them, and an exponent. -/
theorem scientific_numeral (f : FloatNotation) (hne : ds ≠ []) (hds : Digits ds) (lead : Int) :
    Numeral (f.scientific ds lead).toList (digitsValue ds * 10 ^ (lead + 1 - ds.length)) := by
  obtain ⟨power, hpower⟩ : ∃ power, (f.exponentSign lead ++
      zeros (f.exponentWidth - (natText lead.natAbs).length) ++ natText lead.natAbs).toList = power := ⟨_, rfl⟩
  obtain ⟨hreads, hchars⟩ := f.readInt?_exponent (f.exponentWidth - (natText lead.natAbs).length) lead
  rw [hpower] at hreads hchars
  have htext : ∀ mantissa : String, (mantissa ++ "e" ++ f.exponentSign lead ++
      zeros (f.exponentWidth - (natText lead.natAbs).length) ++ natText lead.natAbs).toList =
        mantissa.toList ++ 'e' :: power := by
    intro mantissa
    rw [← hpower]
    simp
  have htail := Tail.exponent hreads
  unfold scientific
  rcases ds with _ | ⟨d, _ | ⟨d', rest⟩⟩
  · exact absurd rfl hne
  · have hnumeral := Numeral.unpointed hne hds htail hchars
    have hexponent : lead + 1 - [d].length = lead := add_sub_cancel_right lead 1
    change Numeral (String.ofList [d] ++ "e" ++ f.exponentSign lead ++ _ ++ _).toList _
    rw [htext, String.toList_ofList, hexponent]
    exact hnumeral
  · have hdigit : Digits [d] := by simpa [Digits] using hds d List.mem_cons_self
    have hrest : Digits (d' :: rest) := fun c hc => hds c (List.mem_cons_of_mem _ hc)
    have hnumeral := Numeral.pointed (by simp) hdigit hrest htail
      (List.forall_mem_cons.mpr ⟨.inr (by decide), hchars⟩)
    have hexponent : lead - (d' :: rest).length = lead + 1 - (d :: d' :: rest).length := by
      simp only [List.length_cons]
      omega
    change Numeral (String.ofList (d :: '.' :: d' :: rest) ++ "e" ++ f.exponentSign lead ++ _ ++ _).toList _
    rw [htext, String.toList_ofList, ← hexponent]
    exact hnumeral

/-- The text of a decimal stands for the decimal. -/
theorem decimal_numeral (f : FloatNotation) (d : Decimal) : Numeral (f.decimal d).toList d.value := by
  obtain ⟨ds, hds⟩ : ∃ ds, Nat.toDigits 10 d.digits = ds := ⟨_, rfl⟩
  have hne : ds ≠ [] := hds ▸ Nat.toDigits_ne_nil
  have hdigits : Digits ds := hds ▸ .toDigits _
  have hvalue : digitsValue ds * 10 ^ (d.exponent + (ds.length - 1 : Nat) + 1 - ds.length) = d.value := by
    have hlength := List.length_pos_of_ne_nil hne
    have hexponent : d.exponent + (ds.length - 1 : Nat) + 1 - ds.length = d.exponent := by omega
    rw [hexponent, ← hds, digitsValue_toDigits, value]
  unfold decimal
  rw [hds]
  dsimp only
  split
  · exact hvalue ▸ positional_numeral hne hdigits _
  · exact hvalue ▸ f.scientific_numeral hne hdigits _

end FloatNotation

end LoxLang

import LoxLang.Proofs.Array.Datum
import LoxLang.Proofs.Number.Integers
import LoxLang.Proofs.Session.Alike
import LoxLang.Proofs.Token.Scans

/-!
Printed integers as source. A literal has no sign, so the text of a negative integer is a minus sign and the
literal of its absolute value. That literal is an integer for all integers but the least one, whose absolute value
does not fit: it is read as a double precision number, and stays one.
-/

namespace LoxLang

/-- The number that a literal without a fraction stands for. -/
def Number.ofDigits (n : Nat) : Number :=
  (Number.ofInt? n).getD (.float (Binary64.ofDecimal false n 0))

theorem Number.ofDigits_of_fits {n : Nat} (hn : Fits n) : Number.ofDigits n = .int (Int64.ofInt n) := by
  unfold Number.ofDigits
  rw [Number.ofInt?_of_fits hn]
  rfl

theorem Number.neg_int_of_fits {i : Int64} (hi : Fits (-i.toInt)) :
    Number.neg (.int i) = .int (Int64.ofInt (-i.toInt)) := by
  unfold Number.neg
  dsimp only
  rw [Number.ofInt?_of_fits hi]
  rfl

namespace Lexer

theorem numberLiteral_natText (n : Nat) : numberLiteral (natText n).toList [] = .number (.ofDigits n) := by
  have hvalue : Decimal.digitsValue (natText n).toList = n := Datum.ofDigitChars_natText n
  unfold numberLiteral
  rw [hvalue]
  rfl

theorem cut_digit {c : Char} (hc : c.isDigit = true) (cs : List Char) : cut c cs = cutNumber (c :: cs) := by
  have hblank : ¬(c == ' ' || c == '\r' || c == '\t' || c == '\n') = true := by
    intro h
    simp only [Bool.or_eq_true, beq_iff_eq] at h
    rcases h with ((rfl | rfl) | rfl) | rfl <;> exact absurd hc (by decide)
  have hquote : ¬(c == '"' || c == '\'') = true := by
    intro h
    simp only [Bool.or_eq_true, beq_iff_eq] at h
    rcases h with rfl | rfl <;> exact absurd hc (by decide)
  unfold cut
  rw [if_neg hblank, if_neg hquote, if_pos hc]

/-- The text of a natural number in front of a semicolon is one number token. -/
theorem scans_natText (start : Position) (n : Nat) :
    ∃ number semicolon last, Scans start ((natText n).toList ++ [';']) [.ok number, .ok semicolon, .ok last] ∧
      number.kind = .number ∧ number.literal = some (.number (.ofDigits n)) ∧
      semicolon.kind = .semicolon ∧ last.kind = .eof := by
  obtain ⟨c, cs, hcs, hc⟩ := Datum.natText_toList n
  have hcut : cut c (cs ++ [';']) =
      ⟨.token .number (some (.number (.ofDigits n))), (natText n).toList, [';']⟩ := by
    have hwhole : Whole (natText n).toList [';'] := ⟨Datum.natText_isDigit n, rfl, by simp⟩
    rw [cut_digit hc, ← List.cons_append, ← hcs, cutNumber_whole hwhole, numberLiteral_natText]
  have hend : ∀ p, ∃ semicolon last : Token, Scans p [';'] [.ok semicolon, .ok last] ∧
      semicolon.kind = .semicolon ∧ last.kind = .eof :=
    fun p => ⟨_, _, .token rfl (.done _), rfl, rfl⟩
  obtain ⟨semicolon, last, hscans, hsemicolon, hlast⟩ := hend (start.advance (natText n).toList)
  rw [hcs, List.cons_append]
  exact ⟨_, semicolon, last, .token hcut hscans, rfl, rfl, hsemicolon, hlast⟩

theorem scans_print {start : Position} {cs : List Char} {items : List (Except Diagnostic Token)}
    (h : Scans ((start.advance "print".toList).advance [' ']) cs items) :
    ∃ keyword, Scans start ("print ".toList ++ cs) (.ok keyword :: items) ∧ keyword.kind = .kwPrint :=
  ⟨_, .token rfl (.gap rfl h), rfl⟩

theorem scans_minus {start : Position} {cs : List Char} {items : List (Except Diagnostic Token)}
    (h : Scans (start.advance ['-']) cs items) :
    ∃ minus, Scans start ('-' :: cs) (.ok minus :: items) ∧ minus.kind = .minus :=
  ⟨_, .token rfl h, rfl⟩

end Lexer

/-- The source of a statement that prints an integer. -/
def printSource (n : Int) : String :=
  "print " ++ intText n ++ ";"

/-- What the text of an integer is as an expression. -/
inductive Expr.IsInt (n : Int) : Expr → Prop
  | unsigned (hn : 0 ≤ n) : Expr.IsInt n (.constant (.number (.ofDigits n.natAbs)))
  | negated (position : Position) (hn : n < 0) :
    Expr.IsInt n (.unary .negate position (.constant (.number (.ofDigits n.natAbs))))

namespace Parser

variable {keyword minus number semicolon last : Token}

theorem constantOf_number {n : Number} (h : number.literal = some (.number n)) :
    constantOf number = .number n := by
  unfold constantOf
  rw [h]

theorem parse_print (hkeyword : keyword.kind = .kwPrint) (hnumber : number.kind = .number)
    (hsemicolon : semicolon.kind = .semicolon) (hlast : last.kind = .eof) (firstId : NodeId) :
    parse [keyword, number, semicolon, last] firstId =
      ⟨[.print (.constant (constantOf number))], [], firstId⟩ := by
  cases keyword; cases number; cases semicolon; cases last
  cases hkeyword; cases hnumber; cases hsemicolon; cases hlast
  rfl

theorem parse_print_minus (hkeyword : keyword.kind = .kwPrint) (hminus : minus.kind = .minus)
    (hnumber : number.kind = .number) (hsemicolon : semicolon.kind = .semicolon) (hlast : last.kind = .eof)
    (firstId : NodeId) :
    parse [keyword, minus, number, semicolon, last] firstId =
      ⟨[.print (.unary .negate minus.position (.constant (constantOf number)))], [], firstId⟩ := by
  cases keyword; cases minus; cases number; cases semicolon; cases last
  cases hkeyword; cases hminus; cases hnumber; cases hsemicolon; cases hlast
  rfl

end Parser

theorem printSource_toList (n : Int) :
    (printSource n).toList = "print ".toList ++ ((intText n).toList ++ [';']) := by
  unfold printSource
  rw [String.toList_append, String.toList_append, List.append_assoc]
  rfl

/-- The source has no faults, and is parsed as a statement that prints the integer. -/
theorem parse_printSource (n : Int) (firstId : NodeId) : lexicalFaults (printSource n) = [] ∧
    ∃ e, Expr.IsInt n e ∧ parse (tokens (printSource n)) firstId = ⟨[.print e], [], firstId⟩ := by
  have htext := printSource_toList n
  unfold intText at htext
  split at htext
  case isTrue hn =>
    obtain ⟨number, semicolon, last, hdigits, hnumber, hliteral, hsemicolon, hlast⟩ :=
      Lexer.scans_natText (((Position.start.advance "print".toList).advance [' ']).advance ['-']) n.natAbs
    obtain ⟨minus, hsigned, hminus⟩ := Lexer.scans_minus hdigits
    obtain ⟨keyword, hscans, hkeyword⟩ := Lexer.scans_print hsigned
    rw [String.toList_append] at htext
    have hsource : Lexer.Scans .start (printSource n).toList
        ([keyword, minus, number, semicolon, last].map .ok) := htext ▸ hscans
    obtain ⟨htokens, hfaults⟩ := Lexer.tokens_of_scans hsource
    refine ⟨hfaults, _, .negated minus.position hn, ?_⟩
    rw [htokens, Parser.parse_print_minus hkeyword hminus hnumber hsemicolon hlast,
      Parser.constantOf_number hliteral]
  case isFalse hn =>
    obtain ⟨number, semicolon, last, hdigits, hnumber, hliteral, hsemicolon, hlast⟩ :=
      Lexer.scans_natText ((Position.start.advance "print".toList).advance [' ']) n.natAbs
    obtain ⟨keyword, hscans, hkeyword⟩ := Lexer.scans_print hdigits
    have hsource : Lexer.Scans .start (printSource n).toList
        ([keyword, number, semicolon, last].map .ok) := htext ▸ hscans
    obtain ⟨htokens, hfaults⟩ := Lexer.tokens_of_scans hsource
    refine ⟨hfaults, _, .unsigned (not_lt.mp hn), ?_⟩
    rw [htokens, Parser.parse_print hkeyword hnumber hsemicolon hlast, Parser.constantOf_number hliteral]

/-- The value of the text of an integer as an expression. -/
def Number.ofIntText (n : Int) : Number :=
  if n < 0 then (Number.ofDigits n.natAbs).neg else .ofDigits n.natAbs

theorem Expr.IsInt.evaluates {n : Int} {e : Expr} (h : e.IsInt n) (fuel : Nat) (m : Machine) :
    (evaluate (fuel + 2) e).run m = .ok (.number (.ofIntText n)) m := by
  unfold Number.ofIntText
  cases h with
  | unsigned hn =>
    rw [if_neg (not_lt.mpr hn)]
    rfl
  | negated position hn =>
    rw [if_pos hn]
    rfl

theorem Expr.IsInt.resolves {n : Int} {e : Expr} (h : e.IsInt n) : resolve [.print e] = ⟨#[], none⟩ := by
  cases h <;> rfl

theorem run_printSource (s : Session) (fuel : Nat) (n : Int) : (s.run (fuel + 3) (printSource n)).1 =
    ⟨s.machine.output.push (.printed ((Number.ofIntText n).text ++ "\n")), [], false⟩ := by
  obtain ⟨hlexical, e, he, hparse⟩ := parse_printSource n s.nextId
  have hexecute : ∀ m : Machine, (executeProgram (fuel + 3) [.print e]).run m =
      .ok () (m.print ((Number.ofIntText n).text ++ "\n")) := by
    intro m
    unfold executeProgram execute
    simp only [EStateM.run_bind, he.evaluates]
    rfl
  unfold Session.run
  rw [Session.runScanned_of_none hparse (by rw [hlexical]; rfl) (by rw [he.resolves]), Session.execute, hexecute]
  rfl

theorem Number.ofIntText_of_fits {n : Int} (hn : Fits n) (hleast : n ≠ -2 ^ 63) :
    Number.ofIntText n = .int (Int64.ofInt n) := by
  have habs : Fits n.natAbs := by
    unfold Fits at hn ⊢
    omega
  unfold Number.ofIntText
  rw [Number.ofDigits_of_fits habs]
  split
  case isTrue hneg =>
    have hnegated : -(Int64.ofInt n.natAbs).toInt = n := by
      rw [Number.toInt_ofInt habs]
      omega
    rw [Number.neg_int_of_fits (by rwa [hnegated]), hnegated]
  case isFalse hneg =>
    have hsame : (n.natAbs : Int) = n := by omega
    rw [hsame]

/-- The literal of the absolute value of the least integer is the double precision number `2 ^ 63`. -/
theorem Number.ofIntText_least : (Number.ofIntText (-2 ^ 63)).text = "-9.223372036854776e+18" := by
  decide +kernel

/-- Printing the text of an integer prints that text again, in every session, unless the integer is the least one,
which is printed as a double precision number. -/
theorem printed_integer_prints_itself (s : Session) (fuel : Nat) (n : Int64) :
    (s.run (fuel + 3) ("print " ++ (Number.int n).text ++ ";")).1 =
      ⟨s.machine.output.push (.printed
        ((if n = Int64.minValue then "-9.223372036854776e+18" else (Number.int n).text) ++ "\n")), [], false⟩ := by
  have hrun := run_printSource s fuel n.toInt
  have htext : (Number.ofIntText n.toInt).text =
      if n = Int64.minValue then "-9.223372036854776e+18" else (Number.int n).text := by
    split
    case isTrue hleast =>
      subst hleast
      exact Number.ofIntText_least
    case isFalse hleast =>
      have hne : n.toInt ≠ -2 ^ 63 := fun h => hleast (Int64.toInt_inj.mp h)
      rw [Number.ofIntText_of_fits (fits_toInt n) hne, Int64.ofInt_toInt]
  rw [htext] at hrun
  exact hrun

/-- The least integer does not print itself. -/
theorem least_integer_prints_as_float :
    let report := ((Session.new default none [] (.ofInt 0)).run Session.ampleSteps "print -9223372036854775808;").1
    (Number.int Int64.minValue).text = "-9223372036854775808" ∧
      report = ⟨#[.printed "-9.223372036854776e+18\n"], [], false⟩ ∧ report.output ≠ "-9223372036854775808\n" := by
  intro report
  have hreport : report = ⟨#[.printed "-9.223372036854776e+18\n"], [], false⟩ := by
    have hsource : printSource (-2 ^ 63) = "print -9223372036854775808;" := by decide +kernel
    have hrun := run_printSource (.new default none [] (.ofInt 0)) 999999999999997 (-2 ^ 63)
    rw [hsource, Number.ofIntText_least] at hrun
    exact hrun
  refine ⟨by decide +kernel, hreport, ?_⟩
  rw [hreport]
  decide

end LoxLang

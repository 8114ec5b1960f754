import Mathlib.Data.List.Infix
import LoxLang.Token.Lexer

/-!
The words of the language, and what may stand between them, said without a lexer. A token has a text of its
kind; gaps are blanks, comments up to the end of a line, and comments in brackets, which nest.
-/

namespace LoxLang

namespace Lexis

/-! ### Tokens -/

def Digit (c : Char) : Prop :=
  '0' ≤ c ∧ c ≤ '9'

/-- What a word can begin with. -/
def Initial (c : Char) : Prop :=
  ('a' ≤ c ∧ c ≤ 'z') ∨ ('A' ≤ c ∧ c ≤ 'Z') ∨ c = '_'

def Quote (c : Char) : Prop :=
  c = '"' ∨ c = '\''

def punctuation : List (List Char × TokenKind) :=
  [ (['('], .leftParen), ([')'], .rightParen), (['\x7b'], .leftBrace), (['\x7d'], .rightBrace),
    ([','], .comma), (['.'], .dot), (['-'], .minus), (['+'], .plus), ([';'], .semicolon),
    (['/'], .slash), (['*'], .star), (['^'], .caret), (['%'], .percent), (['\\'], .backSlash),
    (['!'], .bang), (['!', '='], .bangEqual), (['='], .equal), (['=', '='], .equalEqual),
    (['<'], .less), (['<', '='], .lessEqual), (['>'], .greater), (['>', '='], .greaterEqual) ]

def keywords : List (String × TokenKind) :=
  [ ("and", .kwAnd), ("break", .kwBreak), ("class", .kwClass), ("continue", .kwContinue),
    ("else", .kwElse), ("false", .kwFalse), ("for", .kwFor), ("fun", .kwFun), ("if", .kwIf),
    ("nil", .kwNil), ("or", .kwOr), ("print", .kwPrint), ("return", .kwReturn), ("super", .kwSuper),
    ("this", .kwThis), ("true", .kwTrue), ("var", .kwVar), ("while", .kwWhile) ]

/-- The texts of the tokens of a kind. -/
inductive Lexeme : TokenKind → List Char → Prop where
  | punctuation {kind : TokenKind} {text : List Char} :
    (text, kind) ∈ punctuation → Lexeme kind text
  | string {quote : Char} {body : List Char} :
    Quote quote → quote ∉ body → Lexeme .string (quote :: (body ++ [quote]))
  | integer {digits : List Char} : digits ≠ [] → (∀ c ∈ digits, Digit c) → Lexeme .number digits
  | decimal {whole fraction : List Char} :
    whole ≠ [] → (∀ c ∈ whole, Digit c) → fraction ≠ [] → (∀ c ∈ fraction, Digit c) →
      Lexeme .number (whole ++ '.' :: fraction)
  | keyword {kind : TokenKind} {word : String} : (word, kind) ∈ keywords → Lexeme kind word.toList
  | identifier {first : Char} {rest : List Char} :
    Initial first → (∀ c ∈ rest, Initial c ∨ Digit c) →
      (∀ kind, (String.ofList (first :: rest), kind) ∉ keywords) → Lexeme .identifier (first :: rest)

/-- No token that begins the text is longer. -/
def Longest (taken text : List Char) : Prop :=
  ∀ kind lexeme, Lexeme kind lexeme → lexeme <+: text → lexeme.length ≤ taken.length

/-! ### Characters -/

theorem digit_iff (c : Char) : Digit c ↔ 48 ≤ c.toNat ∧ c.toNat ≤ 57 := Iff.rfl

theorem initial_iff (c : Char) :
    Initial c ↔ (97 ≤ c.toNat ∧ c.toNat ≤ 122) ∨ (65 ≤ c.toNat ∧ c.toNat ≤ 90) ∨ c = '_' := Iff.rfl

instance : DecidablePred Digit := fun c => decidable_of_iff _ (digit_iff c).symm
instance : DecidablePred Initial := fun c => decidable_of_iff _ (initial_iff c).symm
instance : DecidablePred Quote := fun _ => inferInstanceAs (Decidable (_ ∨ _))

theorem not_digit_of_initial {c : Char} (h : Initial c) : ¬Digit c := by
  rw [digit_iff]
  rcases (initial_iff c).mp h with h | h | rfl
  · omega
  · omega
  · decide

theorem not_quote_of_digit {c : Char} (h : Digit c) : ¬Quote c := by
  rintro (rfl | rfl)
  · revert h; decide
  · revert h; decide

theorem not_quote_of_initial {c : Char} (h : Initial c) : ¬Quote c := by
  rintro (rfl | rfl)
  · revert h; decide
  · revert h; decide

/-! ### What a token begins with -/

theorem punctuation_head : ∀ e ∈ punctuation, e.1 ≠ [] ∧
    ¬Digit (e.1.headD ' ') ∧ ¬Initial (e.1.headD ' ') ∧ ¬Quote (e.1.headD ' ') := by
  decide +kernel

theorem keyword_head : ∀ e ∈ keywords, e.1.toList ≠ [] ∧ Initial (e.1.toList.headD ' ') := by
  decide +kernel

theorem keyword_letters : ∀ e ∈ keywords, ∀ c ∈ e.1.toList, Initial c ∨ Digit c := by
  have hletters : ∀ e ∈ keywords, e.1.toList.all fun c => decide (Initial c ∨ Digit c) := by
    decide +kernel
  intro e he c hc
  exact of_decide_eq_true (List.all_eq_true.mp (hletters e he) c hc)

variable {kind : TokenKind} {c : Char} {text : List Char}

theorem Lexeme.ne_nil (h : Lexeme kind text) : text ≠ [] := by
  cases h with
  | punctuation h => exact (punctuation_head _ h).1
  | string => simp
  | integer h => exact h
  | decimal => simp
  | keyword h => exact (keyword_head _ h).1
  | identifier => simp

theorem Lexeme.not_eof : ¬Lexeme .eof text := by
  intro h
  cases h with
  | punctuation h => simp [Lexis.punctuation] at h
  | keyword h => simp [keywords] at h

/-- A number that begins with a digit, as all do. -/
theorem Lexeme.number_of_digit (h : Lexeme kind (c :: text)) (hc : Digit c) :
    (∀ d ∈ c :: text, Digit d) ∨ ∃ whole fraction, c :: text = whole ++ '.' :: fraction ∧
      (∀ d ∈ whole, Digit d) ∧ fraction ≠ [] ∧ ∀ d ∈ fraction, Digit d := by
  generalize htext : c :: text = word at h
  cases h with
  | punctuation h =>
    have hhead := (punctuation_head _ h).2
    rw [← htext] at hhead
    exact absurd hc hhead.1
  | string hq _ =>
    obtain ⟨rfl, _⟩ := List.cons.inj htext
    exact absurd hq (not_quote_of_digit hc)
  | integer _ hd => exact .inl (htext ▸ hd)
  | decimal _ hw hne hf => exact .inr ⟨_, _, rfl, hw, hne, hf⟩
  | keyword h =>
    have hhead := (keyword_head _ h).2
    rw [← htext] at hhead
    exact absurd hc (not_digit_of_initial hhead)
  | identifier hi _ _ =>
    obtain ⟨rfl, _⟩ := List.cons.inj htext
    exact absurd hc (not_digit_of_initial hi)

/-- A token that begins with a letter is a word. -/
theorem Lexeme.word_of_initial (h : Lexeme kind (c :: text)) (hc : Initial c) :
    ∀ d ∈ c :: text, Initial d ∨ Digit d := by
  generalize htext : c :: text = word at h
  cases h with
  | punctuation h =>
    have hhead := (punctuation_head _ h).2
    rw [← htext] at hhead
    exact absurd hc hhead.2.1
  | string hq _ =>
    obtain ⟨rfl, _⟩ := List.cons.inj htext
    exact absurd hq (not_quote_of_initial hc)
  | integer _ hd => exact absurd (hd c (by simp [← htext])) (not_digit_of_initial hc)
  | @decimal whole fraction hne hw _ _ =>
    cases whole with
    | nil => exact absurd rfl hne
    | cons d whole =>
      obtain ⟨rfl, _⟩ := List.cons.inj htext
      exact absurd (hw c List.mem_cons_self) (not_digit_of_initial hc)
  | keyword h => exact keyword_letters _ h
  | @identifier first rest hi hrest _ =>
    intro d hd
    rcases List.mem_cons.mp hd with rfl | hd
    · exact .inl hi
    · exact hrest d hd

/-- A token that begins with a quote is a string. -/
theorem Lexeme.string_of_quote (h : Lexeme kind (c :: text)) (hc : Quote c) :
    ∃ body, text = body ++ [c] ∧ c ∉ body := by
  generalize htext : c :: text = word at h
  cases h with
  | punctuation h =>
    have hhead := (punctuation_head _ h).2
    rw [← htext] at hhead
    exact absurd hc hhead.2.2
  | string _ hbody =>
    obtain ⟨rfl, rfl⟩ := List.cons.inj htext
    exact ⟨_, rfl, hbody⟩
  | integer _ hd => exact absurd hc (not_quote_of_digit (hd c (by simp [← htext])))
  | @decimal whole fraction hne hw _ _ =>
    cases whole with
    | nil => exact absurd rfl hne
    | cons d whole =>
      obtain ⟨rfl, _⟩ := List.cons.inj htext
      exact absurd hc (not_quote_of_digit (hw c List.mem_cons_self))
  | keyword h =>
    have hhead := (keyword_head _ h).2
    rw [← htext] at hhead
    exact absurd hc (not_quote_of_initial hhead)
  | identifier hi _ _ =>
    obtain ⟨rfl, _⟩ := List.cons.inj htext
    exact absurd hc (not_quote_of_initial hi)

/-- All other tokens are in the table. -/
theorem Lexeme.punctuation_of_not (h : Lexeme kind (c :: text)) (hdigit : ¬Digit c) (hinitial : ¬Initial c)
    (hquote : ¬Quote c) : (c :: text, kind) ∈ Lexis.punctuation := by
  generalize htext : c :: text = word at h
  cases h with
  | punctuation h => exact h
  | string hq _ =>
    obtain ⟨rfl, _⟩ := List.cons.inj htext
    exact absurd hq hquote
  | integer _ hd => exact absurd (hd c (by simp [← htext])) hdigit
  | @decimal whole fraction hne hw _ _ =>
    cases whole with
    | nil => exact absurd rfl hne
    | cons d whole =>
      obtain ⟨rfl, _⟩ := List.cons.inj htext
      exact absurd (hw c List.mem_cons_self) hdigit
  | keyword h =>
    have hhead := (keyword_head _ h).2
    rw [← htext] at hhead
    exact absurd hhead hinitial
  | identifier hi _ _ =>
    obtain ⟨rfl, _⟩ := List.cons.inj htext
    exact absurd hi hinitial

/-! ### Gaps -/

def Blank (c : Char) : Prop :=
  c = ' ' ∨ c = '\t' ∨ c = '\r' ∨ c = '\n'

/-- The text opens or closes a bracket of comments. -/
def CommentMark (text : List Char) : Prop :=
  ['/', '*'] <+: text ∨ ['*', '/'] <+: text

mutual

/-- A comment in brackets. -/
inductive BlockComment : List Char → Prop where
  | mk {body : List Char} : CommentBody body → BlockComment ('/' :: '*' :: (body ++ ['*', '/']))

/-- What stands inside a comment, in front of its closing bracket: characters that belong to no bracket, and
whole comments. -/
inductive CommentBody : List Char → Prop where
  | nil : CommentBody []
  | char {c : Char} {rest : List Char} :
    ¬CommentMark (c :: (rest ++ ['*', '/'])) → CommentBody rest → CommentBody (c :: rest)
  | comment {text rest : List Char} : BlockComment text → CommentBody rest → CommentBody (text ++ rest)

end

/-- A text between tokens, with another one behind it: a blank, or a comment. -/
inductive Gap : List Char → List Char → Prop where
  | blank {c : Char} {after : List Char} : Blank c → Gap [c] after
  | line {body after : List Char} :
    '\n' ∉ body → (after = [] ∨ ∃ below, after = '\n' :: below) → Gap ('/' :: '/' :: body) after
  | block {text after : List Char} : BlockComment text → Gap text after

/-- A comment begins here. -/
def BeginsComment (text : List Char) : Prop :=
  ['/', '/'] <+: text ∨ ['/', '*'] <+: text

/-! ### Faults -/

/-- A text that is no token and no gap, with another one behind it. -/
inductive Faulty : LexicalFault → List Char → List Char → Prop where
  | unsupported {c : Char} {after : List Char} :
    (∀ kind text, ¬Lexeme kind (c :: text)) → ¬Blank c → Faulty (.unsupported c) [c] after
  | string {quote : Char} {body : List Char} :
    Quote quote → quote ∉ body → Faulty .unterminatedString (quote :: body) []
  | comment {body : List Char} :
    (∀ text, text <+: '/' :: '*' :: body → ¬BlockComment text) →
      Faulty .unterminatedComment ('/' :: '*' :: body) []

/-! ### Places -/

/-- Where the next character stands: behind as many line feeds as there are before it, and behind as many
characters of its own line. -/
def placeAfter (before : List Char) : Position :=
  ⟨before.count '\n', (before.reverse.takeWhile (· ≠ '\n')).length⟩

theorem placeAfter_next (before : List Char) (c : Char) :
    placeAfter (before ++ [c]) = (placeAfter before).next c := by
  unfold placeAfter Position.next
  by_cases hc : c = '\n'
  · subst hc
    simp
  · simp [hc]

theorem advance_eq_placeAfter (before : List Char) : Position.start.advance before = placeAfter before := by
  induction before using List.reverseRecOn with
  | nil => rfl
  | append_singleton before c ih =>
    rw [Position.advance_append, ih, placeAfter_next]
    rfl

theorem placeAfter_append (before text : List Char) :
    placeAfter (before ++ text) = (placeAfter before).advance text := by
  rw [← advance_eq_placeAfter, ← advance_eq_placeAfter, Position.advance_append]

end Lexis

end LoxLang

import LoxLang.Proofs.Syntax.Move
import LoxLang.Token.Lexer

/-!
Texts and their items. A piece that is not faulty sees little of the text behind it. Above all it ends where
it ends whatever stands in the next line, so a text without faults has the same tokens when lines are added to
it, and the added lines have the tokens that they have by themselves, further down.
-/

namespace LoxLang

namespace Lexer

/-! ### Pieces -/

def Cut.Faultless (x : Cut) : Prop :=
  ∀ cause, x.piece ≠ .fault cause

/-- A piece consists of the first characters of the text. -/
structure Cut.From (x : Cut) (cs : List Char) : Prop where
  nonempty : x.taken ≠ []
  text : x.taken ++ x.rest = cs

/-! ### What stands behind a piece -/

/-- The text begins with a character that passes the test. -/
def Begins (p : Char → Bool) : List Char → Bool
  | [] => false
  | c :: _ => p c

/-- All that a piece can tell about the character behind it. -/
def tests : List (Char → Bool) :=
  [isWordChar, Char.isDigit, (· == '='), (· == '.'), (· == '/'), (· == '*'), (· != '\n')]

/-- No piece in front of the texts can tell their first characters apart. -/
def FirstAlike (a b : List Char) : Prop :=
  ∀ p ∈ tests, Begins p a = Begins p b

/-- No piece in front of the texts can tell them apart. Only a number looks two characters ahead, if the first
of them is a point. -/
structure Interchangeable (a b : List Char) : Prop where
  first : FirstAlike a b
  second : ∀ {a' b'}, a = '.' :: a' → b = '.' :: b' → FirstAlike a' b'

/-- The piece as it is when another text stands behind it. -/
def Cut.before (x : Cut) (rest : List Char) : Cut :=
  { x with rest := rest }

theorem begins_iff {p : Char → Bool} {a : List Char} :
    Begins p a = true ↔ ∃ c rest, a = c :: rest ∧ p c := by
  cases a with
  | nil => simp [Begins]
  | cons c rest => simp [Begins]

section Runs

variable {p : Char → Bool} {a b cs : List Char}

theorem takeWhile_run (ha : ∀ c ∈ a, p c = true) (hb : Begins p b = false) :
    (a ++ b).takeWhile p = a ∧ (a ++ b).dropWhile p = b := by
  rw [List.takeWhile_append_of_pos ha, List.dropWhile_append_of_pos ha]
  cases b with
  | nil => exact ⟨List.append_nil a, rfl⟩
  | cons c b =>
    have hc : ¬p c = true := by simpa [Begins] using hb
    rw [List.takeWhile_cons_of_neg hc, List.dropWhile_cons_of_neg hc]
    exact ⟨List.append_nil a, rfl⟩

theorem begins_dropWhile (p : Char → Bool) (cs : List Char) : Begins p (cs.dropWhile p) = false := by
  cases hcs : cs.dropWhile p with
  | nil => rfl
  | cons c rest =>
    have hhead := List.head?_dropWhile_not p cs
    rw [hcs] at hhead
    simpa [Begins] using hhead

/-- A run ends where it ends whatever else stands behind it. -/
theorem takeWhile_before (hb : Begins p (cs.dropWhile p) = Begins p b) :
    (cs.takeWhile p ++ b).takeWhile p = cs.takeWhile p ∧ (cs.takeWhile p ++ b).dropWhile p = b :=
  takeWhile_run (fun _ hc => List.all_eq_true.mp List.all_takeWhile _ hc)
    (hb.symm.trans (begins_dropWhile p cs))

end Runs

/-- A comment ends where it ends whatever stands behind it. -/
theorem closeComment_before {depth : Nat} {seen cs taken rest : List Char}
    (h : closeComment depth seen cs = some (taken, rest)) : ∃ body, body ≠ [] ∧ cs = body ++ rest ∧
      taken = seen.reverse ++ body ∧
        ∀ rest', closeComment depth seen (body ++ rest') = some (taken, rest') := by
  fun_induction closeComment depth seen cs with
  | case1 => cases h
  | case2 depth seen cs ih =>
    obtain ⟨body, _, rfl, rfl, hbody⟩ := ih h
    exact ⟨'/' :: '*' :: body, by simp, rfl, by simp, hbody⟩
  | case3 seen cs =>
    cases h
    exact ⟨['*', '/'], by simp, rfl, by simp, fun _ => rfl⟩
  | case4 depth seen cs ih =>
    obtain ⟨body, _, rfl, rfl, hbody⟩ := ih h
    exact ⟨'*' :: '/' :: body, by simp, rfl, by simp, hbody⟩
  | case5 depth seen c cs hopen hclose hclose' ih =>
    obtain ⟨body, hne, rfl, rfl, hbody⟩ := ih h
    obtain ⟨d, body, rfl⟩ := List.exists_cons_of_ne_nil hne
    refine ⟨c :: d :: body, by simp, rfl, by simp, fun rest' => ?_⟩
    rw [List.cons_append, List.cons_append, closeComment.eq_5]
    · exact hbody rest'
    · rintro cs' rfl hd
      cases hd
      exact hopen _ rfl rfl
    · rintro cs' rfl rfl hd
      cases hd
      exact hclose _ rfl rfl rfl
    · rintro depth' cs' rfl rfl hd
      cases hd
      exact hclose' depth' _ rfl rfl rfl

/-- A line feed is like the end of the text. -/
theorem interchangeable_newline (cs more : List Char) : Interchangeable cs (cs ++ '\n' :: more) := by
  have hfirst : ∀ cs : List Char, FirstAlike cs (cs ++ '\n' :: more) := by
    intro cs p hp
    cases cs with
    | nil => exact (by decide : ∀ p ∈ tests, false = p '\n') p hp
    | cons c cs => rfl
  refine ⟨hfirst cs, ?_⟩
  rintro tail _ rfl htail
  rw [← (List.cons.inj htail).2]
  exact hfirst tail

section Cuts

variable {c : Char} {cs text rest : List Char}

theorem cutString_before (h : (cutString c cs).Faultless)
    (htext : c :: text = (cutString c cs).taken ++ rest) :
    cutString c text = (cutString c cs).before rest := by
  cases hrest : cs.dropWhile (· != c) with
  | nil =>
    refine absurd ?_ (h .unterminatedString)
    rw [cutString]
    simp [hrest]
  | cons q tail =>
    have hq : Begins (· != c) (q :: rest) = false := by
      have hhead := begins_dropWhile (· != c) cs
      rw [hrest] at hhead
      exact hhead
    have hbody : text = cs.takeWhile (· != c) ++ q :: rest := by
      unfold cutString at htext
      simpa [hrest] using htext
    obtain ⟨hrun, hbehind⟩ := takeWhile_run (a := cs.takeWhile (· != c))
      (fun _ => List.all_eq_true.mp List.all_takeWhile _) hq
    unfold cutString
    rw [hbody, hrun, hbehind, hrest]
    rfl

/-- Digits without a fraction behind them. -/
structure Whole (whole rest : List Char) : Prop where
  digits : ∀ c ∈ whole, c.isDigit = true
  ended : Begins Char.isDigit rest = false
  noFraction : ∀ tail, rest = '.' :: tail → Begins Char.isDigit tail = false

theorem cutNumber_whole {whole : List Char} (h : Whole whole rest) : cutNumber (whole ++ rest) =
    ⟨.token .number (some (numberLiteral whole [])), whole, rest⟩ := by
  obtain ⟨hrun, hbehind⟩ := takeWhile_run h.digits h.ended
  unfold cutNumber
  rw [hrun, hbehind]
  split
  case h_1 tail =>
    obtain ⟨hnone, _⟩ := takeWhile_run (a := []) (by simp) (h.noFraction tail rfl)
    rw [List.nil_append] at hnone
    rw [hnone]
    rfl
  case h_2 => rfl

/-- Digits with a fraction. -/
structure Decimals (whole fraction rest : List Char) : Prop where
  digits : ∀ c ∈ whole, c.isDigit = true
  nonempty : fraction ≠ []
  digits' : ∀ c ∈ fraction, c.isDigit = true
  ended : Begins Char.isDigit rest = false

theorem cutNumber_decimals {whole fraction : List Char} (h : Decimals whole fraction rest) :
    cutNumber (whole ++ '.' :: (fraction ++ rest)) =
      ⟨.token .number (some (numberLiteral whole fraction)), whole ++ '.' :: fraction, rest⟩ := by
  obtain ⟨hrun, hbehind⟩ := takeWhile_run h.digits (b := '.' :: (fraction ++ rest)) rfl
  obtain ⟨hrun', hbehind'⟩ := takeWhile_run h.digits' h.ended
  unfold cutNumber
  simp only [hrun, hbehind, hrun', hbehind']
  exact if_neg (by simp [h.nonempty])

/-- A text begins with digits, perhaps none, and perhaps a fraction. -/
theorem number_cases (cs : List Char) : (∃ whole rest, cs = whole ++ rest ∧ Whole whole rest) ∨
    ∃ whole fraction rest, cs = whole ++ '.' :: (fraction ++ rest) ∧ Decimals whole fraction rest := by
  have hrun : ∀ cs : List Char, ∃ run rest, cs = run ++ rest ∧ (∀ c ∈ run, c.isDigit = true) ∧
      Begins Char.isDigit rest = false := fun cs =>
    ⟨_, _, List.takeWhile_append_dropWhile.symm, fun _ => List.all_eq_true.mp List.all_takeWhile _,
      begins_dropWhile _ cs⟩
  obtain ⟨whole, rest, rfl, hwhole, hrest⟩ := hrun cs
  by_cases hfraction : ∃ tail, rest = '.' :: tail ∧ Begins Char.isDigit tail = true
  · obtain ⟨tail, rfl, htail⟩ := hfraction
    obtain ⟨fraction, rest, rfl, hdigits, hended⟩ := hrun tail
    refine .inr ⟨whole, fraction, rest, rfl, hwhole, ?_, hdigits, hended⟩
    rintro rfl
    rw [List.nil_append, hended] at htail
    cases htail
  · refine .inl ⟨whole, rest, rfl, hwhole, hrest, fun tail htail => ?_⟩
    cases hb : Begins Char.isDigit tail with
    | false => rfl
    | true => exact absurd ⟨tail, htail, hb⟩ hfraction

theorem cutNumber_before (hrest : Interchangeable (cutNumber cs).rest rest)
    (htext : text = (cutNumber cs).taken ++ rest) : cutNumber text = (cutNumber cs).before rest := by
  have hdigit := hrest.first Char.isDigit (by simp [tests])
  rcases number_cases cs with ⟨whole, tail, rfl, h⟩ | ⟨whole, fraction, tail, rfl, h⟩
  · rw [cutNumber_whole h] at hrest hdigit htext ⊢
    refine htext ▸ cutNumber_whole ⟨h.digits, hdigit.symm.trans h.ended, ?_⟩
    rintro tail' rfl
    have hpoint : Begins (· == '.') tail = true := hrest.first (· == '.') (by simp [tests])
    obtain ⟨d, tail₀, rfl, hd⟩ := begins_iff.mp hpoint
    obtain rfl : d = '.' := by simpa using hd
    exact (hrest.second rfl rfl Char.isDigit (by simp [tests])).symm.trans (h.noFraction _ rfl)
  · rw [cutNumber_decimals h] at hdigit htext ⊢
    rw [htext, List.append_assoc]
    exact cutNumber_decimals ⟨h.digits, h.nonempty, h.digits', hdigit.symm.trans h.ended⟩

theorem cutWord_behind (hrest : Begins isWordChar rest = false) (htext : text = (cutWord cs).taken ++ rest) :
    cutWord text = (cutWord cs).before rest := by
  obtain ⟨hrun, hbehind⟩ := takeWhile_before ((begins_dropWhile isWordChar cs).trans hrest.symm)
  subst htext
  unfold cutWord
  rw [show (Cut.taken _ ++ rest) = _ from rfl, hrun, hbehind]
  rfl

theorem cutWord_before (hrest : Interchangeable (cutWord cs).rest rest)
    (htext : text = (cutWord cs).taken ++ rest) : cutWord text = (cutWord cs).before rest :=
  cutWord_behind ((hrest.first isWordChar (by simp [tests])).symm.trans (begins_dropWhile isWordChar cs)) htext

theorem cutLineComment_before (hrest : Interchangeable (cutLineComment cs).rest rest)
    (htext : '/' :: '/' :: text = (cutLineComment cs).taken ++ rest) :
    cutLineComment text = (cutLineComment cs).before rest := by
  obtain ⟨hrun, hbehind⟩ := takeWhile_before (hrest.first (· != '\n') (by simp [tests]))
  obtain rfl : text = cs.takeWhile (· != '\n') ++ rest := by
    simpa [cutLineComment] using htext
  unfold cutLineComment
  rw [hrun, hbehind]
  rfl

theorem cutBlockComment_before (h : (cutBlockComment cs).Faultless)
    (htext : '/' :: '*' :: text = (cutBlockComment cs).taken ++ rest) :
    cutBlockComment text = (cutBlockComment cs).before rest := by
  unfold cutBlockComment at h htext ⊢
  cases hclose : closeComment 0 [] cs with
  | none =>
    rw [hclose] at h
    exact absurd rfl (h .unterminatedComment)
  | some closed =>
    obtain ⟨taken, tail⟩ := closed
    obtain ⟨body, _, _, htaken, hbody⟩ := closeComment_before hclose
    obtain rfl : taken = body := htaken
    rw [hclose] at htext
    obtain rfl : text = taken ++ rest := by simpa using htext
    rw [hbody]
    rfl

/-- An equals sign behind some characters belongs to them. -/
theorem cutPunctuation_double {kind : TokenKind} (hkind : double? c = some kind) (rest : List Char) :
    cutPunctuation c ('=' :: rest) = ⟨.token kind none, [c, '='], rest⟩ := by
  simp only [cutPunctuation, hkind]

/-- Nothing else behind a character makes a difference. -/
theorem cutPunctuation_single (h : double? c = none ∨ Begins (· == '=') cs = false) :
    cutPunctuation c cs = (cutPunctuation c []).before cs := by
  unfold cutPunctuation
  rcases h with h | h
  · rw [h]
    cases single? c <;> rfl
  · have hne : ∀ rest, cs ≠ '=' :: rest := by
      rintro rest rfl
      cases h
    cases double? c with
    | none => cases single? c <;> rfl
    | some kind =>
      split
      case h_1 rest _ => exact absurd rfl (hne rest)
      case h_2 => cases single? c <;> rfl

theorem cutPunctuation_taken (c : Char) : (cutPunctuation c []).taken = [c] := by
  unfold cutPunctuation
  cases double? c <;> cases single? c <;> rfl

theorem cutPunctuation_behind (hrest : double? c = none ∨ Begins (· == '=') cs = false →
    double? c = none ∨ Begins (· == '=') rest = false)
    (htext : c :: text = (cutPunctuation c cs).taken ++ rest) :
    cutPunctuation c text = (cutPunctuation c cs).before rest := by
  by_cases hsingle : double? c = none ∨ Begins (· == '=') cs = false
  · rw [cutPunctuation_single hsingle] at htext ⊢
    obtain rfl : text = rest := by
      simpa [Cut.before, cutPunctuation_taken] using htext
    exact cutPunctuation_single (hrest hsingle)
  · obtain ⟨hdouble, hequal⟩ := not_or.mp hsingle
    obtain ⟨kind, hkind⟩ := Option.ne_none_iff_exists'.mp hdouble
    obtain ⟨d, tail, rfl, hd⟩ := begins_iff.mp (Bool.of_not_eq_false hequal)
    obtain rfl : d = '=' := by simpa using hd
    rw [cutPunctuation_double hkind] at htext ⊢
    obtain rfl : text = '=' :: rest := (List.cons.inj htext).2
    exact cutPunctuation_double hkind rest

theorem cutPunctuation_before (hrest : Interchangeable (cutPunctuation c cs).rest rest)
    (htext : c :: text = (cutPunctuation c cs).taken ++ rest) :
    cutPunctuation c text = (cutPunctuation c cs).before rest := by
  refine cutPunctuation_behind (fun hsingle => ?_) htext
  rw [cutPunctuation_single hsingle] at hrest
  exact hsingle.imp id (hrest.first (· == '=') (by simp [tests])).symm.trans

/-- A text that begins with a stroke but not with a comment. -/
theorem cut_slash (h : Begins (· == '/') cs = false) (h' : Begins (· == '*') cs = false) :
    cut '/' cs = cutPunctuation '/' cs := by
  unfold cut
  rw [if_neg (by decide), if_neg (by decide), if_neg (by decide), if_neg (by decide), if_pos (by decide)]
  split
  case h_1 => cases h
  case h_2 => cases h'
  case h_3 => rfl

theorem cutSlash_before (h : (cut '/' cs).Faultless) (hrest : Interchangeable (cut '/' cs).rest rest)
    (htext : '/' :: text = (cut '/' cs).taken ++ rest) : cut '/' text = (cut '/' cs).before rest := by
  cases hline : Begins (· == '/') cs with
  | true =>
    obtain ⟨d, cs, rfl, hd⟩ := begins_iff.mp hline
    obtain rfl : d = '/' := by simpa using hd
    obtain ⟨text, rfl⟩ : ∃ text', text = '/' :: text' := ⟨_, (List.cons.inj htext).2⟩
    exact cutLineComment_before hrest htext
  | false =>
    cases hblock : Begins (· == '*') cs with
    | true =>
      obtain ⟨d, cs, rfl, hd⟩ := begins_iff.mp hblock
      obtain rfl : d = '*' := by simpa using hd
      have htaken : ∃ taken, (cutBlockComment cs).taken = '/' :: '*' :: taken := by
        unfold cutBlockComment
        cases closeComment 0 [] cs <;> exact ⟨_, rfl⟩
      obtain ⟨taken, htaken⟩ := htaken
      have htext' : '/' :: text = (cutBlockComment cs).taken ++ rest := htext
      rw [htaken] at htext'
      obtain rfl : text = '*' :: (taken ++ rest) := (List.cons.inj htext').2
      exact cutBlockComment_before h htext
    | false =>
      have hcut := cut_slash hline hblock
      rw [hcut] at hrest htext ⊢
      have hbehind : text = rest ∧ (cutPunctuation '/' cs).rest = cs := by
        rw [cutPunctuation_single (.inl rfl)] at htext ⊢
        exact ⟨(List.cons.inj htext).2, rfl⟩
      obtain ⟨rfl, hcs⟩ := hbehind
      rw [hcs] at hrest
      rw [cut_slash]
      · exact cutPunctuation_before (hcs.symm ▸ hrest) htext
      · exact (hrest.first (· == '/') (by simp [tests])).symm.trans hline
      · exact (hrest.first (· == '*') (by simp [tests])).symm.trans hblock

/-- A text that does not begin with a stroke. -/
theorem cut_of_ne_slash (h : c ≠ '/') (cs : List Char) : cut c cs =
    if c == ' ' || c == '\r' || c == '\t' || c == '\n' then ⟨.gap, [c], cs⟩
    else if c == '"' || c == '\'' then cutString c cs
    else if c.isDigit then cutNumber (c :: cs)
    else if isWordChar c then cutWord (c :: cs)
    else cutPunctuation c cs := by
  unfold cut
  simp only [beq_false_of_ne h, Bool.false_eq_true, if_false]

/-- A piece without fault is the same when another text stands behind it that it cannot tell from its own. -/
theorem cut_before (h : (cut c cs).Faultless) (hrest : Interchangeable (cut c cs).rest rest)
    (htext : c :: text = (cut c cs).taken ++ rest) : cut c text = (cut c cs).before rest := by
  by_cases hslash : c = '/'
  · subst hslash
    exact cutSlash_before h hrest htext
  · rw [cut_of_ne_slash hslash] at h hrest htext
    rw [cut_of_ne_slash hslash, cut_of_ne_slash hslash]
    split_ifs at h hrest htext ⊢
    · rw [(List.cons.inj htext).2]
      rfl
    · exact cutString_before h htext
    · exact cutNumber_before hrest htext
    · exact cutWord_before hrest htext
    · exact cutPunctuation_before hrest htext

end Cuts

section Consumption

variable {c : Char} {cs : List Char}

theorem cutString_from : (cutString c cs).From (c :: cs) := by
  have htext := List.takeWhile_append_dropWhile (p := (· != c)) (l := cs)
  unfold cutString
  dsimp only
  cases hrest : cs.dropWhile (· != c) with
  | nil =>
    rw [hrest] at htext
    exact ⟨by simp, congrArg (c :: ·) htext⟩
  | cons q rest =>
    rw [hrest] at htext
    refine ⟨by simp, congrArg (c :: ·) ?_⟩
    simpa using htext

theorem cutNumber_from (h : c.isDigit = true) : (cutNumber (c :: cs)).From (c :: cs) := by
  have hwhole : (c :: cs).takeWhile Char.isDigit ≠ [] := by simp [h]
  have htext := List.takeWhile_append_dropWhile (p := Char.isDigit) (l := c :: cs)
  unfold cutNumber
  dsimp only
  split
  case h_1 rest hrest =>
    rw [hrest] at htext
    split
    · exact ⟨hwhole, htext⟩
    · refine ⟨by simp, ?_⟩
      rw [List.append_assoc, List.cons_append, List.takeWhile_append_dropWhile]
      exact htext
  case h_2 => exact ⟨hwhole, htext⟩

theorem cutWord_from (h : isWordChar c = true) : (cutWord (c :: cs)).From (c :: cs) :=
  ⟨by simp [cutWord, h], List.takeWhile_append_dropWhile⟩

theorem cutLineComment_from : (cutLineComment cs).From ('/' :: '/' :: cs) :=
  ⟨by simp [cutLineComment], congrArg (['/', '/'] ++ ·) List.takeWhile_append_dropWhile⟩

theorem cutBlockComment_from : (cutBlockComment cs).From ('/' :: '*' :: cs) := by
  unfold cutBlockComment
  cases hclose : closeComment 0 [] cs with
  | none => exact ⟨by simp, by simp⟩
  | some closed =>
    obtain ⟨body, _, rfl, htaken, _⟩ := closeComment_before hclose
    exact ⟨by simp, congrArg (['/', '*'] ++ · ++ _) htaken⟩

theorem cutPunctuation_from : (cutPunctuation c cs).From (c :: cs) := by
  unfold cutPunctuation
  split
  · exact ⟨by simp, rfl⟩
  · split <;> exact ⟨by simp, rfl⟩

theorem cut_from (c : Char) (cs : List Char) : (cut c cs).From (c :: cs) := by
  unfold cut
  split
  · exact ⟨by simp, rfl⟩
  split
  · exact cutString_from
  split
  case isTrue hdigit => exact cutNumber_from hdigit
  split
  case isTrue hword => exact cutWord_from hword
  split
  case isTrue hslash =>
    obtain rfl : c = '/' := by simpa using hslash
    split
    · exact cutLineComment_from
    · exact cutBlockComment_from
    · exact cutPunctuation_from
  case isFalse => exact cutPunctuation_from

end Consumption

/-! ### Texts -/

/-- What a piece is among the items of a text: nothing, a token or a fault. -/
def Cut.items (start : Position) (x : Cut) : List (Except Diagnostic Token) :=
  let stop := start.advance x.taken
  match x.piece with
  | .gap => []
  | .token kind literal => [.ok ⟨kind, String.ofList x.taken, literal, ⟨start, stop⟩⟩]
  | .fault cause => [.error ⟨faultPosition start stop cause, .lexical cause, none⟩]

/-- The text that stands at `start` has the items. -/
inductive Scans : Position → List Char → List (Except Diagnostic Token) → Prop where
  | done (start : Position) : Scans start [] [.ok (.endOfFile start.line)]
  | piece {start : Position} {c : Char} {cs : List Char} {items : List (Except Diagnostic Token)} :
    Scans (start.advance (cut c cs).taken) (cut c cs).rest items →
      Scans start (c :: cs) ((cut c cs).items start ++ items)

theorem Scans.gap {start : Position} {c : Char} {cs taken rest : List Char}
    {items : List (Except Diagnostic Token)} (hcut : cut c cs = ⟨.gap, taken, rest⟩)
    (hrest : Scans (start.advance taken) rest items) : Scans start (c :: cs) items := by
  have hscans : Scans start (c :: cs) ((cut c cs).items start ++ items) := .piece (by rwa [hcut])
  rwa [hcut] at hscans

theorem Scans.token {start : Position} {c : Char} {cs taken rest : List Char} {kind : TokenKind}
    {literal : Option Literal} {items : List (Except Diagnostic Token)}
    (hcut : cut c cs = ⟨.token kind literal, taken, rest⟩) (hrest : Scans (start.advance taken) rest items) :
    Scans start (c :: cs)
      (.ok ⟨kind, String.ofList taken, literal, ⟨start, start.advance taken⟩⟩ :: items) := by
  have hscans : Scans start (c :: cs) ((cut c cs).items start ++ items) := .piece (by rwa [hcut])
  rwa [hcut] at hscans

theorem cut_shorter (c : Char) (cs : List Char) : (cut c cs).rest.length ≤ cs.length := by
  have hcut := cut_from c cs
  have hlength := congrArg List.length hcut.text
  have hpos := List.length_pos_of_ne_nil hcut.nonempty
  simp only [List.length_append, List.length_cons] at hlength
  omega

theorem scanFrom_piece (n : Nat) (start : Position) (c : Char) (cs : List Char)
    (items : Array (Except Diagnostic Token)) :
    scanFrom (n + 1) start (c :: cs) items =
      scanFrom n (start.advance (cut c cs).taken) (cut c cs).rest
        (items ++ ((cut c cs).items start).toArray) := by
  simp only [scanFrom, Cut.items]
  cases (cut c cs).piece <;> simp

theorem scanFrom_scans (n : Nat) (start : Position) (cs : List Char) (hn : cs.length ≤ n)
    (items : Array (Except Diagnostic Token)) :
    ∃ more, Scans start cs more ∧ (scanFrom n start cs items).toList = items.toList ++ more := by
  induction n generalizing start cs items with
  | zero =>
    cases cs with
    | nil => exact ⟨_, .done start, by simp [scanFrom]⟩
    | cons c cs => cases hn
  | succ n ih =>
    cases cs with
    | nil => exact ⟨_, .done start, by simp [scanFrom]⟩
    | cons c cs =>
      have hshorter := cut_shorter c cs
      have hle : (cut c cs).rest.length ≤ n := Nat.le_trans hshorter (Nat.le_of_succ_le_succ hn)
      obtain ⟨more, hmore, heq⟩ := ih (start.advance (cut c cs).taken) _ hle
        (items ++ ((cut c cs).items start).toArray)
      refine ⟨_, .piece hmore, ?_⟩
      rw [scanFrom_piece, heq, Array.toList_append, List.append_assoc]

/-- A text has no other items than those it is scanned into. -/
theorem Scans.unique {start : Position} {cs : List Char} {items items' : List (Except Diagnostic Token)}
    (h : Scans start cs items) (h' : Scans start cs items') : items = items' := by
  induction h generalizing items' with
  | done start => cases h'; rfl
  | piece _ ih => cases h' with
    | piece h' => rw [ih h']

end Lexer

theorem scan_scans (source : String) : Lexer.Scans .start source.toList (scan source).toList := by
  obtain ⟨items, hitems, heq⟩ := Lexer.scanFrom_scans source.toList.length .start source.toList
    (Nat.le_refl _) #[]
  have hscan : (scan source).toList = items := heq
  rwa [hscan]

namespace Lexer

/-- The items of a text, from the tokens that it is scanned into. -/
theorem tokens_of_scans {source : String} {ts : List Token} (h : Scans .start source.toList (ts.map .ok)) :
    tokens source = ts ∧ lexicalFaults source = [] := by
  have hitems := (scan_scans source).unique h
  unfold tokens lexicalFaults
  rw [hitems, List.filterMap_map, List.filterMap_map]
  exact ⟨List.filterMap_some, List.filterMap_none _⟩

/-! ### Texts below others -/

/-- The place `n` lines further down. -/
def lower (n : Nat) (p : Position) : Position :=
  ⟨p.line + n, p.column⟩

/-- The item of a text when the places are different ones. -/
def placedItem (place : Position → Position) : Except Diagnostic Token → Except Diagnostic Token
  | .ok t => .ok (t.placed place)
  | .error d => .error (d.placed place)

theorem next_lower (n : Nat) (p : Position) (c : Char) :
    (lower n p).next c = lower n (p.next c) := by
  unfold Position.next lower
  split
  · rw [Nat.add_right_comm]
  · rfl

theorem advance_lower (n : Nat) (p : Position) (cs : List Char) :
    (lower n p).advance cs = lower n (p.advance cs) := by
  unfold Position.advance
  induction cs generalizing p with
  | nil => rfl
  | cons c cs ih => rw [List.foldl_cons, List.foldl_cons, next_lower, ih]

theorem items_lower (n : Nat) (start : Position) (x : Cut) :
    x.items (lower n start) = (x.items start).map (placedItem (lower n)) := by
  unfold Cut.items
  rw [advance_lower]
  cases x.piece with
  | gap => rfl
  | token kind literal => rfl
  | fault cause => cases cause <;> rfl

/-- A text that stands further down has its items there. -/
theorem Scans.lower {start : Position} {cs : List Char} {items : List (Except Diagnostic Token)}
    (h : Scans start cs items) (n : Nat) :
    Scans (lower n start) cs (items.map (placedItem (lower n))) := by
  induction h with
  | done start => exact .done (Lexer.lower n start)
  | piece h ih =>
    rw [List.map_append, ← items_lower]
    refine .piece ?_
    rw [advance_lower]
    exact ih

/-- The end of the file is the last item. -/
theorem Scans.last {start : Position} {cs : List Char} {items : List (Except Diagnostic Token)}
    (h : Scans start cs items) : ∃ front line, items = front ++ [.ok (.endOfFile line)] := by
  induction h with
  | done start => exact ⟨[], start.line, rfl⟩
  | piece _ ih =>
    obtain ⟨front, line, rfl⟩ := ih
    exact ⟨_, line, (List.append_assoc _ _ _).symm⟩

/-- A text without faults, with another one in the lines below it. -/
theorem Scans.append {start : Position} {cs more : List Char}
    {items below : List (Except Diagnostic Token)} (h : Scans start cs items)
    (hclean : ∀ d, .error d ∉ items) (hbelow : Scans (start.advance (cs ++ ['\n'])) more below) :
    Scans start (cs ++ '\n' :: more) (items.dropLast ++ below) := by
  induction h with
  | done start => exact @Scans.piece start '\n' more below hbelow
  | @piece start c cs items h ih =>
    have hcut := cut_from c cs
    have hfaultless : (cut c cs).Faultless := by
      intro cause hpiece
      let d : Diagnostic :=
        ⟨faultPosition start (start.advance (cut c cs).taken) cause, .lexical cause, none⟩
      have hitem : (cut c cs).items start = [.error d] := by
        unfold Cut.items
        rw [hpiece]
      exact hclean d (List.mem_append_left items (hitem ▸ List.mem_singleton_self _))
    obtain ⟨front, line, hlast⟩ := h.last
    have hne : items ≠ [] := by simp [hlast]
    have hnext := ih (fun d hd => hclean d (List.mem_append_right _ hd)) (by
      rw [← Position.advance_append, ← List.append_assoc, hcut.text]
      exact hbelow)
    have htext : c :: (cs ++ '\n' :: more) = (cut c cs).taken ++ ((cut c cs).rest ++ '\n' :: more) := by
      rw [← List.append_assoc, hcut.text]
      rfl
    have hbefore := cut_before hfaultless (interchangeable_newline _ more) htext
    rw [List.dropLast_append_of_ne_nil hne, List.append_assoc]
    have hscans : Scans start (c :: (cs ++ '\n' :: more))
        ((cut c (cs ++ '\n' :: more)).items start ++ (items.dropLast ++ below)) := by
      refine .piece ?_
      rw [hbefore]
      exact hnext
    rw [hbefore] at hscans
    exact hscans

/-- How many lines a text ends. -/
def newlines (source : String) : Nat :=
  source.toList.count '\n'

theorem advance_line (p : Position) (cs : List Char) :
    (p.advance cs).line = p.line + cs.count '\n' := by
  unfold Position.advance
  induction cs generalizing p with
  | nil => rfl
  | cons c cs ih =>
    rw [List.foldl_cons, ih, List.count_cons]
    unfold Position.next
    by_cases hc : c = '\n'
    · simp only [hc, ↓reduceIte, beq_self_eq_true]
      omega
    · simp [hc]

/-- Behind a text and a line feed the next line begins. -/
theorem advance_newline (source : String) :
    Position.start.advance (source.toList ++ ['\n']) = lower (newlines source + 1) .start := by
  have hline := advance_line .start source.toList
  rw [Position.advance_append]
  unfold Position.advance Position.next lower newlines at *
  simp only [List.foldl_cons, List.foldl_nil, ↓reduceIte, hline]
  rfl

end Lexer

open Lexer (Scans lower newlines placedItem token? fault?)

/-- The items of a text without faults and of another one in the lines below it. -/
theorem scan_append {a : String} (ha : lexicalFaults a = []) (b : String) :
    (scan (a ++ "\n" ++ b)).toList =
      (scan a).toList.dropLast ++ (scan b).toList.map (placedItem (lower (newlines a + 1))) := by
  have hclean : ∀ d, .error d ∉ (scan a).toList := by
    intro d hd
    have hmem : d ∈ lexicalFaults a := List.mem_filterMap.mpr ⟨_, hd, rfl⟩
    rw [ha] at hmem
    cases hmem
  have hbelow := (scan_scans b).lower (newlines a + 1)
  rw [← Lexer.advance_newline] at hbelow
  have happend := (scan_scans a).append hclean hbelow
  have hscan := scan_scans (a ++ "\n" ++ b)
  have htext : (a ++ "\n" ++ b).toList = a.toList ++ '\n' :: b.toList := by
    simp [String.toList_append]
  rw [htext] at hscan
  exact hscan.unique happend

theorem scan_last (source : String) :
    ∃ front line, (scan source).toList = front ++ [.ok (.endOfFile line)] :=
  (scan_scans source).last

/-- The end of the file is the last token. -/
theorem tokens_last (source : String) :
    ∃ line, tokens source = (tokens source).dropLast ++ [.endOfFile line] ∧
      (tokens source).dropLast = (scan source).toList.dropLast.filterMap token? := by
  obtain ⟨front, line, hscan⟩ := scan_last source
  have htokens : tokens source = front.filterMap token? ++ [.endOfFile line] := by
    unfold tokens
    rw [hscan, List.filterMap_append]
    rfl
  refine ⟨line, ?_, ?_⟩
  · rw [htokens, List.dropLast_concat]
  · rw [htokens, hscan, List.dropLast_concat, List.dropLast_concat]

theorem lexicalFaults_append {a : String} (ha : lexicalFaults a = []) (b : String) :
    lexicalFaults (a ++ "\n" ++ b) =
      (lexicalFaults b).map (Diagnostic.placed (lower (newlines a + 1))) := by
  obtain ⟨front, line, hscan⟩ := scan_last a
  have hfront : front.filterMap fault? = [] := by
    unfold lexicalFaults at ha
    rw [hscan, List.filterMap_append] at ha
    exact (List.append_eq_nil_iff.mp ha).1
  unfold lexicalFaults
  rw [scan_append ha, hscan, List.dropLast_concat, List.filterMap_append, hfront, List.filterMap_map,
    List.map_filterMap]
  refine congrArg (List.filterMap · _) (funext fun item => ?_)
  cases item <;> rfl

theorem tokens_append {a : String} (ha : lexicalFaults a = []) (b : String) :
    tokens (a ++ "\n" ++ b) =
      (tokens a).dropLast ++ (tokens b).map (Token.placed (lower (newlines a + 1))) := by
  obtain ⟨line, _, hfront⟩ := tokens_last a
  rw [hfront]
  unfold tokens
  rw [scan_append ha, List.filterMap_append, List.filterMap_map, List.map_filterMap]
  refine congrArg (_ ++ List.filterMap · _) (funext fun item => ?_)
  cases item <;> rfl

end LoxLang

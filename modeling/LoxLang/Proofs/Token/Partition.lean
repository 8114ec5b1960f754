import LoxLang.Proofs.Token.Lexemes
import LoxLang.Proofs.Token.Scans

/-!
Scanning takes a text apart without a loss. The parts follow one another and make up the text; each token is
the longest that begins where it does, and stands at the place that the text before it says.
-/

namespace LoxLang

open Lexis

namespace Lexer

/-- A comparison with both ends of a range. -/
theorem within_iff (low high c : Char) :
    (decide (c.val ≥ low.val) && decide (c.val ≤ high.val)) = true ↔ low ≤ c ∧ c ≤ high := by
  rw [Bool.and_eq_true, decide_eq_true_iff, decide_eq_true_iff]
  exact Iff.rfl

theorem isDigit_iff (c : Char) : c.isDigit = true ↔ Digit c := within_iff '0' '9' c

theorem isWordChar_iff (c : Char) : isWordChar c = true ↔ Initial c ∨ Digit c := by
  have hupper : c.isUpper = true ↔ 'A' ≤ c ∧ c ≤ 'Z' := decide_eq_true_iff
  have hlower : c.isLower = true ↔ 'a' ≤ c ∧ c ≤ 'z' := within_iff 'a' 'z' c
  have hword : isWordChar c = (((c.isUpper || c.isLower) || c.isDigit) || c == '_') := rfl
  rw [hword, Bool.or_eq_true, Bool.or_eq_true, Bool.or_eq_true, hupper, hlower, isDigit_iff, beq_iff_eq]
  unfold Initial
  tauto

/-! ### Runs -/

section Runs

variable {p : Char → Bool} {run text : List Char}

/-- A run is not longer than the longest one. -/
theorem length_run_le (hrun : ∀ c ∈ run, p c = true) (h : run <+: text) :
    run.length ≤ (text.takeWhile p).length := by
  obtain ⟨tail, rfl⟩ := h
  rw [List.takeWhile_append_of_pos hrun, List.length_append]
  omega

/-- A run that something else ends is the longest one. -/
theorem run_ended (hrun : ∀ c ∈ run, p c = true) {d : Char} (hd : p d = false) {more : List Char}
    (h : run ++ d :: more <+: text) :
    text.takeWhile p = run ∧ ∃ rest, text.dropWhile p = d :: rest ∧ more <+: rest := by
  obtain ⟨tail, rfl⟩ := h
  have hstop : ¬p d = true := by simp [hd]
  rw [List.append_assoc, List.takeWhile_append_of_pos hrun, List.dropWhile_append_of_pos hrun,
    List.cons_append, List.takeWhile_cons_of_neg hstop, List.dropWhile_cons_of_neg hstop, List.append_nil]
  exact ⟨rfl, _, rfl, tail, rfl⟩

end Runs

/-! ### Pieces -/

/-- The piece is what the language says of it. -/
def Cut.Right (x : Cut) : Prop :=
  match x.piece with
  | .gap => Gap x.taken x.rest
  | .token kind _ => Lexeme kind x.taken ∧ Longest x.taken (x.taken ++ x.rest) ∧
    ¬BeginsComment (x.taken ++ x.rest)
  | .fault cause => Faulty cause x.taken x.rest

theorem Cut.Right.token {kind : TokenKind} {literal : Option Literal} {taken rest text : List Char}
    (hlexeme : Lexeme kind taken) (htext : taken ++ rest = text) (hlongest : Longest taken text)
    (hcomment : ¬BeginsComment text) : Cut.Right ⟨.token kind literal, taken, rest⟩ := by
  subst htext
  exact ⟨hlexeme, hlongest, hcomment⟩

variable {c : Char} {cs : List Char}

theorem not_beginsComment (hc : c ≠ '/') : ¬BeginsComment (c :: cs) := by
  rintro (h | h)
  · exact hc (List.cons_prefix_cons.mp h).1.symm
  · exact hc (List.cons_prefix_cons.mp h).1.symm

theorem of_mem_takeWhile {p : Char → Bool} (h : c ∈ cs.takeWhile p) : p c = true :=
  List.all_eq_true.mp List.all_takeWhile c h

theorem cutString_right (hc : Quote c) : (cutString c cs).Right := by
  have hbody : c ∉ cs.takeWhile (· != c) := by
    intro hmem
    have h := of_mem_takeWhile hmem
    simp at h
  have hslash : c ≠ '/' := by
    rintro rfl
    revert hc
    decide
  have hfrom := @cutString_from c cs
  unfold cutString at hfrom ⊢
  dsimp only at hfrom ⊢
  cases hrest : cs.dropWhile (· != c) with
  | nil => exact .string hc hbody
  | cons q rest =>
    rw [hrest] at hfrom
    have hq : q = c := by
      have h := List.head_dropWhile_not (· != c) (l := cs) (by simp [hrest])
      simpa [hrest] using h
    subst hq
    refine .token (.string hc hbody) hfrom.text ?_ (not_beginsComment hslash)
    intro kind lexeme hlexeme hbegins
    cases lexeme with
    | nil => exact absurd rfl hlexeme.ne_nil
    | cons d lexeme =>
      obtain ⟨rfl, htail⟩ := List.cons_prefix_cons.mp hbegins
      obtain ⟨body, rfl, hclear⟩ := hlexeme.string_of_quote hc
      have hrun : ∀ e ∈ body, (e != d) = true := by
        intro e he
        have hne : e ≠ d := fun heq => hclear (heq ▸ he)
        simpa using hne
      have hended := run_ended hrun (by simp) htail
      simp [hended.1]

/-- A number is at most as long as the digits that are there, with the fraction behind them if there is one. -/
theorem number_length_le {text lexeme : List Char} {kind : TokenKind} (hlexeme : Lexeme kind lexeme)
    (hbegins : lexeme <+: text) (hhead : ∀ d ∈ text.head?, Digit d) :
    lexeme.length ≤ (text.takeWhile Char.isDigit).length ∨
      ∃ rest, text.dropWhile Char.isDigit = '.' :: rest ∧ rest.takeWhile Char.isDigit ≠ [] ∧
        lexeme.length ≤
          (text.takeWhile Char.isDigit ++ '.' :: rest.takeWhile Char.isDigit).length := by
  cases lexeme with
  | nil => exact .inl (Nat.zero_le _)
  | cons d lexeme =>
    have hd : Digit d := by
      obtain ⟨tail, rfl⟩ := hbegins
      exact hhead d rfl
    rcases hlexeme.number_of_digit hd with hall | ⟨whole, fraction, htext, hwhole, hne, hfraction⟩
    · exact .inl (length_run_le (fun e he => (isDigit_iff e).mpr (hall e he)) hbegins)
    · rw [htext] at hbegins ⊢
      obtain ⟨hrun, rest, hrest, hmore⟩ :=
        run_ended (fun e he => (isDigit_iff e).mpr (hwhole e he)) (by decide) hbegins
      have hle := length_run_le (fun e he => (isDigit_iff e).mpr (hfraction e he)) hmore
      refine .inr ⟨rest, hrest, ?_, ?_⟩
      · intro hnil
        rw [hnil] at hle
        exact hne (List.length_eq_zero_iff.mp (Nat.le_zero.mp hle))
      · rw [hrun, List.length_append, List.length_append, List.length_cons, List.length_cons]
        omega

theorem digit_of_mem_takeWhile {d : Char} {text : List Char} (h : d ∈ text.takeWhile Char.isDigit) :
    Digit d :=
  (isDigit_iff d).mp (of_mem_takeWhile h)

theorem cutNumber_right (hc : Digit c) : (cutNumber (c :: cs)).Right := by
  have hslash : c ≠ '/' := by
    rintro rfl
    revert hc
    decide
  have hisDigit := (isDigit_iff c).mpr hc
  have hwhole : (c :: cs).takeWhile Char.isDigit ≠ [] := by simp [hisDigit]
  have htext := List.takeWhile_append_dropWhile (p := Char.isDigit) (l := c :: cs)
  have hlength := fun kind lexeme (hlexeme : Lexeme kind lexeme) (hbegins : lexeme <+: c :: cs) =>
    number_length_le hlexeme hbegins (by simpa using hc)
  -- without a fraction the digits are the token
  have hinteger : ∀ literal rest, (c :: cs).dropWhile Char.isDigit = rest →
      (∀ more, rest = '.' :: more → more.takeWhile Char.isDigit = []) →
      Cut.Right ⟨.token .number literal, (c :: cs).takeWhile Char.isDigit, rest⟩ := by
    intro literal rest hrest hpoint
    refine .token (.integer hwhole fun d hd => digit_of_mem_takeWhile hd) (hrest ▸ htext) ?_
      (not_beginsComment hslash)
    intro kind lexeme hlexeme hbegins
    rcases hlength kind lexeme hlexeme hbegins with hle | ⟨more, hmore, hne, _⟩
    · exact hle
    · exact absurd (hpoint more (hrest.symm.trans hmore)) hne
  unfold cutNumber
  dsimp only
  split
  case h_1 rest hrest =>
    split
    case isTrue hempty =>
      apply hinteger _ _ hrest
      intro more hmore
      cases hmore
      exact List.isEmpty_iff.mp hempty
    case isFalse hempty =>
      have hne : rest.takeWhile Char.isDigit ≠ [] := by simpa using hempty
      apply Cut.Right.token
      · exact .decimal hwhole (fun d hd => digit_of_mem_takeWhile hd) hne
          fun d hd => digit_of_mem_takeWhile hd
      · rw [List.append_assoc, List.cons_append, List.takeWhile_append_dropWhile, ← hrest, htext]
      · intro kind lexeme hlexeme hbegins
        rcases hlength kind lexeme hlexeme hbegins with hle | ⟨more, hmore, _, hle⟩
        · rw [List.length_append]
          omega
        · cases hrest.symm.trans hmore
          exact hle
      · exact not_beginsComment hslash
  case h_2 hrest => exact hinteger _ _ rfl fun more hmore => absurd hmore (hrest more)

/-- The kind of a word is that of the table, if it is there. -/
theorem ofWord_keyword (word : String) :
    (word, TokenKind.ofWord word) ∈ keywords ∨
      TokenKind.ofWord word = .identifier ∧ ∀ kind, (word, kind) ∉ keywords := by
  unfold TokenKind.ofWord
  split
  case h_19 =>
    refine .inr ⟨rfl, fun kind hmem => ?_⟩
    simp_all [keywords]
  all_goals exact .inl (by simp [keywords])

theorem cutWord_right (hc : Initial c) : (cutWord (c :: cs)).Right := by
  have hslash : c ≠ '/' := by
    rintro rfl
    revert hc
    decide
  have hword : isWordChar c = true := (isWordChar_iff c).mpr (.inl hc)
  have hcons : (c :: cs).takeWhile isWordChar = c :: cs.takeWhile isWordChar :=
    List.takeWhile_cons_of_pos hword
  refine .token ?_ List.takeWhile_append_dropWhile ?_ (not_beginsComment hslash)
  · rcases ofWord_keyword (String.ofList ((c :: cs).takeWhile isWordChar)) with hkey | ⟨hkind, hnone⟩
    · simpa using Lexeme.keyword hkey
    · rw [hkind]
      rw [hcons] at hnone ⊢
      exact .identifier hc (fun d hd => (isWordChar_iff d).mp (of_mem_takeWhile hd)) hnone
  · intro kind lexeme hlexeme hbegins
    cases lexeme with
    | nil => exact Nat.zero_le _
    | cons d lexeme =>
      obtain ⟨rfl, _⟩ := List.cons_prefix_cons.mp hbegins
      have hletters := hlexeme.word_of_initial hc
      exact length_run_le (fun e he => (isWordChar_iff e).mpr (hletters e he)) hbegins

theorem cutLineComment_right : (cutLineComment cs).Right := by
  refine .line ?_ ?_
  · intro hmem
    have hne := of_mem_takeWhile hmem
    simp at hne
  · cases hrest : cs.dropWhile (· != '\n') with
    | nil => exact .inl hrest
    | cons d below =>
      have hd := List.head_dropWhile_not (· != '\n') (l := cs) (by simp [hrest])
      obtain rfl : d = '\n' := by simpa [hrest] using hd
      exact .inr ⟨below, hrest⟩

/-! ### Comments in brackets -/

/-- The text closes the comment that it is in, and as many more around it. -/
def Closes : Nat → List Char → Prop
  | 0, text => ∃ body, CommentBody body ∧ text = body ++ ['*', '/']
  | depth + 1, text => ∃ body more, CommentBody body ∧ text = body ++ '*' :: '/' :: more ∧ Closes depth more

/-- Every closing text begins with what stands inside the innermost comment. -/
theorem Closes.split {depth : Nat} {text : List Char} (h : Closes depth text) :
    ∃ body more, CommentBody body ∧ text = body ++ '*' :: '/' :: more ∧
      ∀ body', CommentBody body' → Closes depth (body' ++ '*' :: '/' :: more) := by
  cases depth with
  | zero =>
    obtain ⟨body, hbody, rfl⟩ := h
    exact ⟨body, [], hbody, rfl, fun body' hbody' => ⟨body', hbody', rfl⟩⟩
  | succ depth =>
    obtain ⟨body, more, hbody, rfl, hmore⟩ := h
    exact ⟨body, more, hbody, rfl, fun body' hbody' => ⟨body', more, hbody', rfl, hmore⟩⟩

theorem mark_append {c : Char} {body : List Char} (more : List Char) :
    CommentMark (c :: (body ++ '*' :: '/' :: more)) ↔ CommentMark (c :: (body ++ ['*', '/'])) := by
  unfold CommentMark
  cases body <;> simp

theorem Closes.char {depth : Nat} {text : List Char} (hc : ¬CommentMark (c :: text)) (h : Closes depth text) :
    Closes depth (c :: text) := by
  obtain ⟨body, more, hbody, rfl, hagain⟩ := h.split
  rw [mark_append] at hc
  exact hagain (c :: body) (.char hc hbody)

theorem Closes.comment {depth : Nat} {text : List Char} (h : Closes (depth + 1) text) :
    Closes depth ('/' :: '*' :: text) := by
  obtain ⟨inner, text, hinner, rfl, h⟩ := h
  obtain ⟨body, more, hbody, rfl, hagain⟩ := h.split
  have hboth : CommentBody ('/' :: '*' :: (inner ++ ['*', '/']) ++ body) := .comment (.mk hinner) hbody
  simpa using hagain _ hboth

/-- What the search for the end of a comment passes over closes the comment. -/
theorem closeComment_closes {depth : Nat} {seen cs taken rest : List Char}
    (h : closeComment depth seen cs = some (taken, rest)) :
    ∃ text, Closes depth text ∧ cs = text ++ rest ∧ taken = seen.reverse ++ text := by
  fun_induction closeComment depth seen cs with
  | case1 => cases h
  | case2 depth seen cs ih =>
    obtain ⟨text, htext, rfl, rfl⟩ := ih h
    exact ⟨_, htext.comment, rfl, by simp⟩
  | case3 seen cs =>
    cases h
    exact ⟨['*', '/'], ⟨[], .nil, rfl⟩, rfl, by simp⟩
  | case4 depth seen cs ih =>
    obtain ⟨text, htext, rfl, rfl⟩ := ih h
    exact ⟨_, ⟨[], text, .nil, rfl, htext⟩, rfl, by simp⟩
  | case5 depth seen c cs hopen hclose hclose' ih =>
    obtain ⟨text, htext, rfl, rfl⟩ := ih h
    refine ⟨c :: text, htext.char ?_, rfl, by simp⟩
    rintro (⟨tail, heq⟩ | ⟨tail, heq⟩)
    · obtain ⟨rfl, rfl⟩ := List.cons.inj heq
      exact hopen _ rfl rfl
    · obtain ⟨rfl, rfl⟩ := List.cons.inj heq
      cases depth with
      | zero => exact hclose _ rfl rfl rfl
      | succ depth => exact hclose' depth _ rfl rfl rfl

theorem closeComment_char {depth : Nat} {seen text : List Char} (hc : ¬CommentMark (c :: text)) :
    closeComment depth seen (c :: text) = closeComment depth (c :: seen) text := by
  rw [closeComment.eq_5]
  · rintro cs rfl rfl
    exact hc (.inl ⟨cs, rfl⟩)
  · rintro cs rfl rfl rfl
    exact hc (.inr ⟨cs, rfl⟩)
  · rintro depth' cs rfl rfl rfl
    exact hc (.inr ⟨cs, rfl⟩)

mutual

/-- The search passes over a whole comment. -/
theorem closeComment_comment {text : List Char} (h : BlockComment text) (depth : Nat)
    (seen tail : List Char) :
    closeComment depth seen (text ++ tail) = closeComment depth (text.reverse ++ seen) tail := by
  match h with
  | .mk hbody =>
    have hinner := closeComment_body hbody (depth + 1) ('*' :: '/' :: seen) tail
    simpa [closeComment] using hinner

/-- The search passes over what stands inside a comment. -/
theorem closeComment_body {body : List Char} (h : CommentBody body) (depth : Nat)
    (seen tail : List Char) :
    closeComment depth seen (body ++ '*' :: '/' :: tail) =
      closeComment depth (body.reverse ++ seen) ('*' :: '/' :: tail) := by
  match h with
  | .nil => rfl
  | .char hc hrest =>
    rw [← mark_append tail] at hc
    rw [List.cons_append, closeComment_char hc, closeComment_body hrest]
    simp
  | .comment htext hrest =>
    rw [List.append_assoc, closeComment_comment htext, closeComment_body hrest]
    simp

end

theorem cutBlockComment_right : (cutBlockComment cs).Right := by
  unfold cutBlockComment
  cases hclose : closeComment 0 [] cs with
  | some closed =>
    obtain ⟨taken, rest⟩ := closed
    obtain ⟨text, ⟨body, hbody, rfl⟩, _, rfl⟩ := closeComment_closes hclose
    exact .block (.mk hbody)
  | none =>
    refine .comment ?_
    rintro text ⟨tail, heq⟩ ⟨hbody⟩
    rename_i body
    obtain rfl : body ++ '*' :: '/' :: tail = cs := by simpa using heq
    rw [closeComment_body hbody] at hclose
    cases hclose

/-! ### Punctuation -/

theorem single?_punctuation {kind : TokenKind} :
    single? c = some kind ↔ ([c], kind) ∈ Lexis.punctuation := by
  unfold single?
  split
  case h_19 => simp_all [Lexis.punctuation]
  all_goals simp [Lexis.punctuation, eq_comm]

theorem double?_punctuation {kind : TokenKind} :
    double? c = some kind ↔ ([c, '='], kind) ∈ Lexis.punctuation := by
  unfold double?
  split
  case h_5 => simp_all [Lexis.punctuation]
  all_goals simp [Lexis.punctuation, eq_comm]

/-- An entry of the table has one character, or an equals sign behind it, and then it has one without, too. -/
theorem punctuation_shape : ∀ e ∈ Lexis.punctuation,
    e.1.tail = [] ∨ e.1.tail = ['='] ∧ ∃ e' ∈ Lexis.punctuation, e'.1 = e.1.take 1 := by
  decide +kernel

theorem cutPunctuation_right (hblank : ¬Blank c) (hquote : ¬Quote c) (hdigit : ¬Digit c)
    (hinitial : ¬Initial c) (hcomment : ¬BeginsComment (c :: cs)) : (cutPunctuation c cs).Right := by
  have hentry : ∀ {kind : TokenKind} {text : List Char}, Lexeme kind (c :: text) →
      single? c = some kind ∧ text = [] ∨
        double? c = some kind ∧ text = ['='] ∧ ∃ kind, single? c = some kind := by
    intro kind text hlexeme
    have hmem := hlexeme.punctuation_of_not hdigit hinitial hquote
    rcases punctuation_shape _ hmem with htext | ⟨htext, ⟨one, kind'⟩, hmem', hone⟩
    · obtain rfl : text = [] := htext
      exact .inl ⟨single?_punctuation.mpr hmem, rfl⟩
    · obtain rfl : text = ['='] := htext
      obtain rfl : one = [c] := hone
      exact .inr ⟨double?_punctuation.mpr hmem, rfl, kind', single?_punctuation.mpr hmem'⟩
  unfold cutPunctuation
  split
  case h_1 kind rest hdouble =>
    apply Cut.Right.token (.punctuation (double?_punctuation.mp hdouble)) rfl _ hcomment
    intro kind' lexeme hlexeme hbegins
    cases lexeme with
    | nil => exact Nat.zero_le _
    | cons d text =>
      obtain ⟨rfl, _⟩ := List.cons_prefix_cons.mp hbegins
      rcases hentry hlexeme with ⟨_, rfl⟩ | ⟨_, rfl, _⟩ <;> simp
  case h_2 hnone =>
    split
    case h_1 kind hsingle =>
      apply Cut.Right.token (.punctuation (single?_punctuation.mp hsingle)) rfl _ hcomment
      intro kind' lexeme hlexeme hbegins
      cases lexeme with
      | nil => exact Nat.zero_le _
      | cons d text =>
        obtain ⟨rfl, htail⟩ := List.cons_prefix_cons.mp hbegins
        rcases hentry hlexeme with ⟨_, rfl⟩ | ⟨hdouble, rfl, _⟩
        · simp
        · obtain ⟨rest, rfl⟩ := htail
          exact absurd rfl (hnone kind' rest hdouble)
    case h_2 hsingle =>
      refine .unsupported (fun kind text hlexeme => ?_) hblank
      rcases hentry hlexeme with ⟨h, _⟩ | ⟨_, _, kind', h⟩
      · cases hsingle.symm.trans h
      · cases hsingle.symm.trans h

/-- Every piece is what the language says of it. -/
theorem cut_right (c : Char) (cs : List Char) : (cut c cs).Right := by
  unfold cut
  split
  case isTrue hblank =>
    refine .blank ?_
    simpa [Blank, or_assoc, or_left_comm] using hblank
  case isFalse hblank =>
    have hnotBlank : ¬Blank c := by
      rintro (rfl | rfl | rfl | rfl) <;> simp at hblank
    split
    case isTrue hquote => exact cutString_right (by simpa [Quote] using hquote)
    case isFalse hquote =>
      have hnotQuote : ¬Quote c := by simpa [Quote] using hquote
      split
      case isTrue hdigit => exact cutNumber_right ((isDigit_iff c).mp hdigit)
      case isFalse hdigit =>
        rw [isDigit_iff] at hdigit
        split
        case isTrue hword => exact cutWord_right (((isWordChar_iff c).mp hword).resolve_right hdigit)
        case isFalse hword =>
          rw [isWordChar_iff, not_or] at hword
          split
          case isTrue hslash =>
            obtain rfl : c = '/' := by simpa using hslash
            split
            case h_1 => exact cutLineComment_right
            case h_2 => exact cutBlockComment_right
            case h_3 hline hblock =>
              apply cutPunctuation_right hnotBlank hnotQuote hdigit hword.1
              rintro (⟨rest, heq⟩ | ⟨rest, heq⟩)
              · exact hline rest (List.cons.inj heq).2.symm
              · exact hblock rest (List.cons.inj heq).2.symm
          case isFalse hslash =>
            apply cutPunctuation_right hnotBlank hnotQuote hdigit hword.1
            exact not_beginsComment (by simpa using hslash)

end Lexer

namespace Lexis

/-! ### Parts of a text -/

/-- A part of a text: a gap, a token, or a fault and what it covers. -/
inductive Part where
  | gap (text : List Char)
  | token (t : Token)
  | fault (text : List Char) (d : Diagnostic)

def Part.text : Part → List Char
  | .gap text => text
  | .token t => t.lexeme.toList
  | .fault text _ => text

/-- What scanning yields for a part. -/
def Part.item? : Part → Option (Except Diagnostic Token)
  | .gap _ => none
  | .token t => some (.ok t)
  | .fault _ d => some (.error d)

/-- The token is right between the two texts. -/
structure TokenFits (before : List Char) (t : Token) (after : List Char) : Prop where
  lexeme : Lexeme t.kind t.lexeme.toList
  longest : Longest t.lexeme.toList (t.lexeme.toList ++ after)
  noComment : ¬BeginsComment (t.lexeme.toList ++ after)
  start : t.span.start = placeAfter before
  stop : t.span.stop = placeAfter (before ++ t.lexeme.toList)

/-- The part is right between the two texts. -/
def Part.Fits (before : List Char) : Part → List Char → Prop
  | .gap text, after => Gap text after
  | .token t, after => TokenFits before t after
  | .fault text d, after => ∃ cause, d.fault = .lexical cause ∧ Faulty cause text after ∧
    ∀ c, cause = .unsupported c → d.position = placeAfter before

end Lexis

namespace Lexer

def Cut.part (start : Position) (x : Cut) : Part :=
  match x.piece with
  | .gap => .gap x.taken
  | .token kind literal =>
    .token ⟨kind, String.ofList x.taken, literal, ⟨start, start.advance x.taken⟩⟩
  | .fault cause =>
    .fault x.taken ⟨faultPosition start (start.advance x.taken) cause, .lexical cause, none⟩

theorem Cut.part_text (start : Position) (x : Cut) : (x.part start).text = x.taken := by
  unfold Cut.part
  cases x.piece with
  | gap => rfl
  | token kind literal => simp [Part.text]
  | fault cause => rfl

theorem Cut.part_item? (start : Position) (x : Cut) : (x.part start).item?.toList = x.items start := by
  unfold Cut.part Cut.items
  cases x.piece <;> rfl

theorem Cut.Right.fits {x : Cut} (h : x.Right) (before : List Char) :
    (x.part (placeAfter before)).Fits before x.rest := by
  obtain ⟨piece, taken, rest⟩ := x
  cases piece with
  | gap => exact h
  | token kind literal =>
    obtain ⟨hlexeme, hlongest, hcomment⟩ := h
    constructor
    · simpa using hlexeme
    · simpa using hlongest
    · simpa using hcomment
    · rfl
    · simpa using (placeAfter_append before taken).symm
  | fault cause =>
    refine ⟨cause, rfl, h, ?_⟩
    rintro c rfl
    rfl

/-- A text that stands behind another one is made up of right parts. -/
theorem Scans.parts {start : Position} {cs : List Char} {items : List (Except Diagnostic Token)}
    (h : Scans start cs items) (before : List Char) (hstart : start = placeAfter before) :
    ∃ parts : List Part, parts.flatMap Part.text = cs ∧
      items = parts.filterMap Part.item? ++ [.ok (.endOfFile ((before ++ cs).count '\n'))] ∧
      ∀ front part rest, parts = front ++ part :: rest →
        part.Fits (before ++ front.flatMap Part.text) (rest.flatMap Part.text) := by
  induction h generalizing before with
  | done start =>
    subst hstart
    refine ⟨[], rfl, ?_, ?_⟩
    · simp [placeAfter]
    · intro front part rest heq
      simp at heq
  | @piece start c cs items _ ih =>
    subst hstart
    have hfrom := cut_from c cs
    obtain ⟨parts, htext, hitems, hfits⟩ := ih (before ++ (cut c cs).taken) (placeAfter_append _ _).symm
    refine ⟨(cut c cs).part (placeAfter before) :: parts, ?_, ?_, ?_⟩
    · rw [List.flatMap_cons, Cut.part_text, htext, hfrom.text]
    · rw [hitems, ← Cut.part_item?, List.append_assoc, hfrom.text, List.filterMap_cons]
      cases ((cut c cs).part (placeAfter before)).item? <;> rfl
    · intro front part rest heq
      cases front with
      | nil =>
        obtain ⟨rfl, rfl⟩ := List.cons.inj heq
        rw [htext, List.flatMap_nil, List.append_nil]
        exact (cut_right c cs).fits before
      | cons first front =>
        obtain ⟨rfl, rfl⟩ := List.cons.inj heq
        have hpart := hfits front part rest rfl
        rwa [List.flatMap_cons, Cut.part_text, ← List.append_assoc]

end Lexer

/-- Scanning takes a text apart without a loss. The items are the tokens and faults among its parts, in
their order, and then the end of the file behind the last line. Every part is right where it stands. -/
theorem scanning_partitions (source : String) :
    ∃ parts : List Part, parts.flatMap Part.text = source.toList ∧
      (scan source).toList =
        parts.filterMap Part.item? ++ [.ok (.endOfFile (source.toList.count '\n'))] ∧
      (∀ t, .token t ∈ parts → t.kind ≠ .eof) ∧
      ∀ front part rest, parts = front ++ part :: rest →
        part.Fits (front.flatMap Part.text) (rest.flatMap Part.text) := by
  obtain ⟨parts, htext, hitems, hfits⟩ := (scan_scans source).parts [] rfl
  refine ⟨parts, htext, hitems, ?_, hfits⟩
  intro t ht heof
  obtain ⟨front, rest, hsplit⟩ := List.append_of_mem ht
  have hlexeme := (hfits front (.token t) rest hsplit).lexeme
  rw [heof] at hlexeme
  exact hlexeme.not_eof

end LoxLang

import LoxLang.Proofs.Token.Partition
import LoxLang.Proofs.Token.Words

/-!
Layouts of a text. The texts of some tokens, in their order and with gaps between them, are scanned into those
tokens if none of them grows together with what stands behind it; a blank keeps all of them apart. What a token
is can be told from its own text, so the kinds and the literals are the same in every layout.
-/

namespace LoxLang

namespace Lexis

instance : DecidablePred Blank := fun _ => inferInstanceAs (Decidable (_ ∨ _))

/-- The text is at its end, or goes on with a blank. -/
def Parted (text : List Char) : Prop :=
  ∀ c ∈ text.head?, Blank c

/-- The texts of tokens stand in the text, in their order, with gaps between them. Each is all of the token
that begins where it does, and not the beginning of a comment. -/
inductive LaidOut : List String → List Char → Prop where
  | done : LaidOut [] []
  | gap {lexemes : List String} {gap text : List Char} :
    Gap gap text → LaidOut lexemes text → LaidOut lexemes (gap ++ text)
  | lexeme {kind : TokenKind} {lexeme : String} {lexemes : List String} {text : List Char} :
    Lexeme kind lexeme.toList → Longest lexeme.toList (lexeme.toList ++ text) →
      ¬BeginsComment (lexeme.toList ++ text) → LaidOut lexemes text →
        LaidOut (lexeme :: lexemes) (lexeme.toList ++ text)

section Lexemes

variable {kind : TokenKind} {c : Char} {text : List Char}

theorem Lexeme.not_blank (h : Lexeme kind (c :: text)) : ¬Blank c := by
  intro hc
  have hmem : (c :: text, kind) ∈ Lexis.punctuation := by
    refine h.punctuation_of_not ?_ ?_ ?_ <;> rcases hc with rfl | rfl | rfl | rfl <;> decide
  rcases hc with rfl | rfl | rfl | rfl <;> simp [Lexis.punctuation] at hmem

theorem Lexeme.not_beginsComment (h : Lexeme kind text) : ¬BeginsComment text := by
  intro hcomment
  obtain ⟨c, rest, rfl⟩ : ∃ c rest, text = '/' :: c :: rest := by
    rcases hcomment with ⟨rest, rfl⟩ | ⟨rest, rfl⟩
    · exact ⟨'/', rest, rfl⟩
    · exact ⟨'*', rest, rfl⟩
  have hmem := h.punctuation_of_not (by decide) (by decide) (by decide)
  simp [Lexis.punctuation] at hmem

theorem BlockComment.beginsComment (h : BlockComment text) (after : List Char) :
    BeginsComment (text ++ after) := by
  obtain ⟨_⟩ := h
  exact .inr ⟨_, rfl⟩

end Lexemes

end Lexis

open Lexis

namespace Lexer

/-! ### Pieces in front of a blank -/

section Parted

variable {c : Char} {cs text rest : List Char} {kind : TokenKind} {literal : Option Literal}

theorem begins_of_parted {p : Char → Bool} (h : Parted text) (hp : ∀ c, Blank c → p c = false) :
    Begins p text = false := by
  cases text with
  | nil => rfl
  | cons c text => exact hp c (h c rfl)

theorem begins_eq_of_parted {d : Char} (h : Parted text) (hd : ¬Blank d) : Begins (· == d) text = false := by
  refine begins_of_parted h fun c hc => beq_false_of_ne ?_
  rintro rfl
  exact hd hc

theorem isDigit_blank (hc : Blank c) : c.isDigit = false := by
  rcases hc with rfl | rfl | rfl | rfl <;> rfl

theorem isWordChar_blank (hc : Blank c) : isWordChar c = false := by
  rcases hc with rfl | rfl | rfl | rfl <;> rfl

theorem cutNumber_parted (hrest : Parted rest) (htext : text = (cutNumber cs).taken ++ rest) :
    cutNumber text = (cutNumber cs).before rest := by
  have hdigit := begins_of_parted hrest fun _ => isDigit_blank
  rcases number_cases cs with ⟨whole, tail, rfl, h⟩ | ⟨whole, fraction, tail, rfl, h⟩
  · rw [cutNumber_whole h] at htext ⊢
    refine htext ▸ cutNumber_whole ⟨h.digits, hdigit, ?_⟩
    rintro tail' rfl
    exact absurd (hrest '.' rfl) (by decide)
  · rw [cutNumber_decimals h] at htext ⊢
    rw [htext, List.append_assoc]
    exact cutNumber_decimals ⟨h.digits, h.nonempty, h.digits', hdigit⟩

/-- A stroke that is a token stands alone. -/
theorem cut_slash_parted (h : (cut '/' cs).piece = .token kind literal) (hrest : Parted rest)
    (htext : '/' :: text = (cut '/' cs).taken ++ rest) : cut '/' text = (cut '/' cs).before rest := by
  have hline : Begins (· == '/') cs = false := by
    cases hb : Begins (· == '/') cs with
    | false => rfl
    | true =>
      obtain ⟨d, cs, rfl, hd⟩ := begins_iff.mp hb
      obtain rfl : d = '/' := by simpa using hd
      cases h
  have hblock : Begins (· == '*') cs = false := by
    cases hb : Begins (· == '*') cs with
    | false => rfl
    | true =>
      obtain ⟨d, cs, rfl, hd⟩ := begins_iff.mp hb
      obtain rfl : d = '*' := by simpa using hd
      have hpiece : (cutBlockComment cs).piece = .token kind literal := h
      unfold cutBlockComment at hpiece
      split at hpiece <;> cases hpiece
  rw [cut_slash hline hblock] at htext ⊢
  have hbehind : text = rest := by
    rw [cutPunctuation_single (.inl rfl)] at htext
    exact (List.cons.inj htext).2
  rw [← hbehind] at hrest
  rw [cut_slash (begins_eq_of_parted hrest (by decide)) (begins_eq_of_parted hrest (by decide))]
  exact cutPunctuation_behind (fun _ => .inl rfl) htext

/-- A token is the same at the end of a text or in front of a blank. -/
theorem cut_parted (h : (cut c cs).piece = .token kind literal) (hrest : Parted rest)
    (htext : c :: text = (cut c cs).taken ++ rest) : cut c text = (cut c cs).before rest := by
  by_cases hslash : c = '/'
  · subst hslash
    exact cut_slash_parted h hrest htext
  · rw [cut_of_ne_slash hslash] at h htext
    rw [cut_of_ne_slash hslash, cut_of_ne_slash hslash]
    split_ifs at h htext ⊢
    · refine cutString_before (fun cause hcause => ?_) htext
      cases h.symm.trans hcause
    · exact cutNumber_parted hrest htext
    · exact cutWord_behind (begins_of_parted hrest fun _ => isWordChar_blank) htext
    · exact cutPunctuation_behind (fun _ => .inr (begins_eq_of_parted hrest (by decide))) htext

end Parted

/-! ### Gaps and lexemes -/

theorem cut_of_gap {gap after : List Char} (h : Gap gap after) :
    ∃ c cs, gap = c :: cs ∧ cut c (cs ++ after) = ⟨.gap, gap, after⟩ := by
  cases h with
  | @blank c _ hc =>
    refine ⟨c, [], rfl, ?_⟩
    rcases hc with rfl | rfl | rfl | rfl <;> rfl
  | @line body _ hbody hafter =>
    have hrun : ∀ c ∈ body, (c != '\n') = true := by
      intro c hc
      have hne : c ≠ '\n' := fun heq => hbody (heq ▸ hc)
      simpa using hne
    have hended : Begins (· != '\n') after = false := by
      rcases hafter with rfl | ⟨below, rfl⟩ <;> rfl
    obtain ⟨htaken, hrest⟩ := takeWhile_run hrun hended
    refine ⟨'/', '/' :: body, rfl, ?_⟩
    show cutLineComment (body ++ after) = _
    unfold cutLineComment
    rw [htaken, hrest]
  | block hblock =>
    obtain @⟨body, hbody⟩ := hblock
    have hclose := closeComment_body hbody 0 [] after
    refine ⟨'/', _, rfl, ?_⟩
    show cutBlockComment (body ++ ['*', '/'] ++ after) = _
    unfold cutBlockComment
    rw [List.append_assoc, List.cons_append, List.cons_append, List.nil_append, hclose]
    simp [closeComment]

/-- The text of a token that does not grow together with what stands behind it is cut off as that token. -/
theorem cut_of_lexeme {kind : TokenKind} {lexeme after : List Char} (h : Lexeme kind lexeme)
    (hlongest : Longest lexeme (lexeme ++ after)) (hcomment : ¬BeginsComment (lexeme ++ after)) :
    ∃ c cs kind' literal, lexeme = c :: cs ∧ cut c (cs ++ after) = ⟨.token kind' literal, lexeme, after⟩ := by
  obtain ⟨c, cs, rfl⟩ := List.exists_cons_of_ne_nil h.ne_nil
  obtain ⟨htaken, htext⟩ := cut_from c (cs ++ after)
  have hright := cut_right c (cs ++ after)
  generalize hx : cut c (cs ++ after) = x at htaken htext hright
  obtain ⟨piece, taken, rest⟩ := x
  dsimp only at htaken htext
  rw [List.cons_append, ← htext] at hlongest hcomment
  cases piece with
  | gap =>
    refine absurd ?_ hcomment
    cases hright with
    | blank hblank => exact absurd ((List.cons.inj htext).1 ▸ hblank) h.not_blank
    | line => exact .inl ⟨_, rfl⟩
    | block hblock => exact hblock.beginsComment rest
  | fault cause =>
    exfalso
    cases hright with
    | unsupported hnone => exact hnone kind cs ((List.cons.inj htext).1 ▸ h)
    | string hquote hbody =>
      obtain ⟨rfl, hbehind⟩ := List.cons.inj htext
      obtain ⟨inner, rfl, _⟩ := h.string_of_quote hquote
      exact hbody (by simp_all)
    | comment => exact hcomment (.inr ⟨_, rfl⟩)
  | token kind' literal =>
    obtain ⟨hlexeme, hlongest', _⟩ := hright
    have hle : (c :: cs).length ≤ taken.length := hlongest' kind _ h (htext ▸ ⟨after, rfl⟩)
    have hge : taken.length ≤ (c :: cs).length := hlongest kind' _ hlexeme ⟨rest, rfl⟩
    obtain ⟨rfl, rfl⟩ := List.append_inj (htext.trans (List.cons_append ..).symm) (Nat.le_antisymm hge hle)
    exact ⟨c, cs, kind', literal, rfl, hx⟩

end Lexer

/-! ### Layouts -/

/-- The texts of the tokens, but for the end of the file. -/
def lexemes (ts : List Token) : List String :=
  (ts.filter (·.kind != .eof)).map Token.lexeme

theorem lexemes_cons {t : Token} (ht : t.kind ≠ .eof) (ts : List Token) :
    lexemes (t :: ts) = t.lexeme :: lexemes ts := by
  unfold lexemes
  rw [List.filter_cons_of_pos (by simpa using ht), List.map_cons]

namespace Lexis

open Lexer

/-- Lexemes that are laid out are scanned into the tokens whose texts they are, without faults. -/
theorem LaidOut.scans {ls : List String} {text : List Char} (h : LaidOut ls text) (start : Position) :
    ∃ ts : List Token, Scans start text (ts.map .ok) ∧ lexemes ts = ls := by
  induction h generalizing start with
  | done => exact ⟨[.endOfFile start.line], .done start, rfl⟩
  | @gap ls gap text hgap _ ih =>
    obtain ⟨c, cs, rfl, hcut⟩ := cut_of_gap hgap
    obtain ⟨ts, hscans, hls⟩ := ih (start.advance (c :: cs))
    exact ⟨ts, .gap hcut hscans, hls⟩
  | @lexeme kind l ls text hlexeme hlongest hcomment _ ih =>
    obtain ⟨c, cs, kind', literal, hl, hcut⟩ := cut_of_lexeme hlexeme hlongest hcomment
    obtain ⟨ts, hscans, hls⟩ := ih (start.advance l.toList)
    have hkind : kind' ≠ .eof := (cut_spells c (cs ++ text) kind' literal (by rw [hcut])).1
    have htoken := Scans.token hcut hscans
    rw [String.ofList_toList] at htoken
    rw [hl, List.cons_append]
    exact ⟨_ :: ts, htoken, by rw [lexemes_cons hkind, hls]⟩

end Lexis

namespace Lexer

theorem Scans.laidOut {start : Position} {cs : List Char} {items : List (Except Diagnostic Token)}
    (h : Scans start cs items) (hclean : ∀ d, .error d ∉ items) :
    LaidOut (lexemes (items.filterMap token?)) cs := by
  induction h with
  | done start => exact .done
  | @piece start c cs items _ ih =>
    have hbehind := ih fun d hd => hclean d (List.mem_append_right _ hd)
    have hright := cut_right c cs
    have hspells := cut_spells c cs
    rw [← (cut_from c cs).text]
    generalize cut c cs = x at hright hspells hclean hbehind
    obtain ⟨piece, taken, rest⟩ := x
    cases piece with
    | gap => exact .gap hright hbehind
    | fault cause => exact absurd (List.mem_append_left items (List.mem_singleton_self _)) (hclean _)
    | token kind literal =>
      obtain ⟨hlexeme, hlongest, hcomment⟩ := hright
      have hkind : kind ≠ .eof := (hspells kind literal rfl).1
      rw [← String.toList_ofList (l := taken)] at hlexeme hlongest hcomment
      have hlaid := LaidOut.lexeme hlexeme hlongest hcomment hbehind
      rw [String.toList_ofList] at hlaid
      show LaidOut (lexemes (_ :: items.filterMap token?)) (taken ++ rest)
      rw [lexemes_cons hkind]
      exact hlaid

end Lexer

/-- Scanning without faults finds the tokens that are laid out in a text, and no others. -/
theorem laidOut_iff {source : String} {ls : List String} :
    LaidOut ls source.toList ↔ lexicalFaults source = [] ∧ lexemes (tokens source) = ls := by
  constructor
  · intro h
    obtain ⟨ts, hscans, hls⟩ := h.scans .start
    obtain ⟨htokens, hfaults⟩ := Lexer.tokens_of_scans hscans
    exact ⟨hfaults, htokens ▸ hls⟩
  · rintro ⟨hfaults, rfl⟩
    refine (scan_scans source).laidOut fun d hd => ?_
    have hmem : d ∈ lexicalFaults source := List.mem_filterMap.mpr ⟨_, hd, rfl⟩
    rw [hfaults] at hmem
    cases hmem

namespace Lexis

/-- A blank keeps a lexeme apart. -/
theorem LaidOut.parted {kind : TokenKind} {l : String} {ls : List String} {text : List Char}
    (hlexeme : Lexeme kind l.toList) (htext : Parted text) (h : LaidOut ls text) :
    LaidOut (l :: ls) (l.toList ++ text) := by
  have halone : Longest l.toList (l.toList ++ []) := by
    intro kind lexeme _ hbegins
    rw [List.append_nil] at hbegins
    exact hbegins.length_le
  obtain ⟨c, cs, kind', literal, hl, hcut⟩ := Lexer.cut_of_lexeme hlexeme halone
    (by rw [List.append_nil]; exact hlexeme.not_beginsComment)
  rw [List.append_nil] at hcut
  have hparted : Lexer.cut c (cs ++ text) = ⟨.token kind' literal, l.toList, text⟩ := by
    rw [Lexer.cut_parted (by rw [hcut]) htext (by rw [hcut, hl]; rfl), hcut]
    rfl
  have hright := Lexer.cut_right c (cs ++ text)
  rw [hparted] at hright
  exact .lexeme hlexeme hright.2.1 hright.2.2 h

/-- Single spaces between the lexemes are a layout. -/
theorem laidOut_spaced {ls : List String} (h : ∀ l ∈ ls, ∃ kind, Lexeme kind l.toList) :
    LaidOut ls (List.intercalate [' '] (ls.map String.toList)) := by
  induction ls with
  | nil => exact .done
  | cons l ls ih =>
    obtain ⟨⟨kind, hl⟩, hls⟩ := List.forall_mem_cons.mp h
    cases ls with
    | nil =>
      rw [List.map_singleton, List.intercalate_singleton, ← List.append_nil l.toList]
      exact .parted hl (by simp [Parted]) .done
    | cons l' ls =>
      rw [List.map_cons, List.map_cons, List.intercalate_cons_cons, List.append_assoc]
      have hblank : Blank ' ' := .inl rfl
      exact .parted hl (by simp [Parted, hblank]) (.gap (.blank hblank) (ih hls))

end Lexis

theorem Lexis.LaidOut.lexeme_of_mem {ls : List String} {text : List Char} (h : LaidOut ls text) :
    ∀ l ∈ ls, ∃ kind, Lexeme kind l.toList := by
  induction h with
  | done => simp
  | gap _ _ ih => exact ih
  | lexeme hlexeme _ _ _ ih => exact List.forall_mem_cons.mpr ⟨⟨_, hlexeme⟩, ih⟩

/-! ### Words -/

/-- A token without its place. -/
def Token.word (t : Token) : TokenKind × String × Option Literal :=
  (t.kind, t.lexeme, t.literal)

namespace Lexer

/-- The token whose text this is. -/
def wordOf (lexeme : String) : TokenKind × String × Option Literal :=
  match lexeme.toList with
  | [] => (.eof, lexeme, none)
  | c :: cs =>
    match (cut c cs).piece with
    | .token kind literal => (kind, lexeme, literal)
    | _ => (.eof, lexeme, none)

/-- A token can be told from its own text. -/
theorem Scans.word {start : Position} {cs : List Char} {items : List (Except Diagnostic Token)}
    (h : Scans start cs items) : ∀ t, .ok t ∈ items → t.word = wordOf t.lexeme := by
  induction h with
  | done start =>
    intro t ht
    cases List.mem_singleton.mp ht
    rfl
  | @piece start c cs items _ ih =>
    intro t ht
    rcases List.mem_append.mp ht with hmem | hmem
    · unfold Cut.items at hmem
      cases hpiece : (cut c cs).piece with
      | gap => rw [hpiece] at hmem; cases hmem
      | fault cause =>
        rw [hpiece] at hmem
        cases List.mem_singleton.mp hmem
      | token kind literal =>
        rw [hpiece] at hmem
        cases List.mem_singleton.mp hmem
        obtain ⟨hne, htext⟩ := cut_from c cs
        obtain ⟨d, tail, htaken⟩ := List.exists_cons_of_ne_nil hne
        obtain rfl : d = c := by
          rw [htaken] at htext
          exact (List.cons.inj htext).1
        have halone : cut d tail = (cut d cs).before [] :=
          cut_parted hpiece (by simp [Parted]) (by rw [List.append_nil, htaken])
        unfold Token.word wordOf
        rw [String.toList_ofList, htaken]
        simp only [halone, Cut.before, hpiece]
    · exact ih t hmem

end Lexer

theorem tokens_word (source : String) : ∀ t ∈ tokens source, t.word = Lexer.wordOf t.lexeme := by
  intro t ht
  obtain ⟨item, hitem, ht⟩ := List.mem_filterMap.mp ht
  cases item with
  | error d => cases ht
  | ok u =>
    cases ht
    exact (scan_scans source).word t hitem

/-- The texts of the tokens say what the tokens are. -/
theorem words_eq (source : String) : (tokens source).map Token.word =
    (lexemes (tokens source)).map Lexer.wordOf ++ [(.eof, "", none)] := by
  obtain ⟨line, htokens, _⟩ := tokens_last source
  have hfront := tokens_front source
  have hword := tokens_word source
  rw [htokens] at hword ⊢
  generalize (tokens source).dropLast = front at hfront hword
  have hlexemes : lexemes (front ++ [.endOfFile line]) = front.map Token.lexeme := by
    unfold lexemes
    rw [List.filter_append, List.filter_eq_self.mpr fun t ht => by simpa using (hfront t ht).1]
    exact congrArg (List.map Token.lexeme) (List.append_nil front)
  rw [hlexemes, List.map_append, List.map_map]
  refine congrArg (· ++ _) (List.map_congr_left fun t ht => ?_)
  exact hword t (List.mem_append_left _ ht)

/-- The tokens of a text, with single spaces between them. -/
def spaced (source : String) : String :=
  " ".intercalate (lexemes (tokens source))

end LoxLang

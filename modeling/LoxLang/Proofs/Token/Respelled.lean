import LoxLang.Proofs.Token.Partition

/-!
Texts in which other words have been written. Where one identifier is written instead of another, a text
without faults is cut into the same pieces as before: the tokens have the same kinds, in the same lines, and
only the words that were replaced have other texts.
-/

namespace LoxLang

open Lexis (Lexeme Initial Digit)

/-! ### The order of places -/

namespace Position

/-- The first place is left of the second one in its line or in a line above it. -/
def Before (p q : Position) : Prop :=
  p.line < q.line ∨ p.line = q.line ∧ p.column < q.column

instance (p q : Position) : Decidable (p.Before q) :=
  inferInstanceAs (Decidable (_ ∨ _))

variable {p q r : Position}

theorem Before.irrefl (p : Position) : ¬p.Before p := by
  unfold Before
  omega

theorem Before.trans (h : p.Before q) (h' : q.Before r) : p.Before r := by
  unfold Before at *
  omega

theorem Before.not_flip (h : p.Before q) : ¬q.Before p := by
  unfold Before at *
  omega

theorem Before.of_not (h : p.Before q) (h' : ¬r.Before q) : p.Before r := by
  unfold Before at *
  omega

theorem before_next (p : Position) (c : Char) : p.Before (p.next c) := by
  unfold Before Position.next
  split
  · exact .inl (Nat.lt_succ_self _)
  · exact .inr ⟨rfl, Nat.lt_succ_self _⟩

theorem before_advance (p : Position) {cs : List Char} (h : cs ≠ []) : p.Before (p.advance cs) := by
  induction cs generalizing p with
  | nil => exact absurd rfl h
  | cons c cs ih =>
    cases cs with
    | nil => exact before_next p c
    | cons d cs => exact (before_next p c).trans (ih (p.next c) (by simp))

theorem advance_run (p : Position) {cs : List Char} (h : '\n' ∉ cs) :
    p.advance cs = ⟨p.line, p.column + cs.length⟩ := by
  induction cs generalizing p with
  | nil => rfl
  | cons c cs ih =>
    obtain ⟨hc, hcs⟩ := not_or.mp (mt List.mem_cons.mpr h)
    have hnext : p.next c = ⟨p.line, p.column + 1⟩ := if_neg (Ne.symm hc)
    refine (ih (p.next c) hcs).trans ?_
    rw [hnext, List.length_cons, Nat.add_assoc, Nat.add_comm 1]

/-- A place in the same line, and at its beginning if the other one is there. -/
structure Row (p q : Position) : Prop where
  line : q.line = p.line
  first : p.column = 0 → q.column = 0

theorem Row.refl (p : Position) : p.Row p :=
  ⟨rfl, id⟩

theorem Row.next (h : p.Row q) (c : Char) : (p.next c).Row (q.next c) := by
  unfold Position.next
  split
  · exact ⟨congrArg (· + 1) h.line, id⟩
  · exact ⟨h.line, fun h => absurd h (Nat.succ_ne_zero _)⟩

theorem Row.advance (h : p.Row q) (cs : List Char) : (p.advance cs).Row (q.advance cs) := by
  induction cs generalizing p q with
  | nil => exact h
  | cons c cs ih => exact ih (h.next c)

theorem Row.replace (h : p.Row q) {a b : List Char} (ha : '\n' ∉ a) (hb : '\n' ∉ b) (hne : a ≠ []) :
    (p.advance a).Row (q.advance b) := by
  have hlength := List.length_pos_of_ne_nil hne
  rw [advance_run p ha, advance_run q hb]
  exact ⟨h.line, fun hzero => absurd hzero (by dsimp only; omega)⟩

theorem Row.margin {line : Nat} (h : Row ⟨line, 0⟩ q) : q = ⟨line, 0⟩ := by
  obtain ⟨l, k⟩ := q
  obtain rfl : l = line := h.line
  obtain rfl : k = 0 := h.first rfl
  rfl

end Position

namespace Lexer

/-! ### Writing other words -/

/-- The text that stands at a place, with another word instead of those that begin at some places. If the text
begins inside such a word, the rest of that is left out. -/
def respell (word : List Char) (begins : Position → Bool) : Position → Bool → List Char → List Char
  | _, _, [] => []
  | p, inside, c :: cs =>
    if begins p then word ++ respell word begins (p.next c) true cs
    else if inside && isWordChar c then respell word begins (p.next c) true cs
    else c :: respell word begins (p.next c) false cs

section Respelling

variable {word : List Char} {begins : Position → Bool} {p : Position} {taken rest : List Char}

/-- No word begins behind a place and in front of another one. -/
def Untouched (begins : Position → Bool) (p q : Position) : Prop :=
  ∀ r, p.Before r → r.Before q → begins r = false

theorem Untouched.tail {c : Char} (h : Untouched begins p (p.advance (c :: taken))) :
    Untouched begins (p.next c) ((p.next c).advance taken) :=
  fun r hr hr' => h r ((Position.before_next p c).trans hr) hr'

theorem Untouched.head {c : Char} (h : Untouched begins p (p.advance (c :: taken))) (hne : taken ≠ []) :
    begins (p.next c) = false :=
  h _ (Position.before_next p c) (Position.before_advance (p.next c) hne)

/-- A piece in which no word begins. -/
theorem respell_kept (hp : begins p = false) (h : Untouched begins p (p.advance taken)) :
    respell word begins p false (taken ++ rest) =
      taken ++ respell word begins (p.advance taken) false rest := by
  induction taken generalizing p with
  | nil => rfl
  | cons c taken ih =>
    have hstep : respell word begins p false (c :: (taken ++ rest)) =
        c :: respell word begins (p.next c) false (taken ++ rest) := by
      simp [respell, hp]
    rw [List.cons_append, hstep]
    refine congrArg (c :: ·) ?_
    cases taken with
    | nil => rfl
    | cons d taken => exact ih (h.head (by simp)) h.tail

theorem respell_inside (hp : taken ≠ [] → begins p = false) (hword : ∀ c ∈ taken, isWordChar c = true)
    (h : Untouched begins p (p.advance taken)) :
    respell word begins p true (taken ++ rest) = respell word begins (p.advance taken) true rest := by
  induction taken generalizing p with
  | nil => rfl
  | cons c taken ih =>
    obtain ⟨hc, hword⟩ := List.forall_mem_cons.mp hword
    have hstep : respell word begins p true (c :: (taken ++ rest)) =
        respell word begins (p.next c) true (taken ++ rest) := by
      simp [respell, hp, hc]
    rw [List.cons_append, hstep]
    exact ih h.head hword h.tail

theorem respell_behind (h : Begins isWordChar rest = false) :
    respell word begins p true rest = respell word begins p false rest := by
  cases rest with
  | nil => rfl
  | cons c rest =>
    have hc : isWordChar c = false := h
    simp [respell, hc]

/-- A word that is replaced. -/
theorem respell_word {c : Char} (hp : begins p = true) (hword : ∀ d ∈ taken, isWordChar d = true)
    (h : Untouched begins p (p.advance (c :: taken))) (hrest : Begins isWordChar rest = false) :
    respell word begins p false (c :: taken ++ rest) =
      word ++ respell word begins (p.advance (c :: taken)) false rest := by
  have hstep : respell word begins p false (c :: (taken ++ rest)) =
      word ++ respell word begins (p.next c) true (taken ++ rest) := by
    simp [respell, hp]
  rw [List.cons_append, hstep, respell_inside h.head hword h.tail, respell_behind hrest]
  rfl

end Respelling

/-! ### Words -/

theorem cut_initial {c : Char} (hc : Initial c) (cs : List Char) : cut c cs = cutWord (c :: cs) := by
  have hword : isWordChar c = true := (isWordChar_iff c).mpr (.inl hc)
  have hdigit : ¬c.isDigit = true := fun h => Lexis.not_digit_of_initial hc ((isDigit_iff c).mp h)
  have hblank : ¬(c == ' ' || c == '\r' || c == '\t' || c == '\n') = true := by
    simp only [Bool.or_eq_true, beq_iff_eq]
    rintro (((rfl | rfl) | rfl) | rfl) <;> exact absurd hc (by decide)
  have hquote : ¬(c == '"' || c == '\'') = true := by
    simpa [Lexis.Quote] using Lexis.not_quote_of_initial hc
  unfold cut
  rw [if_neg hblank, if_neg hquote, if_neg hdigit, if_pos hword]

/-- The shape of an identifier. -/
theorem identifier_shape {word : List Char} (h : Lexeme .identifier word) : ∃ c rest, word = c :: rest ∧
    Initial c ∧ (∀ d ∈ rest, isWordChar d = true) ∧ TokenKind.ofWord (String.ofList word) = .identifier := by
  cases h with
  | punctuation h => exact absurd h (by simp [Lexis.punctuation])
  | keyword h => exact absurd h (by simp [Lexis.keywords])
  | @identifier first rest hfirst hrest hkeyword =>
    refine ⟨first, rest, rfl, hfirst, fun d hd => (isWordChar_iff d).mpr (hrest d hd), ?_⟩
    rcases ofWord_keyword (String.ofList (first :: rest)) with hkey | ⟨hkind, _⟩
    · exact absurd hkey (hkeyword _)
    · exact hkind

theorem oneLine_word {c : Char} {word : List Char} (hc : Initial c)
    (hword : ∀ d ∈ word, isWordChar d = true) : '\n' ∉ c :: word := by
  rintro (_ | ⟨_, hmem⟩)
  · exact absurd hc (by decide)
  · exact absurd (hword _ hmem) (by decide)

/-- An identifier in front of something else is a token. -/
theorem cut_identifier {c : Char} {word rest : List Char} (h : Lexeme .identifier (c :: word))
    (hrest : Begins isWordChar rest = false) :
    cut c (word ++ rest) = ⟨.token .identifier none, c :: word, rest⟩ := by
  obtain ⟨_, _, heq, hc, hword, hkind⟩ := identifier_shape h
  obtain ⟨rfl, rfl⟩ := List.cons.inj heq
  obtain ⟨hrun, hbehind⟩ := takeWhile_run (a := c :: word)
    (List.forall_mem_cons.mpr ⟨(isWordChar_iff c).mpr (.inl hc), hword⟩) hrest
  rw [cut_initial hc, cutWord, ← List.cons_append, hrun, hbehind]
  rw [hkind]

/-! ### Places of tokens -/

variable {start : Position} {c : Char} {cs : List Char} {items : List (Except Diagnostic Token)}

theorem cut_stop (start : Position) (c : Char) (cs : List Char) :
    start.Before (start.advance (cut c cs).taken) :=
  Position.before_advance start (cut_from c cs).nonempty

theorem mem_items {x : Cut} {t : Token} (h : .ok t ∈ x.items start) : ∃ literal,
    x.piece = .token t.kind literal ∧
      t = ⟨t.kind, String.ofList x.taken, literal, ⟨start, start.advance x.taken⟩⟩ := by
  unfold Cut.items at h
  cases hpiece : x.piece with
  | gap => simp [hpiece] at h
  | fault cause => simp [hpiece] at h
  | token kind literal =>
    simp only [hpiece, List.mem_singleton, Except.ok.injEq] at h
    subst h
    exact ⟨literal, rfl, rfl⟩

/-- No token of a text begins or ends in front of the text, except that the end of the file has a place of
its own. -/
theorem Scans.behind (h : Scans start cs items) : ∀ t, .ok t ∈ items → (∃ line, t = .endOfFile line) ∨
    ¬t.span.start.Before start ∧ ¬t.span.stop.Before start := by
  induction h with
  | done start =>
    intro t ht
    obtain rfl : t = .endOfFile start.line := by simpa using ht
    exact .inl ⟨_, rfl⟩
  | @piece start c cs items _ ih =>
    intro t ht
    have hstop := cut_stop start c cs
    rcases List.mem_append.mp ht with ht | ht
    · obtain ⟨_, _, ht⟩ := mem_items ht
      rw [ht]
      exact .inr ⟨Position.Before.irrefl start, hstop.not_flip⟩
    · refine (ih t ht).imp id fun ⟨hstart, hend⟩ => ⟨?_, ?_⟩
      · exact fun hbefore => hstart (hbefore.trans hstop)
      · exact fun hbefore => hend (hbefore.trans hstop)

theorem Scans.identifier_behind (h : Scans start cs items) {t : Token} (ht : .ok t ∈ items)
    (hkind : t.kind = .identifier) : ¬t.position.Before start := by
  rcases h.behind t ht with ⟨line, rfl⟩ | ⟨hstart, _⟩
  · cases hkind
  · exact hstart

theorem Scans.identifier_nonempty (h : Scans start cs items) {t : Token} (ht : .ok t ∈ items)
    (hkind : t.kind = .identifier) : t.lexeme ≠ "" := by
  induction h with
  | done start =>
    obtain rfl : t = .endOfFile start.line := by simpa using ht
    cases hkind
  | @piece start c cs items _ ih =>
    rcases List.mem_append.mp ht with ht | ht
    · obtain ⟨_, _, heq⟩ := mem_items ht
      rw [heq]
      exact fun hempty => (cut_from c cs).nonempty (String.ofList_eq_empty_iff.mp hempty)
    · exact ih ht

/-- Identifiers stand one behind the other. -/
theorem Scans.ordered (h : Scans start cs items) :
    ((items.filterMap token?).filter (·.kind = .identifier)).Pairwise fun t u =>
      t.position.Before u.position := by
  induction h with
  | done start => exact List.pairwise_singleton _ _ |>.filter _
  | @piece start c cs items h ih =>
    rw [List.filterMap_append, List.filter_append]
    refine List.pairwise_append.mpr ⟨?_, ih, fun t ht u hu => ?_⟩
    · refine List.Pairwise.filter _ ?_
      unfold Cut.items
      cases (cut c cs).piece with
      | gap => exact .nil
      | token kind literal => exact List.pairwise_singleton _ _
      | fault cause => exact .nil
    · obtain ⟨ht, _⟩ := List.mem_filter.mp ht
      obtain ⟨item, hitem, htoken⟩ := List.mem_filterMap.mp ht
      obtain ⟨hu, hkind⟩ := List.mem_filter.mp hu
      obtain ⟨item', hitem', htoken'⟩ := List.mem_filterMap.mp hu
      cases item with
      | error d => cases htoken
      | ok t' =>
        cases item' with
        | error d => cases htoken'
        | ok u' =>
          cases htoken
          cases htoken'
          obtain ⟨_, _, heq⟩ := mem_items hitem
          have hposition : t.position = start := congrArg Token.position heq
          rw [hposition]
          exact (cut_stop start c cs).of_not (h.identifier_behind hitem' (by simpa using hkind))

/-! ### Scanning the new text -/

/-- Wherever a word is replaced that does not stand in front of `start`, an identifier begins that is written
`old`. -/
def Replaces (begins : Position → Bool) (old : String) (start : Position)
    (items : List (Except Diagnostic Token)) : Prop :=
  ∀ p, ¬p.Before start → begins p = true →
    ∃ t, .ok t ∈ items ∧ t.kind = .identifier ∧ t.position = p ∧ t.lexeme = old

/-- What is written at a place instead of a word. -/
def spelling (begins : Position → Bool) (old new : String) (p : Position) (x : String) : String :=
  if begins p = true ∧ x = old then new else x

section Replacing

variable {begins : Position → Bool} {old : String}

theorem Replaces.next (hbegins : Replaces begins old start ((cut c cs).items start ++ items)) :
    Replaces begins old (start.advance (cut c cs).taken) items := by
  intro p hp hbegin
  have hstop := cut_stop start c cs
  obtain ⟨t, ht, hkind, rfl, hold⟩ := hbegins p (fun h => hp (h.trans hstop)) hbegin
  rcases List.mem_append.mp ht with ht | ht
  · obtain ⟨_, _, heq⟩ := mem_items ht
    have hposition : t.position = start := congrArg Token.position heq
    exact absurd (hposition ▸ hstop) hp
  · exact ⟨t, ht, hkind, rfl, hold⟩

theorem Replaces.untouched (hbegins : Replaces begins old start ((cut c cs).items start ++ items))
    (h : Scans (start.advance (cut c cs).taken) (cut c cs).rest items) :
    Untouched begins start (start.advance (cut c cs).taken) := by
  intro p hp hp'
  by_contra hbegin
  obtain ⟨t, ht, hkind, rfl, _⟩ := hbegins p hp.not_flip (Bool.of_not_eq_false hbegin)
  rcases List.mem_append.mp ht with ht | ht
  · obtain ⟨_, _, heq⟩ := mem_items ht
    have hposition : t.position = start := congrArg Token.position heq
    exact Position.Before.irrefl start (hposition ▸ hp)
  · exact h.identifier_behind ht hkind hp'

/-- A word that is replaced is a piece of the text. -/
theorem Replaces.piece (hbegins : Replaces begins old start ((cut c cs).items start ++ items))
    (h : Scans (start.advance (cut c cs).taken) (cut c cs).rest items) (hp : begins start = true) :
    ∃ word, (cut c cs).piece = .token .identifier none ∧ (cut c cs).taken = c :: word ∧
      String.ofList (c :: word) = old ∧ Initial c ∧ (∀ d ∈ word, isWordChar d = true) ∧
        Begins isWordChar (cut c cs).rest = false := by
  obtain ⟨t, ht, hkind, hposition, hold⟩ := hbegins start (Position.Before.irrefl start) hp
  rcases List.mem_append.mp ht with ht | ht
  · obtain ⟨literal, hpiece, heq⟩ := mem_items ht
    have hright := cut_right c cs
    unfold Cut.Right at hright
    rw [hpiece, hkind] at hright
    obtain ⟨d, word, htaken, hd, hword, _⟩ := identifier_shape hright.1
    obtain rfl : d = c := by
      have htext := (cut_from c cs).text
      rw [htaken] at htext
      exact (List.cons.inj htext).1
    have hcut := cut_initial hd cs
    have hnone : literal = none := by
      rw [hcut, cutWord] at hpiece
      exact (Piece.token.inj hpiece).2.symm
    refine ⟨word, ?_, htaken, ?_, hd, hword, ?_⟩
    · rw [hpiece, hkind, hnone]
    · rw [← hold, ← htaken]
      exact (congrArg Token.lexeme heq).symm
    · rw [hcut]
      exact begins_dropWhile _ _
  · refine absurd ?_ (h.identifier_behind ht hkind)
    rw [hposition]
    exact cut_stop start c cs

/-- No piece can tell the characters apart that identifiers begin with. -/
theorem tests_initial {c d : Char} (hc : Initial c) (hd : Initial d) : ∀ p ∈ tests, p c = p d := by
  have hsame : ∀ c, Initial c → tests.map (· c) = [true, false, false, false, false, false, true] := by
    intro c hc
    have hword : isWordChar c = true := (isWordChar_iff c).mpr (.inl hc)
    have hdigit : c.isDigit = false :=
      Bool.eq_false_iff.mpr fun h => Lexis.not_digit_of_initial hc ((isDigit_iff c).mp h)
    have hne : ∀ d, ¬Initial d → c ≠ d := by
      rintro d hd rfl
      exact hd hc
    simp [tests, hword, hdigit, hne '=' (by decide), hne '.' (by decide), hne '/' (by decide),
      hne '*' (by decide), hne '\n' (by decide)]
  intro p hp
  exact List.map_inj_left.mp ((hsame c hc).trans (hsame d hd).symm) p hp

theorem firstAlike_respell {word : List Char} (hword : Lexeme .identifier word) {p : Position}
    {text : List Char} (h : Scans p text items) (hbegins : Replaces begins old p items) :
    FirstAlike text (respell word begins p false text) := by
  cases h with
  | done => exact fun _ _ => rfl
  | @piece _ c cs items h =>
    cases hp : begins p with
    | false =>
      intro q _
      simp [respell, hp, Begins]
    | true =>
      obtain ⟨d, tail, rfl, hd, _⟩ := identifier_shape hword
      obtain ⟨_, _, _, _, hc, _⟩ := hbegins.piece h hp
      have hhead : respell (d :: tail) begins p false (c :: cs) =
          d :: (tail ++ respell (d :: tail) begins (p.next c) true cs) := by
        simp [respell, hp]
      rw [hhead]
      exact tests_initial hc hd

/-- No piece can tell that a word is replaced behind it. -/
theorem interchangeable_respell {word : List Char} (hword : Lexeme .identifier word) {p : Position}
    {text : List Char} (h : Scans p text items) (hbegins : Replaces begins old p items) :
    Interchangeable text (respell word begins p false text) := by
  refine ⟨firstAlike_respell hword h hbegins, ?_⟩
  rintro tail tail' rfl htail
  cases h with
  | @piece _ _ _ items h =>
    cases hp : begins p with
    | true =>
      obtain ⟨_, _, _, _, hc, _⟩ := hbegins.piece h hp
      exact absurd hc (by decide)
    | false =>
      have hpoint : cut '.' tail = ⟨.token .dot none, ['.'], tail⟩ :=
        cutPunctuation_single (c := '.') (.inl rfl)
      have hnext := hbegins.next
      rw [hpoint] at h hnext
      have hbehind : tail' = respell word begins (p.next '.') false tail := by
        simpa [respell, hp] using htail.symm
      exact hbehind ▸ firstAlike_respell hword h hnext

end Replacing

/-- The places of tokens when one that begins at `start` is put at `start'`, and those from `stop` on are put
elsewhere as well. -/
def stitch (start start' stop : Position) (place : Position → Position) (p : Position) : Position :=
  if p.Before stop then if p = start then start' else p else place p

section Stitch

variable {start' stop : Position} {place : Position → Position}

theorem stitch_row (hrow : start.Row start') (hplace : ∀ p : Position, p.Row (place p)) (p : Position) :
    p.Row (stitch start start' stop place p) := by
  unfold stitch
  split
  · split
    case isTrue heq => exact heq ▸ hrow
    case isFalse => exact .refl p
  · exact hplace p

theorem stitch_start (h : start.Before stop) : stitch start start' stop place start = start' := by
  rw [stitch, if_pos h, if_pos rfl]

theorem stitch_behind {p : Position} (h : ¬p.Before stop) : stitch start start' stop place p = place p :=
  if_neg h

/-- The places of the tokens behind do not depend on where the one in front of them is put. -/
theorem stitch_items (hrow : start.Row start') (hplace : ∀ p : Position, p.Row (place p))
    (h : Scans stop cs items) (spell : Position → String → String) :
    items.map (Except.map (Move.token ⟨0, stitch start start' stop place, spell⟩)) =
      items.map (Except.map (Move.token ⟨0, place, spell⟩)) := by
  refine List.map_congr_left fun item hitem => ?_
  cases item with
  | error d => rfl
  | ok t =>
    have hplaces : stitch start start' stop place t.span.start = place t.span.start ∧
        stitch start start' stop place t.span.stop = place t.span.stop := by
      rcases h.behind t hitem with ⟨line, rfl⟩ | ⟨hstart, hstop⟩
      · have hmargin : stitch start start' stop place ⟨line, 0⟩ = place ⟨line, 0⟩ :=
          (stitch_row hrow hplace _).margin.trans (hplace _).margin.symm
        exact ⟨hmargin, hmargin⟩
      · exact ⟨stitch_behind hstart, stitch_behind hstop⟩
    simp only [Except.map, Move.token, Token.placed, hplaces.1, hplaces.2]

end Stitch

/-- A piece that is written otherwise, in front of a text that is. -/
theorem Scans.stitched {x : Cut} {c' : Char} {cs' : List Char} {start' : Position}
    {place : Position → Position} {spell : Position → String → String}
    (hx : start.Before (start.advance x.taken)) (h : Scans (start.advance x.taken) cs items)
    (hrow : start.Row start') (hplace : ∀ p : Position, p.Row (place p))
    (hstop : place (start.advance x.taken) = start'.advance (cut c' cs').taken)
    (hscans : Scans (start'.advance (cut c' cs').taken) (cut c' cs').rest
      (items.map (Except.map (Move.token ⟨0, place, spell⟩))))
    (hpiece : (cut c' cs').piece = x.piece)
    (hclean : ∀ cause, x.piece ≠ .fault cause)
    (hspell : ∀ kind literal, x.piece = .token kind literal →
      String.ofList (cut c' cs').taken = spell start (String.ofList x.taken)) :
    ∃ place : Position → Position, (∀ p : Position, p.Row (place p)) ∧ place start = start' ∧
      Scans start' (c' :: cs') ((x.items start ++ items).map (Except.map (Move.token ⟨0, place, spell⟩))) := by
  let stop := start.advance x.taken
  refine ⟨stitch start start' stop place, stitch_row hrow hplace, stitch_start hx, ?_⟩
  rw [List.map_append, stitch_items hrow hplace h]
  have hitems : (x.items start).map
      (Except.map (Move.token ⟨0, stitch start start' stop place, spell⟩)) = (cut c' cs').items start' := by
    unfold Cut.items
    rw [hpiece]
    cases hx' : x.piece with
    | gap => rfl
    | fault cause => exact absurd hx' (hclean cause)
    | token kind literal =>
      have hstart' : stitch start start' stop place start = start' := stitch_start hx
      have hstop' : stitch start start' stop place stop = start'.advance (cut c' cs').taken :=
        (stitch_behind (Position.Before.irrefl stop)).trans hstop
      simp only [List.map_cons, List.map_nil, Except.map, Move.token, Token.placed, Token.position,
        hspell kind literal hx']
      rw [hstart', hstop']
  rw [hitems]
  exact .piece hscans

/-- A text without faults in which an identifier is written instead of another one, wherever that is. -/
theorem Scans.respelled {begins : Position → Bool} {old new : String} (hold : old ≠ "")
    (hnew : Lexeme .identifier new.toList) (h : Scans start cs items) (hclean : ∀ d, .error d ∉ items)
    (hbegins : Replaces begins old start items) {start' : Position} (hrow : start.Row start') :
    ∃ place : Position → Position, (∀ p : Position, p.Row (place p)) ∧ place start = start' ∧
      Scans start' (respell new.toList begins start false cs)
        (items.map (Except.map (Move.token ⟨0, place, spelling begins old new⟩))) := by
  induction h generalizing start' with
  | done start =>
    let place : Position → Position := fun p => if p = start then start' else p
    have hplace : ∀ p : Position, p.Row (place p) := by
      intro p
      dsimp only [place]
      split
      case isTrue heq => exact heq ▸ hrow
      case isFalse => exact .refl p
    refine ⟨place, hplace, if_pos rfl, ?_⟩
    have hend : Move.token ⟨0, place, spelling begins old new⟩ (.endOfFile start.line) =
        .endOfFile start'.line := by
      have hspell : spelling begins old new ⟨start.line, 0⟩ "" = "" := if_neg fun h => hold h.2.symm
      have hmargin : place ⟨start.line, 0⟩ = ⟨start.line, 0⟩ := (hplace _).margin
      simp only [Move.token, Token.endOfFile, Token.placed, Token.position, hspell, hmargin, hrow.line]
    simp only [List.map_cons, List.map_nil, Except.map, hend]
    exact .done start'
  | @piece start c cs items h ih =>
    have hfrom := cut_from c cs
    have hfaultless : (cut c cs).Faultless := by
      intro cause hpiece
      refine hclean ⟨faultPosition start (start.advance (cut c cs).taken) cause, .lexical cause, none⟩ ?_
      exact List.mem_append_left items (by simp [Cut.items, hpiece])
    have hnext := hbegins.next
    have hrest := @ih (fun d hd => hclean d (List.mem_append_right _ hd)) hnext
    cases hp : begins start with
    | false =>
      obtain ⟨place, hplace, hstop, hscans⟩ := hrest (hrow.advance (cut c cs).taken)
      obtain ⟨d, taken, htaken⟩ := List.exists_cons_of_ne_nil hfrom.nonempty
      obtain rfl : d = c := by
        have htext := hfrom.text
        rw [htaken] at htext
        exact (List.cons.inj htext).1
      have hkept := @respell_kept new.toList begins start _ (cut d cs).rest hp (hbegins.untouched h)
      have hbehind := interchangeable_respell hnew h hnext
      rw [hfrom.text] at hkept
      rw [hkept]
      generalize respell new.toList begins _ false (cut d cs).rest = behind at hbehind hscans ⊢
      have hcut : cut d (taken ++ behind) = (cut d cs).before behind :=
        cut_before hfaultless hbehind (congrArg (· ++ behind) htaken).symm
      rw [htaken, List.cons_append]
      refine Scans.stitched (cut_stop start d cs) h hrow hplace ?_ ?_ ?_ hfaultless ?_
      · rw [hcut]
        exact hstop
      · rw [hcut]
        exact hscans
      · rw [hcut]
        rfl
      · intro kind literal _
        rw [hcut]
        refine (if_neg fun h => ?_).symm
        rw [hp] at h
        cases h.1
    | true =>
      obtain ⟨word, hpiece, htaken, hword, hc, hletters, hended⟩ := hbegins.piece h hp
      obtain ⟨d, tail, hnew', hd, htail, _⟩ := identifier_shape hnew
      have hstop : (start.advance (cut c cs).taken).Row (start'.advance (d :: tail)) := by
        rw [htaken]
        exact hrow.replace (oneLine_word hc hletters) (oneLine_word hd htail) (by simp)
      obtain ⟨place, hplace, hstop, hscans⟩ := hrest hstop
      have hkept := @respell_word new.toList begins start word (cut c cs).rest c hp hletters
        (htaken ▸ hbegins.untouched h) hended
      have hbehind := interchangeable_respell hnew h hnext
      rw [← htaken, hfrom.text] at hkept
      rw [hkept]
      generalize respell new.toList begins _ false (cut c cs).rest = behind at hbehind hscans ⊢
      have hcut : cut d (tail ++ behind) = ⟨.token .identifier none, d :: tail, behind⟩ :=
        cut_identifier (hnew' ▸ hnew) ((hbehind.first isWordChar (by simp [tests])).symm.trans hended)
      rw [hnew', List.cons_append]
      refine Scans.stitched (cut_stop start c cs) h hrow hplace ?_ ?_ ?_ hfaultless ?_
      · rw [hcut]
        exact hstop
      · rw [hcut]
        exact hscans
      · rw [hcut, hpiece]
      · intro kind literal _
        rw [hcut, htaken, spelling, if_pos ⟨hp, hword⟩, ← hnew', String.ofList_toList]

end Lexer

/-- A text with another word instead of those that begin at some places. -/
def respelled (source : String) (begins : Position → Bool) (new : String) : String :=
  String.ofList (Lexer.respell new.toList begins .start false source.toList)

/-- The tokens of a text without faults in which an identifier is written instead of another one, wherever
that is. They stand in the lines where they stood before. -/
theorem tokens_respelled {source : String} {begins : Position → Bool} {old new : String}
    (hclean : lexicalFaults source = []) (hold : old ≠ "") (hnew : Lexeme .identifier new.toList)
    (hbegins : ∀ p, begins p = true →
      ∃ t ∈ tokens source, t.kind = .identifier ∧ t.position = p ∧ t.lexeme = old) :
    ∃ place : Position → Position, (∀ p : Position, p.Row (place p)) ∧
      tokens (respelled source begins new) =
        (tokens source).map (Move.token ⟨0, place, Lexer.spelling begins old new⟩) ∧
      lexicalFaults (respelled source begins new) = [] := by
  have hitems : ∀ d, .error d ∉ (scan source).toList := by
    intro d hd
    have hmem : d ∈ lexicalFaults source := List.mem_filterMap.mpr ⟨_, hd, rfl⟩
    rw [hclean] at hmem
    cases hmem
  have hreplaces : Lexer.Replaces begins old .start (scan source).toList := by
    intro p _ hp
    obtain ⟨t, ht, hkind, hposition, hword⟩ := hbegins p hp
    obtain ⟨item, hitem, htoken⟩ := List.mem_filterMap.mp ht
    cases item with
    | error d => cases htoken
    | ok u =>
      cases htoken
      exact ⟨t, hitem, hkind, hposition, hword⟩
  obtain ⟨place, hplace, _, hscans⟩ :=
    (scan_scans source).respelled hold hnew hitems hreplaces (Position.Row.refl .start)
  have hscan : (scan (respelled source begins new)).toList = _ :=
    (scan_scans _).unique (by rw [respelled, String.toList_ofList]; exact hscans)
  refine ⟨place, hplace, ?_, ?_⟩
  · unfold tokens
    rw [hscan, List.filterMap_map, List.map_filterMap]
    refine congrArg (List.filterMap · _) (funext fun item => ?_)
    cases item <;> rfl
  · unfold lexicalFaults at hclean ⊢
    rw [hscan, List.filterMap_map]
    refine Eq.trans (congrArg (List.filterMap · _) (funext fun item => ?_)) hclean
    cases item <;> rfl

theorem identifiers_nonempty (source : String) :
    ∀ t ∈ tokens source, t.kind = .identifier → t.lexeme ≠ "" := by
  intro t ht hkind
  obtain ⟨item, hitem, htoken⟩ := List.mem_filterMap.mp ht
  cases item with
  | error d => cases htoken
  | ok u =>
    cases htoken
    exact (scan_scans source).identifier_nonempty hitem hkind

/-- No two identifiers of a text stand at one place. -/
theorem identifiers_ordered (source : String) :
    ((tokens source).filter (·.kind = .identifier)).Pairwise fun t u => t.position.Before u.position :=
  (scan_scans source).ordered

end LoxLang

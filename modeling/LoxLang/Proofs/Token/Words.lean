import LoxLang.Proofs.Syntax.Parsed
import LoxLang.Proofs.Token.Scans

/-!
The tokens of a text. Words that are keywords never come out of the lexer as identifiers, so every identifier
token spells a name that a variable can have; and nothing but the end of the file is the end of the file.
-/

namespace LoxLang

/-- The names that programs cannot use are keywords. -/
theorem plain_of_ofWord {word : String} (h : TokenKind.ofWord word = .identifier) : Plain word := by
  refine ⟨?_, ?_⟩
  · rintro rfl
    cases h
  · rintro rfl
    cases h

theorem ofWord_ne_eof (word : String) : TokenKind.ofWord word ≠ .eof := by
  unfold TokenKind.ofWord
  split <;> simp

namespace Lexer

/-- A token that stands in a text: not the end of the file, and if it is an identifier, it spells a name that
a variable can have. -/
def Cut.Spells (c : Cut) : Prop :=
  ∀ kind literal, c.piece = .token kind literal →
    kind ≠ .eof ∧ (kind = .identifier → Plain (String.ofList c.taken))

/-- A token of another kind than those two. -/
theorem spells_of_ne {c : Cut} (h : ∀ kind literal, c.piece = .token kind literal →
    kind ≠ .eof ∧ kind ≠ .identifier) : c.Spells :=
  fun kind literal hpiece =>
    ⟨(h kind literal hpiece).1, fun hkind => absurd hkind (h kind literal hpiece).2⟩

theorem cutNumber_spells (cs : List Char) : (cutNumber cs).Spells := by
  refine spells_of_ne fun kind literal h => ?_
  unfold cutNumber at h
  dsimp only at h
  split at h
  · split at h <;> cases h <;> decide
  · cases h
    decide

theorem cutString_spells (quote : Char) (cs : List Char) : (cutString quote cs).Spells := by
  refine spells_of_ne fun kind literal h => ?_
  unfold cutString at h
  dsimp only at h
  split at h
  · cases h
  · cases h
    decide

theorem cutWord_spells (cs : List Char) : (cutWord cs).Spells := by
  intro kind literal h
  simp only [cutWord, Piece.token.injEq] at h
  rw [← h.1]
  exact ⟨ofWord_ne_eof _, plain_of_ofWord⟩

theorem cutBlockComment_spells (cs : List Char) : (cutBlockComment cs).Spells := by
  intro kind literal h
  unfold cutBlockComment at h
  split at h <;> cases h

theorem single?_kind {c : Char} {kind : TokenKind} (h : single? c = some kind) :
    kind ≠ .eof ∧ kind ≠ .identifier := by
  unfold single? at h
  split at h <;> cases h <;> decide

theorem double?_kind {c : Char} {kind : TokenKind} (h : double? c = some kind) :
    kind ≠ .eof ∧ kind ≠ .identifier := by
  unfold double? at h
  split at h <;> cases h <;> decide

theorem cutPunctuation_spells (c : Char) (cs : List Char) : (cutPunctuation c cs).Spells := by
  refine spells_of_ne fun kind literal h => ?_
  unfold cutPunctuation at h
  split at h
  case h_1 hdouble =>
    simp only [Piece.token.injEq] at h
    exact double?_kind (h.1 ▸ hdouble)
  case h_2 =>
    split at h
    case h_1 hsingle =>
      simp only [Piece.token.injEq] at h
      exact single?_kind (h.1 ▸ hsingle)
    case h_2 => cases h

theorem cut_spells (c : Char) (cs : List Char) : (cut c cs).Spells := by
  unfold cut
  split
  · intro kind literal h
    cases h
  split
  · exact cutString_spells c cs
  split
  · exact cutNumber_spells (c :: cs)
  split
  · exact cutWord_spells (c :: cs)
  split
  · split
    · intro kind literal h
      cases h
    · exact cutBlockComment_spells _
    · exact cutPunctuation_spells c cs
  · exact cutPunctuation_spells c cs

theorem Scans.spells {start : Position} {cs : List Char} {items : List (Except Diagnostic Token)}
    (h : Scans start cs items) : ∀ t, .ok t ∈ items.dropLast →
      t.kind ≠ .eof ∧ (t.kind = .identifier → Plain t.lexeme) := by
  induction h with
  | done start =>
    intro t ht
    cases ht
  | @piece start c cs items h ih =>
    intro t ht
    have hne : items ≠ [] := by
      obtain ⟨front, line, rfl⟩ := h.last
      simp
    rw [List.dropLast_append_of_ne_nil hne] at ht
    rcases List.mem_append.mp ht with hmem | hmem
    · unfold Cut.items at hmem
      cases hpiece : (cut c cs).piece with
      | gap => rw [hpiece] at hmem; cases hmem
      | token kind literal =>
        rw [hpiece] at hmem
        cases List.mem_singleton.mp hmem
        exact cut_spells c cs kind literal hpiece
      | fault cause =>
        rw [hpiece] at hmem
        cases List.mem_singleton.mp hmem
    · exact ih t hmem

end Lexer

theorem tokens_front (source : String) : ∀ t ∈ (tokens source).dropLast,
    t.kind ≠ .eof ∧ (t.kind = .identifier → Plain t.lexeme) := by
  obtain ⟨line, _, hfront⟩ := tokens_last source
  rw [hfront]
  intro t ht
  obtain ⟨item, hitem, ht⟩ := List.mem_filterMap.mp ht
  cases item with
  | error d => cases ht
  | ok u =>
    cases ht
    exact (scan_scans source).spells t hitem

/-- The identifiers of a text are names of variables. -/
theorem tokens_words (source : String) : Words (tokens source) := by
  obtain ⟨line, htokens, _⟩ := tokens_last source
  intro t ht hkind
  rw [htokens] at ht
  rcases List.mem_append.mp ht with hmem | hmem
  · exact (tokens_front source t hmem).2 hkind
  · cases List.mem_singleton.mp hmem
    cases hkind

end LoxLang

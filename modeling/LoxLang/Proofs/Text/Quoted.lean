import LoxLang.Text.Quoted

/-!
Reading quoted strings. The first character says which quote ends the string; a backslash takes the next
character with it, so a quote that belongs to the string is never taken for its end.
-/

namespace LoxLang.Text

/-- The character that is written with a backslash and this one. -/
def escaped (c : Char) : Char :=
  if c = 'n' then '\n' else if c = 'r' then '\r' else if c = 't' then '\t' else c

/-- The characters in front of the quote that ends a string, and the text behind it. -/
def untilQuote (quote : Char) : List Char → Option (List Char × List Char)
  | [] => none
  | '\\' :: c :: text => (untilQuote quote text).map fun p => (escaped c :: p.1, p.2)
  | c :: text => if c = quote then some ([], text) else (untilQuote quote text).map fun p => (c :: p.1, p.2)

/-- The string that a text between quotes stands for. -/
def unquote (text : String) : Option String :=
  match text.toList with
  | [] => none
  | quote :: text => (untilQuote quote text).bind fun p => if p.2 = [] then some (String.ofList p.1) else none

theorem quoteOf_eq (cs : List Char) : quoteOf cs = '"' ∨ quoteOf cs = '\'' := by
  unfold quoteOf
  split
  · exact .inl rfl
  · exact .inr rfl

theorem toList_quoted (s : String) :
    (quoted s).toList =
      quoteOf s.toList :: (s.toList.flatMap (escape (quoteOf s.toList)) ++ [quoteOf s.toList]) :=
  String.toList_ofList

variable {quote : Char}

/-- A character that is not a backslash is read as it is. -/
theorem untilQuote_cons {c : Char} (hc : c ≠ '\\') (hquote : c ≠ quote) (text : List Char) :
    untilQuote quote (c :: text) = (untilQuote quote text).map fun p => (c :: p.1, p.2) := by
  rw [untilQuote, if_neg hquote]
  rintro _ _ rfl
  exact absurd rfl hc

/-- However a character is written, it is read back. -/
theorem untilQuote_escape (hquote : quote = '"' ∨ quote = '\'') (c : Char) (text : List Char) :
    untilQuote quote (escape quote c ++ text) = (untilQuote quote text).map fun p => (c :: p.1, p.2) := by
  unfold escape
  by_cases hbackslash : c = '\\'
  · subst hbackslash
    rfl
  by_cases hnewline : c = '\n'
  · subst hnewline
    rfl
  by_cases hreturn : c = '\r'
  · subst hreturn
    rfl
  by_cases htab : c = '\t'
  · subst htab
    rfl
  by_cases hend : c = quote
  · subst hend
    rcases hquote with rfl | rfl <;> rfl
  rw [if_neg hbackslash, if_neg hnewline, if_neg hreturn, if_neg htab, if_neg hend]
  exact untilQuote_cons hbackslash hend text

theorem untilQuote_flatMap_escape (hquote : quote = '"' ∨ quote = '\'') (cs text : List Char) :
    untilQuote quote (cs.flatMap (escape quote) ++ quote :: text) = some (cs, text) := by
  induction cs with
  | nil => rcases hquote with rfl | rfl <;> rfl
  | cons c cs ih => rw [List.flatMap_cons, List.append_assoc, untilQuote_escape hquote, ih, Option.map_some]

theorem unquote_quoted (s : String) : unquote (quoted s) = some s := by
  rw [unquote, toList_quoted]
  dsimp only
  rw [untilQuote_flatMap_escape (quoteOf_eq _), Option.bind_some, if_pos rfl, String.ofList_toList]

end LoxLang.Text

import LoxLang.Proofs.Text.Quoted
import LoxLang.Value.Text
import Mathlib.Data.List.Basic
import Mathlib.Data.Nat.Digits.Defs

/-!
Nested lists of simple values, and their texts. A text can be read from the front: the first character says
what kind of value stands there, and how the value goes on says where it ends. So a text stands for one list
at most, whatever its strings are made of.
-/

namespace LoxLang

/-- Nested lists of nil, truth values, integers and strings. -/
inductive Datum where
  | nil
  | bool (b : Bool)
  | int (n : Int64)
  | string (s : String)
  | list (items : List Datum)

namespace Datum

mutual

/-- The text of a list, between brackets and with commas between the items. -/
def text : Datum → String
  | nil => "nil"
  | bool b => Value.boolText b
  | int n => intText n.toInt
  | string s => Text.quoted s
  | list items => "[" ++ ", ".intercalate (texts items) ++ "]"

def texts : List Datum → List String
  | [] => []
  | d :: rest => d.text :: texts rest

end

theorem texts_eq_map (items : List Datum) : texts items = items.map text := by
  induction items with
  | nil => rfl
  | cons d rest ih => rw [texts, List.map_cons, ih]

/-- What holds of a list if it holds of its items, and of all simple values, holds of all. -/
@[elab_as_elim]
theorem induct {motive : Datum → Prop} (nil : motive nil) (bool : ∀ b, motive (bool b))
    (int : ∀ n, motive (int n)) (string : ∀ s, motive (string s))
    (list : ∀ items, (∀ d ∈ items, motive d) → motive (list items)) (d : Datum) : motive d :=
  Datum.rec (motive_2 := fun items => ∀ d ∈ items, motive d) nil bool int string list (List.forall_mem_nil _)
    (fun _ _ hd hrest => List.forall_mem_cons.mpr ⟨hd, hrest⟩) d

/-! ### Reading integers -/

/-- The integer in front of a text, and what is behind it. -/
def readInt : List Char → Int × List Char
  | '-' :: text => (-(Nat.ofDigitChars 10 (text.takeWhile Char.isDigit) 0 : Nat), text.dropWhile Char.isDigit)
  | text => ((Nat.ofDigitChars 10 (text.takeWhile Char.isDigit) 0 : Nat), text.dropWhile Char.isDigit)

/-- No digit is in front. -/
def Ends (text : List Char) : Prop :=
  ∀ c ∈ text.head?, c.isDigit = false

theorem natText_isDigit (n : Nat) : ∀ c ∈ (natText n).toList, c.isDigit = true := by
  intro c hc
  rw [natText, String.toList_ofList] at hc
  exact Nat.isDigit_of_mem_toDigits (by decide) (by decide) hc

theorem natText_toList (n : Nat) : ∃ c cs, (natText n).toList = c :: cs ∧ c.isDigit = true := by
  cases h : (natText n).toList with
  | nil => exact absurd (String.toList_ofList.symm.trans h) Nat.toDigits_ne_nil
  | cons c cs => exact ⟨c, cs, rfl, natText_isDigit n c (h ▸ List.mem_cons_self)⟩

theorem intText_toList (n : Int) : ∃ c cs, (intText n).toList = c :: cs ∧ (c = '-' ∨ c.isDigit = true) := by
  unfold intText
  split
  · exact ⟨'-', _, String.toList_append, .inl rfl⟩
  · obtain ⟨c, cs, hcs, hc⟩ := natText_toList n.natAbs
    exact ⟨c, cs, hcs, .inr hc⟩

theorem takeWhile_natText (n : Nat) {rest : List Char} (hrest : Ends rest) :
    ((natText n).toList ++ rest).takeWhile Char.isDigit = (natText n).toList ∧
      ((natText n).toList ++ rest).dropWhile Char.isDigit = rest := by
  rw [List.takeWhile_append_of_pos (natText_isDigit n), List.dropWhile_append_of_pos (natText_isDigit n)]
  cases rest with
  | nil => exact ⟨List.append_nil _, rfl⟩
  | cons c rest =>
    have hc : ¬c.isDigit = true := by
      rw [hrest c rfl]
      exact Bool.false_ne_true
    rw [List.takeWhile_cons_of_neg hc, List.dropWhile_cons_of_neg hc]
    exact ⟨List.append_nil _, rfl⟩

theorem ofDigitChars_natText (n : Nat) : Nat.ofDigitChars 10 (natText n).toList 0 = n := by
  rw [natText, String.toList_ofList, Nat.ofDigitChars_ten_toDigits]

theorem readInt_intText (n : Int) {rest : List Char} (hrest : Ends rest) :
    readInt ((intText n).toList ++ rest) = (n, rest) := by
  obtain ⟨htake, hdrop⟩ := takeWhile_natText n.natAbs hrest
  unfold intText
  split
  case isTrue hn =>
    rw [String.toList_append, List.append_assoc]
    change readInt ('-' :: ((natText n.natAbs).toList ++ rest)) = _
    rw [readInt, htake, hdrop, ofDigitChars_natText]
    exact congrArg (·, rest) (by omega)
  case isFalse hn =>
    obtain ⟨c, cs, hcs, hc⟩ := natText_toList n.natAbs
    have hminus : c ≠ '-' := by
      rintro rfl
      exact absurd hc (by decide)
    rw [hcs, List.cons_append] at htake hdrop ⊢
    rw [readInt, htake, hdrop, ← hcs, ofDigitChars_natText]
    · exact congrArg (·, rest) (by omega)
    · rintro _ ⟨⟩
      exact hminus rfl

/-! ### Reading lists -/

/-- The value in front of a text that does not begin with a bracket, and what is behind it. -/
def readSimple : List Char → Option (Datum × List Char)
  | [] => none
  | c :: text =>
    if c = '-' ∨ c.isDigit then
      let (n, text) := readInt (c :: text)
      some (int (Int64.ofInt n), text)
    else if c = 'n' then some (nil, text.drop 2)
    else if c = 'T' then some (bool true, text.drop 3)
    else if c = 'F' then some (bool false, text.drop 4)
    else (Text.untilQuote c text).map fun p => (string (String.ofList p.1), p.2)

mutual

/-- The value in front of a text, and what is behind it. -/
def read : Nat → List Char → Option (Datum × List Char)
  | 0, _ => none
  | _ + 1, '[' :: ']' :: text => some (list [], text)
  | n + 1, '[' :: text => (readItems n text).map fun p => (list p.1, p.2)
  | _ + 1, text => readSimple text

/-- The items up to a bracket, and what is behind it. -/
def readItems : Nat → List Char → Option (List Datum × List Char)
  | 0, _ => none
  | n + 1, text =>
    match read n text with
    | some (d, ']' :: text) => some ([d], text)
    | some (d, ',' :: ' ' :: text) => (readItems n text).map fun p => (d :: p.1, p.2)
    | _ => none

end

theorem read_simple {c : Char} (hc : c ≠ '[') (n : Nat) (text : List Char) :
    read (n + 1) (c :: text) = readSimple (c :: text) := by
  rw [read]
  · rintro _ ⟨⟩
    exact hc rfl
  · rintro _ ⟨⟩
    exact hc rfl

theorem quoted_toList (s : String) :
    ∃ quote cs, (Text.quoted s).toList = quote :: cs ∧ (quote = '"' ∨ quote = '\'') :=
  ⟨_, _, Text.toList_quoted s, Text.quoteOf_eq s.toList⟩

theorem toList_list (items : List Datum) :
    (list items).text.toList = '[' :: ((", ".intercalate (texts items)).toList ++ [']']) := by
  rw [text, String.toList_append, String.toList_append]
  rfl

theorem toList_items (d e : Datum) (rest : List Datum) : (", ".intercalate (texts (d :: e :: rest))).toList =
    d.text.toList ++ ',' :: ' ' :: (", ".intercalate (texts (e :: rest))).toList := by
  rw [texts, texts, String.intercalate_cons_cons, String.toList_append, String.toList_append,
    List.append_assoc]
  rfl

/-- No value begins like the end of a list. -/
theorem text_toList (d : Datum) : ∃ c cs, d.text.toList = c :: cs ∧ c ≠ ']' := by
  cases d with
  | nil => exact ⟨'n', _, rfl, by decide⟩
  | bool b => cases b <;> exact ⟨_, _, rfl, by decide⟩
  | int n =>
    obtain ⟨c, cs, hcs, hc⟩ := intText_toList n.toInt
    refine ⟨c, cs, hcs, ?_⟩
    rintro rfl
    exact absurd hc (by decide)
  | string s =>
    obtain ⟨quote, cs, hcs, hquote⟩ := quoted_toList s
    refine ⟨quote, cs, hcs, ?_⟩
    rintro rfl
    exact absurd hquote (by decide)
  | list items => exact ⟨'[', _, toList_list items, by decide⟩

theorem items_toList {items : List Datum} (hne : items ≠ []) :
    ∃ c cs, (", ".intercalate (texts items)).toList = c :: cs ∧ c ≠ ']' := by
  cases items with
  | nil => exact absurd rfl hne
  | cons d rest =>
    obtain ⟨c, cs, hcs, hc⟩ := text_toList d
    cases rest with
    | nil => exact ⟨c, cs, hcs, hc⟩
    | cons e rest => exact ⟨c, _, by rw [toList_items, hcs, List.cons_append], hc⟩

/-- With enough depth the value is read in front of all that does not lengthen it. -/
def Reads (d : Datum) : Prop :=
  ∀ n rest, d.text.toList.length ≤ n → Ends rest → read n (d.text.toList ++ rest) = some (d, rest)

theorem ends_bracket (rest : List Char) : Ends (']' :: rest) := by
  rintro _ ⟨⟩
  rfl

theorem ends_comma (rest : List Char) : Ends (',' :: rest) := by
  rintro _ ⟨⟩
  rfl

/-- A list is read item by item. -/
theorem readItems_texts {items : List Datum} (hitems : ∀ d ∈ items, d.Reads) (hne : items ≠ []) {n : Nat}
    (hn : (", ".intercalate (texts items)).toList.length < n) (rest : List Char) :
    readItems n ((", ".intercalate (texts items)).toList ++ ']' :: rest) = some (items, rest) := by
  induction items generalizing n with
  | nil => exact absurd rfl hne
  | cons d behind ih =>
    obtain ⟨n, rfl⟩ := Nat.exists_eq_add_one.mpr (Nat.zero_lt_of_lt hn)
    have ⟨hd, hbehind⟩ := List.forall_mem_cons.mp hitems
    cases behind with
    | nil =>
      rw [texts, texts, String.intercalate_singleton] at hn ⊢
      rw [readItems, hd n _ (Nat.le_of_lt_succ hn) (ends_bracket rest)]
      rfl
    | cons e behind =>
      rw [toList_items, List.length_append, List.length_cons, List.length_cons] at hn
      rw [toList_items, List.append_assoc, List.cons_append, List.cons_append, readItems,
        hd n _ (by omega) (ends_comma _)]
      change (readItems n _).map (fun p => (d :: p.1, p.2)) = _
      rw [ih hbehind (List.cons_ne_nil e behind) (by omega), Option.map_some]

theorem reads_int (n : Int64) : (int n).Reads := by
  intro depth rest hdepth hrest
  obtain ⟨c, cs, hcs, hc⟩ := intText_toList n.toInt
  have hread := readInt_intText n.toInt hrest
  have htext : (int n).text.toList = c :: cs := hcs
  have hbracket : c ≠ '[' := by
    rintro rfl
    exact absurd hc (by decide)
  rw [hcs] at hread
  rw [htext] at hdepth ⊢
  obtain ⟨depth, rfl⟩ := Nat.exists_eq_add_one.mpr (Nat.zero_lt_of_lt hdepth)
  rw [List.cons_append, read_simple hbracket, readSimple, if_pos hc]
  change some (int (Int64.ofInt (readInt (c :: cs ++ rest)).1), (readInt (c :: cs ++ rest)).2) = _
  rw [hread, Int64.ofInt_toInt]

theorem reads_string (s : String) : (string s).Reads := by
  intro depth rest hdepth _
  have htext : (string s).text.toList = _ := Text.toList_quoted s
  have hquote := Text.quoteOf_eq s.toList
  rw [htext] at hdepth ⊢
  obtain ⟨depth, rfl⟩ := Nat.exists_eq_add_one.mpr (Nat.zero_lt_of_lt hdepth)
  generalize Text.quoteOf s.toList = quote at hquote
  have hsimple (text : List Char) : read (depth + 1) (quote :: text) =
      (Text.untilQuote quote text).map fun p => (string (String.ofList p.1), p.2) := by
    rcases hquote with rfl | rfl <;> rfl
  rw [List.cons_append, hsimple, List.append_assoc, List.singleton_append,
    Text.untilQuote_flatMap_escape hquote, Option.map_some, String.ofList_toList]

/-- The text of a value is read back. -/
theorem reads (d : Datum) : d.Reads := by
  induction d using induct with
  | nil =>
    intro n rest hn _
    obtain ⟨n, rfl⟩ := Nat.exists_eq_add_one.mpr (Nat.zero_lt_of_lt hn)
    rfl
  | bool b =>
    intro n rest hn _
    cases b <;> obtain ⟨n, rfl⟩ := Nat.exists_eq_add_one.mpr (Nat.zero_lt_of_lt hn) <;> rfl
  | int n => exact reads_int n
  | string s => exact reads_string s
  | list items ih =>
    intro n rest hn _
    rw [toList_list] at hn ⊢
    rw [List.length_cons, List.length_append, List.length_singleton] at hn
    obtain ⟨n, rfl⟩ := Nat.exists_eq_add_one.mpr (Nat.zero_lt_of_lt hn)
    rw [List.cons_append, List.append_assoc, List.singleton_append]
    by_cases hitems : items = []
    · subst hitems
      rfl
    have hread := readItems_texts ih hitems (n := n) (by omega) rest
    -- No item begins with a bracket that closes, so this is not taken for the empty list.
    obtain ⟨c, cs, hcs, hc⟩ := items_toList hitems
    rw [hcs, List.cons_append] at hread ⊢
    rw [read, hread, Option.map_some]
    rintro _ ⟨⟩
    exact hc rfl

/-- The value that a text stands for. -/
def ofText? (text : String) : Option Datum :=
  (read text.toList.length text.toList).bind fun p => if p.2 = [] then some p.1 else none

theorem ofText?_text (d : Datum) : ofText? d.text = some d := by
  have hread := d.reads d.text.toList.length [] le_rfl fun _ h => nomatch h
  rw [List.append_nil] at hread
  rw [ofText?, hread, Option.bind_some, if_pos rfl]

theorem text_inj {d e : Datum} : d.text = e.text ↔ d = e := by
  refine ⟨fun htext => ?_, congrArg text⟩
  exact Option.some.inj (d.ofText?_text.symm.trans (htext ▸ e.ofText?_text))

end Datum

end LoxLang

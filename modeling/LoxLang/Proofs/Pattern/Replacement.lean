import Mathlib.Data.List.Basic
import LoxLang.Decimal.Reader
import LoxLang.Native.Search

/-!
What replacing means. What engines for regular expressions are documented to do with templates is said of any engine.
What a replacement means is said by itself: its parts, from left to right, are references to groups and characters that
stand for themselves. An engine that does what is documented expands the template that is made of a replacement to the
text of these parts, whatever the groups are and whichever of them have names.
-/

namespace LoxLang

/-! ### What is documented about engines -/

namespace Pattern

/-- What templates stand for: two dollar signs for one, a number in braces behind a dollar sign for the text of the
group, and text without dollar signs for itself. -/
structure Expands (group : Nat → List Char) (expand : List Char → List Char) : Prop where
  nothing : expand [] = []
  plain : ∀ {c : Char} (rest : List Char), c ≠ '$' → expand (c :: rest) = c :: expand rest
  dollar : ∀ rest : List Char, expand ('$' :: '$' :: rest) = '$' :: expand rest
  number : ∀ {digits : List Char} (rest : List Char), digits ≠ [] → (∀ c ∈ digits, c.isDigit = true) →
    expand ('$' :: '\x7b' :: (digits ++ '\x7d' :: rest)) = group (Decimal.digitsValue digits) ++ expand rest

/-- A text that begins at a place, and what becomes of it when matches in it are replaced: what stands between
them is copied. -/
inductive Replaced (f : Match → List Char) : Nat → List Match → List Char → List Char → Prop where
  | done {place : Nat} {rest : List Char} : Replaced f place [] rest rest
  | next {place : Nat} {m : Match} {ms : List Match} {before matched rest result : List Char} :
    m.extent.start = place + before.length → m.extent.stop = m.extent.start + matched.length →
      Replaced f m.extent.stop ms rest result →
        Replaced f place (m :: ms) (before ++ matched ++ rest) (before ++ f m ++ result)

/-- The pattern expands templates as documented in each of its matches, and puts what they stand for in the places of
its matches, which lie one behind the other. -/
structure Matcher.Documented (p : Matcher) : Prop where
  expands : ∀ text : Array Char, ∀ m ∈ p.all text, Expands (m.groupChars text) (p.expand text m)
  replaces : ∀ (text : Array Char) (template : List Char),
    Replaced (fun m => p.expand text m template) 0 (p.all text) text.toList (p.replaceAll text template)

/-- All patterns that the engine reads do as documented. -/
def Engine.Documented (regex : Engine) : Prop :=
  ∀ (source : String) (p : Matcher), regex.compile source = .ok p → p.Documented

section Replacing

variable {f g : Match → List Char} {text : Array Char} {place : Nat} {ms : List Match} {rest result : List Char}

theorem Replaced.congr (h : Replaced f place ms rest result) (hfg : ∀ m ∈ ms, f m = g m) :
    Replaced g place ms rest result := by
  induction h with
  | done => exact .done
  | next hstart hstop _ ih =>
    obtain ⟨hm, hms⟩ := List.forall_mem_cons.mp hfg
    rw [hm]
    exact .next hstart hstop (ih hms)

/-- Matches that are replaced by what they matched leave the text as it is. -/
theorem Replaced.same (h : Replaced f place ms rest result) (hrest : rest = text.toList.drop place)
    (hf : ∀ m ∈ ms, f m = m.groupChars text 0) : result = rest := by
  induction h with
  | done => rfl
  | @next place m ms before matched rest result hstart hstop _ ih =>
    obtain ⟨hm, hms⟩ := List.forall_mem_cons.mp hf
    have hbehind : text.toList.drop m.extent.start = matched ++ rest := by
      rw [hstart, ← List.drop_drop, ← hrest, List.append_assoc, List.drop_left]
    have hmatched : m.groupChars text 0 = matched := by
      change (text.extract m.extent.start m.extent.stop).toList = matched
      rw [Array.toList_extract, List.extract_eq_take_drop, hbehind, hstop, Nat.add_sub_cancel_left, List.take_left]
    have hresult : result = rest := by
      refine ih ?_ hms
      rw [hstop, ← List.drop_drop, hbehind, List.drop_left]
    rw [hm, hmatched, hresult]

end Replacing

end Pattern

namespace Native.Replacement

open Pattern (Expands)

/-! ### The parts of a replacement -/

/-- What a part of a replacement stands for. -/
inductive Part where
  | char (c : Char)
  | group (number : Nat)

/-- The text of a part, given the texts of the groups. -/
def Part.text (group : Nat → List Char) : Part → List Char
  | .char c => [c]
  | .group number => group number

/-- The parts of a replacement. A backslash takes all the digits behind it, and another backslash if that comes
next; everything else stands for itself. -/
inductive Reads : List Char → List Part → Prop where
  | done : Reads [] []
  | group {digits rest : List Char} {parts : List Part} : digits ≠ [] → (∀ c ∈ digits, c.isDigit = true) →
    (∀ c ∈ rest.head?, c.isDigit = false) → Reads rest parts →
      Reads ('\\' :: (digits ++ rest)) (.group (Decimal.digitsValue digits) :: parts)
  | backslash {rest : List Char} {parts : List Part} :
    Reads rest parts → Reads ('\\' :: '\\' :: rest) (.char '\\' :: parts)
  | char {c : Char} {rest : List Char} {parts : List Part} :
    (c = '\\' → ∀ d ∈ rest.head?, d.isDigit = false ∧ d ≠ '\\') → Reads rest parts →
      Reads (c :: rest) (.char c :: parts)

variable {cs digits rest : List Char} {parts parts' : List Part}

/-! ### Every replacement has its parts -/

theorem splitDigits_digits (hdigits : ∀ c ∈ digits, c.isDigit = true)
    (hrest : ∀ c ∈ rest.head?, c.isDigit = false) : splitDigits (digits ++ rest) = (digits, rest) := by
  unfold splitDigits
  rw [List.takeWhile_append_of_pos hdigits, List.dropWhile_append_of_pos hdigits]
  cases rest with
  | nil => simp
  | cons c rest =>
    have hc : ¬c.isDigit = true := by simp [hrest c rfl]
    rw [List.takeWhile_cons_of_neg hc, List.dropWhile_cons_of_neg hc, List.append_nil]

theorem splitDigits_none (hrest : ∀ c ∈ rest.head?, c.isDigit = false) : splitDigits rest = ([], rest) :=
  splitDigits_digits (List.forall_mem_nil _) hrest

/-- Any text is digits, perhaps none, and what stands behind them. -/
theorem exists_digits (cs : List Char) : ∃ digits rest, cs = digits ++ rest ∧
    (∀ c ∈ digits, c.isDigit = true) ∧ ∀ c ∈ rest.head?, c.isDigit = false := by
  refine ⟨_, _, List.takeWhile_append_dropWhile.symm, fun _ => List.all_eq_true.mp List.all_takeWhile _, ?_⟩
  intro c hc
  have hhead := List.head?_dropWhile_not Char.isDigit cs
  rw [hc] at hhead
  exact hhead

theorem Reads.exists_parts (cs : List Char) : ∃ parts, Reads cs parts := by
  induction hn : cs.length using Nat.strongRecOn generalizing cs with
  | ind n ih =>
    subst hn
    rcases cs with _ | ⟨c, cs⟩
    · exact ⟨[], .done⟩
    by_cases hc : c = '\\'
    · subst hc
      obtain ⟨digits, rest, rfl, hdigits, hrest⟩ := exists_digits cs
      by_cases hne : digits = []
      · subst hne
        by_cases hbackslash : rest.head? = some '\\'
        · obtain ⟨rest, rfl⟩ := List.head?_eq_some_iff.mp hbackslash
          have hless : rest.length < ('\\' :: '\\' :: rest).length := by
            simp only [List.length_cons]
            omega
          obtain ⟨parts, hparts⟩ := ih rest.length hless rest rfl
          exact ⟨_, .backslash hparts⟩
        · obtain ⟨parts, hparts⟩ := ih rest.length (by simp) rest rfl
          refine ⟨_, .char (fun _ d hd => ⟨hrest d hd, ?_⟩) hparts⟩
          rintro rfl
          exact hbackslash hd
      · have hless : rest.length < ('\\' :: (digits ++ rest)).length := by
          simp only [List.length_cons, List.length_append]
          omega
        obtain ⟨parts, hparts⟩ := ih rest.length hless rest rfl
        exact ⟨_, .group hne hdigits hrest hparts⟩
    · obtain ⟨parts, hparts⟩ := ih cs.length (by simp) cs rfl
      exact ⟨_, .char (fun h => absurd h hc) hparts⟩

/-! ### The template of a replacement -/

section Making

variable {n : Nat} {c : Char}

theorem templateFrom_group (hne : digits ≠ []) (hdigits : ∀ c ∈ digits, c.isDigit = true)
    (hrest : ∀ c ∈ rest.head?, c.isDigit = false) : templateFrom (n + 1) ('\\' :: (digits ++ rest)) =
      '$' :: '\x7b' :: (digits ++ '\x7d' :: templateFrom n rest) := by
  conv_lhs => unfold templateFrom
  rw [if_neg (by decide), if_pos rfl, splitDigits_digits hdigits hrest]
  split
  case h_1 heq => exact absurd (Prod.mk.inj heq).1 hne
  case h_2 heq =>
    obtain ⟨rfl, rfl⟩ := Prod.mk.inj heq
    rfl

theorem templateFrom_backslash :
    templateFrom (n + 1) ('\\' :: '\\' :: rest) = '\\' :: templateFrom n rest := rfl

/-- A character that stands for itself. -/
theorem templateFrom_char (hc : c = '\\' → ∀ d ∈ rest.head?, d.isDigit = false ∧ d ≠ '\\') :
    templateFrom (n + 1) (c :: rest) = (if c = '$' then ['$', '$'] else [c]) ++ templateFrom n rest := by
  by_cases hdollar : c = '$'
  · subst hdollar
    rfl
  by_cases hbackslash : c = '\\'
  · subst hbackslash
    have hrest := hc rfl
    conv_lhs => unfold templateFrom
    rw [if_neg (by decide), if_pos rfl, if_neg (by decide), splitDigits_none fun d hd => (hrest d hd).1]
    dsimp only
    split
    case h_1 => exact absurd rfl (hrest '\\' rfl).2
    case h_2 => rfl
  · conv_lhs => unfold templateFrom
    rw [if_neg hdollar, if_neg hbackslash, if_neg hdollar]
    rfl

end Making

/-- The template of a replacement stands for the parts of the replacement. -/
theorem Reads.expand_templateFrom {group : Nat → List Char} {expand : List Char → List Char} (h : Reads cs parts)
    (he : Expands group expand) {n : Nat} (hn : cs.length ≤ n) :
    expand (templateFrom n cs) = parts.flatMap (Part.text group) := by
  induction h generalizing n with
  | done => cases n <;> exact he.nothing
  | @group digits rest parts hne hdigits hrest _ ih =>
    obtain ⟨n, rfl⟩ : ∃ n', n = n' + 1 := Nat.exists_eq_add_one.mpr (by simp at hn; omega)
    rw [templateFrom_group hne hdigits hrest, he.number _ hne hdigits, ih (by simp at hn; omega)]
    rfl
  | @backslash rest parts _ ih =>
    obtain ⟨n, rfl⟩ : ∃ n', n = n' + 1 := Nat.exists_eq_add_one.mpr (by simp at hn; omega)
    rw [templateFrom_backslash, he.plain _ (by decide), ih (by simp at hn; omega)]
    rfl
  | @char c rest parts hc _ ih =>
    obtain ⟨n, rfl⟩ : ∃ n', n = n' + 1 := Nat.exists_eq_add_one.mpr (by simp at hn; omega)
    have hrest : expand (templateFrom n rest) = parts.flatMap (Part.text group) := ih (by simp at hn; omega)
    rw [templateFrom_char hc]
    split
    case isTrue hdollar =>
      change expand ('$' :: '$' :: templateFrom n rest) = _
      rw [he.dollar, hrest, hdollar]
      rfl
    case isFalse hdollar =>
      change expand (c :: templateFrom n rest) = _
      rw [he.plain _ hdollar, hrest]
      rfl

theorem Reads.expand_templateOf {group : Nat → List Char} {expand : List Char → List Char} (h : Reads cs parts)
    (he : Expands group expand) : expand (templateOf cs) = parts.flatMap (Part.text group) :=
  h.expand_templateFrom he (Nat.le_refl _)

/-! ### The parts of a replacement are determined -/

theorem Reads.unique (h : Reads cs parts) (h' : Reads cs parts') : parts = parts' := by
  induction h generalizing parts' with
  | done =>
    cases h'
    rfl
  | @group digits rest parts hne hdigits hrest _ ih =>
    generalize hcs : '\\' :: (digits ++ rest) = cs at h'
    obtain ⟨d, digits, rfl⟩ := List.exists_cons_of_ne_nil hne
    have hd : d.isDigit = true := hdigits d List.mem_cons_self
    cases h' with
    | done => cases hcs
    | @group digits' rest' parts' _ hdigits' hrest' h' =>
      have hsplit := splitDigits_digits hdigits hrest
      rw [(List.cons.inj hcs).2, splitDigits_digits hdigits' hrest'] at hsplit
      obtain ⟨rfl, rfl⟩ := Prod.mk.inj hsplit
      rw [ih h']
    | backslash =>
      obtain rfl := (List.cons.inj (List.cons.inj hcs).2).1
      exact absurd hd (by decide)
    | char hc =>
      obtain ⟨rfl, rfl⟩ := List.cons.inj hcs
      exact absurd hd (by simp [(hc rfl d rfl).1])
  | @backslash rest parts _ ih =>
    generalize hcs : '\\' :: '\\' :: rest = cs at h'
    cases h' with
    | done => cases hcs
    | @group digits' rest' parts' hne' hdigits' =>
      obtain ⟨d, digits', rfl⟩ := List.exists_cons_of_ne_nil hne'
      obtain rfl := (List.cons.inj (List.cons.inj hcs).2).1
      exact absurd (hdigits' _ List.mem_cons_self) (by decide)
    | backslash h' =>
      obtain rfl := (List.cons.inj (List.cons.inj hcs).2).2
      rw [ih h']
    | char hc =>
      obtain ⟨rfl, rfl⟩ := List.cons.inj hcs
      exact absurd rfl (hc rfl '\\' rfl).2
  | @char c rest parts hc _ ih =>
    generalize hcs : c :: rest = cs at h'
    cases h' with
    | done => cases hcs
    | @group digits' rest' parts' hne' hdigits' =>
      obtain ⟨d, digits', rfl⟩ := List.exists_cons_of_ne_nil hne'
      obtain ⟨rfl, rfl⟩ := List.cons.inj hcs
      exact absurd (hdigits' d List.mem_cons_self) (by simp [(hc rfl d rfl).1])
    | backslash =>
      obtain ⟨rfl, rfl⟩ := List.cons.inj hcs
      exact absurd rfl (hc rfl '\\' rfl).2
    | char _ h' =>
      obtain ⟨rfl, rfl⟩ := List.cons.inj hcs
      rw [ih h']

end Native.Replacement

end LoxLang

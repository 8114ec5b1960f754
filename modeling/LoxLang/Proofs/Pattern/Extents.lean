import LoxLang.Pattern.Basic
import LoxLang.Proofs.Pattern.Replacement

/-!
Where matches lie. A thread keeps the place where its match began, so a search finds a match behind the place it
was begun at and inside the text, and the matches of a text lie one behind the other. Replacing them changes what
they matched and nothing else.
-/

namespace LoxLang.Pattern

variable {p : Program} {text : Array Char} {P : Nat → Prop}

/-! ### Threads -/

theorem Program.settle_starts {before after : Option Char} {place n : Nat} {threads settled : List Thread}
    {seen : Array Bool} (hthreads : ∀ t ∈ threads, P t.start) (hsettled : ∀ t ∈ settled, P t.start) :
    ∀ t ∈ p.settle before after place n threads seen settled, P t.start := by
  have hreverse : ∀ t ∈ settled.reverse, P t.start := fun t ht => hsettled t (List.mem_reverse.mp ht)
  induction n generalizing threads seen settled with
  | zero => exact hreverse
  | succ n ih =>
    cases threads with
    | nil => exact hreverse
    | cons t rest =>
      obtain ⟨ht, hrest⟩ := List.forall_mem_cons.mp hthreads
      unfold settle
      split
      case isTrue => exact ih hrest hsettled hreverse
      case isFalse =>
        dsimp only
        split
        case h_1 => exact ih (by simpa using ⟨ht, hrest⟩) hsettled hreverse
        case h_2 => exact ih (by simpa using ⟨ht, hrest⟩) hsettled hreverse
        case h_3 =>
          refine ih ?_ hsettled hreverse
          split
          · simpa using ⟨ht, hrest⟩
          · exact hrest
        case h_4 =>
          have hmore : ∀ u ∈ t :: settled, P u.start := List.forall_mem_cons.mpr ⟨ht, hsettled⟩
          exact ih hrest hmore fun u hu => hmore u (List.mem_reverse.mp hu)

theorem Program.advance_starts {c : Option Char} {threads : List Thread} (hthreads : ∀ t ∈ threads, P t.start) :
    (∀ t ∈ (p.advance c threads).1, P t.start) ∧ ∀ t ∈ (p.advance c threads).2, P t.start := by
  induction threads with
  | nil => exact ⟨fun _ ht => absurd ht List.not_mem_nil, fun _ ht => by cases ht⟩
  | cons t rest ih =>
    obtain ⟨ht, hrest⟩ := List.forall_mem_cons.mp hthreads
    unfold advance
    split
    case h_1 =>
      dsimp only
      refine ⟨?_, (ih hrest).2⟩
      split
      · exact List.forall_mem_cons.mpr ⟨ht, (ih hrest).1⟩
      · exact (ih hrest).1
    case h_2 =>
      refine ⟨fun _ ht => absurd ht List.not_mem_nil, fun u hu => ?_⟩
      obtain rfl := Option.mem_some.mp hu
      exact ht
    case h_3 => exact ih hrest

/-! ### Searches -/

/-- The threads at the place in front of the last `n` characters. While no match has been found, one begins
here. -/
def Program.threadsAt (p : Program) (text : Array Char) (n : Nat) (threads : List Thread)
    (best : Option Match) : List Thread :=
  if best.isNone then threads ++ [⟨p.start, text.size - n, .replicate p.slots none⟩] else threads

/-- The threads that can read the next character, and the one that accepts. -/
def Program.round (p : Program) (text : Array Char) (n : Nat) (threads : List Thread) :
    List Thread × Option Thread :=
  let place := text.size - n
  p.advance text[place]? <| p.settle (if place = 0 then none else text[place - 1]?) text[place]? place
    (threads.length + 2 * p.code.size + 1) threads (.replicate p.code.size false) []

/-- The match that has been found when a thread has accepted or none has. -/
def Program.found (p : Program) (text : Array Char) (n : Nat) (best : Option Match) : Option Thread → Option Match
  | some t => some ⟨⟨t.start, text.size - n⟩, p.groups t.slots⟩
  | none => best

theorem Program.searchFrom_eq (n : Nat) (threads : List Thread) (best : Option Match) :
    p.searchFrom text n threads best =
      let threads := p.threadsAt text n threads best
      let found := p.found text n best (p.round text n threads).2
      if threads.isEmpty then best
      else match n with
        | 0 => found
        | n + 1 => p.searchFrom text n (p.round text (n + 1) threads).1 found := by
  cases n <;> rfl

theorem Program.round_starts (text : Array Char) (n : Nat) {threads : List Thread}
    (hthreads : ∀ t ∈ threads, P t.start) :
    (∀ t ∈ (p.round text n threads).1, P t.start) ∧ ∀ t ∈ (p.round text n threads).2, P t.start :=
  advance_starts (settle_starts hthreads (by simp))

/-- The stretch lies in the text behind a place. -/
structure Extent.Behind (text : Array Char) (place : Nat) (e : Extent) : Prop where
  begins : place ≤ e.start
  ordered : e.start ≤ e.stop
  inside : e.stop ≤ text.size

/-- Threads that begin in the text between a place and the one in front of the last `n` characters. -/
def Began (text : Array Char) (place n start : Nat) : Prop :=
  place ≤ start ∧ start ≤ text.size - n

variable {start n : Nat} {threads : List Thread} {best : Option Match}

theorem Program.threadsAt_began (best : Option Match) (hn : start ≤ text.size - n)
    (hthreads : ∀ t ∈ threads, Began text start n t.start) :
    ∀ t ∈ p.threadsAt text n threads best, Began text start n t.start := by
  unfold threadsAt
  split
  · rw [List.forall_mem_append, List.forall_mem_singleton]
    exact ⟨hthreads, hn, Nat.le_refl _⟩
  · exact hthreads

theorem Program.found_behind {accepted : Option Thread} (haccepted : ∀ t ∈ accepted, Began text start n t.start)
    (hbest : ∀ m ∈ best, m.extent.Behind text start) :
    ∀ m ∈ p.found text n best accepted, m.extent.Behind text start := by
  cases accepted with
  | none => exact hbest
  | some t =>
    intro m hm
    obtain rfl := Option.mem_some.mp hm
    obtain ⟨hbegins, hends⟩ := haccepted t rfl
    exact ⟨hbegins, hends, Nat.sub_le _ _⟩

theorem Program.searchFrom_behind (hn : start ≤ text.size - n)
    (hthreads : ∀ t ∈ threads, Began text start n t.start) (hbest : ∀ m ∈ best, m.extent.Behind text start) :
    ∀ m ∈ p.searchFrom text n threads best, m.extent.Behind text start := by
  induction n generalizing threads best with
  | zero =>
    have hround := p.round_starts text 0 (p.threadsAt_began best hn hthreads)
    rw [searchFrom_eq]
    dsimp only
    split
    · exact hbest
    · exact found_behind hround.2 hbest
  | succ n ih =>
    have hround := p.round_starts text (n + 1) (p.threadsAt_began best hn hthreads)
    rw [searchFrom_eq]
    dsimp only
    split
    · exact hbest
    · -- A thread that began in front of the last `n + 1` characters began in front of the last `n`.
      refine ih (by omega) (fun t ht => ?_) (found_behind hround.2 hbest)
      obtain ⟨hbegins, hends⟩ := hround.1 t ht
      exact ⟨hbegins, by omega⟩

theorem Program.search_behind {m : Match} (h : p.search text start = some m) : m.extent.Behind text start := by
  unfold search at h
  split at h
  case isTrue hstart => exact searchFrom_behind (by omega) (by simp) (by simp) m h
  case isFalse => cases h

/-! ### All matches -/

/-- Behind a place of a text, matches lie one behind the other. -/
inductive InOrder (text : Array Char) : Nat → List Match → Prop where
  | done {place : Nat} : place ≤ text.size → InOrder text place []
  | next {place : Nat} {m : Match} {rest : List Match} :
    m.extent.Behind text place → InOrder text m.extent.stop rest → InOrder text place (m :: rest)

theorem Program.matchesFrom_inOrder {last : Option Nat} (hstart : start ≤ text.size) :
    InOrder text start (p.matchesFrom text n start last) := by
  induction n generalizing start last with
  | zero => exact .done hstart
  | succ n ih =>
    unfold matchesFrom
    cases hfirst : p.search text start with
    | none => exact .done hstart
    | some m =>
      have hm := search_behind hfirst
      dsimp only
      split
      · cases hsecond : p.search text (start + 1) with
        | none => exact .done hstart
        | some m =>
          obtain ⟨hbegins, hordered, hinside⟩ := search_behind hsecond
          exact .next ⟨by omega, hordered, hinside⟩ (ih hinside)
      · exact .next hm (ih hm.inside)

theorem all_inOrder (p : Pattern) (text : Array Char) : InOrder text 0 (p.all text) :=
  p.program.matchesFrom_inOrder (Nat.zero_le _)

/-! ### Replacing matches -/

theorem slice_append {a b c : Nat} (hab : a ≤ b) (hbc : b ≤ c) :
    slice text ⟨a, b⟩ ++ slice text ⟨b, c⟩ = slice text ⟨a, c⟩ := by
  unfold slice
  rw [← Array.toList_append, Array.extract_append_extract, Nat.min_eq_left hab, Nat.max_eq_right hbc]

theorem length_slice {a b : Nat} (hab : a ≤ b) (hb : b ≤ text.size) : a + (slice text ⟨a, b⟩).length = b := by
  unfold slice
  simp
  omega

/-- A text behind a place, cut at the next match. -/
theorem slice_cut {place : Nat} {m : Match} (hm : m.extent.Behind text place) :
    slice text ⟨place, m.extent.start⟩ ++ slice text m.extent ++ slice text ⟨m.extent.stop, text.size⟩ =
      slice text ⟨place, text.size⟩ := by
  obtain ⟨hbegins, hordered, hinside⟩ := hm
  rw [slice_append hbegins hordered, slice_append (Nat.le_trans hbegins hordered) hinside]

theorem replaceFrom_replaced (p : Pattern) (template : List Char) {place : Nat} {ms : List Match}
    (h : InOrder text place ms) : Replaced (fun m => p.expand text m template) place ms
      (slice text ⟨place, text.size⟩) (p.replaceFrom text template place ms) := by
  induction h with
  | done => exact .done
  | next hm _ ih =>
    rw [← slice_cut hm]
    exact .next (length_slice hm.begins (Nat.le_trans hm.ordered hm.inside)).symm
      (length_slice hm.ordered hm.inside).symm ih

/-! ### Templates -/

section Templates

open Template

variable {group : Nat → List Char} {named : List Char → Option Nat} {cs digits rest name : List Char} {n : Nat}

theorem Template.length_reference? (h : reference? cs = some (name, rest)) : rest.length ≤ cs.length := by
  unfold reference? at h
  split at h
  case h_1 tail =>
    have hshorter := (List.dropWhile_sublist (· != '\x7d') (l := tail)).length_le
    split at h
    case h_1 behind hbehind =>
      obtain ⟨-, rfl⟩ := Prod.mk.inj (Option.some.inj h)
      rw [hbehind, List.length_cons] at hshorter
      rw [List.length_cons]
      omega
    case h_2 => cases h
  case h_2 =>
    split at h
    case h_1 => cases h
    case h_2 =>
      obtain ⟨-, rfl⟩ := Prod.mk.inj (Option.some.inj h)
      exact (List.dropWhile_sublist isNameChar).length_le

/-- Steps enough for a template are as good as just as many. -/
theorem Template.expandFrom_enough (hn : cs.length ≤ n) :
    expandFrom group named n cs = expandFrom group named cs.length cs := by
  induction hk : cs.length using Nat.strongRecOn generalizing cs n with
  | ind k ih =>
    subst hk
    rcases cs with _ | ⟨c, cs⟩
    · cases n <;> rfl
    obtain ⟨n, rfl⟩ : ∃ n', n = n' + 1 := Nat.exists_eq_add_one.mpr (by simp at hn; omega)
    have hsame : ∀ rest : List Char, rest.length ≤ cs.length →
        expandFrom group named n rest = expandFrom group named cs.length rest := by
      intro rest hrest
      have hless : rest.length < (c :: cs).length := by
        rw [List.length_cons]
        omega
      rw [ih _ hless (by simp at hn; omega) rfl, ih _ hless hrest rfl]
    rw [List.length_cons]
    unfold expandFrom
    split
    case isTrue =>
      split
      case h_1 rest => exact congrArg _ (hsame rest (Nat.le_succ _))
      case h_2 =>
        split
        case h_1 => exact congrArg _ (hsame cs (Nat.le_refl _))
        case h_2 href => exact congrArg _ (hsame _ (length_reference? href))
    case isFalse => exact congrArg _ (hsame cs (Nat.le_refl _))

/-- A number in braces is the name of a group. -/
theorem Template.reference?_braces (hdigits : ∀ c ∈ digits, c.isDigit = true) (rest : List Char) :
    reference? ('\x7b' :: (digits ++ '\x7d' :: rest)) = some (digits, rest) := by
  have hinside : ∀ c ∈ digits, (c != '\x7d') = true := by
    intro c hc
    rw [bne_iff_ne]
    rintro rfl
    exact absurd (hdigits _ hc) (by decide)
  unfold reference?
  simp only [List.dropWhile_append_of_pos hinside, List.takeWhile_append_of_pos hinside]
  rw [List.dropWhile_cons_of_neg (by decide), List.takeWhile_cons_of_neg (by decide), List.append_nil]

theorem Template.groupText_digits (hne : digits ≠ []) (hdigits : ∀ c ∈ digits, c.isDigit = true) :
    groupText group named digits = group (Decimal.digitsValue digits) := by
  have hall : digits.all Char.isDigit = true := List.all_eq_true.mpr hdigits
  unfold groupText
  rw [if_pos (by simp [hall, hne])]

theorem Template.expands (group : Nat → List Char) (named : List Char → Option Nat) :
    Expands group (Template.expand group named) where
  nothing := rfl
  plain rest hc := by
    change expandFrom group named (rest.length + 1) _ = _
    conv_lhs => unfold expandFrom
    rw [if_neg hc]
    rfl
  dollar rest := by
    change '$' :: expandFrom group named (rest.length + 1) rest = _
    rw [expandFrom_enough (Nat.le_succ _)]
    rfl
  number {digits} rest hne hdigits := by
    have henough : rest.length ≤ ('\x7b' :: (digits ++ '\x7d' :: rest)).length := by
      simp only [List.length_cons, List.length_append]
      omega
    change expandFrom group named (('\x7b' :: (digits ++ '\x7d' :: rest)).length + 1) _ = _
    conv_lhs => unfold expandFrom
    rw [if_pos rfl]
    split
    case h_1 hdollar => exact absurd (List.cons.inj hdollar).1 (by decide)
    case h_2 =>
      rw [reference?_braces hdigits]
      dsimp only
      rw [groupText_digits hne hdigits, expandFrom_enough henough]
      rfl

end Templates

/-! ### The engine does what is documented -/

theorem matcher_documented (p : Pattern) : p.matcher.Documented where
  expands _ _ _ := Template.expands _ _
  replaces text template := by
    have hwhole : slice text ⟨0, text.size⟩ = text.toList := by simp [slice]
    have hreplaced := replaceFrom_replaced p template (all_inOrder p text)
    rwa [hwhole] at hreplaced

theorem Engine.standard_documented : Engine.standard.Documented := by
  intro source m h
  obtain ⟨p, -, rfl⟩ := standard_compile.mp h
  exact matcher_documented p

end LoxLang.Pattern

import LoxLang.Proofs.Control.Trace

/-!
The order of a log. At some points of a run it is due what has to be logged next: behind a signal, the end of
the round around it; behind a round that does not leave its loop, the increment if there is one. A log in
which each movement keeps to what is due has every signal in front of the round that it ends, and the
increments behind the rounds that they belong to.
-/

namespace LoxLang

/-- The next round of a loop follows a round that has ended so. -/
def Completion.GoesOn (c : Completion) : Prop :=
  c = .normal ∨ c = .continued

/-- No signal is lost in the log, and increments stand where they belong. -/
structure Orderly (log : List Movement) : Prop where
  /-- Every signal ends a round of the innermost loop around it, and nothing happens before. -/
  consumed : ∀ front s loops rest, log = front ++ .signal s loops :: rest →
    ∃ l outer increments rest', loops = l :: outer ∧ rest = .round l s.completion increments :: rest'
  /-- Every round that a signal ends was left by one that was sent in it. -/
  sent : ∀ front l s increments rest, log = front ++ .round l (Signal.completion s) increments :: rest →
    ∃ front' outer, front = front' ++ [.signal s (l :: outer)]
  /-- The increment is evaluated behind each round that does not leave the loop. -/
  incremented : ∀ front l c rest, log = front ++ .round l c true :: rest → c.GoesOn →
    ∃ rest', rest = .increment l :: rest'
  /-- It is evaluated nowhere else. -/
  increments : ∀ front l rest, log = front ++ .increment l :: rest →
    ∃ front' c, c.GoesOn ∧ front = front' ++ [.round l c true]
  bodies : ∀ c, .body c ∈ log → c = .normal ∨ ∃ v, c = .returned v
  statements : ∀ c, .statement c ∈ log → c = .normal

namespace Traced

/-! ### What is due -/

/-- What the next movement has to be. -/
inductive Due where
  /-- There is no claim to it. -/
  | nothing
  /-- The signal ends the round of the loop. -/
  | round (loop : LoopId) (s : Signal)
  | increment (loop : LoopId)

namespace Due

/-- What is due when a statement inside some loops has ended; only a statement in a function returns. -/
inductive Behind (function : Bool) (loops : List LoopId) : Completion → Due → Prop
  | normal : Behind function loops .normal .nothing
  | returned {v : Value} : function = true → Behind function loops (.returned v) .nothing
  | broke {l : LoopId} {outer : List LoopId} :
    loops = l :: outer → Behind function loops .broke (.round l .broke)
  | continued {l : LoopId} {outer : List LoopId} :
    loops = l :: outer → Behind function loops .continued (.round l .continued)

/-- What is due when a round has ended. -/
def afterRound (l : LoopId) (c : Completion) (increments : Bool) : Due :=
  match c with
  | .normal | .continued => if increments then .increment l else .nothing
  | _ => .nothing

section Behind

variable {function : Bool} {l l' : LoopId} {outer loops : List LoopId} {c : Completion} {s : Signal}
  {increments : Bool}

theorem Behind.of_round (h : Behind function (l :: outer) c (.round l' s)) :
    c = s.completion ∧ l' = l := by
  cases h with
  | broke hloops => exact ⟨rfl, (List.cons.inj hloops).1.symm⟩
  | continued hloops => exact ⟨rfl, (List.cons.inj hloops).1.symm⟩

theorem Behind.signal {due : Due} (h : Behind function (l :: outer) s.completion due) :
    due = .round l s := by
  cases s with
  | broke =>
    cases h with
    | broke hloops => rw [(List.cons.inj hloops).1]
  | continued =>
    cases h with
    | continued hloops => rw [(List.cons.inj hloops).1]

theorem Behind.of_nothing (h : Behind function loops c .nothing) : c = .normal ∨ ∃ v, c = .returned v := by
  cases h with
  | normal => exact .inl rfl
  | returned _ => exact .inr ⟨_, rfl⟩

/-- Outside loops nothing can be due. -/
theorem Behind.outside {due : Due} (h : Behind function [] c due) : due = .nothing := by
  cases h with
  | normal => rfl
  | returned _ => rfl
  | broke hloops => cases hloops
  | continued hloops => cases hloops

/-- What may be due behind code outside functions may be due behind any. -/
theorem Behind.widen {due : Due} (h : Behind function loops c due) : Behind true loops c due := by
  cases h with
  | normal => exact .normal
  | returned _ => exact .returned rfl
  | broke hloops => exact .broke hloops
  | continued hloops => exact .continued hloops

theorem afterRound_ne_round (l : LoopId) (c : Completion) (increments : Bool) :
    afterRound l c increments ≠ .round l' s := by
  cases c <;> cases increments <;> simp [afterRound]

theorem afterRound_increment (h : afterRound l c increments = .increment l') :
    l = l' ∧ increments = true ∧ c.GoesOn := by
  cases c <;> cases increments <;> simp_all [afterRound, Completion.GoesOn]

theorem afterRound_goesOn (h : c.GoesOn) : afterRound l c true = .increment l := by
  rcases h with rfl | rfl <;> rfl

end Behind

/-- The movement keeps to what is due, and leaves something due. -/
inductive Next : Due → Movement → Due → Prop
  | signal {s : Signal} {l : LoopId} {outer : List LoopId} :
    Next .nothing (.signal s (l :: outer)) (.round l s)
  | round {due : Due} {l : LoopId} {outer : List LoopId} {c : Completion} {increments : Bool} :
    Behind true (l :: outer) c due → Next due (.round l c increments) (afterRound l c increments)
  | increment {l : LoopId} : Next (.increment l) (.increment l) .nothing
  | body {c : Completion} : Behind true [] c .nothing → Next .nothing (.body c) .nothing
  | statement : Next .nothing (.statement .normal) .nothing

end Due

/-- The movements keep to what is due, one after the other. -/
inductive Course : Due → List Movement → Due → Prop
  | nil {due : Due} : Course due [] due
  | cons {due due' due'' : Due} {e : Movement} {rest : List Movement} :
    Due.Next due e due' → Course due' rest due'' → Course due (e :: rest) due''

namespace Course

variable {due due' due'' : Due} {e : Movement} {log front rest : List Movement}

theorem snoc (h : Course due log due') (he : Due.Next due' e due'') : Course due (log ++ [e]) due'' := by
  induction h with
  | nil => exact .cons he .nil
  | cons hfirst _ ih => exact .cons hfirst (ih he)

theorem split (h : Course due (front ++ e :: rest) due') :
    ∃ d d', Course due front d ∧ Due.Next d e d' ∧ Course d' rest due' := by
  induction front generalizing due with
  | nil =>
    cases h with
    | cons hfirst hrest => exact ⟨_, _, .nil, hfirst, hrest⟩
  | cons e' front ih =>
    cases h with
    | cons hfirst hrest =>
      obtain ⟨d, d', hfront, he, hrest⟩ := ih hrest
      exact ⟨d, d', .cons hfirst hfront, he, hrest⟩

/-- If something is due, the last movement has made it so. -/
theorem last (h : Course .nothing log due) (hdue : due ≠ .nothing) :
    ∃ front e d, log = front ++ [e] ∧ Due.Next d e due := by
  rcases List.eq_nil_or_concat log with rfl | ⟨front, e, rfl⟩
  · cases h
    exact absurd rfl hdue
  · rw [List.concat_eq_append] at h
    obtain ⟨d, d', _, he, hrest⟩ := h.split
    cases hrest
    exact ⟨front, e, d, List.concat_eq_append, he⟩

theorem due_round {l : LoopId} {s : Signal} (h : Course .nothing log (.round l s)) :
    ∃ front outer, log = front ++ [.signal s (l :: outer)] := by
  obtain ⟨front, e, d, rfl, he⟩ := h.last (by simp)
  generalize hdue : Due.round l s = due at he
  cases he with
  | signal =>
    cases hdue
    exact ⟨front, _, rfl⟩
  | @round _ l' _ c increments => exact absurd hdue.symm (Due.afterRound_ne_round l' c increments)
  | _ => cases hdue

theorem due_increment {l : LoopId} (h : Course .nothing log (.increment l)) :
    ∃ front c, c.GoesOn ∧ log = front ++ [.round l c true] := by
  obtain ⟨front, e, d, rfl, he⟩ := h.last (by simp)
  generalize hdue : Due.increment l = due at he
  cases he with
  | @round _ l' _ c increments =>
    obtain ⟨rfl, rfl, hc⟩ := Due.afterRound_increment hdue.symm
    exact ⟨front, c, hc, rfl⟩
  | _ => cases hdue

/-- When nothing is due at the end, something follows each movement that makes something due. -/
theorem continues (h : Course due rest .nothing) (hdue : due ≠ .nothing) :
    ∃ e d rest', rest = e :: rest' ∧ Due.Next due e d := by
  cases h with
  | nil => exact absurd rfl hdue
  | cons he _ => exact ⟨_, _, _, rfl, he⟩

theorem orderly (h : Course .nothing log .nothing) : Orderly log := by
  constructor
  case consumed =>
    rintro front s loops rest rfl
    obtain ⟨_, _, _, hsignal, hrest⟩ := h.split
    cases hsignal with
    | @signal _ l outer =>
      obtain ⟨e, d, rest', rfl, he⟩ := hrest.continues (by simp)
      cases he with
      | @round _ _ _ _ increments hbehind =>
        obtain ⟨rfl, rfl⟩ := hbehind.of_round
        exact ⟨_, _, increments, rest', rfl, rfl⟩
  case sent =>
    rintro front l s increments rest rfl
    obtain ⟨_, _, hfront, hround, _⟩ := h.split
    cases hround with
    | round hbehind =>
      rw [hbehind.signal] at hfront
      exact hfront.due_round
  case incremented =>
    rintro front l c rest rfl hc
    obtain ⟨_, _, _, hround, hrest⟩ := h.split
    cases hround with
    | round _ =>
      rw [Due.afterRound_goesOn hc] at hrest
      obtain ⟨e, d, rest', rfl, he⟩ := hrest.continues (by simp)
      cases he with
      | round hbehind => cases hbehind
      | increment => exact ⟨rest', rfl⟩
  case increments =>
    rintro front l rest rfl
    obtain ⟨_, _, hfront, hincrement, _⟩ := h.split
    cases hincrement
    exact hfront.due_increment
  case bodies =>
    intro c hc
    obtain ⟨front, rest, rfl⟩ := List.append_of_mem hc
    obtain ⟨_, _, _, hbody, _⟩ := h.split
    cases hbody with
    | body hbehind => exact hbehind.of_nothing
  case statements =>
    intro c hc
    obtain ⟨front, rest, rfl⟩ := List.append_of_mem hc
    obtain ⟨_, _, _, hstatement, _⟩ := h.split
    cases hstatement
    rfl

end Course

end Traced

end LoxLang

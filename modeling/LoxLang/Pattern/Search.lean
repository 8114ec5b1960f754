import LoxLang.Pattern.Engine
import LoxLang.Pattern.Program

/-!
Searching a text. All the ways in which a program can match are followed at once, in the order of
preference: at every place in the text there is a list of threads, the preferred ones first. A thread that
comes to an instruction where a preferred one has been at the same place is given up, since it could only
find what the other one finds. A match ends the threads behind it, while those before it go on.
-/

namespace LoxLang.Pattern

/-- One way to match: the next instruction, the place where the match began, and the places noted. -/
structure Thread where
  state : Nat
  start : Nat
  slots : Array (Option Nat)
deriving Inhabited

namespace Program

/-- Carries threads on, without reading, to instructions that read a character or accept. `seen` tells at
which instructions a thread has been at this place. Each round gives a thread up or marks an
instruction, so as many rounds as threads and twice as many as instructions suffice. -/
def settle (p : Program) (before after : Option Char) (place : Nat) :
    Nat → List Thread → Array Bool → List Thread → List Thread
  | 0, _, _, settled => settled.reverse
  | _, [], _, settled => settled.reverse
  | n + 1, t :: rest, seen, settled =>
    if seen[t.state]?.getD true then settle p before after place n rest seen settled
    else
      let seen := seen.setIfInBounds t.state true
      match p.code[t.state]? with
      | some (.fork a b) =>
        settle p before after place n ({ t with state := a } :: { t with state := b } :: rest) seen settled
      | some (.save slot next) =>
        let t := { t with state := next, slots := t.slots.setIfInBounds slot (some place) }
        settle p before after place n (t :: rest) seen settled
      | some (.look l next) =>
        let rest := if l.holds before after then { t with state := next } :: rest else rest
        settle p before after place n rest seen settled
      | _ => settle p before after place n rest seen (t :: settled)

/-- Lets settled threads read a character. The answer is the threads that could, up to the first thread that
accepts, and that one. -/
def advance (p : Program) (c : Option Char) : List Thread → List Thread × Option Thread
  | [] => ([], none)
  | t :: rest =>
    match p.code[t.state]? with
    | some (.read s next) =>
      let (moved, accepted) := advance p c rest
      (if c.any s.contains then { t with state := next } :: moved else moved, accepted)
    | some .accept => ([], some t)
    | _ => advance p c rest

/-- The groups that a thread has noted, from the first one on. -/
def groups (p : Program) (slots : Array (Option Nat)) : List (Option Extent) :=
  (List.range (p.slots / 2 - 1)).map fun i =>
    match slots[2 * i + 2]?.join, slots[2 * i + 3]?.join with
    | some start, some stop => some ⟨start, stop⟩
    | _, _ => none

/-- Follows threads through a text from a place on, of which `n` characters are left. While no match has
been found, one can begin at every place, though an earlier one is preferred. -/
def searchFrom (p : Program) (text : Array Char) : Nat → List Thread → Option Match → Option Match
  | n, threads, best =>
    let place := text.size - n
    let threads := if best.isNone then threads ++ [⟨p.start, place, .replicate p.slots none⟩] else threads
    if threads.isEmpty then best
    else
      let before := if place = 0 then none else text[place - 1]?
      let after := text[place]?
      let settled := p.settle before after place (threads.length + 2 * p.code.size + 1) threads
        (.replicate p.code.size false) []
      let (moved, accepted) := p.advance after settled
      let best := match accepted with
        | some t => some ⟨⟨t.start, place⟩, p.groups t.slots⟩
        | none => best
      match n with
      | 0 => best
      | n + 1 => searchFrom p text n moved best

/-- The first match that begins at a place or behind it, of those the preferred one. -/
def search (p : Program) (text : Array Char) (start : Nat) : Option Match :=
  if start ≤ text.size then p.searchFrom text (text.size - start) [] none else none

/-- At most `n` matches from a place on, from left to right. Each begins where the one before it ended or
behind that; an empty match does not count at the end of the one before it. -/
def matchesFrom (p : Program) (text : Array Char) : Nat → Nat → Option Nat → List Match
  | 0, _, _ => []
  | n + 1, start, last =>
    match p.search text start with
    | none => []
    | some m =>
      if m.extent.start = m.extent.stop ∧ last = some m.extent.stop then
        match p.search text (start + 1) with
        | none => []
        | some m => m :: matchesFrom p text n m.extent.stop (some m.extent.stop)
      else m :: matchesFrom p text n m.extent.stop (some m.extent.stop)

/-- All matches in a text. They end at different places, so they are no more than these. -/
def allMatches (p : Program) (text : Array Char) : List Match :=
  p.matchesFrom text (text.size + 1) 0 none

end Program

end LoxLang.Pattern

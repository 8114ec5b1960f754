import LoxLang.Unicode.CharSet

/-!
Regular expressions. What an expression matches is a stretch of text; a position expression matches the
empty stretch at some places. Alternatives and repetitions prefer one way to match to another.
-/

namespace LoxLang.Pattern

/-- How a place lies to the words around it. -/
inductive WordPlace where
  | edge | inside | start | stop | startHalf | stopHalf
deriving DecidableEq, Inhabited

/-- A condition on a place in a text. -/
inductive Look where
  | textStart
  | textStop
  /-- With `crlf`, a carriage return ends a line too, and together with a line feed it is one line end. -/
  | lineStart (crlf : Bool)
  | lineStop (crlf : Bool)
  /-- A place seen from the words, which are made of the characters of `word`. -/
  | words (place : WordPlace) (word : CharSet)
deriving Inhabited

/-- Whether a place with a character in a word before it or behind it is such a place. -/
def WordPlace.holds (before after : Bool) : WordPlace → Bool
  | edge => before != after
  | inside => before == after
  | start => !before && after
  | stop => before && !after
  | startHalf => !before
  | stopHalf => !after

/-- Whether a place satisfies a condition; the characters next to it decide. -/
def Look.holds (before after : Option Char) : Look → Bool
  | textStart => before.isNone
  | textStop => after.isNone
  | lineStart false => before.isNone || before == some '\n'
  | lineStop false => after.isNone || after == some '\n'
  | lineStart true =>
    before.isNone || before == some '\n' || (before == some '\r' && after != some '\n')
  | lineStop true =>
    after.isNone || after == some '\r' || (after == some '\n' && before != some '\r')
  | words place word => place.holds (before.any word.contains) (after.any word.contains)

inductive Regex where
  | empty
  /-- One character of a set. -/
  | set (s : CharSet)
  | look (l : Look)
  | seq (a b : Regex)
  /-- The first alternative is preferred. -/
  | alt (a b : Regex)
  /-- A group; it captures what it matches if it has a number. -/
  | group (index : Option Nat) (r : Regex)
  /-- At least `min` and at most `max` times; a greedy repetition prefers more of them. -/
  | iterate (r : Regex) (min : Nat) (max : Option Nat) (greedy : Bool)
deriving Inhabited

namespace Regex

/-- Whether an expression only ever matches the empty stretch. -/
def isWidthless : Regex → Bool
  | empty => true
  | set _ => false
  | look _ => true
  | seq a b => a.isWidthless && b.isWidthless
  | alt a b => a.isWidthless && b.isWidthless
  | group _ r => r.isWidthless
  | iterate r _ _ _ => r.isWidthless

/-- A repetition. Repeating an empty stretch more than once changes nothing; no times is the empty
expression, whatever groups it drops; once is the expression itself. -/
def repeated (r : Regex) (min : Nat) (max : Option Nat) (greedy : Bool) : Regex :=
  let (min, max) := if r.isWidthless then (Nat.min min 1, some ((max.map (Nat.min · 1)).getD 1)) else (min, max)
  match min, max with
  | 0, some 0 => empty
  | 1, some 1 => r
  | min, max => iterate r min max greedy

/-- The highest number of a capturing group; zero if there is none. -/
def groupCount : Regex → Nat
  | empty | set _ | look _ => 0
  | seq a b => Nat.max a.groupCount b.groupCount
  | alt a b => Nat.max a.groupCount b.groupCount
  | group index r => Nat.max (index.getD 0) r.groupCount
  | iterate r _ _ _ => r.groupCount

/-- Roughly how many instructions an expression takes. -/
def size : Regex → Nat
  | empty => 1
  | set s => Nat.max 1 s.ranges.length
  | look _ => 1
  | seq a b => a.size + b.size
  | alt a b => a.size + b.size + 1
  | group none r => r.size
  | group (some _) r => r.size + 2
  | iterate r min none _ => Nat.max 1 min * r.size + 2
  | iterate r _ (some max) _ => max * (r.size + 1)

end Regex

end LoxLang.Pattern

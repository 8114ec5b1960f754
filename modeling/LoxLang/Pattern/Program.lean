import LoxLang.Pattern.Regex

/-!
Expressions as programs. A program reads a text from left to right; where it forks, it tries its first way
before its second one. Instructions refer to others by their places in the program.
-/

namespace LoxLang.Pattern

inductive Instr where
  /-- Reads a character of a set. -/
  | read (s : CharSet) (next : Nat)
  | look (l : Look) (next : Nat)
  /-- Notes the place in the text in a slot. -/
  | save (slot next : Nat)
  | fork (first second : Nat)
  | accept
deriving Inhabited

/-- Instructions being put together. -/
abbrev Emit := StateM (Array Instr)

namespace Emit

/-- Adds an instruction, and yields its place. -/
def push (i : Instr) : Emit Nat := fun p => (p.size, p.push i)

/-- A fork that prefers to enter a repetition if it is greedy, and to leave it if it is not. -/
def choice (greedy : Bool) (body next : Nat) : Instr :=
  if greedy then .fork body next else .fork next body

/-- Does something a number of times, each time in front of what was there before. -/
def chain (step : Nat → Emit Nat) : Nat → Nat → Emit Nat
  | 0, next => pure next
  | n + 1, next => do
    let after ← chain step n next
    step after

/-- A body at least once, before what comes next. After an empty round the body is not entered again at
the same place in the text. -/
def plus (body : Nat → Emit Nat) (greedy : Bool) (next : Nat) : Emit Nat := do
  let fork ← push (.fork next next)
  let start ← body fork
  modify fun p => p.setIfInBounds fork (choice greedy start next)
  return start

/-- The instructions of an expression before what comes next. -/
def compile : Regex → Nat → Emit Nat
  | .empty, next => pure next
  | .set s, next => push (.read s next)
  | .look l, next => push (.look l next)
  | .seq a b, next => do
    let second ← compile b next
    compile a second
  | .alt a b, next => do
    let second ← compile b next
    let first ← compile a next
    push (.fork first second)
  | .group none r, next => compile r next
  | .group (some i) r, next => do
    let stop ← push (.save (2 * i + 1) next)
    let body ← compile r stop
    push (.save (2 * i) body)
  | .iterate r 0 none greedy, next => do
    let start ← plus (compile r) greedy next
    push (choice greedy start next)
  | .iterate r (min + 1) none greedy, next => do
    let last ← plus (compile r) greedy next
    chain (compile r) min last
  | .iterate r min (some max) greedy, next => do
    let optional ← chain (fun after => do
      let body ← compile r after
      push (choice greedy body next)) (max - min) next
    chain (compile r) min optional

end Emit

structure Program where
  code : Array Instr
  start : Nat
  /-- The number of slots. -/
  slots : Nat
deriving Inhabited

/-- The program of an expression. Group `i` has slots `2 * i` and `2 * i + 1`; the first two slots are
those of the whole expression and stay empty. -/
def Program.ofRegex (r : Regex) : Program :=
  let (start, code) := Emit.compile r 0 #[.accept]
  ⟨code, start, 2 * (r.groupCount + 1)⟩

end LoxLang.Pattern

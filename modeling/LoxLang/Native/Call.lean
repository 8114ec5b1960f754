import LoxLang.Machine
import LoxLang.Number.Pair
import LoxLang.Native.Search
import LoxLang.Native.Statistics
import LoxLang.Native.Text

/-!
Calling native functions by name. Most of them depend on their arguments and the heap only; the others read
the clock, a file or a line of input.
-/

namespace LoxLang.Native

/-- The answer of a native function that changes nothing but the heap. `none` for the others. -/
def answer? (regex : Pattern.Engine) (h : Heap) : Native → List Value → Option (Except NativeFault Answer)
  | abs, [a] => some do return .value (.number (← number a).abs)
  | ceil, [a] => some do return .value (.number (← number a).ceil)
  | floor, [a] => some do return .value (.number (← number a).floor)
  | max, [a, b] => some do return .value (.number ((← number a).maximum (← number b)))
  | min, [a, b] => some do return .value (.number ((← number a).minimum (← number b)))
  | divmod, [a, b] => some do
    let (q, r) := (← number a).divmod (← number b)
    return .row [.number q, .number r]
  | mean, [a] => some do return .value (.number (← Sample.mean (← numbers h a)))
  | median, [a] => some do return .value (.number (← Sample.median (← numbers h a)))
  | mode, [a] => some do return .value (← Sample.mode h (← items h a))
  | std, [a] => some do return .value (.float (← Sample.deviation (← numbers h a)))
  | len, [a] => some do return .value (.int (← length h a))
  | ord, [a] => some do return .value (.int (← codePoint a))
  | array, [.number (.int n)] => some (.ok (.row (List.replicate n.toInt.toNat .nil)))
  | array, [a] => some (.error (.expected "an integer size" a.typeName))
  | stringArray, [a] => some do return .row (characters (← string a))
  | str2num, [a] => some do return .value (.number (← readNumber (← string a)))
  | reSearch, [p, a] => some (searchText regex p a)
  | reMatch, [p, a] => some (matchText regex p a)
  | reFindall, [p, a] => some (findAll regex p a)
  | reSub, [p, r, a] => some (substitute regex p r a)
  | _, _ => none

/-- A line of input without its terminator, after the prompt has been written. -/
def readLine (prompt : String) : EStateM NativeFault Machine String := fun m =>
  let m := m.ask prompt
  match m.input with
  | [] => .error .endOfInput m
  | none :: rest => .error .inputNotUtf8 { m with input := rest }
  | some line :: rest =>
    let text := (line.toList.reverse.dropWhile fun c => c == '\n' || c == '\r').reverse
    .ok (String.ofList text) { m with input := rest }

/-- Calls a native function that changes nothing but the heap. -/
def compute (f : Native) (arguments : List Value) : EStateM NativeFault Machine Value := fun m =>
  match answer? m.regex m.heap f arguments with
  | some (.ok answer) =>
    let (v, heap) := answer.deliver m.heap
    .ok v { m with heap := heap }
  | some (.error fault) => .error fault m
  | none => .ok .nil m

/-- Calls a native function with as many arguments as it takes. -/
def run (f : Native) (arguments : List Value) : EStateM NativeFault Machine Value := fun m =>
  match f, arguments with
  | clock, _ => .ok (.float m.clock.time) { m with clock := m.clock.next }
  | input, [a] =>
    match string a with
    | .ok prompt => (Value.string <$> readLine prompt) m
    | .error fault => .error fault m
  | readText, [.string path] =>
    match m.files.readText path with
    | .ok text => .ok (.string text) m
    | .error reason => .error (.unreadable path reason) m
  | readText, [a] => .error (.expected "a file path" a.typeName) m
  | f, arguments => compute f arguments m

end LoxLang.Native

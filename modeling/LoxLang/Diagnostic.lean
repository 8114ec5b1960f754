import LoxLang.Files.Basic
import LoxLang.Token.Basic

/-!
What can go wrong with a program, phase by phase, and how it is told to the user. A fault is a cause;
its wording is said once, in `message`. A diagnostic is a fault at a place.
-/

namespace LoxLang

/-- Text that is no token. -/
inductive LexicalFault where
  | unsupported (c : Char)
  | unterminatedComment
  | unterminatedString
deriving DecidableEq, Inhabited

def LexicalFault.message : LexicalFault → String
  | unsupported c => "Unsupported character encountered: '" ++ c.toString ++ "'"
  | unterminatedComment => "Unterminated block comment."
  | unterminatedString => "Unterminated string."

/-- Tokens that are no program. -/
inductive GrammarFault where
  /-- Something else had to stand here. -/
  | expected (what : String)
  | tooManyParameters
  | tooManyArguments
  | invalidAssignmentTarget
deriving DecidableEq, Inhabited

def GrammarFault.message : GrammarFault → String
  | expected what => "Expected " ++ what ++ "."
  | tooManyParameters => "Can't have more than 255 parameters."
  | tooManyArguments => "Can't have more than 255 arguments."
  | invalidAssignmentTarget => "Invalid assignment target."

/-- A program that breaks a static rule. -/
inductive ScopeFault where
  /-- A `break` or `continue`, by its keyword, that no loop of its function encloses. -/
  | outsideLoop (keyword : String)
  | returnAtTopLevel
  | returnFromInitializer
  | thisOutsideClass
  | superOutsideClass
  | superWithoutSuperclass
  | redeclared (name : String)
  | readInOwnInitializer
  | inheritsFromItself
deriving DecidableEq, Inhabited

def ScopeFault.message : ScopeFault → String
  | outsideLoop keyword => "Can't use '" ++ keyword ++ "' outside of a for or while loop."
  | returnAtTopLevel => "Can't return from top-level code."
  | returnFromInitializer => "Can't return a value from an initializer."
  | thisOutsideClass => "Can't use 'this' outside of a class."
  | superOutsideClass => "Can't use 'super' outside of a class."
  | superWithoutSuperclass => "Can't use 'super' in a class with no superclass."
  | redeclared name => "Variable " ++ name ++ " already declared in this scope."
  | readInOwnInitializer => "Can't read local variable in its own initializer."
  | inheritsFromItself => "Class cannot inherit from itself."

/-- A statistic that needs more data than it was given. -/
inductive Statistic where
  | mean | median | mode | deviation
deriving DecidableEq, Inhabited

/-- What a native function or array method refuses. `got` is the name of a value's type. -/
inductive NativeFault where
  | expected (what got : String)
  | noLength (got : String)
  | notText (got : String)
  | notOneCharacter (length : Nat)
  | unreadable (path : String) (reason : ReadFault)
  | noData (what : Statistic)
  | notNumeric (text : String)
  | endOfInput
  | inputNotUtf8
  /-- What the engine for patterns says about one, if it has words for it. -/
  | invalidPattern (reason : Option String)
  | indexNotInteger (got : String)
  | indexOutOfRange
  | assignmentOutOfRange
  | emptyPop
  | separatorNotText (got : String)
  | itemNotText (index : Nat) (got : String)
  | invalidStep
  | invalidSliceIndex
deriving DecidableEq, Inhabited

def NativeFault.message : NativeFault → String
  | expected what got => "Expected " ++ what ++ " but got " ++ got ++ "."
  | noLength got => "Object of type '" ++ got ++ "' has no length."
  | notText got => "ord() expected a string of length 1, but " ++ got ++ " found."
  | notOneCharacter length =>
    "ord() expected a character, but string of length " ++ natText length ++ " found."
  | unreadable path reason => "Could not read '" ++ path ++ "': " ++ reason.message
  | noData .mean => "mean requires at least one data point."
  | noData .median => "no median for empty data."
  | noData .mode => "no mode for empty data."
  | noData .deviation => "std requires at least two data points."
  | notNumeric text => "Cannot convert '" ++ text ++ "' to an integer or float."
  | endOfInput => "EOF when reading a line."
  | inputNotUtf8 => ReadFault.notUtf8.message
  | invalidPattern reason => "Invalid regular expression:" ++ (reason.map (" " ++ ·)).getD ""
  | indexNotInteger got => "Array indices must be integers, not " ++ got ++ "."
  | indexOutOfRange => "Index out of range."
  | assignmentOutOfRange => "Assignment index out of range."
  | emptyPop => "Cannot pop from empty array."
  | separatorNotText got => "join() separator must be a string, not " ++ got ++ "."
  | itemNotText index got =>
    "Sequence item " ++ natText index ++ ": expected string, " ++ got ++ " found."
  | invalidStep => "Step for slice() must be a positive integer or nil."
  | invalidSliceIndex => "Indices for slice() must be nil or non-negative integers."

/-- What a running program can do wrong. -/
inductive RuntimeFault where
  | undefinedVariable (name : String)
  | undefinedProperty (name : String)
  | undefinedMethod (name : String)
  | operandsNotNumbers
  | operandsNotAddable
  | notCallable
  | arity (expected got : Nat)
  | superclassNotClass
  | noProperties
  | noFields
  | native (fault : NativeFault)
deriving DecidableEq, Inhabited

def RuntimeFault.message : RuntimeFault → String
  | undefinedVariable name => "Undefined variable '" ++ name ++ "'."
  | undefinedProperty name => "Undefined property '" ++ name ++ "'."
  | undefinedMethod name => "Undefined method: '" ++ name ++ "'."
  | operandsNotNumbers => "Operands must be numbers."
  | operandsNotAddable => "Operands must either be both numbers or both strings."
  | notCallable => "Can only call functions and classes."
  | arity expected got =>
    "Expected " ++ natText expected ++ " arguments but got " ++ natText got ++ "."
  | superclassNotClass => "Superclass must be a class."
  | noProperties => "Only instances have properties."
  | noFields => "Only instances have fields."
  | native fault => fault.message

/-- A fault of any phase. -/
inductive Fault where
  | lexical (fault : LexicalFault)
  | grammar (fault : GrammarFault)
  | scope (fault : ScopeFault)
  | runtime (fault : RuntimeFault)
deriving DecidableEq, Inhabited

namespace Fault

def message : Fault → String
  | lexical f => f.message
  | grammar f => f.message
  | scope f => f.message
  | runtime f => f.message

/-- The name of the kind of fault in messages. -/
def label : Fault → String
  | lexical _ => "LoxSyntaxError"
  | grammar _ => "LoxParseError"
  | scope _ => "LoxResolverError"
  | runtime _ => "LoxRuntimeError"

def isRuntime : Fault → Bool
  | runtime _ => true
  | _ => false

end Fault

/-- A fault at a place. `file` names the included file that the place is in, if it is in one. -/
structure Diagnostic where
  position : Position
  fault : Fault
  file : Option String := none
deriving DecidableEq, Inhabited

/-- The line shown to the user; lines and columns count from one there. -/
def Diagnostic.text (d : Diagnostic) : String :=
  natText (d.position.line + 1) ++ ":" ++ natText (d.position.column + 1) ++ ": " ++ d.fault.label ++
    ": " ++ d.fault.message ++ (d.file.map fun f => " (in " ++ f ++ ")").getD ""

end LoxLang

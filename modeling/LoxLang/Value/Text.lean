import LoxLang.Heap.Basic
import LoxLang.Text.Quoted

/-!
Values as printed text. A string prints as it is; as an item of an array it prints between quotes. An array
that is reached again while it is being printed prints as an ellipsis.
-/

namespace LoxLang

namespace Value

def boolText (b : Bool) : String :=
  if b then "True" else "False"

/-- The text of a value that is no array. -/
def scalarText (h : Heap) : Value → String
  | nil => "nil"
  | bool b => boolText b
  | number n => n.text
  | string s => s
  | native f => "<builtin fn " ++ f.name ++ ">"
  | function f => "<fn " ++ f.declaration.name.name ++ ">"
  | cls id => "<cls " ++ ((h.class? id).map ClassRecord.name).getD "" ++ ">"
  | object id =>
    "<inst " ++ (((h.object? id).bind fun o => h.class? o.cls).map ClassRecord.name).getD "" ++ ">"
  | array _ => "[...]"
  | arrayMethod _ m _ => "<builtin fn " ++ m.name ++ ">"

/-- The text of an item of an array; `nested` tells the texts of the arrays in it. -/
def itemText (h : Heap) (nested : ArrayId → String) : Value → String
  | array id => nested id
  | string s => Text.quoted s
  | v => scalarText h v

/-- The text of an array inside the arrays `around` it. Arrays inside each other are different until one
is reached again, so the nesting is no deeper than the number of arrays `n` that are not around. -/
def arrayText (h : Heap) : Nat → List ArrayId → ArrayId → String
  | 0, _, _ => "[...]"
  | n + 1, around, id =>
    if around.contains id then "[...]"
    else
      let parts := (h.items id).toList.map (itemText h (arrayText h n (id :: around)))
      "[" ++ ", ".intercalate parts ++ "]"

/-- The text that printing a value shows. -/
def text (h : Heap) : Value → String
  | array id => arrayText h (h.arrays.size + 1) [] id
  | v => scalarText h v

end Value

end LoxLang

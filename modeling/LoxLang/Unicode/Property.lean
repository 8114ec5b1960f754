import LoxLang.Unicode.Categories
import LoxLang.Unicode.Letters
import LoxLang.Unicode.Scripts
import LoxLang.Text.Blank

/-!
Properties of characters by name. Small and capital letters, blanks, dashes and underscores make no
difference in a name, nor does a leading `is`.
-/

namespace LoxLang.Unicode

/-- The table under a name. -/
def find? (name : String) (tables : List (List String × String)) : Option CharSet :=
  (tables.find? fun t => t.1.contains name).map fun t => charSet t.2

/-- The union of the categories whose short names begin with one of some letters. -/
def categoriesWith (selected : String → Bool) : CharSet :=
  .ofRanges ((categories.filter fun t => (t.1.head?.map selected).getD false).flatMap fun t =>
    (charSet t.2).ranges)

/-- The code points that have a category. -/
def assigned : CharSet :=
  (categoriesWith fun _ => true).union ⟨[(0xD800, 0xDFFF)]⟩

/-- A class of categories, by its short and long names. -/
def categoryClass? (name : String) : Option CharSet :=
  match name with
  | "l" | "letter" => some (categoriesWith fun s => s.startsWith "l")
  | "lc" | "casedletter" => some (categoriesWith (["lu", "ll", "lt"].contains ·))
  | "m" | "mark" | "combiningmark" => some (categoriesWith fun s => s.startsWith "m")
  | "n" | "number" => some (categoriesWith fun s => s.startsWith "n")
  | "p" | "punctuation" | "punct" => some (categoriesWith fun s => s.startsWith "p")
  | "s" | "symbol" => some (categoriesWith fun s => s.startsWith "s")
  | "z" | "separator" => some (categoriesWith fun s => s.startsWith "z")
  | "c" | "other" => some ((categoriesWith fun s => s.startsWith "c").union assigned.complement)
  | "cn" | "unassigned" => some assigned.complement
  | "assigned" => some assigned
  | "any" => some .all
  | "ascii" => some ⟨[(0, 0x7F)]⟩
  | _ => none

/-- A general category or a class of them. -/
def category? (name : String) : Option CharSet :=
  match categoryClass? name with
  | some s => some s
  | none => find? name categories

/-- White space. -/
def space : CharSet :=
  .ofRanges (((List.range 0x3001).filter fun n => Text.isBlank (Char.ofNat n)).map fun n => (n, n))

/-- A property that a character has or has not. -/
def binary? (name : String) : Option CharSet :=
  match name with
  | "alpha" | "alphabetic" => some alphabetic
  | "lower" | "lowercase" => some lowercase
  | "upper" | "uppercase" => some uppercase
  | "space" | "wspace" | "whitespace" => some space
  | _ => none

/-- The plain spelling of a name. -/
def plainName (name : String) : String :=
  let cs := name.toList.map Char.toLower
  let cs := match cs with
    | 'i' :: 's' :: rest => rest
    | _ => cs
  String.ofList (cs.filter fun c => c != ' ' && c != '_' && c != '-' && c.toNat < 0x80)

/-- The characters with a property. -/
def property? (name : String) : Option CharSet :=
  let name := plainName name
  match binary? name with
  | some s => some s
  | none =>
    match category? name with
    | some s => some s
    | none => find? name scripts

/-- The characters for which a property has a value. -/
def valued? (property value : String) : Option CharSet :=
  match plainName property with
  | "gc" | "generalcategory" => category? (plainName value)
  | "sc" | "script" => find? (plainName value) scripts
  | _ => none

/-- Decimal digits. -/
def digit : CharSet :=
  (category? "nd").getD .empty

/-- Letters, marks, decimal digits and connecting punctuation, and the two characters that join letters. -/
def word : CharSet :=
  .ofRanges (alphabetic.ranges ++ digit.ranges ++ [(0x200C, 0x200D)] ++
    (categoriesWith fun s => s.startsWith "m" || s == "pc").ranges)

end LoxLang.Unicode

import NamedData.Json.Value
import NamedData.Toml.Moment

/-!
# Items of TOML documents

An item is what stands behind a key. Dates and times are kept as they are
spelled until the document is complete. A key with points adds to the tables
that other keys with points have made, and to no others.
-/

namespace NamedData.Toml

inductive Item
  | string (s : String)
  | integer (n : Int)
  | float (x : Decimal.Double)
  | boolean (b : Bool)
  | moment (text : List Char)
  | array (items : List Item)
  /-- A table, and whether keys with points may add to it. -/
  | table (extensible : Bool) (pairs : List (String × Item))
deriving Inhabited

/-- Adds a value under a key, part by part. A key that is taken is found out later. -/
def insert? (value : Item) :
    (key : List String) → List (String × Item) → Option (List (String × Item))
  | [], _ => none
  | [last], pairs => some (pairs ++ [(last, value)])
  | first :: rest, pairs =>
    match pairs.find? (·.1 = first) with
    | none => (insert? value rest []).map fun inner => pairs ++ [(first, .table true inner)]
    | some (_, .table true inner) =>
      (insert? value rest inner).map fun inner =>
        pairs.map fun pair => if pair.1 = first then (first, .table true inner) else pair
    | some _ => none

/-- The key that makes a table stand for the moment that its value spells. -/
def momentKey : String := "$__toml_private_datetime"

/-- The value of a moment: its text in a common form. -/
def momentJson? (cs : List Char) : Option Json :=
  (Moment.parse? cs).map fun m => .string (toString m)

mutual

/-- The value of an item. No key of a table may be given twice. -/
def Item.toJson? : Item → Option Json
  | .string s => some (.string s)
  | .integer n => some (.int n)
  | .float x => some (.double x)
  | .boolean b => some (.bool b)
  | .moment text => momentJson? text
  | .array items => (itemsJson? items).map .array
  | .table _ [] => some (.object [])
  | .table _ ((key, item) :: pairs) =>
    if key = momentKey then
      match item with
      | .string s => momentJson? s.toList
      | _ => none
    else
      match item.toJson?, pairsJson? [key] pairs with
      | some value, some members => some (.object ((key, value) :: members))
      | _, _ => none

def itemsJson? : List Item → Option (List Json)
  | [] => some []
  | item :: items =>
    match item.toJson?, itemsJson? items with
    | some value, some values => some (value :: values)
    | _, _ => none

/-- The members of a table behind some keys that are taken. -/
def pairsJson? (taken : List String) : List (String × Item) → Option (List (String × Json))
  | [] => some []
  | (key, item) :: pairs =>
    if key ∈ taken then none
    else
      match item.toJson?, pairsJson? (key :: taken) pairs with
      | some value, some members => some ((key, value) :: members)
      | _, _ => none

end

end NamedData.Toml

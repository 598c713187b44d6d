import NamedData.Json.Distinct
import NamedData.Text.Natural

/-!
# Layers of settings

Settings come from several places, each laid over those before it. A place
gives values by name, and a name may be a path, `section.field` or `field[2]`.
Where both sides hold a section, the sections are merged field by field; in all
other cases the later value replaces the earlier one.
-/

namespace NamedData.SettingsTree

inductive Step
  | member (name : String)
  /-- An item counted from the first, or with a minus sign from the last. -/
  | item (index : Int)
deriving DecidableEq, Repr

def isNameChar (c : Char) : Bool := c.isAlphanum || c = ' ' || c = '_' || c = '-'

def skipBlanks (cs : List Char) : List Char := cs.dropWhile fun c => c = ' ' || c = '\t'

/-- Reads the number of an item, which has 64 bits with a sign, and the blanks around it. -/
def readIndex? (cs : List Char) : Option (Int × List Char) :=
  let (negative, cs) :=
    match skipBlanks cs with
    | '-' :: cs => (true, cs)
    | cs => (false, cs)
  let (digits, rest) := cs.span Char.isDigit
  (Text.digits? digits).bind fun n =>
    let index : Int := if negative then -n else n
    if -(Decimal.twoTo 63 : Int) ≤ index ∧ index < Decimal.twoTo 63 then
      some (index, skipBlanks rest)
    else none

/-- Reads the steps behind the first name. Each uses up one unit of `fuel`. -/
def readSteps : (fuel : Nat) → List Char → Option (List Step)
  | 0, _ => none
  | fuel + 1, cs =>
    match cs with
    | [] => some []
    | '.' :: cs =>
      match cs.span isNameChar with
      | ([], _) => none
      | (name, rest) => (readSteps fuel rest).map (.member (String.ofList name) :: ·)
    | '[' :: cs =>
      match readIndex? cs with
      | some (index, ']' :: rest) => (readSteps fuel rest).map (.item index :: ·)
      | _ => none
    | _ => none

/-- The steps that a name stands for; one that is no path stands for itself. -/
def path (name : String) : List Step :=
  let steps : Option (List Step) :=
    match name.toList.span isNameChar with
    | ([], _) => none
    | (first, rest) =>
      (readSteps (rest.length + 1) rest).map (.member (String.ofList first) :: ·)
  steps.getD [.member name]

def members : Json → List (String × Json)
  | .object members => members
  | _ => []

def items : Json → List Json
  | .array items => items
  | _ => []

mutual

def overlay (old : Json) : Json → Json
  | .object inner => overlayMembers old inner
  | value => value

def overlayMembers (old : Json) : List (String × Json) → Json
  | [] => old
  | (name, value) :: rest =>
    let before := (Json.member? name old).getD (.object [])
    overlayMembers (.object (Json.putMember name (overlay before value) (members old))) rest

end

/-- The place of an item in a list of some length. -/
def place (length : Nat) : Int → Nat
  | .ofNat index => index
  | .negSucc index => length - (index + 1)

/-- A list with one item changed, filled up with nulls if it is too short. -/
def modifyItem (index : Int) (f : Json → Json) (items : List Json) : List Json :=
  let index := place items.length index
  (items ++ List.replicate (index + 1 - items.length) Json.null).modify index f

/-- Lays a value over the one at the end of a path. What stands in the way becomes a
section or a list. -/
def assign (value : Json) : List Step → Json → Json
  | [], _ => value
  | [.member name], tree =>
    let before := (Json.member? name tree).getD (.object [])
    .object (Json.putMember name (overlay before value) (members tree))
  | .member name :: rest, tree =>
    let before := (Json.member? name tree).getD .null
    .object (Json.putMember name (assign value rest before) (members tree))
  | .item index :: rest, tree => .array (modifyItem index (assign value rest) (items tree))

def merge (tree : Json) (values : List (String × Json)) : Json :=
  values.foldl (fun tree (name, value) => assign value (path name) tree) tree

end NamedData.SettingsTree

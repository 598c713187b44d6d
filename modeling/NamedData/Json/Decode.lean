import NamedData.Json.Value

/-!
# Decoding JSON

Readers from JSON values to the types of the program. A record is written as an
object, whose unknown members are ignored and whose known members may not be
repeated, or as an array of its fields in their order.
-/

namespace NamedData.Json

def bool? : Json → Option Bool
  | .bool b => some b
  | _ => none

def string? : Json → Option String
  | .string s => some s
  | _ => none

def natUpTo? (limit : Nat) : Json → Option Nat
  | .int n => if 0 ≤ n ∧ n ≤ limit then some n.toNat else none
  | _ => none

def uint16? (j : Json) : Option UInt16 := (natUpTo? 0xffff j).map UInt16.ofNat

def uint32? (j : Json) : Option UInt32 := (natUpTo? 0xffffffff j).map UInt32.ofNat

def nat? (j : Json) : Option Nat := natUpTo? 0xffffffffffffffff j

def double? : Json → Option Decimal.Double
  | .int n => some (.ofInt n)
  | .double x => some x
  | _ => none

def list? {α : Type} (item? : Json → Option α) : Json → Option (List α)
  | .array items => items.mapM item?
  | _ => none

def nullable? {α : Type} (value? : Json → Option α) : Json → Option (Option α)
  | .null => some none
  | j => (value? j).map some

/-- One of some named constants: its name, or an object that maps its name to null. -/
def constant? {α : Type} (name : α → String) (all : List α) : Json → Option α
  | .string s => all.find? fun a => name a = s
  | .object [(s, .null)] => all.find? fun a => name a = s
  | _ => none

/-- One of some named constants inside a tagged record, where its name may also be
mapped to an empty object. -/
def innerConstant? {α : Type} (name : α → String) (all : List α) : Json → Option α
  | .object [(s, .object [])] => constant? name all (.string s)
  | j => constant? name all j

/-- The fields of a record that have not been read yet. -/
inductive Fields
  | named (members : List (String × Json))
  | positional (items : List Json)

namespace Fields

def ofJson? : Json → Option Fields
  | .object members => some (.named members)
  | .array items => some (.positional items)
  | _ => none

/-- The value of a field, if it is there, and the fields after it. -/
def next? (name : String) : Fields → Option (Option Json × Fields)
  | .named members =>
    match members.filter (·.1 = name) with
    | [] => some (none, .named members)
    | [(_, value)] => some (some value, .named members)
    | _ => none
  | .positional [] => some (none, .positional [])
  | .positional (item :: items) => some (some item, .positional items)

def required {α : Type} (name : String) (value? : Json → Option α) : StateT Fields Option α :=
  fun fields =>
    match fields.next? name with
    | some (some j, rest) => (value? j).map (·, rest)
    | _ => none

def withDefault {α : Type} (name : String) (default : α) (value? : Json → Option α) :
    StateT Fields Option α :=
  fun fields =>
    match fields.next? name with
    | some (some j, rest) => (value? j).map (·, rest)
    | some (none, rest) => some (default, rest)
    | none => none

/-- A field that may be null, and that an object may leave out. -/
def optional {α : Type} (name : String) (value? : Json → Option α) :
    StateT Fields Option (Option α) :=
  fun fields =>
    match fields.next? name with
    | some (some j, rest) => (nullable? value? j).map (·, rest)
    | some (none, .named members) => some (none, .named members)
    | _ => none

/-- Runs a reader of fields. No positional field may be left over. -/
def run {α : Type} (reader : StateT Fields Option α) (fields : Fields) : Option α :=
  match reader fields with
  | some (a, .named _) => some a
  | some (a, .positional []) => some a
  | _ => none

end Fields

/-- The tag of a record and its other fields. The tag is the first of the
positional fields, and any one of the named. -/
def tagged? (tag : String) : Json → Option (String × Fields)
  | .object members =>
    match members.filter (·.1 = tag) with
    | [(_, .string name)] => some (name, .named (members.filter (·.1 ≠ tag)))
    | _ => none
  | .array (.string name :: items) => some (name, .positional items)
  | _ => none

def record? {α : Type} (reader : StateT Fields Option α) (j : Json) : Option α :=
  (Fields.ofJson? j).bind (Fields.run reader)

end NamedData.Json

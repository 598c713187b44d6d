import NamedData.Json.Value

/-!
# Repeated members

Where a repeated name in an object means that the later member replaces the
earlier one, the object is first brought to a form without repeated names.
-/

namespace NamedData.Json

/-- Members with one more, which replaces one of the same name. -/
def putMember (name : String) (value : Json) :
    List (String × Json) → List (String × Json)
  | [] => [(name, value)]
  | member :: members =>
    if member.1 = name then (name, value) :: members
    else member :: putMember name value members

def member? (name : String) : Json → Option Json
  | .object members => (members.find? (·.1 = name)).map (·.2)
  | _ => none

mutual

/-- A value without repeated names, the last of the repeated members being kept. -/
def distinct : Json → Json
  | .array items => .array (distinctItems items)
  | .object members => .object (distinctMembers [] members)
  | scalar => scalar

def distinctItems : List Json → List Json
  | [] => []
  | item :: items => distinct item :: distinctItems items

def distinctMembers (done : List (String × Json)) :
    List (String × Json) → List (String × Json)
  | [] => done
  | (name, value) :: members => distinctMembers (putMember name (distinct value) done) members

end

end NamedData.Json

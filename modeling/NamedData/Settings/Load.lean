import NamedData.Json.Reader
import NamedData.Settings.Codec
import NamedData.Settings.Tree
import NamedData.Toml.Document

/-!
# Loading settings

A configuration file may give some settings, and environment variables override
them. What neither gives keeps its default. The result must describe a daemon
that can run.
-/

namespace NamedData.Settings

/-- A configuration file, by the format that its name promises. -/
inductive Source
  | json (text : String)
  | toml (text : String)
deriving DecidableEq, Repr

inductive LoadError
  | unreadable
  | unsuitable
  | fault (cause : Fault)
deriving DecidableEq, Repr

/-- The values that a file gives. A file whose outermost value is no table gives none. -/
def Source.values? : Source → Option (List (String × Json))
  | .json text => (Json.parse? text).map fun j => SettingsTree.members j.distinct
  | .toml text => (Toml.parse? text).map SettingsTree.members

/-- Replaces each pair of underscores by a point. -/
def parted : List Char → List Char
  | '_' :: '_' :: cs => '.' :: parted cs
  | c :: cs => c :: parted cs
  | [] => []

/-- Lower case, for the letters that occur in names of settings: besides ASCII letters
the Kelvin sign, which is a form of `k`. -/
def lowerCase (c : Char) : Char := if c.toNat = 0x212a then 'k' else c.toLower

/-- The name of the setting that an environment variable overrides. Two underscores
part a section from a field. -/
def settingName? (name : String) : Option String :=
  match name.toList.map lowerCase with
  | 'c' :: 'e' :: 'f' :: 'n' :: 'd' :: '_' :: rest => some (String.ofList (parted rest))
  | _ => none

def variableNames : List String :=
  let upper (name : String) : String := name.map Char.toUpper
  (SettingsTree.members ({} : Settings).toJson).flatMap fun (name, value) =>
    match value with
    | .object fields => fields.map fun (field, _) => s!"CEFND_{upper name}__{upper field}"
    | _ => [s!"CEFND_{upper name}"]

/-- The values that environment variables give, all of them strings. -/
def environmentValues (environment : List (String × String)) : List (String × Json) :=
  environment.filterMap fun (name, value) => (settingName? name).map (·, .string value)

/-- The settings that a file and the environment give, in that order. -/
def load (file : Option Source) (environment : List (String × String)) :
    Except LoadError Settings :=
  let fileValues : Option (List (String × Json)) :=
    match file with
    | none => some []
    | some source => source.values?
  match fileValues with
  | none => .error .unreadable
  | some values =>
    let tree := SettingsTree.merge (.object []) (values ++ environmentValues environment)
    match Settings.ofJson? .lenient tree with
    | none => .error .unsuitable
    | some settings =>
      match settings.fault? with
      | some cause => .error (.fault cause)
      | none => .ok settings

end NamedData.Settings

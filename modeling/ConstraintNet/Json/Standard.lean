import ConstraintNet.Json.Library
import ConstraintNet.Json.Read
import ConstraintNet.Json.Write

/-!
# The library that programs run with

A record may also be an array of the values of its fields, and a word an object that maps
it to `null`. Inside of another record a tag may be the number of the form. Fields without
a meaning are passed over unread, unless everything is read first.
-/

set_option autoImplicit false

namespace ConstraintNet.Json

mutual

def ofData : Data → Json
  | .nothing => .null
  | .bool b => .bool b
  | .number x => ofFloat x
  | .text s => ofString s
  | .list items => .array (ofItems items)
  | .record members => record (ofMembers members)

def ofItems : List Data → List Json
  | [] => []
  | d :: ds => ofData d :: ofItems ds

def ofMembers : List (String × Data) → List (String × Json)
  | [] => []
  | (key, d) :: ms => (key, ofData d) :: ofMembers ms

end

def isNull : Json → Bool
  | .null => true
  | _ => false

def word? {α : Type} (w : Words α) : Json → Option α
  | .string s => s.bind w.find?
  | .object [(key, .null)] => key.bind w.find?
  | _ => none

/-- A field that may be missing but not repeated. -/
def field? (members : List (Option String × Json)) (key : String) : Option (Option Json) :=
  if lacks members key then some none else (member? members key).map some

def hasReadableKeys (members : List (Option String × Json)) : Bool := members.all (·.1.isSome)

def fields? (names : List String) : Json → Option (List (Option Json))
  | .object members => do
    guard (hasReadableKeys members)
    names.mapM (field? members)
  | .array items => do
    guard (items.length ≤ names.length)
    return items.map some ++ List.replicate (names.length - items.length) none
  | _ => none

def ofTag? {α : Type} (f : Forms α) (nested : Bool) : Json → Option α
  | .string s => s.bind f.find?
  | .number n => if nested then n.natural?.bind (f.all[·]?) else none
  | _ => none

def formed? {α : Type} (f : Forms α) (nested : Bool) : Json → Option (α × List Json)
  | .object members => do
    let form ← ofTag? f nested (← member? members f.tag)
    return (form, ← (f.fields form).mapM (member? members))
  | .array (tag :: values) => do
    let form ← ofTag? f nested tag
    guard (values.length = (f.fields form).length)
    return (form, values)
  | _ => none

def maxDepth : Nat := 127

def readAll? (s : String) : Option Json := do
  let j ← read? s
  guard (j.isSound && j.depth ≤ maxDepth)
  return j

def library : JsonLibrary where
  Tree := Json
  print d := (ofData d).toText
  tree := ofData
  read? := read?
  readAll? := readAll?
  limit := maxDepth
  isNothing := isNull
  bool? := bool?
  number? := number?
  text? := text?
  list? := items?
  word? := word?
  fields? := fields?
  formed? := formed?

end ConstraintNet.Json

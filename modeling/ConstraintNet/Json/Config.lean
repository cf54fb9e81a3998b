import ConstraintNet.Config
import ConstraintNet.Json.Standard

/-!
# Settings as JSON

Settings are a record whose missing fields take their standard values.
-/

set_option autoImplicit false

namespace ConstraintNet

namespace Config

def fields : List String := ["tolerance", "fixpoint", "intermediate_prefix"]

def data (c : Config) : Data :=
  .record (fields.zip [.number c.tolerance, .bool c.fixpoint, .text c.stem])

end Config

namespace JsonLibrary

variable (lib : JsonLibrary)

def fieldOr? {α : Type} (standard : α) (read? : lib.Tree → Option α) :
    Option lib.Tree → Option α
  | none => some standard
  | some t => read? t

def writeConfig (c : Config) : String := lib.print c.data

/-- Settings of a text, flawed ones included. -/
def readConfig? (text : String) : Option Config := do
  match ← lib.fields? Config.fields (← lib.read? text) with
  | [tolerance, fixpoint, stem] => return {
      tolerance := ← lib.fieldOr? Config.standard.tolerance lib.number? tolerance
      fixpoint := ← lib.fieldOr? Config.standard.fixpoint lib.bool? fixpoint
      stem := ← lib.fieldOr? Config.standard.stem lib.text? stem }
  | _ => none

end JsonLibrary

namespace Config

def toJson (c : Config) : String := Json.library.writeConfig c

def ofJson? (text : String) : Option Config := Json.library.readConfig? text

end Config

end ConstraintNet

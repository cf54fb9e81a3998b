import ConstraintNet.Json.Config
import ConstraintNet.Network.Snapshot

/-!
# Snapshots and reports as JSON

A variable without a value has `null` for it, and when it is read it need not have any.
-/

set_option autoImplicit false

namespace ConstraintNet

namespace Kind

def words : Words Kind where
  all := [.named, .intermediate, .constant]
  word
    | .named => "named"
    | .intermediate => "intermediate"
    | .constant => "constant"
  mem_all k := by cases k <;> simp
  injective k k' := by cases k <;> cases k' <;> simp

def word (k : Kind) : String := words.word k

end Kind

namespace State

def words : Words State where
  all := [.unset, .explicit, .solved, .environment]
  word
    | .unset => "unset"
    | .explicit => "explicit"
    | .solved => "solved"
    | .environment => "environment"
  mem_all s := by cases s <;> simp
  injective s s' := by cases s <;> cases s' <;> simp

def word (s : State) : String := words.word s

def ofWord? (s : String) : Option State := words.find? s

end State

namespace VariableSnapshot

def fields : List String := ["name", "kind", "value", "state"]

def data (x : VariableSnapshot) : Data :=
  .record (fields.zip
    [.text x.name, .text x.kind.word, .optional x.value, .text x.state.word])

end VariableSnapshot

namespace Snapshot

def fields : List String := ["variables", "relationships"]

def data (s : Snapshot) : Data :=
  .record (fields.zip
    [.list (s.vars.map VariableSnapshot.data), .list (s.relationships.map Data.text)])

end Snapshot

namespace JsonLibrary

variable (lib : JsonLibrary)

def optional? : Option lib.Tree → Option (Option Float)
  | none => some none
  | some t => if lib.isNothing t then some none else (lib.number? t).map some

def variableSnapshot? (t : lib.Tree) : Option VariableSnapshot := do
  match ← lib.fields? VariableSnapshot.fields t with
  | [some name, some kind, value, some state] => return {
      name := ← lib.text? name
      kind := ← lib.word? Kind.words kind
      value := ← lib.optional? value
      state := ← lib.word? State.words state }
  | _ => none

def snapshot? (t : lib.Tree) : Option Snapshot := do
  match ← lib.fields? Snapshot.fields t with
  | [some vars, some relationships] => return {
      vars := ← (← lib.list? vars).mapM lib.variableSnapshot?
      relationships := ← (← lib.list? relationships).mapM lib.text? }
  | _ => none

def writeSnapshot (s : Snapshot) : String := lib.print s.data

def readSnapshot? (text : String) : Option Snapshot := do lib.snapshot? (← lib.read? text)

end JsonLibrary

def Snapshot.toJson (s : Snapshot) : String := Json.library.writeSnapshot s

def Snapshot.ofJson? (text : String) : Option Snapshot := Json.library.readSnapshot? text

def Json.ofNat (n : Nat) : Json := .number ⟨false, ⟨Nat.toDigits 10 n, [], none⟩⟩

def Json.ofReport (r : Report) : Json :=
  record [("digest", ofNat r.digest), ("passes", ofNat r.passes), ("solved", ofNat r.solved),
    ("pending", ofNat r.pending)]

def Report.toJson (r : Report) : String := (Json.ofReport r).toText

end ConstraintNet

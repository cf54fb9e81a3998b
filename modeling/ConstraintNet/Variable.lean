/-!
# Variables

A variable holds nothing, a value pinned by the caller or by the environment, or
a value solved in some digest. A solved value counts only in its own digest, so
an older one reads as unknown; a pinned value counts in every digest.
-/

set_option autoImplicit false

namespace ConstraintNet

structure VariableId where
  index : Nat
  deriving DecidableEq

structure RelationshipId where
  index : Nat
  deriving DecidableEq

def VariableId.label (v : VariableId) : String := "v" ++ v.index.repr

def RelationshipId.label (r : RelationshipId) : String := "r" ++ r.index.repr

abbrev Digest := Nat

abbrev WatchId := Nat

inductive Kind where
  | named
  /-- Result of a subexpression. -/
  | intermediate
  /-- A literal; its value never changes. -/
  | constant
  deriving DecidableEq

inductive State where
  | unset
  | explicit
  | solved
  | environment
  deriving DecidableEq

/-- The fields that a variable has for its value. -/
structure Cell where
  value? : Option Float
  state : State
  digest? : Option Digest

namespace Cell

def blank : Cell := ⟨none, .unset, none⟩

def literal (value : Float) : Cell := { blank with value? := some value, state := .explicit }

def clear (_ : Cell) : Cell := { value? := none, state := .unset, digest? := none }

def assign (c : Cell) (value : Float) (s : State) : Cell :=
  if s = .unset then c.clear else { value? := some value, state := s, digest? := none }

def store (_ : Cell) (value : Float) (d : Digest) : Cell :=
  { value? := some value, state := .solved, digest? := some d }

def isCurrent (c : Cell) (d : Digest) : Bool :=
  match c.state with
  | .explicit | .environment => true
  | .solved => c.digest? = some d
  | .unset => false

def valueAt (c : Cell) (d : Digest) : Option Float := if c.isCurrent d then c.value? else none

/-- What the writers can make of the fields. -/
inductive Written : Cell → Prop
  | blank : Written blank
  | literal (value : Float) : Written (literal value)
  | clear {c : Cell} (h : Written c) : Written c.clear
  | assign {c : Cell} (h : Written c) (value : Float) (s : State) : Written (c.assign value s)
  | store {c : Cell} (h : Written c) (value : Float) (d : Digest) : Written (c.store value d)

theorem Written.valued {c : Cell} (h : c.Written) : c.value?.isSome ↔ c.state ≠ .unset := by
  cases h with
  | blank | literal | clear | store => simp [Cell.blank, Cell.literal, Cell.clear, Cell.store]
  | assign _ _ s => cases s <;> simp [Cell.assign, Cell.clear]

end Cell

/-- What the fields of a variable can say together. Only a derived value has a digest. -/
inductive Holding where
  | unset
  | explicit (value : Float)
  | environment (value : Float)
  | solved (value : Float) (digest : Option Digest)

namespace Holding

def value? : Holding → Option Float
  | .unset => none
  | .explicit v | .environment v | .solved v _ => some v

def state : Holding → State
  | .unset => .unset
  | .explicit _ => .explicit
  | .environment _ => .environment
  | .solved _ _ => .solved

def digest? : Holding → Option Digest
  | .solved _ d => d
  | _ => none

def isPinned : Holding → Bool
  | .explicit _ | .environment _ => true
  | .unset | .solved _ _ => false

def valueAt (d : Digest) : Holding → Option Float
  | .unset => none
  | .explicit v | .environment v => some v
  | .solved v at? => if at? = some d then some v else none

def ofState (value : Float) : State → Holding
  | .unset => .unset
  | .explicit => .explicit value
  | .environment => .environment value
  | .solved => .solved value none

def cell (h : Holding) : Cell := ⟨h.value?, h.state, h.digest?⟩

theorem cell_ofState (c : Cell) (v : Float) (s : State) : (ofState v s).cell = c.assign v s := by
  cases s <;> rfl

theorem cell_solved (c : Cell) (v : Float) (d : Digest) :
    (solved v (some d)).cell = c.store v d := rfl

theorem valueAt_cell (h : Holding) (d : Digest) : h.cell.valueAt d = h.valueAt d := by
  cases h with
  | unset | explicit | environment => rfl
  | solved v at? =>
    by_cases hd : at? = some d <;>
      simp [cell, Cell.valueAt, Cell.isCurrent, valueAt, value?, state, digest?, hd]

theorem written_iff {c : Cell} : c.Written ↔ ∃ h : Holding, h.cell = c := by
  constructor
  · intro h
    cases h with
    | blank | clear => exact ⟨.unset, rfl⟩
    | literal v => exact ⟨.explicit v, rfl⟩
    | @assign c _ v s => exact ⟨ofState v s, cell_ofState c v s⟩
    | @store c _ v d => exact ⟨.solved v (some d), cell_solved c v d⟩
  · rintro ⟨h, rfl⟩
    cases h with
    | unset => exact .blank
    | explicit v => exact .literal v
    | environment v => exact Cell.Written.blank.assign v .environment
    | solved v d =>
      cases d with
      | none => exact Cell.Written.blank.assign v .solved
      | some d => exact Cell.Written.blank.store v d

@[simp] theorem state_ofState (v : Float) (s : State) : (ofState v s).state = s := by
  cases s <;> rfl

theorem valueAt_of_isPinned {h : Holding} (hp : h.isPinned) (d : Digest) :
    h.valueAt d = h.value? := by
  cases h <;> simp_all [isPinned, valueAt, value?]

theorem value?_of_valueAt {h : Holding} {d : Digest} {v : Float} (hv : h.valueAt d = some v) :
    h.value? = some v := by
  cases h <;> simp_all [valueAt, value?]

end Holding

structure Variable where
  name : String
  kind : Kind
  holding : Holding
  /-- The relationships that touch it, in order of attachment. -/
  relationships : List RelationshipId
  /-- Watches told of each solved value, in order of registration. -/
  watches : List WatchId

structure Contradiction where
  name : String
  held : Float
  attempted : Float

namespace Variable

def blank (name : String) (kind : Kind) : Variable := ⟨name, kind, .unset, [], []⟩

def literal (name : String) (value : Float) : Variable :=
  ⟨name, .constant, .explicit value, [], []⟩

def cell (x : Variable) : Cell := x.holding.cell

def isConstant (x : Variable) : Bool := x.kind = .constant

/-- Constants keep their value whatever they are told to hold. -/
def hold (x : Variable) (h : Holding) : Variable :=
  if x.isConstant then x else { x with holding := h }

def assign (x : Variable) (value : Float) (s : State) : Variable := x.hold (.ofState value s)

def clear (x : Variable) : Variable := x.hold .unset

def attach (x : Variable) (r : RelationshipId) : Variable :=
  if r ∈ x.relationships then x else { x with relationships := x.relationships ++ [r] }

def detach (x : Variable) (r : RelationshipId) : Variable :=
  { x with relationships := x.relationships.filter (· ≠ r) }

def watch (x : Variable) (w : WatchId) : Variable := { x with watches := x.watches ++ [w] }

/-- A value derived in a digest. Within the tolerance of a value already known in
that digest nothing changes, which is `none`; outside of it the two contradict. -/
def settle (x : Variable) (value : Float) (d : Digest) (tolerance : Float) :
    Except Contradiction (Option Variable) :=
  match x.holding.valueAt d with
  | some held =>
    if (held - value).abs ≤ tolerance then .ok none else .error ⟨x.name, held, value⟩
  | none => .ok (some { x with holding := .solved value (some d) })

/-- Nothing is attached and no value is pinned; a constant's own value does not
count as pinned. -/
def isLoose (x : Variable) : Bool :=
  x.relationships.isEmpty && (x.isConstant || !x.holding.isPinned)

@[simp] theorem name_hold (x : Variable) (h : Holding) : (x.hold h).name = x.name := by
  unfold hold; split <;> rfl

@[simp] theorem kind_hold (x : Variable) (h : Holding) : (x.hold h).kind = x.kind := by
  unfold hold; split <;> rfl

@[simp] theorem relationships_hold (x : Variable) (h : Holding) :
    (x.hold h).relationships = x.relationships := by
  unfold hold; split <;> rfl

theorem cell_hold (x : Variable) (h : Holding) :
    (x.hold h).cell = if x.isConstant then x.cell else h.cell := by
  unfold hold; split <;> rfl

theorem cell_assign (x : Variable) (value : Float) (s : State) :
    (x.assign value s).cell = if x.isConstant then x.cell else x.cell.assign value s := by
  rw [assign, cell_hold, Holding.cell_ofState x.cell]

theorem cell_clear (x : Variable) :
    x.clear.cell = if x.isConstant then x.cell else x.cell.clear := x.cell_hold .unset

theorem cell_settle {x y : Variable} {value tolerance : Float} {d : Digest}
    (h : x.settle value d tolerance = .ok (some y)) : y.cell = x.cell.store value d := by
  unfold settle at h
  split at h
  · split at h <;> cases h
  · cases h
    rfl

theorem mem_relationships_attach {x : Variable} {r s : RelationshipId} :
    s ∈ (x.attach r).relationships ↔ s = r ∨ s ∈ x.relationships := by
  unfold attach
  split
  · constructor
    · exact .inr
    · rintro (rfl | h) <;> assumption
  · simp [or_comm]

theorem mem_relationships_detach {x : Variable} {r s : RelationshipId} :
    s ∈ (x.detach r).relationships ↔ s ∈ x.relationships ∧ s ≠ r := by
  simp [detach]

end Variable

end ConstraintNet

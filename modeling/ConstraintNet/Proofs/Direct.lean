import ConstraintNet.Network.Lowering
import ConstraintNet.Proofs.Forward

/-!
# Direct evaluation

The value of an expression by recursion on it, over the values that are pinned in a
network, and what it means that a variable stands for an expression. In a network
solved forwards a variable that stands for an expression means its value.
-/

set_option autoImplicit false

namespace ConstraintNet

def finite? (x : Float) : Option Float := if x.isFinite then some x else none

namespace Operator

def result? (op : Operator) (a b : Float) : Option Float :=
  if op = .div ∧ b.abs < zeroEpsilon then none else finite? (op.apply a b)

/-- A quotient of something that is not zero by zero, or a result beyond the doubles. -/
def Faults (op : Operator) (a b : Float) : Prop :=
  (op = .div ∧ b.abs < zeroEpsilon ∧ ¬ a.abs < zeroEpsilon) ∨
    (¬ (op = .div ∧ b.abs < zeroEpsilon) ∧ ¬ (op.apply a b).isFinite)

theorem forward_eq {op : Operator} {a b : Float} (h : ¬ (op = .div ∧ b.abs < zeroEpsilon))
    (v : VariableId) : op.forward v a b = .ok (.derived v (op.apply a b)) := by
  cases op with
  | div =>
    have hz : ¬ b.abs < zeroEpsilon := fun hz => h ⟨rfl, hz⟩
    simp [forward, divideInto, hz, apply]
  | _ => rfl

theorem Faults.result?_eq_none {op : Operator} {a b : Float} (h : op.Faults a b) :
    op.result? a b = none := by
  unfold result?
  rcases h with ⟨hop, hb, -⟩ | ⟨hn, hf⟩
  · rw [if_pos ⟨hop, hb⟩]
  · rw [if_neg hn, finite?, if_neg hf]

end Operator

namespace Relation

variable {known : VariableId → Option Float}

theorem derive_arithmetic (op : Operator) (v : VariableId) {l r : VariableId} {a b : Float}
    (ha : known l = some a) (hb : known r = some b) :
    (∀ value, (arithmetic op v l r).derive known = .ok (.derived v value) ↔
      op.result? a b = some value) ∧
    ((∃ fault, (arithmetic op v l r).derive known = .error fault) ↔ op.Faults a b) := by
  have hsolve : (arithmetic op v l r).solve known = op.forward v a b := by
    simp only [solve, ha, hb]
  unfold derive
  rw [hsolve]
  by_cases hz : op = .div ∧ b.abs < zeroEpsilon
  · obtain ⟨rfl, hb⟩ := hz
    by_cases hn : a.abs < zeroEpsilon
    · simp [Operator.forward, divideInto, Operator.result?, Operator.Faults, hb, hn]
    · simp [Operator.forward, divideInto, Operator.result?, Operator.Faults, hb, hn]
  · have hfaults : op.Faults a b ↔ ¬ (op.apply a b).isFinite :=
      ⟨fun h => h.elim (fun h => absurd ⟨h.1, h.2.1⟩ hz) And.right, fun h => .inr ⟨hz, h⟩⟩
    rw [Operator.forward_eq hz, Operator.result?, if_neg hz, hfaults]
    by_cases hf : (op.apply a b).isFinite
    · simp [finite?, hf]
    · simp [finite?, hf]

theorem derive_custom (name : String) (f : HostFunction) (v : VariableId)
    {inputs : List VariableId} {values : List Float} (h : allKnown known inputs = some values) :
    (∀ value, (custom name f inputs v).derive known = .ok (.derived v value) ↔
      finite? (f values) = some value) ∧
    ((∃ fault, (custom name f inputs v).derive known = .error fault) ↔
      ¬ (f values).isFinite) := by
  have hsolve : (custom name f inputs v).solve known = .ok (.derived v (f values)) := by
    simp only [solve, h]
  unfold derive
  rw [hsolve]
  by_cases hf : (f values).isFinite <;> simp [finite?, hf]

end Relation

/-- `part` stands somewhere in an expression. -/
inductive Expr.Part (part : Expr) : Expr → Prop
  | refl : Part part part
  | left {symbol : String} {left right : Expr} (h : Part part left) :
    Part part (.op symbol left right)
  | right {symbol : String} {left right : Expr} (h : Part part right) :
    Part part (.op symbol left right)
  | param {name : String} {params : List Expr} {e : Expr} (he : e ∈ params)
      (h : Part part e) : Part part (.call name params)

theorem Expr.Part.trans {a b c : Expr} (h : Part a b) (h' : Part b c) : Part a c := by
  induction h' with
  | refl => exact h
  | left _ ih => exact .left ih
  | right _ ih => exact .right ih
  | param he _ ih => exact .param he ih

namespace Network

def pinnedAt (net : Network) (v : VariableId) : Option Float := do
  let x ← net.variableAt v
  if x.holding.isPinned then x.holding.value? else none

mutual

def direct (net : Network) : Expr → Option Float
  | .ident name => do net.pinnedAt (← net.lookup name)
  | .number value => finite? value
  | .op symbol left right => do
    let op ← Operator.ofSymbol? symbol
    let a ← net.direct left
    let b ← net.direct right
    op.result? a b
  | .call name params => do
    let f ← (net.function name params.length).toOption
    let values ← net.directAll params
    finite? (f values)

def directAll (net : Network) : List Expr → Option (List Float)
  | [] => some []
  | e :: es => do
    let a ← net.direct e
    let rest ← net.directAll es
    return a :: rest

end

def Fails (net : Network) : Expr → Prop
  | .ident _ | .number _ => False
  | .op symbol left right => ∃ op a b, Operator.ofSymbol? symbol = some op ∧
      net.direct left = some a ∧ net.direct right = some b ∧ op.Faults a b
  | .call name params => ∃ f values, net.function name params.length = .ok f ∧
      net.directAll params = some values ∧ ¬ (f values).isFinite

theorem Fails.direct_eq_none {net : Network} {e : Expr} (h : net.Fails e) :
    net.direct e = none := by
  cases e with
  | ident name => exact h.elim
  | number value => exact h.elim
  | op symbol left right =>
    obtain ⟨op, a, b, hop, ha, hb, hf⟩ := h
    simp [direct, hop, ha, hb, hf.result?_eq_none]
  | call name params =>
    obtain ⟨f, values, hfun, hvalues, hf⟩ := h
    simp [direct, hfun, hvalues, finite?, hf, Except.toOption]

theorem isSome_direct_of_mem {net : Network} {es : List Expr}
    (h : (net.directAll es).isSome) {e : Expr} (he : e ∈ es) : (net.direct e).isSome := by
  induction es with
  | nil => cases he
  | cons first es ih =>
    unfold directAll at h
    cases hfirst : net.direct first with
    | none => simp [hfirst] at h
    | some a =>
      cases hrest : net.directAll es with
      | none => simp [hfirst, hrest] at h
      | some rest =>
        rcases List.mem_cons.mp he with rfl | hmem
        · simp [hfirst]
        · exact ih (by simp [hrest]) hmem

theorem isSome_direct_part {net : Network} {part e : Expr} (hp : part.Part e)
    (h : (net.direct e).isSome) : (net.direct part).isSome := by
  induction hp with
  | refl => exact h
  | @left symbol left right _ ih =>
    unfold direct at h
    cases hop : Operator.ofSymbol? symbol with
    | none => simp [hop] at h
    | some op =>
      cases hl : net.direct left with
      | none => simp [hop, hl] at h
      | some a => exact ih (by simp [hl])
  | @right symbol left right _ ih =>
    unfold direct at h
    cases hop : Operator.ofSymbol? symbol with
    | none => simp [hop] at h
    | some op =>
      cases hl : net.direct left with
      | none => simp [hop, hl] at h
      | some a =>
        cases hr : net.direct right with
        | none => simp [hop, hl, hr] at h
        | some b => exact ih (by simp [hr])
  | @param name params e he _ ih =>
    unfold direct at h
    cases hf : (net.function name params.length).toOption with
    | none => simp [hf] at h
    | some f =>
      cases hvalues : net.directAll params with
      | none => simp [hf, hvalues] at h
      | some values => exact ih (isSome_direct_of_mem (by simp [hvalues]) he)

theorem not_fails_part {net : Network} {part e : Expr} (hp : part.Part e)
    (h : (net.direct e).isSome) : ¬ net.Fails part := by
  intro hf
  have hpart := isSome_direct_part hp h
  rw [hf.direct_eq_none] at hpart
  cases hpart

mutual

/-- A variable stands for an expression: a name for itself, a constant for its number,
a result for the operation or call that its relation was made for. -/
def Lowered (net : Network) : Expr → VariableId → Prop
  | .ident name, v => net.lookup name = some v
  | .number value, v => ∃ x, net.variableAt v = some x ∧ x.holding = .explicit value
  | .op symbol left right, v => ∃ op l r, Operator.ofSymbol? symbol = some op ∧
      net.Lowered left l ∧ net.Lowered right r ∧ net.Relates (.arithmetic op v l r)
  | .call name params, v => ∃ f inputs, net.function name params.length = .ok f ∧
      net.LoweredAll params inputs ∧ net.Relates (.custom name f inputs v)

def LoweredAll (net : Network) : List Expr → List VariableId → Prop
  | [], vs => vs = []
  | e :: es, vs => ∃ v rest, vs = v :: rest ∧ net.Lowered e v ∧ net.LoweredAll es rest

end

theorem LoweredAll.of_mem {net : Network} {es : List Expr} {vs : List VariableId}
    (h : net.LoweredAll es vs) {e : Expr} (he : e ∈ es) : ∃ v, net.Lowered e v := by
  induction es generalizing vs with
  | nil => cases he
  | cons first es ih =>
    obtain ⟨v, rest, -, hfirst, hrest⟩ := h
    rcases List.mem_cons.mp he with rfl | hmem
    · exact ⟨v, hfirst⟩
    · exact ih hrest hmem

theorem Lowered.part {net : Network} {part e : Expr} (hp : part.Part e) {v : VariableId}
    (h : net.Lowered e v) : ∃ w, net.Lowered part w := by
  induction hp generalizing v with
  | refl => exact ⟨v, h⟩
  | left _ ih =>
    obtain ⟨op, l, r, -, hl, -, -⟩ := h
    exact ih hl
  | right _ ih =>
    obtain ⟨op, l, r, -, -, hr, -⟩ := h
    exact ih hr
  | param he _ ih =>
    obtain ⟨f, inputs, -, hin, -⟩ := h
    obtain ⟨w, hw⟩ := hin.of_mem he
    exact ih hw

end Network

end ConstraintNet

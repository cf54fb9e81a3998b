import Mathlib.Data.List.Basic
import ConstraintNet.Network.Teardown
import ConstraintNet.Proofs.Arena

/-!
# What a network answers after one edit

For each elementary change of a network: the variable and the relationship found
under every handle afterwards, and the handle found under every name.
-/

set_option autoImplicit false

namespace ConstraintNet

theorem VariableId.index_inj {v w : VariableId} : v.index = w.index ↔ v = w := by
  constructor
  · intro h
    cases v
    cases w
    exact congrArg _ h
  · rintro rfl
    rfl

theorem RelationshipId.index_inj {r s : RelationshipId} : r.index = s.index ↔ r = s := by
  constructor
  · intro h
    cases r
    cases s
    exact congrArg _ h
  · rintro rfl
    rfl

namespace Variable

theorem attach_attach (x : Variable) (r : RelationshipId) :
    (x.attach r).attach r = x.attach r := by
  have h : r ∈ (x.attach r).relationships := mem_relationships_attach.mpr (.inl rfl)
  conv_lhs => rw [attach, if_pos h]

theorem detach_detach (x : Variable) (r : RelationshipId) :
    (x.detach r).detach r = x.detach r := by
  simp [detach]

@[simp] theorem name_attach (x : Variable) (r : RelationshipId) : (x.attach r).name = x.name := by
  unfold attach; split <;> rfl

@[simp] theorem kind_attach (x : Variable) (r : RelationshipId) : (x.attach r).kind = x.kind := by
  unfold attach; split <;> rfl

@[simp] theorem holding_attach (x : Variable) (r : RelationshipId) :
    (x.attach r).holding = x.holding := by
  unfold attach; split <;> rfl

end Variable

namespace Network

variable (net : Network)

theorem index_lt_of_variableAt {net : Network} {v : VariableId} {x : Variable}
    (h : net.variableAt v = some x) : v.index < net.vars.next :=
  Arena.lt_next_of_get? h

theorem index_lt_of_relationshipAt {net : Network} {r : RelationshipId} {rel : Relationship}
    (h : net.relationshipAt r = some rel) : r.index < net.relationships.next :=
  Arena.lt_next_of_get? h

theorem variableAt_updateVariable (v w : VariableId) (f : Variable → Variable) :
    (net.updateVariable v f).variableAt w =
      if v = w then (net.variableAt w).map f else net.variableAt w := by
  simp [variableAt, updateVariable, Arena.get?_modify, VariableId.index_inj]

theorem relationshipAt_updateRelationship (r s : RelationshipId)
    (f : Relationship → Relationship) :
    (net.updateRelationship r f).relationshipAt s =
      if r = s then (net.relationshipAt s).map f else net.relationshipAt s := by
  simp [relationshipAt, updateRelationship, Arena.get?_modify, RelationshipId.index_inj]

theorem variableAt_addVariable (x : Variable) (v : VariableId) :
    (net.addVariable x).2.variableAt v =
      if v = (net.addVariable x).1 then some x else net.variableAt v := by
  simp [variableAt, addVariable, Arena.get?_push, ← VariableId.index_inj]

theorem variableAt_addNamed (x : Variable) (v : VariableId) :
    (net.addNamed x).2.variableAt v =
      if v = (net.addNamed x).1 then some x else net.variableAt v :=
  variableAt_addVariable net x v

theorem lookup_addNamed (x : Variable) (name : String) :
    (net.addNamed x).2.lookup name =
      if name = x.name then some (net.addNamed x).1 else net.lookup name := by
  simp [lookup, addNamed, Table.find?_insert, addVariable]

theorem variableAt_next : net.variableAt ⟨net.vars.next⟩ = none :=
  Arena.get?_eq_none_of_next_le le_rfl

theorem relationshipAt_next : net.relationshipAt ⟨net.relationships.next⟩ = none :=
  Arena.get?_eq_none_of_next_le le_rfl

theorem variableAt_addVariable_of_some {x y : Variable} {v : VariableId}
    (hy : net.variableAt v = some y) : (net.addVariable x).2.variableAt v = some y := by
  rw [variableAt_addVariable, if_neg, hy]
  rintro rfl
  have hnew : net.variableAt (net.addVariable x).1 = none := net.variableAt_next
  rw [hnew] at hy
  cases hy

theorem variableAt_relate (relation : Relation) (v : VariableId) :
    (net.relate relation).2.variableAt v =
      if v ∈ relation.operands then
        (net.variableAt v).map (·.attach ⟨net.relationships.next⟩)
      else net.variableAt v := by
  have h : v.index ∈ relation.operands.map VariableId.index ↔ v ∈ relation.operands := by
    simp [VariableId.index_inj]
  have hf (x : Variable) := Variable.attach_attach x ⟨net.relationships.next⟩
  have hg := Arena.get?_foldl_modify VariableId.index (·.attach ⟨net.relationships.next⟩) hf
    relation.operands net.vars v.index
  simp only [h] at hg
  exact hg

theorem relationshipAt_relate_eq (relation : Relation) (r : RelationshipId) :
    (net.relate relation).2.relationshipAt r =
      if r = ⟨net.relationships.next⟩ then some (.ofRelation relation)
      else net.relationshipAt r := by
  simp [relationshipAt, relate, Arena.get?_push, ← RelationshipId.index_inj]

theorem relationshipAt_relate_of_some {relation : Relation} {r : RelationshipId}
    {rel : Relationship} (hr : net.relationshipAt r = some rel) :
    (net.relate relation).2.relationshipAt r = some rel := by
  rw [relationshipAt_relate_eq, if_neg, hr]
  rintro rfl
  rw [relationshipAt_next] at hr
  cases hr

section Remove

variable {net : Network} {r : RelationshipId} {rel : Relationship} {net' : Network}

theorem relationshipAt_of_removeRelationship (h : net.removeRelationship r = some (rel, net')) :
    net.relationshipAt r = some rel := by
  cases hr : net.relationshipAt r with
  | none => simp [removeRelationship, hr] at h
  | some rel' =>
    simp only [removeRelationship, hr, Option.bind_eq_bind, Option.bind_some, Option.pure_def,
      Option.some.injEq, Prod.mk.injEq] at h
    rw [h.1]

/-- What taking a relationship out changes, structure by structure. -/
theorem removeRelationship_eq (h : net.removeRelationship r = some (rel, net')) :
    net' = { net with
      vars := rel.relation.operands.foldl (fun xs v => xs.modify v.index (·.detach r)) net.vars
      relationships := net.relationships.erase r.index
      order := net.order.filter (· ≠ r)
      definitions := net.definitions.filter (·.2 ≠ r) } := by
  have hr := relationshipAt_of_removeRelationship h
  simp only [removeRelationship, hr, Option.bind_eq_bind, Option.bind_some, Option.pure_def,
    Option.some.injEq, Prod.mk.injEq, true_and] at h
  exact h.symm

theorem variableAt_removeRelationship (h : net.removeRelationship r = some (rel, net'))
    (v : VariableId) :
    net'.variableAt v =
      if v ∈ rel.relation.operands then (net.variableAt v).map (·.detach r)
      else net.variableAt v := by
  have hm : v.index ∈ rel.relation.operands.map VariableId.index ↔ v ∈ rel.relation.operands := by
    simp [VariableId.index_inj]
  have hf (x : Variable) := Variable.detach_detach x r
  have hg := Arena.get?_foldl_modify VariableId.index (·.detach r) hf
    rel.relation.operands net.vars v.index
  simp only [hm] at hg
  rw [removeRelationship_eq h]
  exact hg

theorem relationshipAt_removeRelationship (h : net.removeRelationship r = some (rel, net'))
    (s : RelationshipId) :
    net'.relationshipAt s = if r = s then none else net.relationshipAt s := by
  rw [removeRelationship_eq h]
  simp [relationshipAt, Arena.get?_erase, RelationshipId.index_inj]

end Remove

theorem variableAt_dropVariable (v w : VariableId) :
    (net.dropVariable v).variableAt w = if v = w then none else net.variableAt w := by
  cases hx : net.variableAt v with
  | none =>
    simp only [dropVariable, hx]
    split
    · rename_i hvw
      rw [← hvw, hx]
    · rfl
  | some x =>
    simp only [dropVariable, hx]
    simp [variableAt, Arena.get?_erase, VariableId.index_inj]

@[simp] theorem relationshipAt_dropVariable (v : VariableId) (r : RelationshipId) :
    (net.dropVariable v).relationshipAt r = net.relationshipAt r := by
  unfold dropVariable
  split <;> rfl

@[simp] theorem order_dropVariable (v : VariableId) :
    (net.dropVariable v).order = net.order := by
  unfold dropVariable
  split <;> rfl

theorem lookup_dropVariable {x : Variable} {v : VariableId} (hx : net.variableAt v = some x)
    (name : String) :
    (net.dropVariable v).lookup name =
      if name = x.name ∧ net.lookup x.name = some v then none else net.lookup name := by
  by_cases hv : net.lookup x.name = some v
  · simp only [dropVariable, hx, hv, and_true]
    exact Table.find?_erase _ _ _
  · simp only [dropVariable, hx, hv, and_false, if_false]
    rfl

theorem variableAt_reset (v : VariableId) :
    net.reset.variableAt v = (net.variableAt v).map Variable.clear :=
  Arena.get?_map _ _ _

theorem relationshipAt_reset (r : RelationshipId) :
    net.reset.relationshipAt r = (net.relationshipAt r).map (·.mark none) :=
  Arena.get?_map _ _ _

end Network

end ConstraintNet

import Mathlib.Data.List.Basic
import Mathlib.Data.List.Sort
import ConstraintNet.Proofs.Access

/-!
# Integrity of a network

Slots, back references, order, registry and definitions describe one graph five
times over. Here is what it means that they agree, and that every elementary edit
keeps them in agreement.
-/

set_option autoImplicit false

namespace ConstraintNet.Network

def Touches (net : Network) (r : RelationshipId) (v : VariableId) : Prop :=
  ∃ rel, net.relationshipAt r = some rel ∧ v ∈ rel.relation.operands

theorem touches_iff_mem {net : Network} {r : RelationshipId} {rel : Relationship}
    (hr : net.relationshipAt r = some rel) {v : VariableId} :
    net.Touches r v ↔ v ∈ rel.relation.operands := by
  simp [Touches, hr]

structure Integrity (net : Network) : Prop where
  order_sorted : net.order.Pairwise fun r s => r.index < s.index
  mem_order : ∀ r, r ∈ net.order ↔ (net.relationshipAt r).isSome
  operand_live : ∀ r v, net.Touches r v → (net.variableAt v).isSome
  attached : ∀ v x, net.variableAt v = some x → ∀ r, r ∈ x.relationships ↔ net.Touches r v
  attached_sorted : ∀ v x, net.variableAt v = some x →
    x.relationships.Pairwise fun r s => r.index < s.index
  /-- Constants are never registered, whatever their text. -/
  registered : ∀ name v, net.lookup name = some v ↔
    ∃ x, net.variableAt v = some x ∧ x.kind ≠ .constant ∧ x.name = name
  defined : ∀ v r, net.definitions.find? v = some r → (net.variableAt v).isSome ∧
    ∃ rel right, net.relationshipAt r = some rel ∧ rel.relation = .equality v right

theorem integrity_empty (config : Config) : (empty config).Integrity where
  order_sorted := List.Pairwise.nil
  mem_order r := by simp [empty, relationshipAt]
  operand_live r v h := by simp [Touches, empty, relationshipAt] at h
  attached v x h := by simp [empty, variableAt] at h
  attached_sorted v x h := by simp [empty, variableAt] at h
  registered name v := by simp [empty, variableAt, lookup]
  defined v r h := by simp [empty] at h

theorem sorted_ext {rs ss : List RelationshipId} (hr : rs.Pairwise fun r s => r.index < s.index)
    (hs : ss.Pairwise fun r s => r.index < s.index) (h : ∀ r, r ∈ rs ↔ r ∈ ss) : rs = ss := by
  have hmap : rs.map RelationshipId.index = ss.map RelationshipId.index := by
    apply (List.pairwise_map.mpr hr).eq_of_mem_iff (List.pairwise_map.mpr hs)
    intro i
    simp only [List.mem_map, h]
  exact (List.map_injective_iff.mpr fun _ _ => RelationshipId.index_inj.mp) hmap

theorem Integrity.order_index {net : Network} (h : net.Integrity) :
    net.order.map RelationshipId.index =
      (List.range net.relationships.next).filter fun i => (net.relationships.get? i).isSome := by
  apply (List.pairwise_map.mpr h.order_sorted).eq_of_mem_iff (List.pairwise_lt_range.filter _)
  intro i
  rw [List.mem_filter, List.mem_range]
  constructor
  · intro hi
    obtain ⟨r, hr, rfl⟩ := List.mem_map.mp hi
    obtain ⟨rel, hrel⟩ := Option.isSome_iff_exists.mp ((h.mem_order r).mp hr)
    exact ⟨index_lt_of_relationshipAt hrel, (h.mem_order r).mp hr⟩
  · rintro ⟨-, hi⟩
    exact List.mem_map.mpr ⟨⟨i⟩, (h.mem_order ⟨i⟩).mpr hi, rfl⟩

theorem Integrity.live_relationships {net : Network} (h : net.Integrity) :
    net.relationships.live = net.order.filterMap net.relationshipAt := by
  rw [Arena.live_eq_filterMap]
  calc (List.range net.relationships.next).filterMap net.relationships.get?
      = ((List.range net.relationships.next).filter fun i =>
          (net.relationships.get? i).isSome).filterMap net.relationships.get? := by
        rw [List.filterMap_filter]
        congr 1
        funext i
        cases net.relationships.get? i <;> rfl
    _ = net.order.filterMap net.relationshipAt := by
        rw [← h.order_index, List.filterMap_map]
        rfl

/-- Two networks are the same but for what variables hold and watch, what
relationships are marked with, and the counters. -/
structure SameGraph (net net' : Network) : Prop where
  order : net'.order = net.order
  registry : net'.registry = net.registry
  definitions : net'.definitions = net.definitions
  vars : ∀ v, (net'.variableAt v).map (fun x => (x.name, x.kind, x.relationships)) =
    (net.variableAt v).map fun x => (x.name, x.kind, x.relationships)
  rels : ∀ r, (net'.relationshipAt r).map (·.relation) =
    (net.relationshipAt r).map (·.relation)

namespace SameGraph

variable {net net' : Network}

theorem variable_some (h : SameGraph net net') {v : VariableId} {x' : Variable}
    (hx : net'.variableAt v = some x') : ∃ x, net.variableAt v = some x ∧
      x'.name = x.name ∧ x'.kind = x.kind ∧ x'.relationships = x.relationships := by
  have hv := h.vars v
  rw [hx] at hv
  cases hy : net.variableAt v with
  | none => simp [hy] at hv
  | some x =>
    simp only [hy, Option.map_some, Option.some.injEq, Prod.mk.injEq] at hv
    exact ⟨x, rfl, hv⟩

theorem relationship_some (h : SameGraph net net') {r : RelationshipId} {rel' : Relationship}
    (hr : net'.relationshipAt r = some rel') : ∃ rel, net.relationshipAt r = some rel ∧
      rel'.relation = rel.relation := by
  have hv := h.rels r
  rw [hr] at hv
  cases hy : net.relationshipAt r with
  | none => simp [hy] at hv
  | some rel =>
    simp only [hy, Option.map_some, Option.some.injEq] at hv
    exact ⟨rel, rfl, hv⟩

theorem symm (h : SameGraph net net') : SameGraph net' net :=
  ⟨h.order.symm, h.registry.symm, h.definitions.symm, fun v => (h.vars v).symm,
    fun r => (h.rels r).symm⟩

theorem trans {net'' : Network} (h : SameGraph net net') (h' : SameGraph net' net'') :
    SameGraph net net'' :=
  ⟨h'.order.trans h.order, h'.registry.trans h.registry, h'.definitions.trans h.definitions,
    fun v => (h'.vars v).trans (h.vars v),
    fun r => (h'.rels r).trans (h.rels r)⟩

theorem isSome_variableAt (h : SameGraph net net') (v : VariableId) :
    (net'.variableAt v).isSome = (net.variableAt v).isSome := by
  simpa using congrArg Option.isSome (h.vars v)

theorem isSome_relationshipAt (h : SameGraph net net') (r : RelationshipId) :
    (net'.relationshipAt r).isSome = (net.relationshipAt r).isSome := by
  simpa using congrArg Option.isSome (h.rels r)

theorem touches_of (h : SameGraph net net') {r : RelationshipId} {v : VariableId}
    (ht : net'.Touches r v) : net.Touches r v := by
  obtain ⟨rel', hr', hv⟩ := ht
  obtain ⟨rel, hr, he⟩ := h.relationship_some hr'
  exact ⟨rel, hr, he ▸ hv⟩

theorem touches_iff (h : SameGraph net net') (r : RelationshipId) (v : VariableId) :
    net'.Touches r v ↔ net.Touches r v :=
  ⟨h.touches_of, h.symm.touches_of⟩

theorem integrity (h : SameGraph net net') (hi : net.Integrity) : net'.Integrity where
  order_sorted := h.order ▸ hi.order_sorted
  mem_order r := by rw [h.order, h.isSome_relationshipAt, hi.mem_order]
  operand_live r v ht := by
    rw [h.isSome_variableAt]
    exact hi.operand_live r v (h.touches_of ht)
  attached v x' hx' r := by
    obtain ⟨x, hx, -, -, hr⟩ := h.variable_some hx'
    rw [hr, hi.attached v x hx, h.touches_iff]
  attached_sorted v x' hx' := by
    obtain ⟨x, hx, -, -, hr⟩ := h.variable_some hx'
    rw [hr]
    exact hi.attached_sorted v x hx
  registered name v := by
    have hl : net'.lookup name = net.lookup name := by rw [lookup, h.registry]; rfl
    rw [hl, hi.registered]
    constructor
    · rintro ⟨x, hx, hk, hn⟩
      obtain ⟨x', hx', hn', hk', -⟩ := h.symm.variable_some hx
      exact ⟨x', hx', hk' ▸ hk, hn' ▸ hn⟩
    · rintro ⟨x', hx', hk, hn⟩
      obtain ⟨x, hx, hn', hk', -⟩ := h.variable_some hx'
      exact ⟨x, hx, hk' ▸ hk, hn' ▸ hn⟩
  defined v r hd := by
    rw [h.definitions] at hd
    obtain ⟨hv, rel, right, hr, he⟩ := hi.defined v r hd
    obtain ⟨rel', hr', he'⟩ := h.symm.relationship_some hr
    exact ⟨h.isSome_variableAt v ▸ hv, rel', right, hr', he' ▸ he⟩

end SameGraph

variable {net : Network}

theorem Integrity.index_lt_of_mem_order (h : net.Integrity) {r : RelationshipId}
    (hr : r ∈ net.order) : r.index < net.relationships.next := by
  obtain ⟨rel, hrel⟩ := Option.isSome_iff_exists.mp ((h.mem_order r).mp hr)
  exact index_lt_of_relationshipAt hrel

theorem index_lt_of_touches {r : RelationshipId} {v : VariableId} (h : net.Touches r v) :
    r.index < net.relationships.next := by
  obtain ⟨rel, hr, -⟩ := h
  exact index_lt_of_relationshipAt hr

/-- A variable that comes without relationships leaves the rest as it was; only the
registry has to be looked at. -/
theorem Integrity.push (h : net.Integrity) {x : Variable} {registry : Table String VariableId}
    (hr : x.relationships = [])
    (hreg : ∀ name v, registry.find? name = some v ↔
      ∃ y, (net.addVariable x).2.variableAt v = some y ∧ y.kind ≠ .constant ∧ y.name = name) :
    { (net.addVariable x).2 with registry := registry }.Integrity := by
  have hlive (v : VariableId) (hv : (net.variableAt v).isSome) :
      ((net.addVariable x).2.variableAt v).isSome := by
    rw [variableAt_addVariable]
    split <;> simp [hv]
  refine ⟨h.order_sorted, h.mem_order, fun r v ht => hlive v (h.operand_live r v ht), ?_, ?_, hreg,
    fun v r hd => ⟨hlive v (h.defined v r hd).1, (h.defined v r hd).2⟩⟩
  · intro v y hy r
    replace hy : (net.addVariable x).2.variableAt v = some y := hy
    rw [variableAt_addVariable] at hy
    split at hy
    · rename_i hv
      cases hy
      have hnew : net.variableAt v = none := hv ▸ net.variableAt_next
      simp only [hr, List.not_mem_nil, false_iff]
      intro ht
      have hlive := h.operand_live r v ht
      simp [hnew] at hlive
    · exact h.attached v y hy r
  · intro v y hy
    replace hy : (net.addVariable x).2.variableAt v = some y := hy
    rw [variableAt_addVariable] at hy
    split at hy
    · cases hy
      simp [hr]
    · exact h.attached_sorted v y hy

theorem Integrity.addVariable (h : net.Integrity) {x : Variable} (hk : x.kind = .constant)
    (hr : x.relationships = []) : (net.addVariable x).2.Integrity := by
  refine h.push hr fun name v => (h.registered name v).trans ?_
  rw [variableAt_addVariable]
  split
  · rename_i hv
    have hnew : net.variableAt v = none := hv ▸ net.variableAt_next
    simp [hnew, hk]
  · rfl

theorem Integrity.addNamed (h : net.Integrity) {x : Variable} (hk : x.kind ≠ .constant)
    (hr : x.relationships = []) (hfree : net.lookup x.name = none) :
    (net.addNamed x).2.Integrity := by
  apply h.push hr
  intro name v
  have hnew : net.variableAt (net.addVariable x).1 = none := net.variableAt_next
  change (net.addNamed x).2.lookup name = some v ↔ _
  rw [lookup_addNamed, variableAt_addVariable]
  by_cases hn : name = x.name
  · -- The name was free, so no older variable bears it.
    have hno : ¬ ∃ y, net.variableAt v = some y ∧ y.kind ≠ .constant ∧ y.name = x.name := by
      rw [← h.registered, hfree]
      simp
    by_cases hv : v = (net.addVariable x).1
    · simp [hn, hv, hk, Network.addNamed]
    · rw [if_pos hn, if_neg hv, hn]
      exact iff_of_false (fun he => hv (Option.some.inj he).symm) hno
  · rw [if_neg hn, h.registered]
    by_cases hv : v = (net.addVariable x).1
    · simp [hv, hnew, Ne.symm hn]
    · simp [hv]

theorem touches_relate {relation : Relation} {r : RelationshipId} {v : VariableId} :
    (net.relate relation).2.Touches r v ↔
      (r = ⟨net.relationships.next⟩ ∧ v ∈ relation.operands) ∨ net.Touches r v := by
  simp only [Touches, relationshipAt_relate_eq]
  by_cases hr : r = ⟨net.relationships.next⟩
  · simp [hr, relationshipAt_next, Relationship.ofRelation]
  · simp [hr]

theorem isSome_variableAt_relate (relation : Relation) (v : VariableId) :
    ((net.relate relation).2.variableAt v).isSome = (net.variableAt v).isSome := by
  rw [variableAt_relate]
  split <;> simp

theorem Integrity.relate (h : net.Integrity) {relation : Relation}
    (hlive : ∀ v ∈ relation.operands, (net.variableAt v).isSome) :
    (net.relate relation).2.Integrity where
  order_sorted := by
    refine List.pairwise_append.mpr ⟨h.order_sorted, List.pairwise_singleton _ _, ?_⟩
    intro r hr s hs
    rw [List.mem_singleton.mp hs]
    exact h.index_lt_of_mem_order hr
  mem_order r := by
    rw [relationshipAt_relate_eq]
    change r ∈ net.order ++ [⟨net.relationships.next⟩] ↔ _
    rw [List.mem_append, List.mem_singleton, h.mem_order]
    split <;> simp [*]
  operand_live r v ht := by
    rw [isSome_variableAt_relate]
    rcases touches_relate.mp ht with ⟨-, hv⟩ | ht
    · exact hlive v hv
    · exact h.operand_live r v ht
  attached v y hy r := by
    rw [touches_relate]
    rw [variableAt_relate] at hy
    split at hy
    · rename_i hv
      obtain ⟨x, hx, rfl⟩ := Option.map_eq_some_iff.mp hy
      rw [Variable.mem_relationships_attach, h.attached v x hx]
      simp [hv]
    · rename_i hv
      rw [h.attached v y hy]
      simp [hv]
  attached_sorted v y hy := by
    rw [variableAt_relate] at hy
    split at hy
    · obtain ⟨x, hx, rfl⟩ := Option.map_eq_some_iff.mp hy
      unfold Variable.attach
      split
      · exact h.attached_sorted v x hx
      · refine List.pairwise_append.mpr
          ⟨h.attached_sorted v x hx, List.pairwise_singleton _ _, ?_⟩
        intro r hr s hs
        rw [List.mem_singleton.mp hs]
        exact index_lt_of_touches ((h.attached v x hx r).mp hr)
    · exact h.attached_sorted v y hy
  registered name v := by
    rw [show (net.relate relation).2.lookup name = net.lookup name from rfl, h.registered,
      variableAt_relate]
    split <;> simp
  defined v r hd := by
    obtain ⟨hv, rel, right, hr, he⟩ := h.defined v r hd
    exact ⟨by rwa [isSome_variableAt_relate], rel, right,
      net.relationshipAt_relate_of_some hr, he⟩

section Remove

variable {net' : Network} {r : RelationshipId} {rel : Relationship}

theorem touches_removeRelationship (hr : net.removeRelationship r = some (rel, net'))
    {s : RelationshipId} {v : VariableId} : net'.Touches s v ↔ s ≠ r ∧ net.Touches s v := by
  simp only [Touches, relationshipAt_removeRelationship hr]
  by_cases hs : r = s
  · simp [hs]
  · simp [hs, Ne.symm hs]

theorem isSome_variableAt_removeRelationship (hr : net.removeRelationship r = some (rel, net'))
    (v : VariableId) : (net'.variableAt v).isSome = (net.variableAt v).isSome := by
  rw [variableAt_removeRelationship hr]
  split <;> simp

theorem lookup_removeRelationship (hr : net.removeRelationship r = some (rel, net'))
    (name : String) : net'.lookup name = net.lookup name := by
  rw [removeRelationship_eq hr]
  rfl

theorem find?_definitions_removeRelationship (hr : net.removeRelationship r = some (rel, net'))
    {v : VariableId} {s : RelationshipId} :
    net'.definitions.find? v = some s ↔ net.definitions.find? v = some s ∧ s ≠ r := by
  rw [removeRelationship_eq hr]
  simp [Table.find?_filter]

theorem order_removeRelationship (hr : net.removeRelationship r = some (rel, net')) :
    net'.order = net.order.filter (· ≠ r) := by
  rw [removeRelationship_eq hr]

theorem Integrity.removeRelationship (h : net.Integrity)
    (hr : net.removeRelationship r = some (rel, net')) : net'.Integrity where
  order_sorted := by
    rw [order_removeRelationship hr]
    exact h.order_sorted.filter _
  mem_order s := by
    rw [order_removeRelationship hr, relationshipAt_removeRelationship hr, List.mem_filter,
      h.mem_order]
    by_cases hs : r = s
    · simp [hs]
    · simp [hs, Ne.symm hs]
  operand_live s v ht := by
    rw [isSome_variableAt_removeRelationship hr]
    exact h.operand_live s v ((touches_removeRelationship hr).mp ht).2
  attached v y hy s := by
    rw [touches_removeRelationship hr]
    rw [variableAt_removeRelationship hr] at hy
    split at hy
    · obtain ⟨x, hx, rfl⟩ := Option.map_eq_some_iff.mp hy
      rw [Variable.mem_relationships_detach, h.attached v x hx, and_comm]
    · rename_i hv
      rw [h.attached v y hy]
      refine ⟨fun ht => ⟨?_, ht⟩, And.right⟩
      rintro rfl
      exact hv ((touches_iff_mem (relationshipAt_of_removeRelationship hr)).mp ht)
  attached_sorted v y hy := by
    rw [variableAt_removeRelationship hr] at hy
    split at hy
    · obtain ⟨x, hx, rfl⟩ := Option.map_eq_some_iff.mp hy
      exact (h.attached_sorted v x hx).filter _
    · exact h.attached_sorted v y hy
  registered name v := by
    rw [lookup_removeRelationship hr, h.registered, variableAt_removeRelationship hr]
    split <;> simp [Variable.detach]
  defined v s hd := by
    obtain ⟨hd, hs⟩ := (find?_definitions_removeRelationship hr).mp hd
    obtain ⟨hv, rel', right, hrel, he⟩ := h.defined v s hd
    refine ⟨by rwa [isSome_variableAt_removeRelationship hr], rel', right, ?_, he⟩
    rw [relationshipAt_removeRelationship hr, if_neg (Ne.symm hs), hrel]

end Remove

theorem find?_definitions_dropVariable {v w : VariableId} {r : RelationshipId} :
    (net.dropVariable v).definitions.find? w = some r ↔
      net.definitions.find? w = some r ∧ ((net.variableAt v).isSome → w ≠ v) := by
  cases hx : net.variableAt v with
  | none => simp [dropVariable, hx]
  | some x => by_cases hw : w = v <;> simp [dropVariable, hx, Table.find?_erase, hw]

theorem Integrity.dropVariable (h : net.Integrity) {v : VariableId}
    (hfree : ∀ r, ¬ net.Touches r v) : (net.dropVariable v).Integrity := by
  have htouch (r : RelationshipId) (w : VariableId) :
      (net.dropVariable v).Touches r w ↔ net.Touches r w := by
    simp [Touches]
  have hkeep {w : VariableId} {y : Variable} (hy : (net.dropVariable v).variableAt w = some y) :
      v ≠ w ∧ net.variableAt w = some y := by
    rw [variableAt_dropVariable] at hy
    split at hy
    · cases hy
    · exact ⟨by assumption, hy⟩
  refine ⟨by simpa using h.order_sorted, by simpa using h.mem_order, ?_, ?_, ?_, ?_, ?_⟩
  · intro r w ht
    rw [htouch] at ht
    rw [variableAt_dropVariable, if_neg]
    · exact h.operand_live r w ht
    · rintro rfl
      exact hfree r ht
  · intro w y hy r
    rw [htouch]
    exact h.attached w y (hkeep hy).2 r
  · exact fun w y hy => h.attached_sorted w y (hkeep hy).2
  · intro name w
    cases hx : net.variableAt v with
    | none =>
      rw [show net.dropVariable v = net by simp [Network.dropVariable, hx]]
      exact h.registered name w
    | some x =>
      rw [lookup_dropVariable net hx, variableAt_dropVariable]
      -- The registry loses the name exactly if it stood for this variable.
      by_cases hw : v = w
      · subst hw
        simp only [if_true, reduceCtorEq, false_and, exists_false, iff_false]
        split
        · simp
        · rename_i hno
          intro hl
          obtain ⟨y, hy, -, hyn⟩ := (h.registered name v).mp hl
          rw [hx] at hy
          cases hy
          exact hno ⟨hyn.symm, by rw [hyn, hl]⟩
      · rw [if_neg hw, ← h.registered]
        split
        · rename_i hno
          simp only [reduceCtorEq, false_iff, hno.1, hno.2, Option.some.injEq]
          exact hw
        · rfl
  · intro w r hd
    obtain ⟨hd, hne⟩ := find?_definitions_dropVariable.mp hd
    obtain ⟨hw, rel, right, hr, he⟩ := h.defined w r hd
    refine ⟨?_, rel, right, by rw [relationshipAt_dropVariable, hr], he⟩
    rw [variableAt_dropVariable, if_neg]
    · exact hw
    · rintro rfl
      exact hne hw rfl

theorem Integrity.redefine (h : net.Integrity) {definitions : Table VariableId RelationshipId}
    (hd : ∀ v r, definitions.find? v = some r → (net.variableAt v).isSome ∧
      ∃ rel right, net.relationshipAt r = some rel ∧ rel.relation = .equality v right) :
    { net with definitions := definitions }.Integrity :=
  ⟨h.order_sorted, h.mem_order, h.operand_live, h.attached, h.attached_sorted, h.registered, hd⟩

end ConstraintNet.Network

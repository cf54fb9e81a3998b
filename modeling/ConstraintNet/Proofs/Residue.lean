import Mathlib.Data.Set.Basic
import Mathlib.Data.List.Sort
import ConstraintNet.Proofs.Teardown

/-!
# What a teardown leaves

A chain of discards is known by what it takes out: the variables and relationships that
are gone. What remains is as it was, but for the references to what is gone.
-/

set_option autoImplicit false

namespace ConstraintNet

noncomputable def outside (R : Set RelationshipId) (rs : List RelationshipId) :
    List RelationshipId :=
  open Classical in rs.filter (· ∉ R)

theorem mem_outside {R : Set RelationshipId} {rs : List RelationshipId} {r : RelationshipId} :
    r ∈ outside R rs ↔ r ∈ rs ∧ r ∉ R := by
  simp [outside]

theorem outside_eq_self {R : Set RelationshipId} {rs : List RelationshipId}
    (h : ∀ r ∈ rs, r ∉ R) : outside R rs = rs := by
  simpa [outside] using h

/-- A list in increasing order is what another leaves outside of a set, if it has the
same members. -/
theorem eq_outside {R : Set RelationshipId} {rs ss : List RelationshipId}
    (hr : rs.Pairwise fun r s => r.index < s.index) (hs : ss.Pairwise fun r s => r.index < s.index)
    (h : ∀ r, r ∈ rs ↔ r ∈ ss ∧ r ∉ R) : rs = outside R ss := by
  apply Network.sorted_ext hr (hs.filter _)
  intro r
  rw [h r, ← mem_outside]
  rfl

noncomputable def Variable.without (x : Variable) (R : Set RelationshipId) : Variable :=
  { x with relationships := outside R x.relationships }

namespace Network

variable {net net' : Network} {v : VariableId} {r : RelationshipId}

def lostVariables (net net' : Network) : Set VariableId :=
  {v | (net.variableAt v).isSome ∧ net'.variableAt v = none}

def lostRelationships (net net' : Network) : Set RelationshipId :=
  {r | (net.relationshipAt r).isSome ∧ net'.relationshipAt r = none}

@[simp] theorem lostVariables_self (net : Network) : net.lostVariables net = ∅ := by
  apply Set.eq_empty_of_forall_notMem
  intro v ⟨hlive, hgone⟩
  rw [hgone] at hlive
  cases hlive

@[simp] theorem lostRelationships_self (net : Network) : net.lostRelationships net = ∅ := by
  apply Set.eq_empty_of_forall_notMem
  intro r ⟨hlive, hgone⟩
  rw [hgone] at hlive
  cases hlive

theorem not_mem_lostVariables (hv : (net.variableAt v).isSome) :
    v ∉ net.lostVariables net' ↔ (net'.variableAt v).isSome := by
  rw [Option.isSome_iff_ne_none]
  constructor
  · intro hkept hgone
    exact hkept ⟨hv, hgone⟩
  · intro hlive hlost
    exact hlive hlost.2

theorem not_mem_lostRelationships (hr : (net.relationshipAt r).isSome) :
    r ∉ net.lostRelationships net' ↔ (net'.relationshipAt r).isSome := by
  rw [Option.isSome_iff_ne_none]
  constructor
  · intro hkept hgone
    exact hkept ⟨hr, hgone⟩
  · intro hlive hlost
    exact hlive hlost.2

/-- What is left of a network is as it was and in the order in which it was, but for the
references to what is lost. -/
structure Residue (net net' : Network) : Prop where
  old_variables : ∀ v y, net'.variableAt v = some y →
    ∃ x, net.variableAt v = some x ∧ y = x.without (net.lostRelationships net')
  old_relationships : ∀ r rel, net'.relationshipAt r = some rel → net.relationshipAt r = some rel
  order : net'.order = outside (net.lostRelationships net') net.order
  names : ∀ name v, net'.lookup name = some v ↔
    net.lookup name = some v ∧ v ∉ net.lostVariables net'
  definitions : ∀ v r, net'.definitions.find? v = some r ↔ net.definitions.find? v = some r ∧
    v ∉ net.lostVariables net' ∧ r ∉ net.lostRelationships net'
  rest : net' = { net with
    vars := net'.vars, registry := net'.registry, relationships := net'.relationships,
    order := net'.order, definitions := net'.definitions }

theorem Discard.old_variable (h : Discard net net') {y : Variable}
    (hy : net'.variableAt v = some y) :
    ∃ x, net.variableAt v = some x ∧ y = { x with relationships := y.relationships } := by
  cases h with
  | remove h =>
    rw [variableAt_removeRelationship h] at hy
    split at hy
    · obtain ⟨x, hx, rfl⟩ := Option.map_eq_some_iff.mp hy
      exact ⟨x, hx, rfl⟩
    · exact ⟨y, hy, rfl⟩
  | drop w hfree =>
    rw [variableAt_dropVariable] at hy
    split at hy
    · cases hy
    · exact ⟨y, hy, rfl⟩

theorem Shrinks.old_variable (h : Shrinks net net') {y : Variable}
    (hy : net'.variableAt v = some y) :
    ∃ x, net.variableAt v = some x ∧ y = { x with relationships := y.relationships } := by
  induction h generalizing y with
  | refl => exact ⟨y, hy, rfl⟩
  | tail _ hd ih =>
    obtain ⟨x, hx, he⟩ := hd.old_variable hy
    obtain ⟨x', hx', he'⟩ := ih hx
    exact ⟨x', hx', by rw [he, he']⟩

theorem Shrinks.rest (h : Shrinks net net') : net' = { net with
    vars := net'.vars, registry := net'.registry, relationships := net'.relationships,
    order := net'.order, definitions := net'.definitions } := by
  induction h with
  | refl => rfl
  | @tail mid net' _ hd ih =>
    have hstep : net' = { mid with
        vars := net'.vars, registry := net'.registry, relationships := net'.relationships,
        order := net'.order, definitions := net'.definitions } := by
      cases hd with
      | remove h => rw [removeRelationship_eq h]
      | drop w hfree =>
        unfold dropVariable
        split <;> rfl
    rw [hstep, ih]

theorem Shrinks.definitions (h : Shrinks net net') (hi : net.Integrity) :
    net'.definitions.find? v = some r ↔ net.definitions.find? v = some r ∧
      (net'.variableAt v).isSome ∧ (net'.relationshipAt r).isSome := by
  induction h with
  | refl =>
    constructor
    · intro hd
      obtain ⟨hv, rel, right, hr, -⟩ := hi.defined v r hd
      exact ⟨hd, hv, by rw [hr]; rfl⟩
    · exact And.left
  | @tail mid net' _ hd ih =>
    cases hd with
    | @remove _ s rel h =>
      rw [find?_definitions_removeRelationship h, ih, isSome_variableAt_removeRelationship h,
        relationshipAt_removeRelationship h]
      by_cases hr : s = r
      · simp [hr]
      · simp [hr, Ne.symm hr]
    | drop w hfree =>
      rw [find?_definitions_dropVariable, ih, variableAt_dropVariable,
        relationshipAt_dropVariable]
      by_cases hw : w = v
      · subst hw
        simp only [if_true, Option.isSome_none, Bool.false_eq_true, false_and, and_false,
          ne_eq, not_true_eq_false, imp_false, iff_false]
        intro hboth
        exact hboth.2 hboth.1.2.1
      · simp [hw, Ne.symm hw]

theorem isSome_of_mem_relationships (hi : net.Integrity) {x : Variable}
    (hx : net.variableAt v = some x) (hr : r ∈ x.relationships) :
    (net.relationshipAt r).isSome := by
  obtain ⟨rel, hrel, -⟩ := (hi.attached v x hx r).mp hr
  rw [hrel]
  rfl

theorem Shrinks.mem_relationships (h : Shrinks net net') (hi : net.Integrity) {x y : Variable}
    (hx : net.variableAt v = some x) (hy : net'.variableAt v = some y) :
    r ∈ y.relationships ↔ r ∈ x.relationships ∧ r ∉ net.lostRelationships net' := by
  have hi' := h.edits.integrity hi
  constructor
  · intro hr
    have hold := (hi.attached v x hx r).mpr (Shrinks.touches h ((hi'.attached v y hy r).mp hr))
    have hlive := isSome_of_mem_relationships hi hx hold
    exact ⟨hold, (not_mem_lostRelationships hlive).mpr (isSome_of_mem_relationships hi' hy hr)⟩
  · intro ⟨hr, hkept⟩
    obtain ⟨rel, hrel, hv⟩ := (hi.attached v x hx r).mp hr
    rw [not_mem_lostRelationships (by rw [hrel]; rfl)] at hkept
    obtain ⟨rel', hrel'⟩ := Option.isSome_iff_exists.mp hkept
    have hsame := h.relationship hrel'
    rw [hrel] at hsame
    cases hsame
    exact (hi'.attached v y hy r).mpr ⟨rel, hrel', hv⟩

theorem Shrinks.left_variable (h : Shrinks net net') (hi : net.Integrity) {y : Variable}
    (hy : net'.variableAt v = some y) :
    ∃ x, net.variableAt v = some x ∧ y = x.without (net.lostRelationships net') := by
  have hi' := h.edits.integrity hi
  obtain ⟨x, hx, he⟩ := h.old_variable hy
  have hlist : y.relationships = outside (net.lostRelationships net') x.relationships :=
    eq_outside (hi'.attached_sorted v y hy) (hi.attached_sorted v x hx)
      fun r => h.mem_relationships hi hx hy
  exact ⟨x, hx, by rw [he, hlist]; rfl⟩

theorem Shrinks.order (h : Shrinks net net') (hi : net.Integrity) :
    net'.order = outside (net.lostRelationships net') net.order := by
  have hi' := h.edits.integrity hi
  apply eq_outside hi'.order_sorted hi.order_sorted
  intro r
  rw [hi.mem_order, hi'.mem_order]
  constructor
  · intro hr
    obtain ⟨rel, hrel⟩ := Option.isSome_iff_exists.mp hr
    have hold : (net.relationshipAt r).isSome := by rw [h.relationship hrel]; rfl
    exact ⟨hold, (not_mem_lostRelationships hold).mpr hr⟩
  · intro ⟨hold, hkept⟩
    exact (not_mem_lostRelationships hold).mp hkept

theorem Shrinks.names (h : Shrinks net net') (hi : net.Integrity) (name : String)
    (v : VariableId) :
    net'.lookup name = some v ↔ net.lookup name = some v ∧ v ∉ net.lostVariables net' := by
  have hi' := h.edits.integrity hi
  rw [hi'.registered, hi.registered]
  constructor
  · intro ⟨y, hy, hk, hn⟩
    obtain ⟨x, hx, he⟩ := h.old_variable hy
    rw [he] at hk hn
    exact ⟨⟨x, hx, hk, hn⟩, (not_mem_lostVariables (by rw [hx]; rfl)).mpr (by rw [hy]; rfl)⟩
  · intro ⟨⟨x, hx, hk, hn⟩, hkept⟩
    rw [not_mem_lostVariables (by rw [hx]; rfl)] at hkept
    obtain ⟨y, hy⟩ := Option.isSome_iff_exists.mp hkept
    obtain ⟨x', hx', he⟩ := h.old_variable hy
    rw [hx] at hx'
    cases hx'
    rw [he] at hy
    exact ⟨_, hy, hk, hn⟩

theorem Shrinks.residue (h : Shrinks net net') (hi : net.Integrity) : net.Residue net' where
  old_variables _ _ := h.left_variable hi
  old_relationships _ _ := h.relationship
  order := h.order hi
  names := h.names hi
  definitions v r := by
    rw [h.definitions hi]
    constructor
    · intro ⟨hd, hv, hr⟩
      obtain ⟨hlive, rel, right, hrel, -⟩ := hi.defined v r hd
      exact ⟨hd, (not_mem_lostVariables hlive).mpr hv,
        (not_mem_lostRelationships (by rw [hrel]; rfl)).mpr hr⟩
    · intro ⟨hd, hv, hr⟩
      obtain ⟨hlive, rel, right, hrel, -⟩ := hi.defined v r hd
      exact ⟨hd, (not_mem_lostVariables hlive).mp hv,
        (not_mem_lostRelationships (by rw [hrel]; rfl)).mp hr⟩
  rest := h.rest

end Network

end ConstraintNet

import Mathlib.Data.List.Count
import ConstraintNet.Proofs.WellHeld

/-!
# Advance within a digest

Propagation in a digest only ever gives values to variables that were unknown and
marks relationships. What was known stays as it was, and what was marked stays
marked.
-/

set_option autoImplicit false

namespace ConstraintNet.Network

/-- `x'` is `x`, or `x` with a value derived in a digest in which it was unknown. -/
def Settled (d : Digest) (x x' : Variable) : Prop :=
  x' = x ∨ x.holding.valueAt d = none ∧
    ∃ value, x' = { x with holding := .solved value (some d) }

/-- `rel'` is `rel`, or `rel` marked for a digest. -/
def Marked (d : Digest) (rel rel' : Relationship) : Prop :=
  rel' = rel ∨ rel' = rel.mark (some d)

structure Advance (d : Digest) (net net' : Network) : Prop where
  rest : net' = { net with vars := net'.vars, relationships := net'.relationships }
  vars_next : net'.vars.next = net.vars.next
  vars : ∀ v, Option.Rel (Settled d) (net.variableAt v) (net'.variableAt v)
  relationships_next : net'.relationships.next = net.relationships.next
  relationships : ∀ r, Option.Rel (Marked d) (net.relationshipAt r) (net'.relationshipAt r)

variable {d : Digest} {net mid net' : Network}

theorem valueAt_eq {v : VariableId} {x : Variable} (hx : net.variableAt v = some x) :
    net.valueAt d v = x.holding.valueAt d := by
  simp [valueAt, hx]

theorem settled_trans {x y z : Variable} (h : Settled d x y) (h' : Settled d y z) :
    Settled d x z := by
  rcases h with rfl | ⟨hx, value, rfl⟩
  · exact h'
  · rcases h' with rfl | ⟨hy, -⟩
    · exact .inr ⟨hx, value, rfl⟩
    · simp [Holding.valueAt] at hy

theorem marked_trans {x y z : Relationship} (h : Marked d x y) (h' : Marked d y z) :
    Marked d x z := by
  rcases h with rfl | rfl
  · exact h'
  · rcases h' with rfl | rfl
    · exact .inr rfl
    · exact .inr rfl

theorem rel_trans {α : Type} {R : α → α → Prop} (hR : ∀ x y z, R x y → R y z → R x z)
    {a b c : Option α} (h : Option.Rel R a b) (h' : Option.Rel R b c) : Option.Rel R a c := by
  cases h with
  | none => exact h'
  | some h =>
    cases h' with
    | some h' => exact .some (hR _ _ _ h h')

theorem rel_refl {α : Type} {R : α → α → Prop} (hR : ∀ x, R x x) (a : Option α) :
    Option.Rel R a a := by
  cases a with
  | none => exact .none
  | some x => exact .some (hR x)

theorem rel_cases {α β : Type} {R : α → β → Prop} {a : Option α} {b : Option β}
    (h : Option.Rel R a b) : a = none ∧ b = none ∨ ∃ x y, a = some x ∧ b = some y ∧ R x y := by
  cases h with
  | none => exact .inl ⟨rfl, rfl⟩
  | some h => exact .inr ⟨_, _, rfl, rfl, h⟩

namespace Advance

theorem refl (d : Digest) (net : Network) : Advance d net net :=
  ⟨rfl, rfl, fun _ => rel_refl (fun _ => .inl rfl) _, rfl,
    fun _ => rel_refl (fun _ => .inl rfl) _⟩

theorem trans (h : Advance d net mid) (h' : Advance d mid net') : Advance d net net' where
  rest := by rw [h'.rest, h.rest]
  vars_next := h'.vars_next.trans h.vars_next
  vars v := rel_trans (R := Settled d) (fun _ _ _ => settled_trans) (h.vars v) (h'.vars v)
  relationships_next := h'.relationships_next.trans h.relationships_next
  relationships r := rel_trans (R := Marked d) (fun _ _ _ => marked_trans)
    (h.relationships r) (h'.relationships r)

theorem order (h : Advance d net net') : net'.order = net.order := by rw [h.rest]

theorem config (h : Advance d net net') : net'.config = net.config := by rw [h.rest]

theorem lastDigest (h : Advance d net net') : net'.lastDigest = net.lastDigest := by rw [h.rest]

theorem variable_some (h : Advance d net net') {v : VariableId} {x : Variable}
    (hx : net.variableAt v = some x) : ∃ x', net'.variableAt v = some x' ∧ Settled d x x' := by
  rcases rel_cases (h.vars v) with ⟨hnone, -⟩ | ⟨y, x', hy, hx', hs⟩
  · rw [hx] at hnone
    cases hnone
  · rw [hx] at hy
    cases hy
    exact ⟨x', hx', hs⟩

theorem relationship_some (h : Advance d net net') {r : RelationshipId} {rel : Relationship}
    (hr : net.relationshipAt r = some rel) :
    ∃ rel', net'.relationshipAt r = some rel' ∧ Marked d rel rel' := by
  rcases rel_cases (h.relationships r) with ⟨hnone, -⟩ | ⟨s, rel', hs, hr', hm⟩
  · rw [hr] at hnone
    cases hnone
  · rw [hr] at hs
    cases hs
    exact ⟨rel', hr', hm⟩

theorem relationship_none (h : Advance d net net') {r : RelationshipId}
    (hr : net.relationshipAt r = none) : net'.relationshipAt r = none := by
  rcases rel_cases (h.relationships r) with ⟨-, hnone⟩ | ⟨s, rel', hs, -, -⟩
  · exact hnone
  · rw [hr] at hs
    cases hs

theorem sameGraph (h : Advance d net net') : SameGraph net net' where
  order := h.order
  registry := by rw [h.rest]
  definitions := by rw [h.rest]
  vars v := by
    have hv := h.vars v
    cases hx : net.variableAt v with
    | none =>
      rw [hx] at hv
      cases hx' : net'.variableAt v with
      | none => rfl
      | some x' =>
        rw [hx'] at hv
        cases hv
    | some x =>
      obtain ⟨x', hx', rfl | ⟨-, value, rfl⟩⟩ := h.variable_some hx <;> simp [hx']
  rels r := by
    cases hr : net.relationshipAt r with
    | none => simp [h.relationship_none hr]
    | some rel =>
      obtain ⟨rel', hr', rfl | rfl⟩ := h.relationship_some hr <;> simp [hr', Relationship.mark]

theorem integrity (h : Advance d net net') (hi : net.Integrity) : net'.Integrity :=
  h.sameGraph.integrity hi

theorem known (h : Advance d net net') {v : VariableId} {value : Float}
    (hv : net.valueAt d v = some value) : net'.valueAt d v = some value := by
  cases hx : net.variableAt v with
  | none => simp [valueAt, hx] at hv
  | some x =>
    rw [valueAt_eq hx] at hv
    obtain ⟨x', hx', rfl | ⟨hu, -⟩⟩ := h.variable_some hx
    · rw [valueAt_eq hx', hv]
    · rw [hv] at hu
      cases hu

theorem isSome_known (h : Advance d net net') {v : VariableId}
    (hv : (net.valueAt d v).isSome) : (net'.valueAt d v).isSome := by
  obtain ⟨value, hv⟩ := Option.isSome_iff_exists.mp hv
  rw [h.known hv]
  rfl

theorem unknown (h : Advance d net net') {v : VariableId}
    (hv : net'.valueAt d v = none) : net.valueAt d v = none := by
  cases hu : net.valueAt d v with
  | none => rfl
  | some value =>
    rw [h.known hu] at hv
    cases hv

end Advance

theorem isMarked_iff_marker {rel : Relationship} : rel.isMarked d ↔ rel.marker = some d := by
  simp [Relationship.isMarked]

theorem mark_eq_self {rel : Relationship} (hm : rel.marker = some d) :
    rel.mark (some d) = rel := by
  rw [Relationship.mark, ← hm]

def IsMarked (net : Network) (d : Digest) (r : RelationshipId) : Bool :=
  (net.relationshipAt r).any (·.isMarked d)

theorem isMarked_iff {r : RelationshipId} : net.IsMarked d r ↔
    ∃ rel, net.relationshipAt r = some rel ∧ rel.marker = some d := by
  simp [IsMarked, Option.any_eq_true, Relationship.isMarked]

theorem isMarked_eq {r : RelationshipId} {rel : Relationship}
    (hr : net.relationshipAt r = some rel) : net.IsMarked d r = rel.isMarked d := by
  simp [IsMarked, hr]

theorem Advance.isMarked (h : Advance d net net') {r : RelationshipId}
    (hr : net.IsMarked d r) : net'.IsMarked d r := by
  obtain ⟨rel, hrel, hm⟩ := isMarked_iff.mp hr
  obtain ⟨rel', hrel', rfl | rfl⟩ := h.relationship_some hrel
  · exact isMarked_iff.mpr ⟨_, hrel', hm⟩
  · exact isMarked_iff.mpr ⟨_, hrel', rfl⟩

theorem solvedCount_le_length (net : Network) (d : Digest) :
    net.solvedCount d ≤ net.order.length :=
  List.countP_le_length

theorem Advance.solvedCount_le (h : Advance d net net') :
    net.solvedCount d ≤ net'.solvedCount d := by
  unfold solvedCount
  rw [h.order]
  exact List.countP_mono_left fun r _ hr => h.isMarked hr

theorem countP_lt_countP {α : Type} {p q : α → Bool} {xs : List α} (hpq : ∀ x, p x → q x)
    {x : α} (hx : x ∈ xs) (hp : ¬ p x) (hq : q x) : xs.countP p < xs.countP q := by
  induction xs with
  | nil => cases hx
  | cons y ys ih =>
    rw [List.countP_cons, List.countP_cons]
    rcases List.mem_cons.mp hx with rfl | hmem
    · have hle := List.countP_mono_left (l := ys) fun y _ hy => hpq y hy
      simp only [hp, hq, if_true]
      simpa using Nat.lt_succ_of_le hle
    · have hlt := ih hmem
      by_cases hy : p y
      · simp only [hy, hpq y hy, if_true]
        omega
      · rw [if_neg hy]
        omega

/-- If the count of markers is the same, so are the markers. -/
theorem Advance.isMarked_of_count (h : Advance d net net')
    (hc : net'.solvedCount d = net.solvedCount d) {r : RelationshipId} (hr : r ∈ net.order)
    (hm : net'.IsMarked d r) : net.IsMarked d r := by
  by_contra hn
  have hlt := countP_lt_countP (p := net.IsMarked d) (fun s hs => h.isMarked hs) hr hn hm
  unfold solvedCount at hc
  rw [h.order] at hc
  exact absurd hc (Nat.ne_of_gt hlt)

def unknowns (net : Network) (d : Digest) : Finset Nat :=
  (Finset.range net.vars.next).filter fun i =>
    (net.vars.get? i).any fun x => (x.holding.valueAt d).isNone

theorem unknownCount_eq (net : Network) (d : Digest) :
    net.unknownCount d = (net.unknowns d).card :=
  Arena.countP_live _ _

theorem mem_unknowns {i : Nat} : i ∈ net.unknowns d ↔
    (net.variableAt ⟨i⟩).isSome ∧ net.valueAt d ⟨i⟩ = none := by
  rw [unknowns, Finset.mem_filter, Finset.mem_range]
  change i < net.vars.next ∧ (net.variableAt ⟨i⟩).any _ ↔ _
  cases hx : net.variableAt ⟨i⟩ with
  | none => simp
  | some x =>
    have hlt : i < net.vars.next := index_lt_of_variableAt hx
    simp [hlt, valueAt_eq hx]

theorem Advance.unknowns_subset (h : Advance d net net') : net'.unknowns d ⊆ net.unknowns d := by
  intro i hi
  rw [mem_unknowns] at hi ⊢
  exact ⟨h.sameGraph.isSome_variableAt _ ▸ hi.1, h.unknown hi.2⟩

theorem Advance.unknownCount_le (h : Advance d net net') :
    net'.unknownCount d ≤ net.unknownCount d := by
  rw [unknownCount_eq, unknownCount_eq]
  exact Finset.card_le_card h.unknowns_subset

theorem Advance.unknownCount_lt (h : Advance d net net') {v : VariableId}
    (hlive : (net.variableAt v).isSome) (hu : net.valueAt d v = none)
    (hk : (net'.valueAt d v).isSome) : net'.unknownCount d < net.unknownCount d := by
  rw [unknownCount_eq, unknownCount_eq]
  refine Finset.card_lt_card ⟨h.unknowns_subset, fun hsub => ?_⟩
  have hmem := mem_unknowns.mp (hsub (mem_unknowns.mpr ⟨hlive, hu⟩))
  rw [hmem.2] at hk
  cases hk

end ConstraintNet.Network

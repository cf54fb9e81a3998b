import ConstraintNet.Proofs.Orphans

/-!
# What a defined variable survives

A definition holds its variable to the result of an expression. While that result is there, so
is the variable: a cascade that has come as far as the result would be as complete without the
definition. Only the result itself may be what the host destroys, if the expression is nothing
but its name.
-/

set_option autoImplicit false

namespace ConstraintNet

namespace Network

variable {net after : Network} {name other : String} {w x root : VariableId} {r : RelationshipId}
  {rel : Relationship} {y : Variable} {T : Set VariableId} {R : Set RelationshipId}

theorem orphaned_named_iff (hy : net.variableAt w = some y) (hk : y.kind = .named) :
    net.Orphaned R w ↔ (∀ s ∈ y.relationships, s ∈ R) ∧ ¬ y.holding.isPinned := by
  constructor
  · rintro ⟨y', hy', h⟩
    rw [hy] at hy'
    cases hy'
    rcases h with ⟨hall, hloose⟩ | ⟨hunused, -⟩
    · refine ⟨hall, hloose.resolve_left fun hconstant => ?_⟩
      rw [hk] at hconstant
      cases hconstant
    · rw [hk] at hunused
      cases hunused.1
  · intro ⟨hall, hunpinned⟩
    exact ⟨y, hy, .inl ⟨hall, .inr hunpinned⟩⟩

theorem Orphaned.mem_of_touches {v : VariableId} (h : net.Orphaned R v) (hi : net.Integrity)
    (hr : net.relationshipAt r = some rel) (hv : v ∈ rel.relation.operands)
    (hne : rel.relation.result ≠ v) : r ∈ R := by
  obtain ⟨x, hx, hloose | ⟨-, s, rel', -, -, honly, hs, hresult⟩⟩ := h
  · exact hloose.1 r ((hi.attached v x hx r).mpr ⟨rel, hr, hv⟩)
  · by_contra hout
    have hsame := honly r ((hi.attached v x hx r).mpr ⟨rel, hr, hv⟩) hout
    rw [← hsame, hr] at hs
    cases hs
    exact hne hresult

/-- A closed pair stays closed without a definition, its variable and the result to which it
holds that, if the host named the variable. -/
theorem Closed.without_definition (h : net.Closed ∅ T R) (hi : net.Integrity)
    (hy : net.variableAt w = some y) (hk : y.kind = .named) (hr : net.relationshipAt r = some rel)
    (heq : rel.relation = .equality w root) :
    net.Closed ∅ (T \ {w, root}) (R \ {r}) := by
  have htouches (v : VariableId) : net.Touches r v ↔ v ∈ ({w, root} : Set VariableId) := by
    rw [touches_iff_mem hr, heq]
    simp [Relation.operands, Relation.result, Relation.arguments]
  have hout : r ∉ R \ {r} := fun hmem => hmem.2 rfl
  constructor
  · intro v hv x hx s hs
    refine ⟨h.attached v hv.1 x hx s hs, ?_⟩
    rintro rfl
    exact hv.2 ((htouches v).mp ((hi.attached v x hx s).mp hs))
  · intro s hs v ht hspared horphaned
    refine ⟨h.orphans s hs.1 v ht hspared (horphaned.mono Set.sdiff_subset), ?_⟩
    intro hend
    have hv : v ∈ rel.relation.operands := (touches_iff_mem hr).mp ((htouches v).mpr hend)
    by_cases hvw : v = w
    · subst hvw
      have hall := ((orphaned_named_iff hy hk).mp horphaned).1
      exact hout (hall r ((hi.attached v y hy r).mpr ⟨rel, hr, hv⟩))
    · apply hout (horphaned.mem_of_touches hi hr hv _)
      rw [heq]
      exact fun he => hvw he.symm

theorem OrphanClosure.root_eq (h : net.OrphanClosure {x} ∅ ∅ T R) (hi : net.Integrity)
    (hy : net.variableAt w = some y) (hk : y.kind = .named) (hr : net.relationshipAt r = some rel)
    (heq : rel.relation = .equality w root) (hne : x ≠ w) (hw : w ∈ T) : root = x := by
  by_contra hroot
  have hstart : ({x} : Set VariableId) ⊆ T \ {w, root} := by
    rintro _ rfl
    refine ⟨h.starts rfl, ?_⟩
    rintro (he | he)
    · exact hne he
    · exact hroot he.symm
  have hleast := h.least _ _ hstart (Set.empty_subset _)
    (h.closed.without_definition hi hy hk hr heq)
  exact (hleast.1 hw).2 (Set.mem_insert _ _)

/-- When another variable is destroyed, a variable that the host named and defined keeps its
name and its handle, unless its definition is nothing but the name of the one destroyed, no
value is pinned in it, and no relationship of it is left. In that case it is gone. -/
theorem definition_survives_iff (hr : Reachable net) (hname : net.lookup name = some w)
    (hy : net.variableAt w = some y) (hk : y.kind = .named)
    (hdefined : net.definitions.find? w = some r) (hother : net.lookup other = some x)
    (hne : other ≠ name) :
    (net.perform (.destroy other)).network.lookup name = some w ↔
      ¬ ((∃ rel, net.relationshipAt r = some rel ∧ rel.relation = .equality w x) ∧
        ¬ y.holding.isPinned ∧
        ∀ s ∈ y.relationships, (net.perform (.destroy other)).network.relationshipAt s = none) := by
  have hi := hr.integrity
  have hxw : x ≠ w := by
    rintro rfl
    exact hne (hi.lookup_inj hother hname)
  obtain ⟨after, he, hc⟩ := collects_destroyVariable hi (hi.live_of_lookup hother)
  have hafter : (net.perform (.destroy other)).network = after := by
    simp only [perform, destroy, hother, he]
  obtain ⟨-, rel, root, hrel, heq⟩ := hi.defined w r hdefined
  have hmem {s : RelationshipId} (hs : s ∈ y.relationships) :
      s ∈ net.lostRelationships after ↔ after.relationshipAt s = none :=
    and_iff_right (isSome_of_mem_relationships hi hy hs)
  have hlost : w ∈ net.lostVariables after ↔
      (∃ rel, net.relationshipAt r = some rel ∧ rel.relation = .equality w x) ∧
        ¬ y.holding.isPinned ∧ ∀ s ∈ y.relationships, after.relationshipAt s = none := by
    constructor
    · intro hw
      have hroot := hc.closure.root_eq hi hy hk hrel heq hxw hw
      have horphaned := (hc.closure.orphaned hw (Ne.symm hxw)).2
      obtain ⟨hall, hunpinned⟩ := (orphaned_named_iff hy hk).mp horphaned
      exact ⟨⟨rel, hrel, hroot ▸ heq⟩, hunpinned, fun s hs => (hmem hs).mp (hall s hs)⟩
    · rintro ⟨⟨rel', hrel', heq'⟩, hunpinned, hgone⟩
      have hw : net.Touches r w := ⟨rel', hrel', by rw [heq']; exact List.mem_cons_self⟩
      have hr : r ∈ net.lostRelationships after :=
        (hmem ((hi.attached w y hy r).mpr hw)).mpr (hgone r ((hi.attached w y hy r).mpr hw))
      exact hc.closure.closed.orphans r hr w hw (Set.notMem_empty w)
        ((orphaned_named_iff hy hk).mpr ⟨fun s hs => (hmem hs).mpr (hgone s hs), hunpinned⟩)
  rw [hafter, hc.residue.names name w, hlost]
  exact and_iff_right hname

def definedAlias : Network :=
  (empty .standard).after [.set "W" (.expression "x"), .set "V" (.expression "W + 1")]

theorem definition_survives_iff_alias :
    Reachable definedAlias ∧
      (definedAlias.perform (.destroy "x")).network.lookup "W" = some ⟨0⟩ ∧
      (definedAlias.perform (.destroy "W")).network.lookup "V" = some ⟨2⟩ := by
  have hr : Reachable definedAlias := ⟨.standard, empty .standard, _, create_standard, rfl⟩
  have hW : definedAlias.lookup "W" = some ⟨0⟩ := rfl
  have hx : definedAlias.lookup "x" = some ⟨1⟩ := rfl
  have hV : definedAlias.lookup "V" = some ⟨2⟩ := rfl
  have hdW : definedAlias.definitions.find? ⟨0⟩ = some ⟨0⟩ := rfl
  have hdV : definedAlias.definitions.find? ⟨2⟩ = some ⟨2⟩ := rfl
  have hwithoutX := definition_survives_iff hr hW rfl rfl hdW hx (by decide)
  have hwithoutW := definition_survives_iff hr hV rfl rfl hdV hW (by decide)
  refine ⟨hr, hwithoutX.mpr ?_, hwithoutW.mpr ?_⟩
  · rintro ⟨-, -, hgone⟩
    have hsum := hgone ⟨1⟩ (by decide)
    cases hsum
  · rintro ⟨⟨rel, hrel, heq⟩, -⟩
    cases hrel
    cases heq

def bareDefinition : Network := (empty .standard).after [.set "W" (.expression "x")]

theorem destroying_operand_removes_definition :
    Reachable bareDefinition ∧ bareDefinition.lookup "W" = some ⟨0⟩ ∧
      bareDefinition.definitions.find? ⟨0⟩ = some ⟨0⟩ ∧ bareDefinition.lookup "x" = some ⟨1⟩ ∧
      (bareDefinition.variableAt ⟨0⟩).map Variable.kind = some .named ∧
      (bareDefinition.variableAt ⟨1⟩).map Variable.kind = some .named ∧
      (bareDefinition.perform (.destroy "x")).network.lookup "W" = none :=
  ⟨⟨.standard, empty .standard, _, create_standard, rfl⟩, rfl, rfl, rfl, rfl, rfl, rfl⟩

end Network

end ConstraintNet

import ConstraintNet.Proofs.Redefinition

/-!
# The chain behind an expression

Lowering makes its relationships one after another. Each of them makes an intermediate of its
own before anything else touches it, and each intermediate but the last is used by a
relationship that comes later.
-/

set_option autoImplicit false

namespace ConstraintNet

namespace Network

variable {net mid net' : Network} {mentions : String → Prop} {answers answers' : List VariableId}
  {r s : RelationshipId} {v : VariableId}

/-- Relationships are still there, and new ones come after them. -/
structure Appends (net net' : Network) : Prop where
  next_le : net.relationships.next ≤ net'.relationships.next
  kept : ∀ r rel, net.relationshipAt r = some rel → net'.relationshipAt r = some rel
  old : ∀ r rel, net'.relationshipAt r = some rel →
    net.relationshipAt r = some rel ∨ net.relationships.next ≤ r.index

theorem appends_same (h : net'.relationships = net.relationships) : Appends net net' := by
  have hat (r : RelationshipId) : net'.relationshipAt r = net.relationshipAt r := by
    unfold relationshipAt
    rw [h]
  refine ⟨by rw [h], fun r rel hr => by rw [hat, hr], fun r rel hr => .inl ?_⟩
  rw [← hat, hr]

theorem Appends.trans (h : Appends net mid) (h' : Appends mid net') : Appends net net' where
  next_le := h.next_le.trans h'.next_le
  kept r rel hr := h'.kept r rel (h.kept r rel hr)
  old r rel hr := by
    rcases h'.old r rel hr with hmid | hle
    · exact h.old r rel hmid
    · exact .inr (h.next_le.trans hle)

theorem Construct.appends (h : Construct net net') : Appends net net' := by
  cases h with
  | relate relation hlive =>
    refine ⟨?_, fun r rel hr => net.relationshipAt_relate_of_some hr, fun r rel hr => ?_⟩
    · exact (Nat.le_succ _).trans (Arena.next_push _ _).ge
    · rw [relationshipAt_relate_eq] at hr
      split at hr
      · rename_i he
        exact .inr (he ▸ le_rfl)
      · exact .inl hr
  | constant | named | intermediate => exact appends_same rfl

theorem Grows.appends (h : Grows net net') : Appends net net' := by
  induction h with
  | refl => exact appends_same rfl
  | tail _ hc ih => exact ih.trans hc.appends

theorem Appends.touches (h : Appends net net') (ht : net.Touches r v) : net'.Touches r v := by
  obtain ⟨rel, hr, hv⟩ := ht
  exact ⟨rel, h.kept r rel hr, hv⟩

theorem Appends.touches_old (h : Appends net net') (ht : net'.Touches r v) :
    net.Touches r v ∨ net.relationships.next ≤ r.index := by
  obtain ⟨rel, hr, hv⟩ := ht
  exact (h.old r rel hr).imp_left fun hold => ⟨rel, hold, hv⟩

theorem Grows.not_live (h : Grows net net') (hv : net'.variableAt v = none) :
    net.variableAt v = none := by
  by_contra hlive
  have hkept := h.live (Option.isSome_iff_ne_none.mpr hlive)
  rw [hv] at hkept
  cases hkept

theorem Grows.definitions (h : Grows net net') : net'.definitions = net.definitions := by
  induction h with
  | refl => rfl
  | tail _ hc ih =>
    rw [← ih]
    cases hc <;> rfl

/-- A relationship makes an intermediate that was not there, and nothing touches that before.
It is one of the answers, or it is used later. -/
structure Produces (net net' : Network) (answers : List VariableId) (r : RelationshipId)
    (v : VariableId) : Prop where
  absent : net.variableAt v = none
  made : ∃ x, net'.variableAt v = some x ∧ x.kind = .intermediate ∧ x.holding = .unset
  first : ∀ s, net'.Touches s v → r.index ≤ s.index
  used : v ∈ answers ∨ ∃ s, net'.Touches s v ∧ r.index < s.index

theorem Produces.grows (h : net.Produces mid answers r v) (hr : r.index < mid.relationships.next)
    (hg : Grows mid net') : net.Produces net' answers r v where
  absent := h.absent
  made := by
    obtain ⟨x, hx, hk, hu⟩ := h.made
    obtain ⟨y, hy, he⟩ := hg.kept hx
    exact ⟨y, hy, by rw [he]; exact hk, by rw [he]; exact hu⟩
  first s hs := by
    rcases hg.appends.touches_old hs with hold | hle
    · exact h.first s hold
    · exact (hr.trans_le hle).le
  used := h.used.imp_right fun ⟨s, hs, hlt⟩ => ⟨s, hg.appends.touches hs, hlt⟩

/-- Once every answer is used later, it does not matter any more what was an answer. -/
theorem Produces.use (h : net.Produces net' answers r v)
    (hu : ∀ a ∈ answers, ∃ s, net'.Touches s a ∧ r.index < s.index) :
    net.Produces net' answers' r v :=
  ⟨h.absent, h.made, h.first, .inr (h.used.elim (hu v) id)⟩

/-- A variable that was not there, or one whose name is mentioned. -/
def Source (net : Network) (mentions : String → Prop) (v : VariableId) : Prop :=
  net.variableAt v = none ∨ ∃ x, mentions x ∧ net.lookup x = some v

theorem Source.earlier (h : mid.Source mentions v) (hg : Grows net mid) (hi : net.Integrity) :
    net.Source mentions v := by
  rcases h with hnew | ⟨x, hx, hv⟩
  · exact .inl (hg.not_live hnew)
  · cases hold : net.lookup x with
    | none =>
      obtain ⟨w, -, hw, -, hle, -⟩ := hg.remakes hi hold hv
      rw [hv] at hw
      cases hw
      exact .inl (Arena.get?_eq_none_of_next_le hle)
    | some w =>
      have hsame := hg.extends.lookup x w hold
      rw [hv] at hsame
      cases hsame
      exact .inr ⟨x, hx, hold⟩

/-- What has been added is a chain of relationships with some answers: every new relationship
produces, it touches nothing but new variables and those that are mentioned, and no new
variable is left without use. -/
structure Chained (mentions : String → Prop) (answers : List VariableId) (net net' : Network) :
    Prop where
  produces : ∀ r rel, net.relationshipAt r = none → net'.relationshipAt r = some rel →
    net.Produces net' answers r rel.relation.result
  touched : ∀ r v, net.relationshipAt r = none → net'.Touches r v → net.Source mentions v
  answered : ∀ v ∈ answers, net.Source mentions v
  consumed : ∀ v, net.variableAt v = none → (net'.variableAt v).isSome →
    v ∈ answers ∨ ∃ r, net'.Touches r v

theorem Chained.mono {mentions' : String → Prop} (h : Chained mentions answers net net')
    (hm : ∀ x, mentions x → mentions' x) : Chained mentions' answers net net' := by
  have hsource {v : VariableId} (hv : net.Source mentions v) : net.Source mentions' v :=
    hv.imp_right fun ⟨x, hx, hl⟩ => ⟨x, hm x hx, hl⟩
  exact ⟨h.produces, fun r v hn ht => hsource (h.touched r v hn ht),
    fun v hv => hsource (h.answered v hv), h.consumed⟩

theorem chained_same (hr : net'.relationships = net.relationships)
    (ha : ∀ v ∈ answers, net.Source mentions v)
    (hc : ∀ v, net.variableAt v = none → (net'.variableAt v).isSome → v ∈ answers) :
    Chained mentions answers net net' := by
  have hat (r : RelationshipId) : net'.relationshipAt r = net.relationshipAt r := by
    unfold relationshipAt
    rw [hr]
  refine ⟨fun r rel hn hrel => ?_, fun r v hn ht => ?_, ha, fun v hn hv => .inl (hc v hn hv)⟩
  · rw [hat, hn] at hrel
    cases hrel
  · obtain ⟨rel, hrel, -⟩ := ht
    rw [hat, hn] at hrel
    cases hrel

theorem Chained.trans (h : Chained mentions answers net mid)
    (h' : Chained mentions answers' mid net') (hi : net.Integrity) (hg : Grows net mid)
    (hg' : Grows mid net') : Chained mentions (answers ++ answers') net net' where
  produces r rel hn hr := by
    cases hmid : mid.relationshipAt r with
    | none =>
      have hp := h'.produces r rel hmid hr
      exact ⟨hg.not_live hp.absent, hp.made, hp.first, hp.used.imp_left (List.mem_append_right _)⟩
    | some rel' =>
      have hsame := hg'.appends.kept r rel' hmid
      rw [hr] at hsame
      cases hsame
      have hp := (h.produces r rel hn hmid).grows (index_lt_of_relationshipAt hmid) hg'
      exact ⟨hp.absent, hp.made, hp.first, hp.used.imp_left (List.mem_append_left _)⟩
  touched r v hn ht := by
    cases hmid : mid.relationshipAt r with
    | none => exact (h'.touched r v hmid ht).earlier hg hi
    | some rel =>
      obtain ⟨rel', hr, hv⟩ := ht
      rw [hg'.appends.kept r rel hmid] at hr
      cases hr
      exact h.touched r v hn ⟨rel, hmid, hv⟩
  answered v hv := by
    rcases List.mem_append.mp hv with hv | hv
    · exact h.answered v hv
    · exact (h'.answered v hv).earlier hg hi
  consumed v hn hv := by
    cases hmid : mid.variableAt v with
    | none => exact (h'.consumed v hmid hv).imp_left (List.mem_append_right _)
    | some x =>
      rcases h.consumed v hn (by rw [hmid]; rfl) with ha | ⟨r, ht⟩
      · exact .inl (List.mem_append_left _ ha)
      · exact .inr ⟨r, hg'.appends.touches ht⟩

theorem Chained.node {relation : VariableId → Relation} (h : Chained mentions answers net mid)
    (hi : mid.Integrity) (hg : Grows net mid) (hg' : Grows mid (mid.node relation))
    (hresult : ∀ v, (relation v).result = v) (hargs : ∀ v, (relation v).arguments = answers) :
    Chained mentions [mid.intermediate.1] net (mid.node relation) := by
  obtain ⟨name, hat⟩ := mid.exists_variableAt_intermediate
  have hnew : mid.variableAt mid.intermediate.1 = none := mid.variableAt_next
  have hoperands : (relation mid.intermediate.1).operands = mid.intermediate.1 :: answers := by
    unfold Relation.operands
    rw [hresult, hargs]
  have htouches (r : RelationshipId) (v : VariableId) : (mid.node relation).Touches r v ↔
      (r = ⟨mid.relationships.next⟩ ∧ v ∈ mid.intermediate.1 :: answers) ∨ mid.Touches r v := by
    rw [← hoperands]
    exact touches_relate
  have huses {v : VariableId} (hv : v ∈ answers) :
      (mid.node relation).Touches ⟨mid.relationships.next⟩ v :=
    (htouches _ v).mpr (.inl ⟨rfl, List.mem_cons_of_mem _ hv⟩)
  refine ⟨fun r rel hn hr => ?_, fun r v hn ht => ?_, fun v hv => ?_, fun v hn hv => ?_⟩
  · unfold Network.node at hr
    rw [relationshipAt_relate_eq] at hr
    split at hr
    · rename_i he
      cases hr
      subst he
      show net.Produces _ _ _ (relation mid.intermediate.1).result
      rw [hresult]
      refine ⟨hg.not_live hnew, ?_, fun s hs => ?_, .inl (List.mem_singleton_self _)⟩
      · obtain ⟨y, hy, hk, hu⟩ : ∃ y, mid.intermediate.2.variableAt mid.intermediate.1 = some y ∧
            y.kind = .intermediate ∧ y.holding = .unset :=
          ⟨_, by rw [hat, if_pos rfl], rfl, rfl⟩
        unfold Network.node
        rw [variableAt_relate, hoperands, if_pos List.mem_cons_self, hy]
        exact ⟨_, rfl, by simpa using hk, by simpa using hu⟩
      · rcases (htouches s _).mp hs with ⟨rfl, -⟩ | hold
        · exact le_rfl
        · have hlive := hi.operand_live s _ hold
          rw [hnew] at hlive
          cases hlive
    · have hlt := index_lt_of_relationshipAt hr
      apply ((h.produces r rel hn hr).grows hlt hg').use
      exact fun a ha => ⟨_, huses ha, hlt⟩
  · rcases (htouches r v).mp ht with ⟨-, hv⟩ | hold
    · rcases List.mem_cons.mp hv with rfl | hv
      · exact .inl (hg.not_live hnew)
      · exact h.answered v hv
    · exact h.touched r v hn hold
  · rw [List.mem_singleton.mp hv]
    exact .inl (hg.not_live hnew)
  · by_cases he : v = mid.intermediate.1
    · exact .inl (he ▸ List.mem_singleton_self _)
    · unfold Network.node at hv
      rw [isSome_variableAt_relate, hat, if_neg he] at hv
      rcases h.consumed v hn hv with ha | ⟨r, ht⟩
      · exact .inr ⟨_, huses ha⟩
      · exact .inr ⟨r, hg'.appends.touches ht⟩

theorem eq_of_new_addVariable {x : Variable} (hn : net.variableAt v = none)
    (hv : ((net.addVariable x).2.variableAt v).isSome) : v = (net.addVariable x).1 := by
  by_contra hne
  rw [variableAt_addVariable, if_neg hne, hn] at hv
  cases hv

theorem eq_of_new_declare {name : String} (hn : net.variableAt v = none)
    (hv : ((net.declare name).2.variableAt v).isSome) : v = (net.declare name).1 := by
  unfold declare at hv ⊢
  split at hv
  · rw [hn] at hv
    cases hv
  · exact eq_of_new_addVariable hn hv

theorem chained_declare (hi : net.Integrity) (name : String) :
    Chained (· = name) [(net.declare name).1] net (net.declare name).2 := by
  have hsource : net.Source (· = name) (net.declare name).1 :=
    Source.earlier (.inr ⟨name, rfl, lookup_declare name net⟩) (grows_declare name net) hi
  have hsame : (net.declare name).2.relationships = net.relationships := by rw [declare_rest]
  refine chained_same hsame (fun v hv => ?_) fun v hn hv => ?_
  · rw [List.mem_singleton.mp hv]
    exact hsource
  · exact List.mem_singleton.mpr (eq_of_new_declare hn hv)

theorem chained_literal (net : Network) (value : Float) :
    Chained (fun _ => False) [(net.addVariable (.literal (Decimal.text value) value)).1] net
      (net.addVariable (.literal (Decimal.text value) value)).2 := by
  refine chained_same rfl (fun v hv => ?_) fun v hn hv => ?_
  · rw [List.mem_singleton.mp hv]
    exact .inl net.variableAt_next
  · exact List.mem_singleton.mpr (eq_of_new_addVariable hn hv)

theorem adds_node (relation : VariableId → Relation) (h : Chained mentions answers net mid)
    (hi : mid.Integrity) (hg : Grows net mid) (hlive : ∀ a ∈ answers, (mid.variableAt a).isSome)
    (hresult : ∀ v, (relation v).result = v) (hargs : ∀ v, (relation v).arguments = answers) :
    Adds (modifyGet (relate (relation mid.intermediate.1))) mid.intermediate.2 fun _ net' =>
      Chained mentions [mid.intermediate.1] net net' ∧
        (net'.variableAt mid.intermediate.1).isSome := by
  have hadd := construct_node hresult (hargs mid.intermediate.1 ▸ hlive)
  have hg' : Grows mid (mid.node relation) := (grows_intermediate mid).tail hadd
  exact makes_modifyGet (.single hadd) ⟨h.node hi hg hg' hresult hargs,
    hadd.live (live_intermediate mid)⟩

mutual

theorem chains_lower {net : Network} (hi : net.Integrity) : ∀ e, Adds (Build.lower e) net
    fun v net' => Chained (fun x => (Expr.ident x).Part e) [v] net net' ∧
      (net'.variableAt v).isSome
  | .ident name => by
    refine makes_modifyGet (grows_declare name net) ⟨?_, live_declare hi name⟩
    apply (chained_declare hi name).mono
    rintro _ rfl
    exact .refl
  | .number value => by
    refine makes_unless _ fun hfin => makes_modifyGet (.single (.constant net value ?_)) ⟨?_, ?_⟩
    · simpa using hfin
    · exact (chained_literal net value).mono fun _ => False.elim
    · rw [variableAt_addVariable, if_pos rfl]
      rfl
  | .op symbol left right => by
    unfold Build.lower
    cases Operator.ofSymbol? symbol with
    | none => exact makes_throw _
    | some op =>
      refine (chains_lower hi left).bind fun l mid hg ⟨hl, hlive⟩ => ?_
      have hi' := hg.edits.integrity hi
      refine (chains_lower hi' right).bind fun r mid' hg' ⟨hr, hlive'⟩ => ?_
      have hargs : Chained (fun x => (Expr.ident x).Part (.op symbol left right)) [l, r] net mid' :=
        (hl.mono fun _ => .left).trans (hr.mono fun _ => .right) hi hg hg'
      have hnode := adds_node (fun v => .arithmetic op v l r) hargs
        (hg'.edits.integrity hi') (hg.trans hg') (by simp [hg'.live hlive, hlive'])
        (fun _ => rfl) fun _ => rfl
      apply (lowers_intermediate mid').bind
      rintro v mid'' _ ⟨hv, hmid⟩
      subst hv hmid
      exact hnode.bind fun _ _ _ hdone => makes_pure hdone
  | .call name params => by
    unfold Build.lower
    refine (chains_lowerAll hi params).bind fun inputs mid hg ⟨hin, hlive⟩ => ?_
    have hargs : Chained (fun x => (Expr.ident x).Part (.call name params)) inputs net mid :=
      hin.mono fun x ⟨e, he, hx⟩ => .param he hx
    apply (lowers_intermediate mid).bind
    rintro v mid' _ ⟨hv, hmid⟩
    subst hv hmid
    apply (adds_lookupFunction name inputs.length).bind
    rintro f mid' _ ⟨rfl, -⟩
    have hnode := adds_node (fun v => .custom name f inputs v) hargs
      (hg.edits.integrity hi) hg hlive (fun _ => rfl) fun _ => rfl
    exact hnode.bind fun _ _ _ hdone => makes_pure hdone

theorem chains_lowerAll {net : Network} (hi : net.Integrity) : ∀ es,
    Adds (Build.lowerAll es) net fun vs net' =>
      Chained (fun x => ∃ e ∈ es, (Expr.ident x).Part e) vs net net' ∧
        ∀ v ∈ vs, (net'.variableAt v).isSome
  | [] => by
    refine makes_pure ⟨chained_same rfl (by simp) fun v hn hv => ?_, by simp⟩
    rw [hn] at hv
    cases hv
  | e :: es => by
    unfold Build.lowerAll
    refine (chains_lower hi e).bind fun v mid hg ⟨hv, hlive⟩ => ?_
    refine (chains_lowerAll (hg.edits.integrity hi) es).bind
      fun vs net' hg' ⟨hvs, hlives⟩ => makes_pure ⟨?_, fun w hw => ?_⟩
    · exact (hv.mono fun x hx => ⟨e, List.mem_cons_self, hx⟩).trans
        (hvs.mono fun x ⟨e', he', hx⟩ => ⟨e', List.mem_cons_of_mem _ he', hx⟩) hi hg hg'
    · rcases List.mem_cons.mp hw with rfl | hw
      · exact hg'.live hlive
      · exact hlives w hw

end

end Network

end ConstraintNet

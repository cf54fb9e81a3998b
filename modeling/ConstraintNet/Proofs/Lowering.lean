import ConstraintNet.Proofs.Direct

/-!
# Lowering keeps the meaning

Lowering an expression whose names are pinned makes a network that is solved forwards,
in which the variable of each part stands for that part. So solving a fresh digest
evaluates the expression.
-/

set_option autoImplicit false

namespace ConstraintNet.Network

variable {base net net' : Network} {relation : Relation}

structure Extends (net net' : Network) : Prop where
  lookup : ∀ name v, net.lookup name = some v → net'.lookup name = some v
  relates : ∀ relation, net.Relates relation → net'.Relates relation
  holding : ∀ v x, net.variableAt v = some x →
    ∃ x', net'.variableAt v = some x' ∧ x'.holding = x.holding
  functions : net'.functions = net.functions
  lastDigest : net'.lastDigest = net.lastDigest

theorem Extends.refl (net : Network) : Extends net net :=
  ⟨fun _ _ h => h, fun _ h => h, fun _ x hx => ⟨x, hx, rfl⟩, rfl, rfl⟩

theorem Extends.trans {mid : Network} (h : Extends net mid) (h' : Extends mid net') :
    Extends net net' where
  lookup name v hv := h'.lookup name v (h.lookup name v hv)
  relates relation hr := h'.relates relation (h.relates relation hr)
  holding v x hx := by
    obtain ⟨y, hy, hyx⟩ := h.holding v x hx
    obtain ⟨z, hz, hzy⟩ := h'.holding v y hy
    exact ⟨z, hz, hzy.trans hyx⟩
  functions := h'.functions.trans h.functions
  lastDigest := h'.lastDigest.trans h.lastDigest

theorem extends_addNamed (net : Network) (x : Variable) (hfree : net.lookup x.name = none) :
    Extends net (net.addNamed x).2 where
  lookup name v hv := by
    rw [lookup_addNamed, if_neg]
    · exact hv
    · rintro rfl
      rw [hfree] at hv
      cases hv
  relates _ hr := hr
  holding v y hy := ⟨y, net.variableAt_addVariable_of_some hy, rfl⟩
  functions := rfl
  lastDigest := rfl

theorem relates_relate {relation' : Relation} : (net.relate relation).2.Relates relation' ↔
    relation' = relation ∨ net.Relates relation' := by
  constructor
  · rintro ⟨r, rel, hr, he⟩
    rw [relationshipAt_relate_eq] at hr
    split at hr
    · cases hr
      exact .inl he.symm
    · exact .inr ⟨r, rel, hr, he⟩
  · rintro (rfl | ⟨r, rel, hr, he⟩)
    · refine ⟨⟨net.relationships.next⟩, .ofRelation relation', ?_, rfl⟩
      rw [relationshipAt_relate_eq, if_pos rfl]
    · exact ⟨r, rel, net.relationshipAt_relate_of_some hr, he⟩

theorem holding_relate (relation : Relation) {v : VariableId} {x : Variable}
    (hx : net.variableAt v = some x) :
    ∃ x', (net.relate relation).2.variableAt v = some x' ∧ x'.holding = x.holding := by
  rw [variableAt_relate]
  split
  · exact ⟨_, by rw [hx]; rfl, Variable.holding_attach _ _⟩
  · exact ⟨x, hx, rfl⟩

theorem Construct.extends (h : Construct net net') : Extends net net' := by
  cases h with
  | constant value hf =>
    exact ⟨fun _ _ h => h, fun _ h => h,
      fun v y hy => ⟨y, net.variableAt_addVariable_of_some hy, rfl⟩, rfl, rfl⟩
  | named name hfree => exact extends_addNamed net _ hfree
  | intermediate n hle hfree =>
    have hcount : Extends net { net with nextIntermediate := n + 1 } :=
      ⟨fun _ _ h => h, fun _ h => h, fun _ x hx => ⟨x, hx, rfl⟩, rfl, rfl⟩
    exact hcount.trans (extends_addNamed { net with nextIntermediate := n + 1 } _ hfree)
  | relate relation hlive =>
    exact ⟨fun _ _ h => h, fun _ hr => relates_relate.mpr (.inr hr),
      fun _ _ hx => holding_relate relation hx, rfl, rfl⟩

theorem Grows.extends (h : Grows net net') : Extends net net' := by
  induction h with
  | refl => exact .refl _
  | tail _ hc ih => exact ih.trans hc.extends

theorem Extends.function (h : Extends net net') (name : String) (count : Nat) :
    net'.function name count = net.function name count := by
  unfold Network.function
  rw [h.functions]

mutual

theorem Lowered.extends {net net' : Network} (h : Extends net net') :
    ∀ (e : Expr) {v : VariableId}, net.Lowered e v → net'.Lowered e v
  | .ident name, v, hv => h.lookup name v hv
  | .number value, v, hv => by
    obtain ⟨x, hx, hh⟩ := hv
    obtain ⟨x', hx', he⟩ := h.holding v x hx
    exact ⟨x', hx', he.trans hh⟩
  | .op symbol left right, v, hv => by
    obtain ⟨op, l, r, hop, hl, hr, hrel⟩ := hv
    exact ⟨op, l, r, hop, Lowered.extends h left hl, Lowered.extends h right hr,
      h.relates _ hrel⟩
  | .call name params, v, hv => by
    obtain ⟨f, inputs, hf, hin, hrel⟩ := hv
    refine ⟨f, inputs, ?_, LoweredAll.extends h params hin, h.relates _ hrel⟩
    rw [h.function]
    exact hf

theorem LoweredAll.extends {net net' : Network} (h : Extends net net') :
    ∀ (es : List Expr) {vs : List VariableId}, net.LoweredAll es vs → net'.LoweredAll es vs
  | [], _, hvs => hvs
  | e :: es, _, hvs => by
    obtain ⟨v, rest, hcons, he, hrest⟩ := hvs
    exact ⟨v, rest, hcons, Lowered.extends h e he, LoweredAll.extends h es hrest⟩

end

/-- Every variable and every relation that is new stands for an expression of a kind. -/
structure Covers (kind : Expr → Prop) (net net' : Network) : Prop where
  vars : ∀ v, (net'.variableAt v).isSome → net.variableAt v = none →
    ∃ part, kind part ∧ net'.Lowered part v
  rels : ∀ relation, net'.Relates relation → net.Relates relation ∨
    ∃ part, kind part ∧ net'.Lowered part relation.result

theorem Covers.refl (kind : Expr → Prop) (net : Network) : Covers kind net net where
  vars v hv hn := by simp [hn] at hv
  rels _ hr := .inl hr

theorem Covers.trans {kind : Expr → Prop} {mid : Network} (h : Covers kind net mid)
    (h' : Covers kind mid net') (he : Extends mid net') : Covers kind net net' where
  vars v hv hn := by
    cases hmid : mid.variableAt v with
    | none => exact h'.vars v hv hmid
    | some x =>
      obtain ⟨part, hk, hl⟩ := h.vars v (by simp [hmid]) hn
      exact ⟨part, hk, Lowered.extends he part hl⟩
  rels relation hr := by
    rcases h'.rels relation hr with hr | hpart
    · rcases h.rels relation hr with hr | ⟨part, hk, hl⟩
      · exact .inl hr
      · exact .inr ⟨part, hk, Lowered.extends he part hl⟩
    · exact .inr hpart

theorem Covers.mono {kind kind' : Expr → Prop} (h : Covers kind net net')
    (hk : ∀ part, kind part → kind' part) : Covers kind' net net' where
  vars v hv hn := (h.vars v hv hn).imp fun part hp => ⟨hk part hp.1, hp.2⟩
  rels relation hr := (h.rels relation hr).imp_right fun hex =>
    hex.imp fun part hp => ⟨hk part hp.1, hp.2⟩

theorem variableAt_intermediate_fst (net : Network) :
    net.variableAt net.intermediate.1 = none :=
  net.variableAt_next

def node (net : Network) (relation : VariableId → Relation) : Network :=
  (net.intermediate.2.relate (relation net.intermediate.1)).2

theorem relates_node {relation : VariableId → Relation} {relation' : Relation} :
    (net.node relation).Relates relation' ↔
      relation' = relation net.intermediate.1 ∨ net.Relates relation' :=
  relates_relate

theorem Forward.node (hf : net.Forward) {relation : VariableId → Relation}
    (hresult : ∀ v, (relation v).result = v)
    (hargs : ∀ v, ∀ a ∈ (relation v).arguments, (net.variableAt a).isSome) :
    (net.node relation).Forward := by
  have hnew := net.variableAt_intermediate_fst
  obtain ⟨name, hat⟩ := net.exists_variableAt_intermediate
  -- A result that was there before is not the new variable.
  have hold {relation' : Relation} (hr : net.Relates relation') :
      relation'.result ≠ net.intermediate.1 := by
    intro he
    obtain ⟨x, hx, -⟩ := hf.unset relation' hr
    rw [he, hnew] at hx
    cases hx
  refine ⟨fun relation' hr => ?_, fun relation' hr => ?_, fun relation₁ relation₂ h₁ h₂ he => ?_⟩
  · rcases relates_node.mp hr with rfl | hr
    · rw [hresult]
      have hblank : net.intermediate.2.variableAt net.intermediate.1 =
          some (.blank name .intermediate) := by rw [hat, if_pos rfl]
      exact holding_relate _ hblank
    · obtain ⟨x, hx, hu⟩ := hf.unset relation' hr
      have hkept : net.intermediate.2.variableAt relation'.result = some x := by
        rw [hat, if_neg (hold hr), hx]
      obtain ⟨x', hx', hh⟩ := holding_relate (relation net.intermediate.1) hkept
      exact ⟨x', hx', hh.trans hu⟩
  · rcases relates_node.mp hr with rfl | hr
    · rw [hresult]
      intro hmem
      have hlive := hargs _ _ hmem
      rw [hnew] at hlive
      cases hlive
    · exact hf.proper relation' hr
  · rcases relates_node.mp h₁ with rfl | h₁
    · rcases relates_node.mp h₂ with rfl | h₂
      · rfl
      · rw [hresult] at he
        exact absurd he.symm (hold h₂)
    · rcases relates_node.mp h₂ with rfl | h₂
      · rw [hresult] at he
        exact absurd he (hold h₁)
      · exact hf.unique _ _ h₁ h₂ he

theorem covers_node {relation : VariableId → Relation} {e : Expr}
    (hresult : ∀ v, (relation v).result = v)
    (hl : (net.node relation).Lowered e net.intermediate.1) :
    Covers (·.Part e) net (net.node relation) where
  vars v hv hn := by
    obtain ⟨name, hat⟩ := net.exists_variableAt_intermediate
    unfold node at hv
    rw [isSome_variableAt_relate, hat] at hv
    split at hv
    · rename_i he
      exact ⟨e, .refl, he ▸ hl⟩
    · rw [hn] at hv
      cases hv
  rels relation' hr := by
    rcases relates_node.mp hr with rfl | hr
    · rw [hresult]
      exact .inr ⟨e, .refl, hl⟩
    · exact .inl hr

/-- The names in an expression are those of pinned variables. -/
def Pins (net : Network) (e : Expr) : Prop :=
  ∀ name, (Expr.ident name).Part e →
    ∃ v x, net.lookup name = some v ∧ net.variableAt v = some x ∧ x.holding.isPinned

theorem Pins.ident {name : String} (hp : base.Pins (.ident name)) (he : Extends base net) :
    ∃ v x, net.lookup name = some v ∧ net.variableAt v = some x ∧ x.holding.isPinned ∧
      base.direct (.ident name) = x.holding.value? := by
  obtain ⟨v, x, hlookup, hx, hpin⟩ := hp name .refl
  obtain ⟨x', hx', hh⟩ := he.holding v x hx
  refine ⟨v, x', he.lookup name v hlookup, hx', hh ▸ hpin, ?_⟩
  simp [direct, pinnedAt, hlookup, hx, hpin, hh]

/-- The names in an expression are registered. -/
def Knows (net : Network) (e : Expr) : Prop :=
  ∀ name, (Expr.ident name).Part e → ∃ v, net.lookup name = some v

theorem Pins.knows {e : Expr} (hp : base.Pins e) : base.Knows e := by
  intro name h
  obtain ⟨v, x, hlookup, -⟩ := hp name h
  exact ⟨v, hlookup⟩

/-- What lowering has done when it answers with `v`. -/
structure Done (kind : Expr → Prop) (net net' : Network) : Prop where
  forward : net'.Forward
  covers : Covers kind net net'

theorem Done.trans {kind kind₁ kind₂ : Expr → Prop} {mid : Network} (h : Done kind₁ net mid)
    (h' : Done kind₂ mid net') (hg : Grows mid net') (h₁ : ∀ part, kind₁ part → kind part)
    (h₂ : ∀ part, kind₂ part → kind part) : Done kind net net' :=
  ⟨h'.forward, (h.covers.mono h₁).trans (h'.covers.mono h₂) hg.extends⟩

theorem forward_literal (hf : net.Forward) (value : Float) :
    (net.addVariable (.literal (Decimal.text value) value)).2.Forward := by
  refine ⟨fun relation hr => ?_, hf.proper, hf.unique⟩
  obtain ⟨x, hx, hu⟩ := hf.unset relation hr
  exact ⟨x, net.variableAt_addVariable_of_some hx, hu⟩

theorem lowers_literal (hf : net.Forward) (value : Float) :
    Adds (Build.literal value) net fun v net' =>
      Done (·.Part (.number value)) net net' ∧ net'.Lowered (.number value) v ∧
        (net'.variableAt v).isSome := by
  apply makes_unless _
  intro hfin
  apply makes_modifyGet (.single (.constant net value (by simpa using hfin)))
  have hat := variableAt_addVariable net (.literal (Decimal.text value) value)
  have hl : (net.addVariable (.literal (Decimal.text value) value)).2.Lowered (.number value)
      (net.addVariable (.literal (Decimal.text value) value)).1 :=
    ⟨_, by rw [hat, if_pos rfl], rfl⟩
  refine ⟨⟨forward_literal hf value, fun v hv hn => ?_, fun _ hr => .inl hr⟩, hl, ?_⟩
  · rw [hat] at hv
    split at hv
    · rename_i he
      exact ⟨.number value, .refl, he ▸ hl⟩
    · rw [hn] at hv
      cases hv
  · rw [hat, if_pos rfl]
    rfl

theorem lowers_intermediate (net : Network) : Adds (modifyGet intermediate) net fun v net' =>
    v = net.intermediate.1 ∧ net' = net.intermediate.2 :=
  makes_modifyGet (grows_intermediate net) ⟨rfl, rfl⟩

theorem construct_node {relation : VariableId → Relation} (hresult : ∀ v, (relation v).result = v)
    (hargs : ∀ a ∈ (relation net.intermediate.1).arguments, (net.variableAt a).isSome) :
    Construct net.intermediate.2 (net.node relation) := by
  refine .relate _ _ fun v hv => ?_
  rcases List.mem_cons.mp hv with rfl | hv
  · rw [hresult]
    exact live_intermediate net
  · exact (grows_intermediate net).live (hargs v hv)

theorem lowers_node (hf : net.Forward) (e : Expr) (relation : VariableId → Relation)
    (hresult : ∀ v, (relation v).result = v)
    (hargs : ∀ v, ∀ a ∈ (relation v).arguments, (net.variableAt a).isSome)
    (hl : ∀ net' v, Grows net net' → net'.Relates (relation v) → net'.Lowered e v) :
    Adds (modifyGet (relate (relation net.intermediate.1))) net.intermediate.2 fun _ net' =>
      Grows net net' ∧ Done (·.Part e) net net' ∧ net'.Lowered e net.intermediate.1 ∧
        (net'.variableAt net.intermediate.1).isSome := by
  have hadd := construct_node hresult (hargs _)
  have hg : Grows net (net.node relation) := (grows_intermediate net).tail hadd
  have hlowered := hl _ _ hg (relates_node.mpr (.inl rfl))
  exact makes_modifyGet (.single hadd) ⟨hg, ⟨hf.node hresult hargs, covers_node hresult hlowered⟩,
    hlowered, hadd.live (live_intermediate net)⟩

theorem LoweredAll.length {es : List Expr} {vs : List VariableId} (h : net.LoweredAll es vs) :
    vs.length = es.length := by
  induction es generalizing vs with
  | nil =>
    cases h
    rfl
  | cons e es ih =>
    obtain ⟨v, rest, rfl, -, hrest⟩ := h
    simp [ih hrest]

mutual

theorem lowers {base net : Network} (he : Extends base net) (hi : net.Integrity)
    (hf : net.Forward) : ∀ e, base.Knows e → Adds (Build.lower e) net fun v net' =>
      Done (·.Part e) net net' ∧ net'.Lowered e v ∧ (net'.variableAt v).isSome
  | .ident name, hp => by
    obtain ⟨v, hbase⟩ := hp name .refl
    have hlookup := he.lookup name v hbase
    have hdeclare : net.declare name = (v, net) := by simp [declare, hlookup]
    apply makes_modifyGet (by rw [hdeclare])
    rw [hdeclare]
    exact ⟨⟨hf, .refl _ _⟩, hlookup, hi.live_of_lookup hlookup⟩
  | .number value, _ => lowers_literal hf value
  | .op symbol left right, hp => by
    unfold Build.lower
    cases hop : Operator.ofSymbol? symbol with
    | none => exact makes_throw _
    | some op =>
      refine (lowers he hi hf left fun name h => hp name (.left h)).bind
        fun l mid hg ⟨hdone, hl, hlive⟩ => ?_
      refine (lowers (he.trans hg.extends) (hg.edits.integrity hi) hdone.forward right
        fun name h => hp name (.right h)).bind fun r mid' hg' ⟨hdone', hr, hlive'⟩ => ?_
      have hargs (v : VariableId) : ∀ a ∈ (Relation.arithmetic op v l r).arguments,
          (mid'.variableAt a).isSome := by
        simp [Relation.arguments, hg'.live hlive, hlive']
      have hnode := lowers_node hdone'.forward (.op symbol left right)
        (fun v => .arithmetic op v l r) (fun _ => rfl) hargs fun net' v hgn hrel => ⟨op, l, r, hop,
          Lowered.extends (hg'.extends.trans hgn.extends) left hl,
          Lowered.extends hgn.extends right hr, hrel⟩
      apply (lowers_intermediate mid').bind
      rintro v mid'' _ ⟨hv, hmid⟩
      subst hv hmid
      refine hnode.bind fun _ net' _ ⟨hg'', hdone'', hlowered, hnew⟩ => makes_pure ⟨?_, hlowered, hnew⟩
      exact (hdone.trans hdone' hg' (fun _ => .left) fun _ => .right).trans hdone'' hg''
        (fun _ => id) fun _ => id
  | .call name params, hp => by
    unfold Build.lower
    refine (lowersAll he hi hf params fun e hmem name h => hp name (.param hmem h)).bind
      fun inputs mid hg ⟨hdone, hin, hlive⟩ => ?_
    apply (lowers_intermediate mid).bind
    rintro v mid' hg' ⟨hv, hmid⟩
    subst hv hmid
    apply (adds_lookupFunction name inputs.length).bind
    intro f mid' _ hfun
    obtain ⟨rfl, hfun⟩ := hfun
    have hnode := lowers_node hdone.forward (.call name params)
      (fun v => .custom name f inputs v) (fun _ => rfl) (fun _ => hlive)
      fun net' v hgn hrel => by
        refine ⟨f, inputs, ?_, LoweredAll.extends hgn.extends params hin, hrel⟩
        rw [hgn.extends.function, ← hin.length, ← hg'.extends.function]
        exact hfun
    refine hnode.bind fun _ net' _ ⟨hg'', hdone', hlowered, hnew⟩ => makes_pure ⟨?_, hlowered, hnew⟩
    exact hdone.trans hdone' hg'' (fun part ⟨e, hmem, h⟩ => .param hmem h) fun _ => id

theorem lowersAll {base net : Network} (he : Extends base net) (hi : net.Integrity)
    (hf : net.Forward) : ∀ es, (∀ e ∈ es, base.Knows e) →
      Adds (Build.lowerAll es) net fun vs net' =>
        Done (fun part => ∃ e ∈ es, part.Part e) net net' ∧ net'.LoweredAll es vs ∧
          ∀ v ∈ vs, (net'.variableAt v).isSome
  | [], _ => makes_pure ⟨⟨hf, .refl _ _⟩, rfl, by simp⟩
  | e :: es, hp => by
    unfold Build.lowerAll
    refine (lowers he hi hf e (hp e List.mem_cons_self)).bind
      fun v mid hg ⟨hdone, hl, hlive⟩ => ?_
    refine (lowersAll (he.trans hg.extends) (hg.edits.integrity hi) hdone.forward es
      fun e hmem => hp e (List.mem_cons_of_mem _ hmem)).bind
      fun vs mid' hg' ⟨hdone', hls, hlives⟩ => makes_pure ⟨?_, ?_, ?_⟩
    · exact hdone.trans hdone' hg' (fun part h => ⟨e, List.mem_cons_self, h⟩)
        fun part ⟨e', hmem, h⟩ => ⟨e', List.mem_cons_of_mem _ hmem, h⟩
    · exact ⟨v, vs, rfl, Lowered.extends hg'.extends e hl, hls⟩
    · intro w hw
      rcases List.mem_cons.mp hw with rfl | hw
      · exact hg'.live hlive
      · exact hlives w hw

end

theorem Pins.of_part {part e : Expr} (h : base.Pins e) (hp : part.Part e) : base.Pins part :=
  fun name hn => h name (hn.trans hp)

theorem Forward.meaning_arithmetic (hf : net.Forward) {op : Operator} {v l r : VariableId}
    (hrel : net.Relates (.arithmetic op v l r)) : net.meaning v = (do
      let a ← net.meaning l
      let b ← net.meaning r
      op.result? a b) := by
  apply Option.ext
  intro value
  have hresult : net.meaning v = some value ↔ _ := hf.meaning_result hrel
  simp only [Relation.arguments, Relation.result, List.mem_cons, List.not_mem_nil, or_false,
    forall_eq_or_imp, forall_eq] at hresult
  rw [hresult]
  cases hl : net.meaning l with
  | none => simp
  | some a =>
    cases hr : net.meaning r with
    | none => simp
    | some b => simp [(Relation.derive_arithmetic op v hl hr).1]

theorem Forward.meaning_custom (hf : net.Forward) {name : String} {f : HostFunction}
    {inputs : List VariableId} {v : VariableId} (hrel : net.Relates (.custom name f inputs v)) :
    net.meaning v = (do
      let values ← Relation.allKnown net.meaning inputs
      finite? (f values)) := by
  apply Option.ext
  intro value
  have hresult : net.meaning v = some value ↔ _ := hf.meaning_result hrel
  simp only [Relation.arguments, Relation.result, ← Relation.isSome_allKnown] at hresult
  rw [hresult]
  cases hin : Relation.allKnown net.meaning inputs with
  | none => simp
  | some values => simp [(Relation.derive_custom name f v hin).1]

/-- The variable of a name that is in an expression means what is pinned there. -/
def Reads (base net : Network) (e : Expr) : Prop :=
  ∀ name v, (Expr.ident name).Part e → net.lookup name = some v →
    net.meaning v = base.direct (.ident name)

theorem Reads.of_part {part e : Expr} (h : base.Reads net e) (hp : part.Part e) :
    base.Reads net part :=
  fun name v hn => h name v (hn.trans hp)

theorem Pins.reads {e : Expr} (hp : base.Pins e) (he : Extends base net) (hf : net.Forward) :
    base.Reads net e := by
  intro name v hn hv
  obtain ⟨w, x, hlookup, hx, hpin, hdirect⟩ := (hp.of_part hn).ident he
  rw [hv] at hlookup
  cases hlookup
  rw [hf.meaning_pinned hx hpin, hdirect]

mutual

theorem Lowered.meaning_eq {base net : Network} (he : Extends base net) (hf : net.Forward)
    (hw : net.WellHeld) : ∀ (e : Expr) (_ : base.Reads net e) {v : VariableId}
      (_ : net.Lowered e v), net.meaning v = base.direct e
  | .ident name, hp, v, hl => hp name v .refl hl
  | .number value, _, v, hl => by
    obtain ⟨x, hx, hh⟩ := hl
    have hfin : value.isFinite := (hw.held v x hx).finite (by rw [hh]; rfl)
    rw [hf.meaning_pinned hx (by rw [hh]; rfl), hh]
    simp [direct, finite?, hfin, Holding.value?]
  | .op symbol left right, hp, v, hl => by
    obtain ⟨op, l, r, hop, hleft, hright, hrel⟩ := hl
    rw [hf.meaning_arithmetic hrel,
      Lowered.meaning_eq he hf hw left (hp.of_part (.left .refl)) hleft,
      Lowered.meaning_eq he hf hw right (hp.of_part (.right .refl)) hright]
    simp [direct, hop]
  | .call name params, hp, v, hl => by
    obtain ⟨f, inputs, hfun, hin, hrel⟩ := hl
    rw [he.function] at hfun
    rw [hf.meaning_custom hrel, LoweredAll.allKnown_eq he hf hw params
      (fun e hmem => hp.of_part (.param hmem .refl)) hin]
    simp [direct, hfun, Except.toOption]

theorem LoweredAll.allKnown_eq {base net : Network} (he : Extends base net) (hf : net.Forward)
    (hw : net.WellHeld) : ∀ (es : List Expr) (_ : ∀ e ∈ es, base.Reads net e)
      {vs : List VariableId} (_ : net.LoweredAll es vs),
      Relation.allKnown net.meaning vs = base.directAll es
  | [], _, _, hl => by
    cases hl
    rfl
  | e :: es, hp, _, hl => by
    obtain ⟨v, rest, rfl, hfirst, hrest⟩ := hl
    unfold Relation.allKnown directAll
    rw [Lowered.meaning_eq he hf hw e (hp e List.mem_cons_self) hfirst,
      LoweredAll.allKnown_eq he hf hw es (fun e hmem => hp e (List.mem_cons_of_mem _ hmem)) hrest]

end

/-- A result is not pinned, so it stands for an operation or a call, whose relation is
the one that computes it. -/
theorem Lowered.breaks_iff (he : Extends base net) (hf : net.Forward) (hw : net.WellHeld)
    {part : Expr} (hp : base.Pins part) {relation : Relation} (hr : net.Relates relation)
    (hl : net.Lowered part relation.result) : base.Fails part ↔
      (∀ a ∈ relation.arguments, (net.meaning a).isSome) ∧
        ∃ fault, relation.derive net.meaning = .error fault := by
  cases part with
  | ident name =>
    obtain ⟨w, x, hlookup, hx, hpin, -⟩ := hp.ident he
    rw [show net.lookup name = some relation.result from hl] at hlookup
    cases hlookup
    exact absurd hpin (hf.not_pinned hr hx)
  | number value =>
    obtain ⟨x, hx, hh⟩ := hl
    exact absurd (by rw [hh]; rfl) (hf.not_pinned hr hx)
  | op symbol left right =>
    obtain ⟨op, l, r, hop, hleft, hright, hrel⟩ := hl
    have hsame := hf.unique _ _ hr hrel rfl
    rw [hsame]
    have hreads := hp.reads he hf
    have ihl := Lowered.meaning_eq he hf hw left (hreads.of_part (.left .refl)) hleft
    have ihr := Lowered.meaning_eq he hf hw right (hreads.of_part (.right .refl)) hright
    simp only [Fails, Relation.arguments, List.mem_cons, List.not_mem_nil, or_false,
      forall_eq_or_imp, forall_eq, ihl, ihr, hop]
    cases ha : base.direct left with
    | none => simp
    | some a =>
      cases hb : base.direct right with
      | none => simp
      | some b =>
        have hderive := Relation.derive_arithmetic op relation.result (ihl.trans ha)
          (ihr.trans hb)
        simp [hderive.2]
  | call name params =>
    obtain ⟨f, inputs, hfun, hin, hrel⟩ := hl
    have hsame := hf.unique _ _ hr hrel rfl
    rw [hsame]
    have hreads := hp.reads he hf
    rw [he.function] at hfun
    have ih := LoweredAll.allKnown_eq he hf hw params
      (fun e hmem => hreads.of_part (.param hmem .refl)) hin
    simp only [Fails, Relation.arguments, ← Relation.isSome_allKnown, ih, hfun]
    cases hvalues : base.directAll params with
    | none => simp
    | some values =>
      have hderive := Relation.derive_custom name f relation.result (ih.trans hvalues)
      simp [hderive.2]

theorem breaks_iff_fails (hgrow : Extends base net) (hf : net.Forward) (hw : net.WellHeld)
    {e : Expr} (hp : base.Pins e) {root : VariableId} (hroot : net.Lowered e root)
    (hcover : ∀ relation, net.Relates relation →
      ∃ part, part.Part e ∧ net.Lowered part relation.result) :
    net.Breaks ↔ ∃ part, part.Part e ∧ base.Fails part := by
  constructor
  · rintro ⟨relation, fault, hr, hk, hd⟩
    obtain ⟨part, hpart, hl⟩ := hcover relation hr
    exact ⟨part, hpart, (hl.breaks_iff hgrow hf hw (hp.of_part hpart) hr).mpr ⟨hk, fault, hd⟩⟩
  · rintro ⟨part, hpart, hfails⟩
    obtain ⟨v, hl⟩ := hroot.part hpart
    -- Names and numbers do not fail, so the part has a relation of its own.
    obtain ⟨relation, hr, rfl⟩ : ∃ relation, net.Relates relation ∧ relation.result = v := by
      cases part with
      | ident name => exact hfails.elim
      | number value => exact hfails.elim
      | op symbol left right =>
        obtain ⟨op, l, r, -, -, -, hrel⟩ := hl
        exact ⟨_, hrel, rfl⟩
      | call name params =>
        obtain ⟨f, inputs, -, -, hrel⟩ := hl
        exact ⟨_, hrel, rfl⟩
    obtain ⟨hk, fault, hd⟩ := (hl.breaks_iff hgrow hf hw (hp.of_part hpart) hr).mp hfails
    exact ⟨relation, fault, hr, hk, hd⟩

theorem relationshipAt_eq_none_of_order (hi : base.Integrity) (hnone : base.order = [])
    (r : RelationshipId) : base.relationshipAt r = none := by
  by_contra hr
  have hmem := (hi.mem_order r).mpr (Option.isSome_iff_ne_none.mpr hr)
  rw [hnone] at hmem
  cases hmem

theorem not_relates_of_order (hi : base.Integrity) (hnone : base.order = [])
    (relation : Relation) : ¬ base.Relates relation := by
  rintro ⟨r, rel, hr, -⟩
  rw [relationshipAt_eq_none_of_order hi hnone r] at hr
  cases hr

theorem forward_of_order (hi : base.Integrity) (hnone : base.order = []) : base.Forward where
  unset relation hr := absurd hr (not_relates_of_order hi hnone relation)
  proper relation hr := absurd hr (not_relates_of_order hi hnone relation)
  unique relation _ hr := absurd hr (not_relates_of_order hi hnone relation)

theorem evaluate_lowers (hi : base.Integrity) (hnone : base.order = []) {e : Expr}
    (hp : base.Pins e) {root : VariableId}
    (h : (base.perform (.evaluate e)).result = .ok (.handle root)) :
    Grows base (base.perform (.evaluate e)).network ∧
      Done (·.Part e) base (base.perform (.evaluate e)).network ∧
      (base.perform (.evaluate e)).network.Lowered e root := by
  have hadds : Adds (Build.evaluate e) base fun v net' =>
      Done (·.Part e) base net' ∧ net'.Lowered e v ∧ (net'.variableAt v).isSome := by
    apply (adds_ensure e).bind
    intro _ mid _ hmid
    obtain ⟨rfl, -⟩ := hmid
    exact lowers (.refl _) hi (forward_of_order hi hnone) e hp.knows
  obtain ⟨v, hv, hgrows, hdone, hroot, -⟩ := hadds.answered h
  cases hv
  exact ⟨hgrows, hdone, hroot⟩

/-- In a network without relationships, take an expression whose names are those of
pinned variables. Evaluating it and solving a fresh digest gives the answered variable
the value of the expression, if there is one, and no value otherwise. If the solve
answers, every variable made on the way has the value of the part it stands for; and
the solve fails exactly if some operation or call fails on the values of its parts. -/
theorem evaluate_solve_direct (hr : Reachable base) (hnone : base.order = []) {e : Expr}
    (hp : base.Pins e) {root : VariableId}
    (h : (base.perform (.evaluate e)).result = .ok (.handle root)) {d : Digest}
    (hd : base.lastDigest < d) :
    let lowered := (base.perform (.evaluate e)).network
    let outcome := lowered.perform (.solve d)
    outcome.network.valueAt d root = base.direct e ∧ lowered.Lowered e root ∧
    (∀ part, part.Part e → ∃ v, lowered.Lowered part v) ∧
    (∀ v, (lowered.variableAt v).isSome → base.variableAt v = none →
      ∃ part, part.Part e ∧ lowered.Lowered part v) ∧
    (∀ report, outcome.result = .ok (.report report) →
      ∀ part v, part.Part e → lowered.Lowered part v →
        outcome.network.valueAt d v = base.direct part) ∧
    ((∃ fault, outcome.result = .error fault) ↔ ∃ part, part.Part e ∧ base.Fails part) := by
  intro lowered outcome
  obtain ⟨hgrows, hdone, hroot⟩ := evaluate_lowers hr.integrity hnone hp h
  have hgrow := hgrows.extends
  have hlr : Reachable lowered := hr.perform (.evaluate e)
  have hmeaning {part : Expr} (hpart : part.Part e) {v : VariableId}
      (hl : lowered.Lowered part v) : lowered.meaning v = base.direct part :=
    hl.meaning_eq hgrow hdone.forward hlr.wellHeld part ((hp.of_part hpart).reads hgrow hdone.forward)
  have hbreaks : lowered.Breaks ↔ ∃ part, part.Part e ∧ base.Fails part :=
    breaks_iff_fails hgrow hdone.forward hlr.wellHeld hp hroot fun relation hrel =>
      (hdone.covers.rels relation hrel).resolve_left
        (not_relates_of_order hr.integrity hnone relation)
  obtain ⟨hsound, hfound, hok, herror⟩ := forward_solve hlr hdone.forward
    (show lowered.lastDigest < d from hgrow.lastDigest ▸ hd)
  refine ⟨?_, hroot, fun part hpart => hroot.part hpart, hdone.covers.vars, ?_, ?_⟩
  · rw [← hmeaning .refl hroot]
    cases hvalue : outcome.network.valueAt d root with
    | some value => exact (hsound root value hvalue).symm
    | none =>
      cases hm : lowered.meaning root with
      | none => rfl
      | some value =>
        -- An expression with a value has no part that fails, so the value was found.
        have hfine : ¬ lowered.Breaks := by
          rw [hbreaks]
          rintro ⟨part, hpart, hfails⟩
          have hsome : (base.direct e).isSome := by
            rw [← hmeaning .refl hroot, hm]
            rfl
          exact not_fails_part hpart hsome hfails
        rw [← hm, ← hfound hfine root]
        exact hvalue.symm
  · intro report hreport part v hpart hl
    rw [hfound (hok.mpr ⟨report, hreport⟩) v, hmeaning hpart hl]
  · rw [← hbreaks]
    exact herror.symm

def pinnedOperands : Network := (empty .standard).after [.assign "a" 6, .assign "b" 3]

def quotientPlusOne : Expr := .op "+" (.op "/" (.ident "a") (.ident "b")) (.number 1)

theorem pins_quotientPlusOne : pinnedOperands.Pins quotientPlusOne := by
  intro name h
  cases h with
  | left h =>
    cases h with
    | left h =>
      cases h
      exact ⟨⟨0⟩, _, rfl, rfl, rfl⟩
    | right h =>
      cases h
      exact ⟨⟨1⟩, _, rfl, rfl, rfl⟩
  | right h => cases h

theorem evaluate_solve_direct_quotientPlusOne :
    Reachable pinnedOperands ∧ pinnedOperands.order = [] ∧
      pinnedOperands.Pins quotientPlusOne ∧ pinnedOperands.lastDigest < 1 ∧
      (pinnedOperands.perform (.evaluate quotientPlusOne)).result = .ok (.handle ⟨4⟩) ∧
      ((pinnedOperands.perform (.evaluate quotientPlusOne)).network.perform
        (.solve 1)).network.valueAt 1 ⟨4⟩ = some 3 := by
  have hr : Reachable pinnedOperands := ⟨.standard, empty .standard, _, create_standard, rfl⟩
  have hd : pinnedOperands.lastDigest < 1 := by decide +kernel
  have hroot : (pinnedOperands.perform (.evaluate quotientPlusOne)).result = .ok (.handle ⟨4⟩) :=
    rfl
  have hvalue : pinnedOperands.direct quotientPlusOne = some 3 := by decide +kernel
  refine ⟨hr, rfl, pins_quotientPlusOne, hd, hroot, ?_⟩
  rw [← hvalue]
  exact (evaluate_solve_direct hr rfl pins_quotientPlusOne hroot hd).1

end ConstraintNet.Network

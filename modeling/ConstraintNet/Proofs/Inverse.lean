import ConstraintNet.Proofs.Acceptance
import ConstraintNet.Proofs.Chain
import ConstraintNet.Proofs.Plan

/-!
# Solving an expression for a name

Where one name of an expression is unknown and occurs once, a value of the whole expression
can be carried down to it: at every operation on the way the other side is known. In the
lowered network the operations on the way make a route from the result down to the name, and
every other relationship stands for a part in which the name does not occur.
-/

set_option autoImplicit false

namespace ConstraintNet

namespace Expr

mutual

def names : Expr → List String
  | .ident name => [name]
  | .number _ => []
  | .op _ left right => names left ++ names right
  | .call _ params => namesAll params

def namesAll : List Expr → List String
  | [] => []
  | e :: es => names e ++ namesAll es

end

inductive Arithmetic : Expr → Prop
  | ident (name : String) : Arithmetic (.ident name)
  | number (value : Float) : Arithmetic (.number value)
  | op (op : Operator) {left right : Expr} (hl : Arithmetic left) (hr : Arithmetic right) :
    Arithmetic (.op op.symbol left right)

theorem Part.names_subset {part e : Expr} (h : Part part e) : part.names ⊆ e.names := by
  have hparams {es : List Expr} {e : Expr} (he : e ∈ es) : e.names ⊆ namesAll es := by
    induction es with
    | nil => cases he
    | cons first es ih =>
      rcases List.mem_cons.mp he with rfl | he
      · exact List.subset_append_left _ _
      · exact List.Subset.trans (ih he) (List.subset_append_right _ _)
  induction h with
  | refl => exact List.Subset.refl _
  | left _ ih => exact List.Subset.trans ih (List.subset_append_left _ _)
  | right _ ih => exact List.Subset.trans ih (List.subset_append_right _ _)
  | param he _ ih => exact List.Subset.trans ih (hparams he)

theorem Arithmetic.part_of_mem_names {e : Expr} (h : e.Arithmetic) {x : String}
    (hx : x ∈ e.names) : Part (.ident x) e := by
  induction h with
  | ident name =>
    rw [List.mem_singleton.mp hx]
    exact .refl
  | number => cases hx
  | op _ _ _ ihl ihr =>
    rcases List.mem_append.mp hx with hx | hx
    · exact .left (ihl hx)
    · exact .right (ihr hx)

theorem Arithmetic.of_part {part e : Expr} (h : e.Arithmetic) (hp : Part part e) :
    part.Arithmetic := by
  induction hp with
  | refl => exact h
  | left _ ih =>
    cases h with
    | op _ hl _ => exact ih hl
  | right _ ih =>
    cases h with
    | op _ _ hr => exact ih hr
  | param => cases h

end Expr

theorem Postorder.arithmetic {ts : List Token} {e : Expr} (h : Postorder ts e) :
    e.Arithmetic := by
  induction h with
  | number value => exact .number value
  | identifier name => exact .ident name
  | op op _ _ ihl ihr => exact .op op ihl ihr

namespace Operator

def quotient? (a b : Float) : Option Float :=
  if b.abs < zeroEpsilon then none else finite? (a / b)

def left? (op : Operator) (out right : Float) : Option Float :=
  match op with
  | .add => finite? (out - right)
  | .sub => finite? (out + right)
  | .mul => quotient? out right
  | .div => finite? (out * right)

def right? (op : Operator) (out left : Float) : Option Float :=
  match op with
  | .add => finite? (out - left)
  | .sub => finite? (left - out)
  | .mul => quotient? out left
  | .div => quotient? left out

end Operator

theorem finite?_eq_some {a value : Float} :
    finite? a = some value ↔ a = value ∧ value.isFinite := by
  unfold finite?
  constructor
  · intro h
    split at h
    · rename_i hf
      cases h
      exact ⟨rfl, hf⟩
    · cases h
  · rintro ⟨rfl, hf⟩
    exact if_pos hf

theorem divideInto_of_quotient? {a b value : Float} (h : Operator.quotient? a b = some value)
    (target : VariableId) :
    divideInto target a b = .ok (.derived target value) ∧ value.isFinite := by
  unfold Operator.quotient? at h
  split at h
  · cases h
  · rename_i hb
    obtain ⟨rfl, hf⟩ := finite?_eq_some.mp h
    exact ⟨if_neg hb, hf⟩

theorem Operator.solveLeft_of_left? {op : Operator} {out right value : Float}
    (h : op.left? out right = some value) (target : VariableId) :
    op.solveLeft target out right = .ok (.derived target value) ∧ value.isFinite := by
  cases op with
  | mul => exact divideInto_of_quotient? h target
  | add | sub | div =>
    obtain ⟨rfl, hf⟩ := finite?_eq_some.mp h
    exact ⟨rfl, hf⟩

theorem Operator.solveRight_of_right? {op : Operator} {out left value : Float}
    (h : op.right? out left = some value) (target : VariableId) :
    op.solveRight target out left = .ok (.derived target value) ∧ value.isFinite := by
  cases op with
  | mul | div => exact divideInto_of_quotient? h target
  | add | sub =>
    obtain ⟨rfl, hf⟩ := finite?_eq_some.mp h
    exact ⟨rfl, hf⟩

namespace Relation

variable {known : VariableId → Option Float} {op : Operator} {v l r : VariableId}
  {out a b value : Float}

theorem derive_left (hv : known v = some out) (hl : known l = none) (hr : known r = some b)
    (h : op.left? out b = some value) :
    (arithmetic op v l r).derive known = .ok (.derived l value) := by
  obtain ⟨hsolve, hf⟩ := Operator.solveLeft_of_left? h l
  simp [derive, solve, hv, hl, hr, hsolve, hf]

theorem derive_right (hv : known v = some out) (hl : known l = some a) (hr : known r = none)
    (h : op.right? out a = some value) :
    (arithmetic op v l r).derive known = .ok (.derived r value) := by
  obtain ⟨hsolve, hf⟩ := Operator.solveRight_of_right? h r
  simp [derive, solve, hv, hl, hr, hsolve, hf]

end Relation

namespace Network

/-- What a name has to be for an expression to have a value: at every operation on the way
down to the name its inverse is taken, with the value of the other side. -/
def inverse (net : Network) (x : String) : Expr → Float → Option Float
  | .ident name, value => if name = x then some value else none
  | .number _, _ => none
  | .op symbol left right, value => do
    let op ← Operator.ofSymbol? symbol
    if x ∈ left.names then
      let known ← net.direct right
      net.inverse x left (← op.left? value known)
    else
      let known ← net.direct left
      net.inverse x right (← op.right? value known)
  | .call _ _, _ => none

variable {base net net' : Network} {x : String} {op : Operator} {left right : Expr}
  {w value : Float}

theorem inverse_op (h : base.inverse x (.op op.symbol left right) w = some value) :
    (x ∈ left.names ∧ ∃ b u, base.direct right = some b ∧ op.left? w b = some u ∧
      base.inverse x left u = some value) ∨
    (x ∉ left.names ∧ ∃ a u, base.direct left = some a ∧ op.right? w a = some u ∧
      base.inverse x right u = some value) := by
  simp only [inverse, Operator.ofSymbol?_symbol, Option.bind_eq_bind, Option.bind_some] at h
  split at h
  · rename_i hx
    simp only [Option.bind_eq_some_iff] at h
    obtain ⟨b, hb, u, hu, hvalue⟩ := h
    exact .inl ⟨hx, b, u, hb, hu, hvalue⟩
  · rename_i hx
    simp only [Option.bind_eq_some_iff] at h
    obtain ⟨a, ha, u, hu, hvalue⟩ := h
    exact .inr ⟨hx, a, u, ha, hu, hvalue⟩

inductive Link (base net : Network) (x : String) (e : Expr)
    (wanted : VariableId → Option Float) : Relation → VariableId → Prop
  | left {op : Operator} {v l r : VariableId} {left right : Expr} {w b u : Float}
      (hpart : (Expr.op op.symbol left right).Part e) (hx : x ∈ left.names)
      (hn : x ∉ right.names) (hl : net.Lowered left l) (hr : net.Lowered right r)
      (hb : base.direct right = some b) (hw : wanted v = some w) (hu : op.left? w b = some u)
      (hc : wanted l = some u) : Link base net x e wanted (.arithmetic op v l r) l
  | right {op : Operator} {v l r : VariableId} {left right : Expr} {w a u : Float}
      (hpart : (Expr.op op.symbol left right).Part e) (hx : x ∈ right.names)
      (hn : x ∉ left.names) (hl : net.Lowered left l) (hr : net.Lowered right r)
      (ha : base.direct left = some a) (hw : wanted v = some w) (hu : op.right? w a = some u)
      (hc : wanted r = some u) : Link base net x e wanted (.arithmetic op v l r) r

variable {wanted wanted' : VariableId → Option Float} {relation : Relation} {c : VariableId}
  {e sub : Expr}

theorem Link.mem_arguments (h : Link base net x e wanted relation c) :
    c ∈ relation.arguments := by
  cases h <;> simp [Relation.arguments]

theorem Link.mono (h : Link base net x sub wanted relation c) (he : Extends net net')
    (hsub : sub.Part e) (hresult : wanted' relation.result = wanted relation.result)
    (hc : wanted' c = wanted c) : Link base net' x e wanted' relation c := by
  cases h with
  | left hpart hx hn hl hr hb hw hu hc' =>
    exact .left (hpart.trans hsub) hx hn (Lowered.extends he _ hl) (Lowered.extends he _ hr) hb
      (hresult.trans hw) hu (hc.trans hc')
  | right hpart hx hn hl hr ha hw hu hc' =>
    exact .right (hpart.trans hsub) hx hn (Lowered.extends he _ hl) (Lowered.extends he _ hr) ha
      (hresult.trans hw) hu (hc.trans hc')

def Leads (net : Network) (next : RelationshipId → Option VariableId) (a c : VariableId) : Prop :=
  ∃ r relation, net.RelatesAt r relation ∧ next r = some c ∧ relation.result = a

/-- The relationships that were made for the operations on the way from the variable `v` of an
expression down to the variable `goal` of a name, each with the argument that it leads to, and
the values that are wanted on the way. Every other relationship that was made stands for a
part without the name. -/
structure Route (base net net' : Network) (x : String) (e : Expr) (v goal : VariableId)
    (w value : Float) (next : RelationshipId → Option VariableId)
    (wanted : VariableId → Option Float) : Prop where
  finite : w.isFinite → ∀ u y, wanted u = some y → y.isFinite
  start : wanted v = some w
  finish : wanted goal = some value
  reach : Relation.ReflTransGen (net'.Leads next) v goal
  fresh : ∀ r c, next r = some c → net.relationshipAt r = none
  link : ∀ r c, next r = some c →
    ∃ relation, net'.RelatesAt r relation ∧ Link base net' x e wanted relation c
  unique : ∀ r s c, next r = some c → next s = some c → r = s
  upstream : ∀ r c relation, next r = some c → net'.RelatesAt r relation →
    relation.result = v ∨ ∃ s, next s = some relation.result
  answer : ∀ r, next r ≠ some v
  others : ∀ r relation, net.relationshipAt r = none → net'.RelatesAt r relation →
    next r = none → ∃ part, part.Part e ∧ x ∉ part.names ∧ net'.Lowered part relation.result

theorem Appends.relatesAt (h : Appends net net') {r : RelationshipId}
    (hr : net.RelatesAt r relation) : net'.RelatesAt r relation := by
  obtain ⟨rel, hrel, rfl⟩ := hr
  exact ⟨rel, h.kept r rel hrel, rfl⟩

theorem RelatesAt.relates {r : RelationshipId} (h : net.RelatesAt r relation) :
    net.Relates relation := by
  obtain ⟨rel, hrel, he⟩ := h
  exact ⟨r, rel, hrel, he⟩

theorem RelatesAt.index_lt {r : RelationshipId} (h : net.RelatesAt r relation) :
    r.index < net.relationships.next := by
  obtain ⟨rel, hrel, -⟩ := h
  exact index_lt_of_relationshipAt hrel

theorem relatesAt_relate {relation' : Relation} {r : RelationshipId} :
    (net.relate relation).2.RelatesAt r relation' ↔
      (r = ⟨net.relationships.next⟩ ∧ relation' = relation) ∨ net.RelatesAt r relation' := by
  unfold RelatesAt
  rw [relationshipAt_relate_eq]
  by_cases hr : r = ⟨net.relationships.next⟩
  · subst hr
    simp [relationshipAt_next, Relationship.ofRelation, eq_comm]
  · simp [hr]

theorem relatesAt_node {relation : VariableId → Relation} {r : RelationshipId}
    {relation' : Relation} : (net.node relation).RelatesAt r relation' ↔
      (r = ⟨net.relationships.next⟩ ∧ relation' = relation net.intermediate.1) ∨
        net.RelatesAt r relation' :=
  relatesAt_relate

theorem Appends.absent (h : Appends net net') {r : RelationshipId}
    (hr : net'.relationshipAt r = none) : net.relationshipAt r = none := by
  by_contra hsome
  obtain ⟨rel, hrel⟩ := Option.ne_none_iff_exists'.mp hsome
  rw [h.kept r rel hrel] at hr
  cases hr

variable {before mid after : Network} {goal v : VariableId} {u : Float}
  {next : RelationshipId → Option VariableId}

theorem update_eq_some {α β : Type} [DecidableEq α] {f : α → Option β} {a b : α} {y z : β} :
    Function.update f a (some y) b = some z ↔ (b = a ∧ z = y) ∨ (b ≠ a ∧ f b = some z) := by
  by_cases hb : b = a
  · subst hb
    simp [eq_comm]
  · simp [hb]

theorem route_ident (x : String) (goal : VariableId) (w : Float) :
    Route base net net x (.ident x) goal goal w w (fun _ => none)
      (Function.update (fun _ => none) goal (some w)) := by
  refine ⟨fun hw a y hy => ?_, Function.update_self _ _ _, Function.update_self _ _ _, .refl,
    by simp, by simp, by simp, by simp, by simp, fun r relation hn hat => ?_⟩
  · rcases update_eq_some.mp hy with ⟨-, rfl⟩ | ⟨-, hy⟩
    · exact hw
    · cases hy
  · obtain ⟨rel, hrel, -⟩ := hat
    rw [hn] at hrel
    cases hrel

/-- A route stays one when more has been made before and after, if that stands for parts
without the name. -/
theorem Route.widen (h : Route base before mid x sub v goal w value next wanted)
    (hb : Appends net before) (ha : Grows mid after) (hsub : sub.Part e)
    (hothers : ∀ r relation, net.relationshipAt r = none → after.RelatesAt r relation →
      (before.relationshipAt r).isSome ∨ mid.relationshipAt r = none →
        ∃ part, part.Part e ∧ x ∉ part.names ∧ after.Lowered part relation.result) :
    Route base net after x e v goal w value next wanted where
  finite := h.finite
  start := h.start
  finish := h.finish
  reach := by
    refine h.reach.lift id ?_
    rintro a c ⟨r, relation, hat, hr, he⟩
    exact ⟨r, relation, ha.appends.relatesAt hat, hr, he⟩
  fresh r c hr := hb.absent (h.fresh r c hr)
  link r c hr := by
    obtain ⟨relation, hat, hl⟩ := h.link r c hr
    exact ⟨relation, ha.appends.relatesAt hat, hl.mono ha.extends hsub rfl rfl⟩
  unique := h.unique
  upstream r c relation hr hat := by
    obtain ⟨relation', hat', -⟩ := h.link r c hr
    have hsame := hat.unique (ha.appends.relatesAt hat')
    subst hsame
    exact h.upstream r c relation hr hat'
  answer := h.answer
  others r relation hn hat hr := by
    by_cases hin : (before.relationshipAt r).isSome ∨ mid.relationshipAt r = none
    · exact hothers r relation hn hat hin
    · obtain ⟨hbefore, hsome⟩ := not_or.mp hin
      obtain ⟨rel, hrel⟩ := Option.ne_none_iff_exists'.mp hsome
      have hsame := hat.unique ⟨rel, ha.appends.kept r rel hrel, rfl⟩
      subst hsame
      obtain ⟨part, hpart, hx, hl⟩ :=
        h.others r rel.relation (by simpa using hbefore) ⟨rel, hrel, rfl⟩ hr
      exact ⟨part, hpart.trans hsub, hx, Lowered.extends ha.extends part hl⟩

theorem Route.live (h : Route base net mid x e v goal w value next wanted) (hi : mid.Integrity)
    {r : RelationshipId} (hr : next r = some c) (hat : mid.RelatesAt r relation) :
    (mid.variableAt c).isSome ∧ (mid.variableAt relation.result).isSome := by
  obtain ⟨relation', hat', hl⟩ := h.link r c hr
  have hsame := hat.unique hat'
  subst hsame
  have hlives {a : VariableId} (ha : a ∈ relation.operands) : (mid.variableAt a).isSome :=
    hi.operand_live r a ((hat.touches_iff a).mpr ha)
  exact ⟨hlives (List.mem_cons_of_mem _ hl.mem_arguments), hlives relation.result_mem_operands⟩

theorem Route.node (h : Route base net mid x e c goal u value next wanted) (hu : u.isFinite)
    (ha : Appends net mid) (hi : mid.Integrity) (hc : (mid.variableAt c).isSome)
    (hgoal : (mid.variableAt goal).isSome) {relation : VariableId → Relation}
    (hresult : ∀ v, (relation v).result = v) (hg : Grows mid (mid.node relation))
    (hlink : ∀ wanted' : VariableId → Option Float, wanted' mid.intermediate.1 = some w →
      wanted' c = some u →
        Link base (mid.node relation) x e wanted' (relation mid.intermediate.1) c) :
    Route base net (mid.node relation) x e mid.intermediate.1 goal w value
      (Function.update next ⟨mid.relationships.next⟩ (some c))
      (Function.update wanted mid.intermediate.1 (some w)) := by
  have hnode : (mid.node relation).RelatesAt ⟨mid.relationships.next⟩
      (relation mid.intermediate.1) := relatesAt_node.mpr (.inl ⟨rfl, rfl⟩)
  -- What was there before is neither the new variable nor the new relationship.
  have hlive {a : VariableId} (hv : (mid.variableAt a).isSome) : a ≠ mid.intermediate.1 := by
    rintro rfl
    rw [mid.variableAt_intermediate_fst] at hv
    cases hv
  have hwanted {a : VariableId} (hv : (mid.variableAt a).isSome) :
      Function.update wanted mid.intermediate.1 (some w) a = wanted a :=
    Function.update_of_ne (hlive hv) _ _
  have hkept {r : RelationshipId} {c' : VariableId} (hr : next r = some c') :
      Function.update next ⟨mid.relationships.next⟩ (some c) r = some c' := by
    obtain ⟨relation', hat, -⟩ := h.link r c' hr
    refine update_eq_some.mpr (.inr ⟨?_, hr⟩)
    rintro rfl
    exact Nat.lt_irrefl _ hat.index_lt
  exact {
    finite hw a y hy := by
      rcases update_eq_some.mp hy with ⟨-, rfl⟩ | ⟨-, hy⟩
      · exact hw
      · exact h.finite hu a y hy
    start := Function.update_self _ _ _
    finish := (hwanted hgoal).trans h.finish
    reach := by
      refine .head ⟨_, _, hnode, Function.update_self _ _ _, hresult _⟩ (h.reach.lift id ?_)
      rintro a c' ⟨r, relation', hat, hr, he⟩
      exact ⟨r, relation', hg.appends.relatesAt hat, hkept hr, he⟩
    fresh r c' hr := by
      rcases update_eq_some.mp hr with ⟨rfl, -⟩ | ⟨-, hr⟩
      · exact ha.absent mid.relationshipAt_next
      · exact h.fresh r c' hr
    link r c' hr := by
      rcases update_eq_some.mp hr with ⟨rfl, rfl⟩ | ⟨-, hr⟩
      · exact ⟨_, hnode, hlink _ (Function.update_self _ _ _) ((hwanted hc).trans h.start)⟩
      · obtain ⟨relation', hat, hl⟩ := h.link r c' hr
        obtain ⟨hto, hfrom⟩ := h.live hi hr hat
        exact ⟨relation', hg.appends.relatesAt hat,
          hl.mono hg.extends .refl (hwanted hfrom) (hwanted hto)⟩
    unique r s c' hr hs := by
      rcases update_eq_some.mp hr with ⟨rfl, rfl⟩ | ⟨-, hr'⟩
      · rcases update_eq_some.mp hs with ⟨rfl, -⟩ | ⟨-, hs'⟩
        · rfl
        · exact absurd hs' (h.answer s)
      · rcases update_eq_some.mp hs with ⟨rfl, rfl⟩ | ⟨-, hs'⟩
        · exact absurd hr' (h.answer r)
        · exact h.unique r s c' hr' hs'
    upstream r c' relation' hr hat := by
      rcases update_eq_some.mp hr with ⟨rfl, -⟩ | ⟨-, hr⟩
      · rw [hat.unique hnode]
        exact .inl (hresult _)
      · obtain ⟨relation'', hat', -⟩ := h.link r c' hr
        have hsame := hat.unique (hg.appends.relatesAt hat')
        subst hsame
        rcases h.upstream r c' relation' hr hat' with he | ⟨s, hs⟩
        · exact .inr ⟨_, by rw [he, Function.update_self]⟩
        · exact .inr ⟨s, hkept hs⟩
    answer r hr := by
      rcases update_eq_some.mp hr with ⟨-, he⟩ | ⟨-, hr⟩
      · exact hlive hc he.symm
      · obtain ⟨relation', hat, -⟩ := h.link r _ hr
        exact hlive (h.live hi hr hat).1 rfl
    others r relation' hn hat hr := by
      rcases relatesAt_node.mp hat with ⟨rfl, -⟩ | hat
      · rw [Function.update_self] at hr
        cases hr
      · have hne : r ≠ ⟨mid.relationships.next⟩ := by
          rintro rfl
          exact Nat.lt_irrefl _ hat.index_lt
        rw [Function.update_of_ne hne] at hr
        obtain ⟨part, hpart, hx, hl⟩ := h.others r relation' hn hat hr
        exact ⟨part, hpart, hx, Lowered.extends hg.extends part hl⟩ }

theorem run_lower_op
    (h : (Build.lower (.op op.symbol left right)).run net = .ok v net') :
    ∃ l mid r mid', (Build.lower left).run net = .ok l mid ∧
      (Build.lower right).run mid = .ok r mid' ∧ v = mid'.intermediate.1 ∧
      net' = mid'.node fun v => .arithmetic op v l r := by
  unfold Build.lower at h
  rw [Operator.ofSymbol?_symbol] at h
  obtain ⟨l, mid, hl, h⟩ := exists_of_run_bind h
  obtain ⟨r, mid', hr, h⟩ := exists_of_run_bind h
  cases h
  exact ⟨l, mid, r, mid', hl, hr, rfl, rfl⟩

theorem Done.covers_new {mentions : String → Prop} {answers : List VariableId}
    {kind : Expr → Prop} (h : Done kind net net') (hc : Chained mentions answers net net')
    (hi : net.Integrity) {r : RelationshipId} (hn : net.relationshipAt r = none)
    (hr : net'.RelatesAt r relation) : ∃ part, kind part ∧ net'.Lowered part relation.result := by
  obtain ⟨rel, hrel, rfl⟩ := hr
  rcases h.covers.rels rel.relation ⟨r, rel, hrel, rfl⟩ with ⟨s, old, hs, he⟩ | hpart
  · have hlive := hi.operand_live s rel.relation.result
      ⟨old, hs, he ▸ rel.relation.result_mem_operands⟩
    rw [(hc.produces r rel hn hrel).absent] at hlive
    cases hlive
  · exact hpart

/-- The two sides of an operation, lowered one after the other. -/
structure Sides (net mid after : Network) (left right : Expr) (l r : VariableId) : Prop where
  start : net.Integrity
  grownLeft : Grows net mid
  grownRight : Grows mid after
  doneLeft : Done (·.Part left) net mid
  doneRight : Done (·.Part right) mid after
  chainedLeft : Chained (fun name => (Expr.ident name).Part left) [l] net mid
  chainedRight : Chained (fun name => (Expr.ident name).Part right) [r] mid after
  left : mid.Lowered left l
  right : after.Lowered right r
  liveLeft : (mid.variableAt l).isSome
  liveRight : (after.variableAt r).isSome

theorem lowers_sides {l r : VariableId} (he : Extends base net) (hi : net.Integrity)
    (hf : net.Forward) (hk : base.Knows (.op op.symbol left right))
    (hl : (Build.lower left).run net = .ok l mid) (hr : (Build.lower right).run mid = .ok r after) :
    Sides net mid after left right l r := by
  obtain ⟨(hg : Grows net mid), hdone, hlow, hlive⟩ :=
    (lowers he hi hf left fun name h => hk name (.left h)).of_run hl
  have hi' := hg.edits.integrity hi
  obtain ⟨(hg' : Grows mid after), hdone', hlow', hlive'⟩ :=
    (lowers (he.trans hg.extends) hi' hdone.forward right fun name h => hk name (.right h)).of_run hr
  exact {
    start := hi
    grownLeft := hg
    grownRight := hg'
    doneLeft := hdone
    doneRight := hdone'
    chainedLeft := ((chains_lower hi left).of_run hl).2.1
    chainedRight := ((chains_lower hi' right).of_run hr).2.1
    left := hlow
    right := hlow'
    liveLeft := hlive
    liveRight := hlive' }

section Sides

variable {l r : VariableId} {a b : Float} (hs : Sides net mid after left right l r)
include hs

theorem Sides.integrity : mid.Integrity ∧ after.Integrity := by
  have hi := hs.grownLeft.edits.integrity hs.start
  exact ⟨hi, hs.grownRight.edits.integrity hi⟩

theorem Sides.grows_node (op : Operator) :
    Grows after (after.node fun v => .arithmetic op v l r) :=
  (grows_intermediate after).tail (construct_node (fun _ => rfl)
    (by simp [Relation.arguments, hs.grownRight.live hs.liveLeft, hs.liveRight]))

theorem Sides.route_left
    (h : Route base net mid x left l goal u value next wanted) (hx : x ∈ left.names)
    (hn : x ∉ right.names) (hb : base.direct right = some b) (hu : op.left? w b = some u)
    (hgoal : (after.variableAt goal).isSome) :
    ∃ next wanted, Route base net (after.node fun v => .arithmetic op v l r) x
      (.op op.symbol left right) after.intermediate.1 goal w value next wanted := by
  have hgn := hs.grows_node op
  have hl := Lowered.extends (hs.grownRight.extends.trans hgn.extends) left hs.left
  have hr := Lowered.extends hgn.extends right hs.right
  have hwide : Route base net after x (.op op.symbol left right) l goal u value next wanted := by
    refine h.widen (appends_same rfl) hs.grownRight (.left .refl) ?_
    intro s relation hnew hat hin
    have hmid : mid.relationshipAt s = none := hin.resolve_left (by simp [hnew])
    obtain ⟨part, hpart, hlow⟩ :=
      hs.doneRight.covers_new hs.chainedRight hs.integrity.1 hmid hat
    exact ⟨part, .right hpart, fun h => hn (hpart.names_subset h), hlow⟩
  exact ⟨_, _, hwide.node (Operator.solveLeft_of_left? hu l).2
    (hs.grownLeft.appends.trans hs.grownRight.appends) hs.integrity.2
    (hs.grownRight.live hs.liveLeft) hgoal (fun _ => rfl) hgn
    fun wanted' hw hc => .left .refl hx hn hl hr hb hw hu hc⟩

theorem Sides.route_right
    (h : Route base mid after x right r goal u value next wanted) (hx : x ∈ right.names)
    (hn : x ∉ left.names) (ha : base.direct left = some a) (hu : op.right? w a = some u)
    (hgoal : (after.variableAt goal).isSome) :
    ∃ next wanted, Route base net (after.node fun v => .arithmetic op v l r) x
      (.op op.symbol left right) after.intermediate.1 goal w value next wanted := by
  have hgn := hs.grows_node op
  have hl := Lowered.extends (hs.grownRight.extends.trans hgn.extends) left hs.left
  have hr := Lowered.extends hgn.extends right hs.right
  have hwide : Route base net after x (.op op.symbol left right) r goal u value next wanted := by
    refine h.widen hs.grownLeft.appends .refl (.right .refl) ?_
    intro s relation hnew hat hin
    obtain ⟨rel, hrel, rfl⟩ := hat
    have hold : (mid.relationshipAt s).isSome := hin.resolve_right (by simp [hrel])
    obtain ⟨rel', hrel'⟩ := Option.isSome_iff_exists.mp hold
    have hsame := hs.grownRight.appends.kept s rel' hrel'
    rw [hrel] at hsame
    cases hsame
    obtain ⟨part, hpart, hlow⟩ :=
      hs.doneLeft.covers_new hs.chainedLeft hs.start hnew ⟨rel, hrel', rfl⟩
    exact ⟨part, .left hpart, fun h => hn (hpart.names_subset h),
      Lowered.extends hs.grownRight.extends part hlow⟩
  exact ⟨_, _, hwide.node (Operator.solveRight_of_right? hu r).2
    (hs.grownLeft.appends.trans hs.grownRight.appends) hs.integrity.2 hs.liveRight hgoal
    (fun _ => rfl) hgn fun wanted' hw hc => .right .refl hx hn hl hr ha hw hu hc⟩

end Sides

/-- Where a name occurs once and a value can be carried down to it, lowering makes a route to
its variable. -/
theorem route_lower (ha : e.Arithmetic) (he : Extends base net)
    (hi : net.Integrity) (hf : net.Forward) (hk : base.Knows e) (hx : e.names.count x = 1)
    (hgoal : base.lookup x = some goal) (hrun : (Build.lower e).run net = .ok v net')
    (hinv : base.inverse x e w = some value) :
    ∃ next wanted, Route base net net' x e v goal w value next wanted := by
  induction ha generalizing net net' v w with
  | ident name =>
    have hname : name = x := by
      by_contra hne
      rw [Expr.names, List.count_singleton, if_neg (by simpa using hne)] at hx
      cases hx
    subst hname
    have hlookup := he.lookup name goal hgoal
    have hdeclare : net.declare name = (goal, net) := by simp [declare, hlookup]
    have hanswer : (Build.lower (.ident name)).run net = .ok goal net := by
      show EStateM.Result.ok (net.declare name).1 (net.declare name).2 = _
      rw [hdeclare]
    rw [hanswer] at hrun
    cases hrun
    have hsame : w = value := by simpa [inverse] using hinv
    subst hsame
    exact ⟨_, _, route_ident name goal w⟩
  | number y => cases hx
  | @op op left right _ _ ihl ihr =>
    rw [Expr.names, List.count_append] at hx
    obtain ⟨l, mid, r, after, hl, hr, rfl, rfl⟩ := run_lower_op hrun
    have hs := lowers_sides he hi hf hk hl hr
    have he' := he.trans hs.grownLeft.extends
    have hlive : (after.variableAt goal).isSome := hs.integrity.2.live_of_lookup
      ((he'.trans hs.grownRight.extends).lookup x goal hgoal)
    rcases inverse_op hinv with ⟨hxl, b, u, hb, hu, hvalue⟩ | ⟨hxl, a, u, ha, hu, hvalue⟩
    · have hpos := List.count_pos_iff.mpr hxl
      have hxr : x ∉ right.names := List.count_eq_zero.mp (by omega)
      obtain ⟨next, wanted, hroute⟩ :=
        ihl he hi hf (fun name h => hk name (.left h)) (by omega) hl hvalue
      exact hs.route_left hroute hxl hxr hb hu hlive
    · have hcount : left.names.count x = 0 := List.count_eq_zero.mpr hxl
      have hxr : x ∈ right.names := List.count_pos_iff.mp (by omega)
      obtain ⟨next, wanted, hroute⟩ := ihr he' hs.integrity.1 hs.doneLeft.forward
        (fun name h => hk name (.right h)) (by omega) hr hvalue
      exact hs.route_right hroute hxr hxl ha hu hlive

end Network

end ConstraintNet

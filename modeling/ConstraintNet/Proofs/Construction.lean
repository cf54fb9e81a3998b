import Mathlib.Data.Finset.Card
import Mathlib.Data.Finset.Image
import Mathlib.Logic.Relation
import Mathlib.Order.Interval.Finset.Nat
import Std.Data.String.ToNat
import ConstraintNet.Proofs.Edit

/-!
# Construction adds and never takes away

Every program that resolves operands, relates them or lowers an expression makes
constructing edits only, whether it succeeds or is refused on the way. What it
answers with is present in the network it leaves.
-/

set_option autoImplicit false

namespace ConstraintNet

section Ends

variable {ε σ α β : Type} {p : EStateM ε σ α} {s : σ} {good : α → σ → Prop} {bad : ε → σ → Prop}

/-- A program answers as `good` says, or fails as `bad` says. -/
def Ends (p : EStateM ε σ α) (s : σ) (good : α → σ → Prop) (bad : ε → σ → Prop) : Prop :=
  match p.run s with
  | .ok a s' => good a s'
  | .error e s' => bad e s'

theorem Ends.mono (h : Ends p s good bad) {good' : α → σ → Prop} {bad' : ε → σ → Prop}
    (hg : ∀ a s', good a s' → good' a s') (hb : ∀ e s', bad e s' → bad' e s') :
    Ends p s good' bad' := by
  unfold Ends at *
  split
  · rename_i a s' hr
    rw [hr] at h
    exact hg a s' h
  · rename_i e s' hr
    rw [hr] at h
    exact hb e s' h

theorem Ends.bind {f : α → EStateM ε σ β} {good : β → σ → Prop}
    (h : Ends p s (fun a s' => Ends (f a) s' good bad) bad) : Ends (p >>= f) s good bad := by
  unfold Ends at h ⊢
  rw [EStateM.run_bind]
  cases hr : p.run s with
  | ok a s' =>
    rw [hr] at h
    exact h
  | error e s' =>
    rw [hr] at h
    exact h

theorem Ends.discard {good : Unit → σ → Prop} (h : Ends p s (fun _ s' => good () s') bad) :
    Ends (discard p) s good bad :=
  Ends.bind h

theorem Ends.get {f : σ → EStateM ε σ α} (h : Ends (f s) s good bad) :
    Ends (MonadState.get >>= f) s good bad := h

theorem Ends.modifyGet {f : σ → α × σ} {g : α → EStateM ε σ β} {good : β → σ → Prop}
    (h : Ends (g (f s).1) (f s).2 good bad) : Ends (modifyGet f >>= g) s good bad := h

theorem Ends.unless {c : Prop} [Decidable c] {e : ε} (hb : c → bad e s)
    (hg : ¬ c → Ends p s good bad) :
    Ends (do
      if c then throw e
      p) s good bad := by
  by_cases hc : c
  · rw [if_pos hc]
    exact hb hc
  · rw [if_neg hc]
    exact hg hc

theorem Ends.recover {handler : ε → EStateM ε σ α}
    (h : Ends p s good fun e s' => Ends (handler e) s' good bad) :
    Ends (tryCatch p handler) s good bad := by
  unfold Ends EStateM.run at *
  simp only [MonadExcept.tryCatch, tryCatchThe, MonadExceptOf.tryCatch, EStateM.tryCatch]
  cases hr : p s with
  | ok a s' =>
    rw [hr] at h
    exact h
  | error e s' =>
    rw [hr] at h
    exact h

end Ends

namespace Network

variable {net net' : Network}

abbrev Grows := Relation.ReflTransGen Construct

theorem Grows.edits (h : Grows net net') : Edits net net' := by
  induction h with
  | refl => exact .refl
  | tail _ hc ih => exact ih.tail (.construct hc)

theorem Construct.live (h : Construct net net') {v : VariableId}
    (hv : (net.variableAt v).isSome) : (net'.variableAt v).isSome := by
  cases h with
  | relate relation hlive => rwa [isSome_variableAt_relate]
  | constant value hf =>
    rw [variableAt_addVariable]
    split <;> simp [hv]
  | named name hfree =>
    rw [variableAt_addNamed]
    split <;> simp [hv]
  | intermediate n hle hfree =>
    rw [variableAt_addNamed]
    split
    · rfl
    · exact hv

theorem Grows.live (h : Grows net net') {v : VariableId} (hv : (net.variableAt v).isSome) :
    (net'.variableAt v).isSome := by
  induction h with
  | refl => exact hv
  | tail _ hc ih => exact hc.live ih

theorem le_firstFree (taken : String → Bool) (name : Nat → String) (tries n : Nat) :
    n ≤ firstFree taken name tries n := by
  induction tries generalizing n with
  | zero => rfl
  | succ tries ih =>
    unfold firstFree
    split
    · exact (Nat.le_succ n).trans (ih (n + 1))
    · rfl

theorem taken_before_firstFree (taken : String → Bool) (name : Nat → String) (tries n : Nat)
    (h : taken (name (firstFree taken name tries n))) :
    ∀ i, n ≤ i → i ≤ n + tries → taken (name i) := by
  induction tries generalizing n with
  | zero =>
    intro i hi hi'
    rw [show i = n by omega]
    exact h
  | succ tries ih =>
    unfold firstFree at h
    split at h
    · rename_i hn
      intro i hi hi'
      by_cases he : i = n
      · exact he ▸ hn
      · exact ih (n + 1) h i (by omega) (by omega)
    · contradiction

theorem intermediateName_injective (net : Network) :
    Function.Injective net.intermediateName := by
  intro m n h
  exact Nat.repr_injective (String.append_right_inj net.config.stem |>.mp h)

theorem mem_keys_of_has {name : String} (h : net.has name) :
    name ∈ net.registry.entries.map Prod.fst := by
  obtain ⟨v, hv⟩ := Option.isSome_iff_exists.mp h
  exact List.mem_map.mpr ⟨_, Table.find?_eq_some_iff.mp hv, rfl⟩

/-- There are more candidates than registered names, so one of them is free. -/
theorem lookup_firstFree (net : Network) (n : Nat) :
    net.lookup (net.intermediateName
      (firstFree net.has net.intermediateName net.registry.entries.length n)) = none := by
  by_contra hne
  have htaken := taken_before_firstFree net.has net.intermediateName _ n
    (Option.isSome_iff_ne_none.mpr hne)
  let keys := (net.registry.entries.map Prod.fst).toFinset
  let candidates := (Finset.Icc n (n + net.registry.entries.length)).image net.intermediateName
  have hsub : candidates ⊆ keys := by
    intro name hname
    obtain ⟨i, hi, rfl⟩ := Finset.mem_image.mp hname
    obtain ⟨hl, hu⟩ := Finset.mem_Icc.mp hi
    exact List.mem_toFinset.mpr (mem_keys_of_has (htaken i hl hu))
  have hcard := Finset.card_le_card hsub
  rw [Finset.card_image_of_injective _ net.intermediateName_injective, Nat.card_Icc] at hcard
  have hkeys : keys.card ≤ net.registry.entries.length := by
    simpa using (net.registry.entries.map Prod.fst).toFinset_card_le
  omega

theorem grows_declare (name : String) (net : Network) : Grows net (net.declare name).2 := by
  unfold declare
  split
  · exact .refl
  · rename_i hfree
    exact .single (.named net name hfree)

theorem declare_rest (name : String) (net : Network) : (net.declare name).2 = { net with
    vars := (net.declare name).2.vars, registry := (net.declare name).2.registry } := by
  unfold declare
  split <;> rfl

theorem lookup_declare_of_ne {name x : String} (hne : x ≠ name) :
    (net.declare name).2.lookup x = net.lookup x := by
  unfold declare
  split
  · rfl
  · rw [lookup_addNamed]
    exact if_neg hne

theorem Integrity.live_of_lookup (hi : net.Integrity) {name : String} {v : VariableId}
    (h : net.lookup name = some v) : (net.variableAt v).isSome := by
  obtain ⟨x, hx, -⟩ := (hi.registered name v).mp h
  simp [hx]

theorem Integrity.lookup_inj (hi : net.Integrity) {name other : String} {v : VariableId}
    (hv : net.lookup name = some v) (hv' : net.lookup other = some v) : name = other := by
  obtain ⟨x, hx, -, hname⟩ := (hi.registered name v).mp hv
  obtain ⟨y, hy, -, hother⟩ := (hi.registered other v).mp hv'
  rw [hx] at hy
  cases hy
  exact hname.symm.trans hother

theorem live_declare (hi : net.Integrity) (name : String) :
    ((net.declare name).2.variableAt (net.declare name).1).isSome :=
  ((grows_declare name net).edits.integrity hi).live_of_lookup (lookup_declare name net)

theorem grows_intermediate (net : Network) : Grows net net.intermediate.2 :=
  .single (.intermediate net _ (le_firstFree _ _ _ _) (lookup_firstFree net _))

theorem exists_variableAt_intermediate (net : Network) :
    ∃ name, ∀ v, net.intermediate.2.variableAt v =
      if v = net.intermediate.1 then some (.blank name .intermediate) else net.variableAt v :=
  ⟨_, variableAt_addNamed { net with nextIntermediate := _ } _⟩

theorem live_intermediate (net : Network) :
    (net.intermediate.2.variableAt net.intermediate.1).isSome := by
  obtain ⟨name, h⟩ := exists_variableAt_intermediate net
  simp [h]

/-- Whatever comes of a program, it has made edits of one kind only; and if it
answers, then as `good` says. -/
def Makes (kind : Network → Network → Prop) {α : Type} (p : Build α) (net : Network)
    (good : α → Network → Prop) : Prop :=
  Ends p net (fun a net' => Relation.ReflTransGen kind net net' ∧ good a net')
    fun _ net' => Relation.ReflTransGen kind net net'

abbrev Adds {α : Type} (p : Build α) := Makes Construct p

section Makes

variable {kind : Network → Network → Prop} {α β : Type} {p : Build α}
  {good : α → Network → Prop}

theorem Makes.mono (h : Makes kind p net good) {good' : α → Network → Prop}
    (hg : ∀ a net', Relation.ReflTransGen kind net net' → good a net' → good' a net') :
    Makes kind p net good' :=
  Ends.mono h (fun a net' ha => ⟨ha.1, hg a net' ha.1 ha.2⟩) fun _ _ hb => hb

theorem Makes.bind {f : α → Build β} {good' : β → Network → Prop} (h : Makes kind p net good)
    (hf : ∀ a mid, Relation.ReflTransGen kind net mid → good a mid →
      Makes kind (f a) mid good') : Makes kind (p >>= f) net good' := by
  refine Ends.bind (Ends.mono h (fun a mid ha => ?_) fun _ _ hb => hb)
  exact Ends.mono (hf a mid ha.1 ha.2) (fun b net' hb => ⟨ha.1.trans hb.1, hb.2⟩)
    fun _ net' hb => ha.1.trans hb

theorem Makes.of_run {a : α} (h : Makes kind p net good) (hr : p.run net = .ok a net') :
    Relation.ReflTransGen kind net net' ∧ good a net' := by
  unfold Makes Ends at h
  rw [hr] at h
  exact h

theorem Makes.of_unchanged {good : α → Prop}
    (h : Ends p net (fun a net' => net' = net ∧ good a) fun _ net' => net' = net) :
    Makes kind p net fun a net' => net' = net ∧ good a :=
  Ends.mono h (fun _ _ ⟨he, ha⟩ => ⟨he ▸ .refl, he, ha⟩) fun _ _ he => he ▸ .refl

theorem makes_pure {a : α} (h : good a net) : Makes kind (pure a) net good := ⟨.refl, h⟩

theorem makes_throw (fault : Fault) : Makes kind (throw fault : Build α) net good :=
  Relation.ReflTransGen.refl

theorem makes_unless {c : Prop} [Decidable c] (fault : Fault)
    (h : ¬ c → Makes kind p net good) :
    Makes kind (do
      if c then throw fault
      p) net good := by
  by_cases hc : c
  · rw [if_pos hc]
    exact Relation.ReflTransGen.refl
  · rw [if_neg hc]
    exact h hc

theorem makes_get {f : Network → Build α} (h : Makes kind (f net) net good) :
    Makes kind (get >>= f) net good := h

theorem makes_modifyGet {f : Network → α × Network}
    (hg : Relation.ReflTransGen kind net (f net).2) (h : good (f net).1 (f net).2) :
    Makes kind (modifyGet f) net good :=
  ⟨hg, h⟩

end Makes

theorem Adds.bind {α β : Type} {p : Build α} {f : α → Build β} {good : α → Network → Prop}
    {good' : β → Network → Prop} (h : Adds p net good)
    (hf : ∀ a mid, Grows net mid → good a mid → Adds (f a) mid good') :
    Adds (p >>= f) net good' :=
  Makes.bind h hf

theorem Adds.edits {α : Type} {p : Build α} {good : α → Network → Prop} (h : Adds p net good) :
    Makes Edit p net fun a net' => Grows net net' ∧ good a net' :=
  Ends.mono h (fun _ _ ha => ⟨Grows.edits ha.1, ha⟩) fun _ _ hb => Grows.edits hb

theorem adds_declare (hi : net.Integrity) (name : String) :
    Adds (modifyGet (declare name)) net fun v net' => (net'.variableAt v).isSome :=
  makes_modifyGet (grows_declare name net) (live_declare hi name)

theorem adds_intermediate (net : Network) :
    Adds (modifyGet intermediate) net fun v net' => (net'.variableAt v).isSome :=
  makes_modifyGet (grows_intermediate net) (live_intermediate net)

theorem adds_relate (relation : Relation)
    (hlive : ∀ v ∈ relation.operands, (net.variableAt v).isSome) :
    Adds (modifyGet (relate relation)) net fun r net' =>
      net'.relationshipAt r = some (.ofRelation relation) :=
  makes_modifyGet (.single (.relate net relation hlive)) (relationshipAt_relate relation net)

theorem adds_literal (value : Float) :
    Adds (Build.literal value) net fun v net' => (net'.variableAt v).isSome := by
  apply makes_unless _
  intro hf
  apply makes_modifyGet (.single (.constant net value (by simpa using hf)))
  simp [variableAt_addVariable]

theorem adds_resolve (hi : net.Integrity) (operand : Operand) :
    Adds (Build.resolve operand) net fun v net' => (net'.variableAt v).isSome := by
  cases operand with
  | name name => exact makes_unless _ fun _ => adds_declare hi name
  | literal value => exact adds_literal value
  | handle v =>
    refine makes_get (makes_unless _ fun hv => makes_pure ?_)
    exact Option.isSome_iff_ne_none.mpr (by simpa using hv)

theorem adds_resolveAll (hi : net.Integrity) (operands : List Operand) :
    Adds (operands.mapM Build.resolve) net fun vs net' =>
      ∀ v ∈ vs, (net'.variableAt v).isSome := by
  induction operands generalizing net with
  | nil => exact makes_pure (by simp)
  | cons o os ih =>
    rw [List.mapM_cons]
    apply (adds_resolve hi o).bind
    intro v mid hm hv
    refine (ih (hm.edits.integrity hi)).bind fun vs mid' hm' hvs => makes_pure ?_
    intro w hw
    rcases List.mem_cons.mp hw with rfl | hw
    · exact hm'.live hv
    · exact hvs w hw

theorem adds_equals (hi : net.Integrity) (result value : Operand) :
    Adds (Build.equals result value) net fun _ _ => True := by
  apply (adds_resolve hi result).bind
  intro left mid hm hl
  apply (adds_resolve (hm.edits.integrity hi) value).bind
  intro right mid' hm' hr
  refine (adds_relate _ ?_).mono fun _ _ _ _ => trivial
  simp [Relation.operands, Relation.result, Relation.arguments, hm'.live hl, hr]

theorem adds_arithmetic (hi : net.Integrity) (op : Operator) (result left right : Operand) :
    Adds (Build.arithmetic op result left right) net fun _ _ => True := by
  apply (adds_resolve hi result).bind
  intro v mid hm hv
  have hi := hm.edits.integrity hi
  apply (adds_resolve hi left).bind
  intro l mid' hm' hl
  apply (adds_resolve (hm'.edits.integrity hi) right).bind
  intro r mid'' hm'' hr
  refine (adds_relate _ ?_).mono fun _ _ _ _ => trivial
  simp [Relation.operands, Relation.result, Relation.arguments, hm''.live (hm'.live hv),
    hm''.live hl, hr]

theorem ends_lookupFunction (net : Network) (name : String) (count : Nat) :
    Ends (Build.lookupFunction name count) net
      (fun f net' => net' = net ∧ net.function name count = .ok f)
      fun fault net' => net' = net ∧ net.function name count = .error fault := by
  apply Ends.get
  cases hf : net.function name count with
  | ok f => exact ⟨rfl, rfl⟩
  | error fault => exact ⟨rfl, rfl⟩

theorem adds_lookupFunction (name : String) (count : Nat) :
    Adds (Build.lookupFunction name count) net fun f net' =>
      net' = net ∧ net.function name count = .ok f :=
  .of_unchanged ((ends_lookupFunction net name count).mono (fun _ _ h => h) fun _ _ => And.left)

theorem adds_call (hi : net.Integrity) (name : String) (output : Operand)
    (params : List Operand) : Adds (Build.call name output params) net fun _ _ => True := by
  apply (adds_lookupFunction name params.length).bind
  intro f mid hm hf
  obtain ⟨rfl, -⟩ := hf
  apply (adds_resolve hi output).bind
  intro out mid hm ho
  apply (adds_resolveAll (hm.edits.integrity hi) params).bind
  intro inputs mid' hm' hin
  refine (adds_relate _ ?_).mono fun _ _ _ _ => trivial
  simpa [Relation.operands, Relation.result, Relation.arguments, hm'.live ho] using hin

mutual

theorem adds_lower {net : Network} (hi : net.Integrity) (e : Expr) :
    Adds (Build.lower e) net fun v net' => (net'.variableAt v).isSome := by
  cases e with
  | ident name => exact adds_declare hi name
  | number value => exact adds_literal value
  | op symbol left right =>
    unfold Build.lower
    cases Operator.ofSymbol? symbol with
    | none => exact makes_throw _
    | some op =>
      apply (adds_lower hi left).bind
      intro l mid hm hl
      have hi := hm.edits.integrity hi
      apply (adds_lower hi right).bind
      intro r mid' hm' hr
      apply (adds_intermediate mid').bind
      intro out mid'' hm'' ho
      refine (adds_relate _ ?_).bind fun _ net' hg _ => makes_pure (hg.live ho)
      simp [Relation.operands, Relation.result, Relation.arguments, ho, hm''.live hr,
        hm''.live (hm'.live hl)]
  | call name params =>
    unfold Build.lower
    apply (adds_lowerAll hi params).bind
    intro inputs mid hm hin
    apply (adds_intermediate mid).bind
    intro out mid' hm' ho
    apply (adds_lookupFunction name inputs.length).bind
    intro f mid'' hm'' hf
    obtain ⟨rfl, -⟩ := hf
    refine (adds_relate _ ?_).bind fun _ net' hg _ => makes_pure (hg.live ho)
    intro v hv
    rcases List.mem_cons.mp hv with rfl | hv
    · exact ho
    · exact hm'.live (hin v hv)

theorem adds_lowerAll {net : Network} (hi : net.Integrity) (es : List Expr) :
    Adds (Build.lowerAll es) net fun vs net' => ∀ v ∈ vs, (net'.variableAt v).isSome := by
  cases es with
  | nil => exact makes_pure (by simp)
  | cons e es =>
    unfold Build.lowerAll
    apply (adds_lower hi e).bind
    intro v mid hm hv
    refine (adds_lowerAll (hm.edits.integrity hi) es).bind fun vs mid' hm' hvs => makes_pure ?_
    intro w hw
    rcases List.mem_cons.mp hw with rfl | hw
    · exact hm'.live hv
    · exact hvs w hw

end

theorem ends_parse (net : Network) (text : String) : Ends (Build.parse text) net
    (fun e net' => net' = net ∧ Expr.parse text = .ok e) fun _ net' => net' = net := by
  unfold Build.parse
  cases Expr.parse text with
  | ok e => exact ⟨rfl, rfl⟩
  | error e => exact rfl

theorem ends_ensure (net : Network) (e : Expr) : Ends (Build.ensure e) net
    (fun _ net' => net' = net ∧ net.check e = .ok ()) fun _ net' => net' = net := by
  apply Ends.get
  cases net.check e with
  | ok _ => exact ⟨rfl, rfl⟩
  | error fault => exact rfl

theorem adds_parse (text : String) : Adds (Build.parse text) net fun e net' =>
    net' = net ∧ Expr.parse text = .ok e :=
  .of_unchanged (ends_parse net text)

theorem adds_ensure (e : Expr) : Adds (Build.ensure e) net fun _ net' =>
    net' = net ∧ net.check e = .ok () :=
  .of_unchanged (ends_ensure net e)

theorem adds_evaluate (hi : net.Integrity) (e : Expr) :
    Adds (Build.evaluate e) net fun v net' => (net'.variableAt v).isSome := by
  apply (adds_ensure e).bind
  intro _ mid _ hmid
  obtain ⟨rfl, -⟩ := hmid
  exact adds_lower hi e

theorem adds_evaluateText (hi : net.Integrity) (text : String) :
    Adds (Build.evaluateText text) net fun v net' => (net'.variableAt v).isSome := by
  apply (adds_parse text).bind
  intro e mid _ hmid
  obtain ⟨rfl, -⟩ := hmid
  exact adds_evaluate hi e

section Pins

variable {kind : Network → Network → Prop} {name : String} {value : Float} {source : State}
  {function : HostFunction} {arity : Option Nat}

theorem makes_register_of (hfree : net.functions.find? name = none →
      kind net { net with functions := net.functions.insert name ⟨function, arity⟩ }) :
    Makes kind (Build.register name function arity) net fun _ _ => True := by
  refine makes_get (makes_unless _ fun h => makes_modifyGet (.single (hfree ?_)) trivial)
  simpa [hasFunction, Table.contains] using h

theorem makes_assign_of (hdeclare : Relation.ReflTransGen kind net (net.declare name).2)
    (hhold : value.isFinite → ∀ mid v,
      kind mid (mid.updateVariable v (·.assign value source))) :
    Makes kind (Build.assign name value source) net fun _ _ => True := by
  refine makes_unless _ fun _ => makes_unless _ fun hf => ?_
  have hfinite : value.isFinite := by simpa using hf
  have hdeclared : Makes kind (modifyGet (declare name)) net fun _ _ => True :=
    makes_modifyGet hdeclare trivial
  exact hdeclared.bind fun v mid _ _ => makes_modifyGet (.single (hhold hfinite mid v)) trivial

end Pins

theorem makes_register (name : String) (function : HostFunction) (arity : Option Nat) :
    Makes Edit (Build.register name function arity) net fun _ _ => True :=
  makes_register_of fun hfree => .register net name ⟨function, arity⟩ hfree

theorem makes_assign (name : String) (value : Float) {source : State} (hs : source ≠ .solved) :
    Makes Edit (Build.assign name value source) net fun _ _ => True := by
  refine makes_assign_of (grows_declare name net).edits fun hf mid v => ?_
  refine .hold mid v (.ofState value source) (by simpa using hs) fun u hu => ?_
  cases source <;> simp_all [Holding.ofState, Holding.value?]

end Network

end ConstraintNet

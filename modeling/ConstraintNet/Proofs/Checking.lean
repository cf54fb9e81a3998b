import ConstraintNet.Proofs.Lowering
import ConstraintNet.Proofs.Orphans

/-!
# What is accepted can be lowered

Whether a network takes in an expression depends on its functions only, and a function that
is known stays known. So an expression that has been accepted is lowered to the end, now and
after any calls, and one that is refused is refused before anything has changed.
-/

set_option autoImplicit false

namespace ConstraintNet

namespace Build

mutual

/-- Lowering by the calls of a host: each relationship is made by a construction, which looks
at its handles and refuses those that are stale. -/
def lowerByCalls : Expr → Build VariableId
  | .ident name => modifyGet (Network.declare name)
  | .number value => literal value
  | .op symbol left right =>
    match Operator.ofSymbol? symbol with
    | none => throw (.malformed (.unknownOperator symbol))
    | some op => do
      let left ← lowerByCalls left
      let right ← lowerByCalls right
      let result ← modifyGet Network.intermediate
      discard (arithmetic op (.handle result) (.handle left) (.handle right))
      return result
  | .call name params => do
    let inputs ← lowerAllByCalls params
    let output ← modifyGet Network.intermediate
    discard (call name (.handle output) (inputs.map .handle))
    return output

def lowerAllByCalls : List Expr → Build (List VariableId)
  | [] => return []
  | e :: es => do
    let v ← lowerByCalls e
    return v :: (← lowerAllByCalls es)

end

end Build

namespace Network

variable {net net' : Network} {name text : String} {v : VariableId}

theorem Edit.known (h : Edit net net') {entry : FunctionEntry}
    (hf : net.functions.find? name = some entry) : net'.functions.find? name = some entry := by
  cases h with
  | construct h =>
    rw [(Construct.extends h).functions]
    exact hf
  | discard h =>
    cases h with
    | remove h =>
      rw [removeRelationship_eq h]
      exact hf
    | drop v hfree =>
      unfold dropVariable
      split <;> exact hf
  | register other entry' hfree =>
    rw [Table.find?_insert]
    by_cases he : other = name
    · rw [he, hf] at hfree
      cases hfree
    · rw [if_neg (Ne.symm he)]
      exact hf
  | _ => exact hf

theorem Edits.known (h : Edits net net') {entry : FunctionEntry}
    (hf : net.functions.find? name = some entry) : net'.functions.find? name = some entry := by
  induction h with
  | refl => exact hf
  | tail _ he ih => exact he.known ih

theorem Edits.function (h : Edits net net') {count : Nat} {f : HostFunction}
    (hf : net.function name count = .ok f) : net'.function name count = .ok f := by
  unfold Network.function at hf ⊢
  cases hentry : net.functions.find? name with
  | none => simp [hentry] at hf
  | some entry =>
    rw [h.known hentry]
    rw [hentry] at hf
    exact hf

theorem check_op {symbol : String} {left right : Expr}
    (h : net.check (.op symbol left right) = .ok ()) :
    (∃ op, Operator.ofSymbol? symbol = some op) ∧ net.check left = .ok () ∧
      net.check right = .ok () := by
  unfold check at h
  cases hop : Operator.ofSymbol? symbol with
  | none => simp [hop] at h
  | some op =>
    simp only [hop] at h
    cases hl : net.check left with
    | error fault =>
      rw [hl] at h
      cases h
    | ok _ =>
      rw [hl] at h
      exact ⟨⟨op, rfl⟩, rfl, h⟩

theorem check_call {params : List Expr} (h : net.check (.call name params) = .ok ()) :
    (∃ f, net.function name params.length = .ok f) ∧ net.checkAll params = .ok () := by
  unfold check at h
  cases hf : net.function name params.length with
  | error fault =>
    rw [hf] at h
    cases h
  | ok f =>
    rw [hf] at h
    exact ⟨⟨f, rfl⟩, h⟩

theorem checkAll_cons {e : Expr} {es : List Expr} (h : net.checkAll (e :: es) = .ok ()) :
    net.check e = .ok () ∧ net.checkAll es = .ok () := by
  unfold checkAll at h
  cases he : net.check e with
  | error fault =>
    rw [he] at h
    cases h
  | ok _ =>
    rw [he] at h
    exact ⟨rfl, h⟩

mutual

theorem Edits.check {net net' : Network} (h : Edits net net') :
    ∀ e, net.check e = .ok () → net'.check e = .ok ()
  | .ident _, hc => hc
  | .number _, hc => hc
  | .op symbol left right, hc => by
    obtain ⟨⟨op, hop⟩, hleft, hright⟩ := check_op hc
    unfold Network.check
    rw [hop, Edits.check h left hleft]
    exact Edits.check h right hright
  | .call name params, hc => by
    obtain ⟨⟨f, hf⟩, hparams⟩ := check_call hc
    unfold Network.check
    rw [h.function hf]
    exact Edits.checkAll h params hparams

theorem Edits.checkAll {net net' : Network} (h : Edits net net') :
    ∀ es, net.checkAll es = .ok () → net'.checkAll es = .ok ()
  | [], hc => hc
  | e :: es, hc => by
    obtain ⟨he, hes⟩ := checkAll_cons hc
    unfold Network.checkAll
    rw [Edits.check h e he]
    exact Edits.checkAll h es hes

end

theorem run_bind_of_ok {ε σ α β : Type} {p : EStateM ε σ α} {f : α → EStateM ε σ β} {a : α}
    {s s' : σ} (h : p.run s = .ok a s') : (p >>= f).run s = (f a).run s' := by
  rw [EStateM.run_bind, h]

theorem exists_of_run_bind {ε σ α β : Type} {p : EStateM ε σ α} {f : α → EStateM ε σ β} {b : β}
    {s s' : σ} (h : (p >>= f).run s = .ok b s') :
    ∃ a mid, p.run s = .ok a mid ∧ (f a).run mid = .ok b s' := by
  rw [EStateM.run_bind] at h
  cases hp : p.run s with
  | ok a mid =>
    rw [hp] at h
    exact ⟨a, mid, rfl, h⟩
  | error e mid =>
    rw [hp] at h
    cases h

theorem run_discard_of_ok {ε σ α : Type} {p : EStateM ε σ α} {a : α} {s s' : σ}
    (h : p.run s = .ok a s') : (discard p).run s = .ok () s' := by
  show (p >>= fun _ => pure ()).run s = _
  rw [run_bind_of_ok h]
  rfl

theorem run_resolve_handle (hv : (net.variableAt v).isSome) :
    (Build.resolve (.handle v)).run net = .ok v net := by
  have hknown : ¬ (net.variableAt v).isNone = true := by
    rw [Option.isNone_iff_eq_none]
    exact Option.isSome_iff_ne_none.mp hv
  show (do
    if (net.variableAt v).isNone then throw (Fault.unknownVariable v)
    return v : Build VariableId).run net = .ok v net
  rw [if_neg hknown]
  rfl

theorem run_resolve_handles {vs : List VariableId} (hvs : ∀ v ∈ vs, (net.variableAt v).isSome) :
    ((vs.map Operand.handle).mapM Build.resolve).run net = .ok vs net := by
  induction vs with
  | nil => rfl
  | cons v vs ih =>
    rw [List.forall_mem_cons] at hvs
    rw [List.map_cons, List.mapM_cons, run_bind_of_ok (run_resolve_handle hvs.1),
      run_bind_of_ok (ih hvs.2)]
    rfl

theorem run_arithmetic_handles (op : Operator) {result left right : VariableId}
    (hresult : (net.variableAt result).isSome) (hleft : (net.variableAt left).isSome)
    (hright : (net.variableAt right).isSome) :
    (Build.arithmetic op (.handle result) (.handle left) (.handle right)).run net =
      .ok (net.relate (.arithmetic op result left right)).1
        (net.relate (.arithmetic op result left right)).2 := by
  unfold Build.arithmetic
  rw [run_bind_of_ok (run_resolve_handle hresult), run_bind_of_ok (run_resolve_handle hleft),
    run_bind_of_ok (run_resolve_handle hright)]
  rfl

theorem run_lookupFunction {count : Nat} {f : HostFunction} (hf : net.function name count = .ok f) :
    (Build.lookupFunction name count).run net = .ok f net := by
  have hget : (get : Build Network).run net = .ok net net := rfl
  unfold Build.lookupFunction
  rw [run_bind_of_ok hget, hf]
  rfl

theorem run_call_handles {inputs : List VariableId} {output : VariableId} {f : HostFunction}
    (hf : net.function name inputs.length = .ok f) (houtput : (net.variableAt output).isSome)
    (hinputs : ∀ v ∈ inputs, (net.variableAt v).isSome) :
    (Build.call name (.handle output) (inputs.map .handle)).run net =
      .ok (net.relate (.custom name f inputs output)).1
        (net.relate (.custom name f inputs output)).2 := by
  unfold Build.call
  rw [List.length_map, run_bind_of_ok (run_lookupFunction hf),
    run_bind_of_ok (run_resolve_handle houtput), run_bind_of_ok (run_resolve_handles hinputs)]
  rfl

theorem run_intermediate (net : Network) : (modifyGet intermediate : Build VariableId).run net =
    .ok net.intermediate.1 net.intermediate.2 := rfl

mutual

/-- What is checked is lowered, and no handle is stale on the way. -/
theorem lower_answers {net : Network} (hi : net.Integrity) : ∀ e, net.check e = .ok () →
    ∃ v net', (Build.lower e).run net = .ok v net' ∧ (Build.lowerByCalls e).run net = .ok v net'
  | .ident name, _ => ⟨_, _, rfl, rfl⟩
  | .number value, hc => by
    have hf : value.isFinite = true := by
      by_contra hf
      simp [check, hf] at hc
    have hrun : (Build.literal value).run net = .ok (net.addVariable (.literal (Decimal.text value) value)).1
        (net.addVariable (.literal (Decimal.text value) value)).2 := by
      unfold Build.literal
      simp only [hf, Bool.not_true, Bool.false_eq_true, if_false]
      rfl
    exact ⟨_, _, hrun, hrun⟩
  | .op symbol left right, hc => by
    obtain ⟨⟨op, hop⟩, hleft, hright⟩ := check_op hc
    obtain ⟨l, mid, hl, hl'⟩ := lower_answers hi left hleft
    obtain ⟨hg, hlive⟩ := (adds_lower hi left).of_run hl
    have hi' := (Grows.edits hg).integrity hi
    obtain ⟨r, mid', hr, hr'⟩ := lower_answers hi' right (Edits.check (Grows.edits hg) right hright)
    obtain ⟨hg', hlive'⟩ := (adds_lower hi' right).of_run hr
    have hgrown := grows_intermediate mid'
    have hrelate := run_arithmetic_handles op (live_intermediate mid')
      (hgrown.live (Grows.live hg' hlive)) (hgrown.live hlive')
    refine ⟨mid'.intermediate.1, mid'.node fun v => .arithmetic op v l r, ?_, ?_⟩
    · unfold Build.lower
      rw [hop]
      show (Build.lower left >>= _).run net = _
      rw [run_bind_of_ok hl, run_bind_of_ok hr]
      rfl
    · unfold Build.lowerByCalls
      rw [hop]
      show (Build.lowerByCalls left >>= _).run net = _
      rw [run_bind_of_ok hl', run_bind_of_ok hr', run_bind_of_ok (run_intermediate mid'),
        run_bind_of_ok (run_discard_of_ok hrelate)]
      rfl
  | .call name params, hc => by
    obtain ⟨⟨f, hf⟩, hparams⟩ := check_call hc
    obtain ⟨inputs, mid, hin, hin', hlength⟩ := lowerAll_answers hi params hparams
    obtain ⟨hg, hlive⟩ := (adds_lowerAll hi params).of_run hin
    have hgrown := grows_intermediate mid
    replace hf := Edits.function ((Grows.edits hg).trans hgrown.edits) hf
    rw [← hlength] at hf
    have hrelate := run_call_handles hf (live_intermediate mid)
      fun v hv => hgrown.live (hlive v hv)
    refine ⟨mid.intermediate.1, mid.node fun v => .custom name f inputs v, ?_, ?_⟩
    · unfold Build.lower
      rw [run_bind_of_ok hin, run_bind_of_ok (run_intermediate mid),
        run_bind_of_ok (run_lookupFunction hf)]
      rfl
    · unfold Build.lowerByCalls
      rw [run_bind_of_ok hin', run_bind_of_ok (run_intermediate mid),
        run_bind_of_ok (run_discard_of_ok hrelate)]
      rfl

theorem lowerAll_answers {net : Network} (hi : net.Integrity) : ∀ es, net.checkAll es = .ok () →
    ∃ vs net', (Build.lowerAll es).run net = .ok vs net' ∧
      (Build.lowerAllByCalls es).run net = .ok vs net' ∧ vs.length = es.length
  | [], _ => ⟨[], net, rfl, rfl, rfl⟩
  | e :: es, hc => by
    obtain ⟨he, hes⟩ := checkAll_cons hc
    obtain ⟨v, mid, hv, hv'⟩ := lower_answers hi e he
    obtain ⟨hg, -⟩ := (adds_lower hi e).of_run hv
    have hedits := Grows.edits hg
    obtain ⟨vs, net', hvs, hvs', hlength⟩ :=
      lowerAll_answers (hedits.integrity hi) es (Edits.checkAll hedits es hes)
    refine ⟨v :: vs, net', ?_, ?_, by rw [List.length_cons, List.length_cons, hlength]⟩
    · unfold Build.lowerAll
      rw [run_bind_of_ok hv, run_bind_of_ok hvs]
      rfl
    · unfold Build.lowerAllByCalls
      rw [run_bind_of_ok hv', run_bind_of_ok hvs']
      rfl

end

theorem ends_lower (hi : net.Integrity) {e : Expr} (hc : net.check e = .ok ()) :
    Ends (Build.lower e) net (fun v net' => (Build.lower e).run net = .ok v net')
      fun _ _ => False := by
  obtain ⟨v, net', hrun, -⟩ := lower_answers hi e hc
  unfold Ends
  rw [hrun]

theorem ends_evaluate (hi : net.Integrity) (e : Expr) : Ends (Build.evaluate e) net
    (fun v net' => (Build.lower e).run net = .ok v net') fun _ net' => net' = net := by
  apply Ends.bind
  apply (ends_ensure net e).mono _ fun _ _ h => h
  rintro _ _ ⟨rfl, hc⟩
  exact (ends_lower hi hc).mono (fun _ _ hrun => hrun) fun _ _ => False.elim

theorem ends_evaluateText (hi : net.Integrity) (text : String) :
    Ends (Build.evaluateText text) net
      (fun v net' => ∃ e, Expr.parse text = .ok e ∧ (Build.lower e).run net = .ok v net')
      fun _ net' => net' = net := by
  apply Ends.bind
  apply (ends_parse net text).mono _ fun _ _ h => h
  rintro e _ ⟨rfl, hparse⟩
  exact (ends_evaluate hi e).mono (fun v net' hrun => ⟨e, hparse, hrun⟩) fun _ _ h => h

def define (net : Network) (target root : VariableId) : Network :=
  let (r, net) := net.relate (.equality target root)
  { net with definitions := net.definitions.insert target r }

theorem construct_define {target root : VariableId} (htarget : (net.variableAt target).isSome)
    (hroot : (net.variableAt root).isSome) :
    Construct net (net.relate (.equality target root)).2 := by
  apply Construct.relate
  simp [Relation.operands, Relation.result, Relation.arguments, htarget, hroot]

theorem edits_clear_declare (hi : net.Integrity) (name : String) :
    Edits net ((net.clear name).declare name).2 :=
  (edits_clear hi name).trans (grows_declare name (net.clear name)).edits

theorem ends_definition (hi : net.Integrity) (name text : String) :
    Ends (Build.redefine name (.expression text)) net
      (fun _ net' => ∃ e root lowered, Expr.parse text = .ok e ∧
        (Build.lower e).run ((net.clear name).declare name).2 = .ok root lowered ∧
        net' = lowered.define ((net.clear name).declare name).1 root)
      fun _ net' => net' = net := by
  refine Ends.unless (fun _ => rfl) fun _ => Ends.unless (fun _ => rfl) fun _ => ?_
  apply Ends.bind
  apply (ends_parse net text).mono _ fun _ _ h => h
  rintro e net ⟨rfl, hparse⟩
  apply Ends.bind
  apply (ends_ensure net e).mono _ fun _ _ h => h
  rintro _ net ⟨rfl, hc⟩
  have hedits := edits_clear_declare hi name
  have hlower := ends_lower (Edits.integrity hedits hi) (Edits.check hedits e hc)
  apply Ends.modifyGet
  apply Ends.modifyGet
  apply Ends.bind
  exact hlower.mono (fun root lowered hrun => ⟨e, root, lowered, hparse, hrun, rfl⟩)
    fun _ _ => False.elim

theorem perform_definition (hi : net.Integrity)
    (hdone : (net.perform (.set name (.expression text))).result = .ok .done) :
    ∃ e root lowered, Expr.parse text = .ok e ∧
      (Build.lower e).run ((net.clear name).declare name).2 = .ok root lowered ∧
      (net.perform (.set name (.expression text))).network =
        lowered.define ((net.clear name).declare name).1 root := by
  have hset : net.perform (.set name (.expression text)) =
    .ofBuild (fun _ => .done) (Build.redefine name (.expression text)) net := rfl
  rw [hset] at hdone ⊢
  rcases Outcome.build_of_ends (ends_definition hi name text) fun _ => .done with
    ⟨_, net', he, e, root, lowered, hparse, hrun, hnet'⟩ | ⟨fault, net', he, -⟩
  · exact ⟨e, root, lowered, hparse, hrun, by rw [he, hnet']⟩
  · rw [he] at hdone
    cases hdone

theorem ends_number (net : Network) (name : String) (value : Float) :
    Ends (Build.redefine name (.number value)) net (fun _ _ => True) fun _ net' => net' = net := by
  refine Ends.unless (fun _ => rfl) fun hname => Ends.unless (fun _ => rfl) fun hf => ?_
  apply Ends.bind
  refine Ends.unless (fun h => absurd h hname) fun _ => Ends.unless (fun h => absurd h hf) ?_
  intro _
  trivial

/-- When an expression, a text or a setting is refused, the network is as it was: variables,
names, relationships and their order, definitions, functions, values and counters. For what
has been accepted once is lowered after any calls, clearings among them, and no construction
made in lowering it is refused. -/
theorem expressions_fail_atomically (hr : Reachable net) :
    (∀ e fault, (net.perform (.evaluate e)).result = .error fault →
      net.perform (.evaluate e) = ⟨.error fault, net, []⟩) ∧
    (∀ text fault, (net.perform (.evaluateText text)).result = .error fault →
      net.perform (.evaluateText text) = ⟨.error fault, net, []⟩) ∧
    (∀ name setting fault, (net.perform (.set name setting)).result = .error fault →
      net.perform (.set name setting) = ⟨.error fault, net, []⟩) ∧
    ∀ e calls, net.check e = .ok () → ∃ v after,
      (Build.lower e).run (net.after calls) = .ok v after ∧
      (Build.lowerByCalls e).run (net.after calls) = .ok v after := by
  have hi := hr.integrity
  refine ⟨fun e fault hfault => ?_, fun text fault hfault => ?_,
    fun name setting fault hfault => ?_, fun e calls hc => ?_⟩
  · exact Outcome.refused (ends_evaluate hi e) hfault
  · exact Outcome.refused (ends_evaluateText hi text) hfault
  · cases setting with
    | number value => exact Outcome.refused (ends_number net name value) hfault
    | expression text => exact Outcome.refused (ends_definition hi name text) hfault
  · have hedits := edits_after hi hr.wellHeld calls
    exact lower_answers (Edits.integrity hedits hi) e (Edits.check hedits e hc)

theorem expressions_fail_atomically_difference :
    definedDifference.perform (.evaluate (.op "+" (.ident "q") (.call "f" [.number 1]))) =
      ⟨.error (.unknownFunction "f"), definedDifference, []⟩ ∧
    (∃ fault, definedDifference.perform (.evaluateText "q + (") =
      ⟨.error fault, definedDifference, []⟩) ∧
    (∃ fault, definedDifference.perform (.set "W" (.expression "q R")) =
      ⟨.error fault, definedDifference, []⟩) ∧
    ∃ v after, (Build.lower (.op "*" (.ident "L") (.number 2))).run
      (definedDifference.after [.clear "W"]) = .ok v after := by
  have hr : Reachable definedDifference := ⟨.standard, empty .standard, _, create_standard, rfl⟩
  obtain ⟨hevaluate, htext, hset, hlower⟩ := expressions_fail_atomically hr
  obtain ⟨v, after, hrun, -⟩ := hlower (.op "*" (.ident "L") (.number 2))
    [.clear "W"] rfl
  exact ⟨hevaluate _ _ rfl, ⟨_, htext _ _ rfl⟩, ⟨_, hset _ _ _ rfl⟩, v, after, hrun⟩

end Network

end ConstraintNet

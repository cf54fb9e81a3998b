import ConstraintNet.Proofs.Reachable

/-!
# Refused constructions

A construction resolves its operands from left to right, the result first, and makes its
relationship last. If an operand is refused, no relationship is made; but the variables
made for the operands before it stay.
-/

set_option autoImplicit false

namespace ConstraintNet

def Call.operands? : Call → Option (List Operand)
  | .equals result value => some [result, value]
  | .arithmetic _ result left right => some [result, left, right]
  | .call _ output params => some (output :: params)
  | _ => none

namespace Network

def refusal? (net : Network) : Operand → Option Fault
  | .name name => if name = "" then some (.invalidValue .emptyName) else none
  | .literal value =>
    if value.isFinite then none else some (.invalidValue (.nonFiniteLiteral value))
  | .handle v => if (net.variableAt v).isSome then none else some (.unknownVariable v)

def supply (net : Network) : Operand → Network
  | .name name => (net.declare name).2
  | .literal value => (net.addVariable (.literal (Decimal.text value) value)).2
  | .handle _ => net

def Lacks (net : Network) : Operand → Prop
  | .name name => net.lookup name = none
  | .literal _ => True
  | .handle _ => False

variable {net mid net' : Network} {o : Operand} {operands rest : List Operand} {fault : Fault}

theorem ends_resolve (net : Network) (o : Operand) : Ends (Build.resolve o) net
    (fun _ net' => net.refusal? o = none ∧ net' = net.supply o)
    fun fault net' => net.refusal? o = some fault ∧ net' = net := by
  cases o with
  | name name =>
    exact Ends.unless (fun hn => ⟨by simp [refusal?, hn], rfl⟩)
      fun hn => ⟨by simp [refusal?, hn], rfl⟩
  | literal value =>
    exact Ends.unless (fun hf => ⟨by simpa [refusal?] using hf, rfl⟩)
      fun hf => ⟨by simpa [refusal?] using hf, rfl⟩
  | handle v =>
    apply Ends.get
    exact Ends.unless (fun hx => ⟨by simpa [refusal?] using hx, rfl⟩)
      fun hx => ⟨by simpa [refusal?] using hx, rfl⟩

theorem supply_of_not_lacks (h : ¬ net.Lacks o) : net.supply o = net := by
  cases o with
  | name name =>
    obtain ⟨v, hv⟩ := Option.ne_none_iff_exists'.mp h
    simp only [supply, declare, hv]
  | literal value => exact absurd trivial h
  | handle v => rfl

theorem next_supply_of_lacks (h : net.Lacks o) : (net.supply o).vars.next = net.vars.next + 1 := by
  cases o with
  | name name =>
    replace h : net.lookup name = none := h
    simp only [supply, declare, h]
    exact Arena.next_push _ _
  | literal value => exact Arena.next_push _ _
  | handle v => exact h.elim

theorem next_le_supply (net : Network) (o : Operand) :
    net.vars.next ≤ (net.supply o).vars.next := by
  by_cases h : net.Lacks o
  · rw [next_supply_of_lacks h]
    exact Nat.le_succ _
  · rw [supply_of_not_lacks h]

def supplyAll (net : Network) (operands : List Operand) : Network := operands.foldl supply net

def Accepts : Network → List Operand → Prop
  | _, [] => True
  | net, o :: os => net.refusal? o = none ∧ (net.supply o).Accepts os

/-- Resolving some operands in order stops at one that is refused, with those before it
supplied. -/
def Refuses (net : Network) (operands : List Operand) (fault : Fault) (net' : Network) : Prop :=
  ∃ before o rest, operands = before ++ o :: rest ∧ net.Accepts before ∧
    net' = net.supplyAll before ∧ net'.refusal? o = some fault

theorem refuses_first (h : net.refusal? o = some fault) : net.Refuses (o :: rest) fault net :=
  ⟨[], o, rest, rfl, trivial, rfl, h⟩

theorem Refuses.cons (h : (net.supply o).Refuses operands fault net')
    (ho : net.refusal? o = none) : net.Refuses (o :: operands) fault net' := by
  obtain ⟨before, p, rest, rfl, haccepts, rfl, hp⟩ := h
  exact ⟨o :: before, p, rest, rfl, ⟨ho, haccepts⟩, rfl, hp⟩

theorem ends_resolve_bind {α : Type} {f : VariableId → Build α} {good : α → Network → Prop}
    (h : ∀ v, Ends (f v) (net.supply o)
      (fun a net' => (net.supply o).Accepts operands ∧ good a net') fun fault net' =>
        (net.supply o).Refuses operands fault net') :
    Ends (Build.resolve o >>= f) net (fun a net' => net.Accepts (o :: operands) ∧ good a net')
      fun fault net' => net.Refuses (o :: operands) fault net' := by
  refine Ends.bind (Ends.mono (ends_resolve net o) ?_ ?_)
  · rintro v _ ⟨ho, rfl⟩
    exact Ends.mono (h v) (fun _ _ ha => ⟨⟨ho, ha.1⟩, ha.2⟩) fun _ _ hb => hb.cons ho
  · rintro fault _ ⟨ho, rfl⟩
    exact refuses_first ho

theorem ends_resolveAll_bind {α : Type} {f : List VariableId → Build α}
    {good : α → Network → Prop} (operands : List Operand) (net : Network)
    (h : ∀ vs, Ends (f vs) (net.supplyAll operands) good fun _ _ => False) :
    Ends (operands.mapM Build.resolve >>= f) net
      (fun a net' => net.Accepts operands ∧ good a net') fun fault net' =>
        net.Refuses operands fault net' := by
  induction operands generalizing net f with
  | nil =>
    rw [List.mapM_nil]
    exact Ends.mono (h []) (fun _ _ ha => ⟨trivial, ha⟩) fun _ _ hb => hb.elim
  | cons o os ih =>
    rw [List.mapM_cons, bind_assoc]
    apply ends_resolve_bind
    intro v
    rw [bind_assoc]
    exact ih (net.supply o) fun vs => h (v :: vs)

/-- A network in which some operands have been resolved: names that were free have blank
variables, literals have constants, and nothing else has changed. -/
structure Supplied (net : Network) (operands : List Operand) (net' : Network) : Prop where
  kept : ∀ v x, net.variableAt v = some x → net'.variableAt v = some x
  made : ∀ v y, net.variableAt v = none → net'.variableAt v = some y →
    (∃ name, .name name ∈ operands ∧ net.lookup name = none ∧ y = .blank name .named) ∨
      ∃ value, .literal value ∈ operands ∧ y = .literal (Decimal.text value) value
  known : ∀ name v, net.lookup name = some v → net'.lookup name = some v
  registered : ∀ name v, net.lookup name = none → net'.lookup name = some v →
    .name name ∈ operands ∧ net.variableAt v = none ∧
      net'.variableAt v = some (.blank name .named)
  rest : net' = { net with vars := net'.vars, registry := net'.registry }

theorem supplied_self (net : Network) (operands : List Operand) : net.Supplied operands net where
  kept _ _ h := h
  made v y hn hy := by
    rw [hn] at hy
    cases hy
  known _ _ h := h
  registered name v hn hv := by
    rw [hn] at hv
    cases hv
  rest := rfl

theorem supplied_named {name : String} (hfree : net.lookup name = none) :
    net.Supplied [.name name] (net.addNamed (.blank name .named)).2 where
  kept v x hx := net.variableAt_addVariable_of_some hx
  made v y hn hy := by
    rw [variableAt_addNamed, hn] at hy
    split at hy
    · exact .inl ⟨name, List.mem_singleton_self _, hfree, (Option.some.inj hy).symm⟩
    · cases hy
  known other v hv := by
    have hne : other ≠ (Variable.blank name .named).name := by
      intro he
      replace he : other = name := he
      rw [he, hfree] at hv
      cases hv
    rwa [lookup_addNamed, if_neg hne]
  registered other v hn hv := by
    rw [lookup_addNamed, hn] at hv
    split at hv
    · rename_i he
      replace he : other = name := he
      cases hv
      rw [variableAt_addNamed, if_pos rfl, he]
      exact ⟨List.mem_singleton_self _, net.variableAt_next, rfl⟩
    · cases hv
  rest := rfl

theorem supplied_literal (net : Network) (value : Float) : net.Supplied [.literal value]
    (net.addVariable (.literal (Decimal.text value) value)).2 where
  kept v x hx := net.variableAt_addVariable_of_some hx
  made v y hn hy := by
    rw [variableAt_addVariable, hn] at hy
    split at hy
    · exact .inr ⟨value, List.mem_singleton_self _, (Option.some.inj hy).symm⟩
    · cases hy
  known _ _ h := h
  registered name v hn hv := by
    replace hv : net.lookup name = some v := hv
    rw [hn] at hv
    cases hv
  rest := rfl

theorem supplied_supply (net : Network) (o : Operand) : net.Supplied [o] (net.supply o) := by
  by_cases hlacks : net.Lacks o
  · cases o with
    | name name =>
      replace hlacks : net.lookup name = none := hlacks
      have hdeclare : net.supply (.name name) = (net.addNamed (.blank name .named)).2 := by
        simp only [supply, declare, hlacks]
      rw [hdeclare]
      exact supplied_named hlacks
    | literal value => exact supplied_literal net value
    | handle v => exact hlacks.elim
  · rw [supply_of_not_lacks hlacks]
    exact supplied_self net [o]

theorem Supplied.absent (h : net.Supplied operands net') {v : VariableId}
    (hv : net'.variableAt v = none) : net.variableAt v = none := by
  rw [Option.eq_none_iff_forall_ne_some] at hv ⊢
  intro x hx
  exact hv x (h.kept v x hx)

theorem Supplied.free (h : net.Supplied operands net') {name : String}
    (hn : net'.lookup name = none) : net.lookup name = none := by
  rw [Option.eq_none_iff_forall_ne_some] at hn ⊢
  intro v hv
  exact hn v (h.known name v hv)

theorem Supplied.append (h : net.Supplied operands mid) (h' : mid.Supplied rest net') :
    net.Supplied (operands ++ rest) net' where
  kept v x hx := h'.kept v x (h.kept v x hx)
  made v y hn hy := by
    cases hmid : mid.variableAt v with
    | some z =>
      have hzy := h'.kept v z hmid
      rw [hy] at hzy
      cases hzy
      rcases h.made v y hn hmid with ⟨name, hmem, hfree, he⟩ | ⟨value, hmem, he⟩
      · exact .inl ⟨name, List.mem_append_left _ hmem, hfree, he⟩
      · exact .inr ⟨value, List.mem_append_left _ hmem, he⟩
    | none =>
      rcases h'.made v y hmid hy with ⟨name, hmem, hfree, he⟩ | ⟨value, hmem, he⟩
      · exact .inl ⟨name, List.mem_append_right _ hmem, h.free hfree, he⟩
      · exact .inr ⟨value, List.mem_append_right _ hmem, he⟩
  known name v hv := h'.known name v (h.known name v hv)
  registered name v hn hv := by
    cases hmid : mid.lookup name with
    | some w =>
      have hwv := h'.known name w hmid
      rw [hv] at hwv
      cases hwv
      obtain ⟨hmem, hgone, hblank⟩ := h.registered name v hn hmid
      exact ⟨List.mem_append_left _ hmem, hgone, h'.kept v _ hblank⟩
    | none =>
      obtain ⟨hmem, hgone, hblank⟩ := h'.registered name v hmid hv
      exact ⟨List.mem_append_right _ hmem, h.absent hgone, hblank⟩
  rest := by
    rw [h'.rest, h.rest]

theorem supplied_supplyAll (net : Network) (operands : List Operand) :
    net.Supplied operands (net.supplyAll operands) := by
  induction operands generalizing net with
  | nil => exact supplied_self net []
  | cons o os ih => exact (supplied_supply net o).append (ih (net.supply o))

theorem next_le_supplyAll (net : Network) (operands : List Operand) :
    net.vars.next ≤ (net.supplyAll operands).vars.next := by
  induction operands generalizing net with
  | nil => exact le_rfl
  | cons o os ih => exact (next_le_supply net o).trans (ih (net.supply o))

theorem supplyAll_eq_self_iff : net.supplyAll operands = net ↔ ∀ o ∈ operands, ¬ net.Lacks o := by
  induction operands with
  | nil => simp [supplyAll]
  | cons o os ih =>
    rw [List.forall_mem_cons]
    by_cases hlacks : net.Lacks o
    · have hgrown : net.vars.next < (net.supplyAll (o :: os)).vars.next := by
        have hle := next_le_supplyAll (net.supply o) os
        rw [next_supply_of_lacks hlacks] at hle
        exact hle
      have hne : net.supplyAll (o :: os) ≠ net := by
        intro he
        rw [he] at hgrown
        exact Nat.lt_irrefl _ hgrown
      simp [hne, hlacks]
    · have hsame : net.supplyAll (o :: os) = net.supplyAll os := by
        rw [supplyAll, List.foldl_cons, supply_of_not_lacks hlacks]
        rfl
      simp [hsame, hlacks, ih]

def Constructs (net : Network) (operands : List Operand) (r : RelationshipId) (net' : Network) :
    Prop :=
  net.Accepts operands ∧ ∃ relation, (r, net') = (net.supplyAll operands).relate relation

theorem ends_equals (net : Network) (result value : Operand) :
    Ends (Build.equals result value) net (net.Constructs [result, value])
      fun fault net' => net.Refuses [result, value] fault net' := by
  apply ends_resolve_bind
  intro left
  apply ends_resolve_bind
  intro right
  exact ⟨trivial, _, rfl⟩

theorem ends_arithmetic (net : Network) (op : Operator) (result left right : Operand) :
    Ends (Build.arithmetic op result left right) net (net.Constructs [result, left, right])
      fun fault net' => net.Refuses [result, left, right] fault net' := by
  apply ends_resolve_bind
  intro v
  apply ends_resolve_bind
  intro l
  apply ends_resolve_bind
  intro r
  exact ⟨trivial, _, rfl⟩

theorem ends_call (net : Network) (name : String) (output : Operand) (params : List Operand) :
    Ends (Build.call name output params) net (net.Constructs (output :: params)) fun fault net' =>
      (net.function name params.length = .error fault ∧ net' = net) ∨
        net.Refuses (output :: params) fault net' := by
  apply Ends.bind
  apply Ends.mono (ends_lookupFunction net name params.length)
  · intro f mid ⟨hmid, _⟩
    rw [hmid]
    have hrest : Ends (do
        let output ← Build.resolve output
        let inputs ← params.mapM Build.resolve
        modifyGet (relate (.custom name f inputs output))) net (net.Constructs (output :: params))
        fun fault net' => net.Refuses (output :: params) fault net' := by
      apply ends_resolve_bind
      intro out
      apply ends_resolveAll_bind
      intro inputs
      exact ⟨_, rfl⟩
    exact Ends.mono hrest (fun _ _ h => h) fun _ _ h => Or.inr h
  · intro fault mid ⟨hmid, hf⟩
    exact .inl ⟨hf, hmid⟩

def RefusesFunction (net : Network) (c : Call) (fault : Fault) : Prop :=
  ∃ name output params, c = .call name output params ∧
    net.function name params.length = .error fault

theorem exists_construction (net : Network) {c : Call} (hoperands : c.operands? = some operands) :
    ∃ p, net.perform c = .ofBuild .relationship p net ∧
      Ends p net (net.Constructs operands) fun fault net' =>
        net.RefusesFunction c fault ∧ net' = net ∨ net.Refuses operands fault net' := by
  cases c with
  | equals result value =>
    cases hoperands
    exact ⟨_, rfl, Ends.mono (ends_equals net result value) (fun _ _ h => h) fun _ _ => .inr⟩
  | arithmetic op result left right =>
    cases hoperands
    exact ⟨_, rfl, Ends.mono (ends_arithmetic net op result left right) (fun _ _ h => h)
      fun _ _ => .inr⟩
  | call name output params =>
    cases hoperands
    exact ⟨_, rfl, Ends.mono (ends_call net name output params) (fun _ _ h => h)
      fun _ _ h => h.imp_left fun hf => ⟨⟨name, output, params, rfl, hf.1⟩, hf.2⟩⟩
  | _ => cases hoperands

theorem perform_construction (net : Network) {c : Call} (hoperands : c.operands? = some operands) :
    (∃ r net', net.perform c = ⟨.ok (.relationship r), net', []⟩) ∨
      ∃ fault net', net.perform c = ⟨.error fault, net', []⟩ ∧
        (net.RefusesFunction c fault ∧ net' = net ∨ net.Refuses operands fault net') := by
  obtain ⟨p, hc, h⟩ := net.exists_construction hoperands
  rw [hc]
  rcases Outcome.build_of_ends h .relationship with ⟨r, net', ho, -⟩ | ⟨fault, net', ho, hbad⟩
  · exact .inl ⟨r, net', ho⟩
  · exact .inr ⟨fault, net', ho, hbad⟩

theorem constructs_of_answer {c : Call} (hoperands : c.operands? = some operands) {a : Answer}
    (hok : (net.perform c).result = .ok a) : ∃ r, a = .relationship r ∧
      net.Constructs operands r (net.perform c).network := by
  obtain ⟨p, hc, h⟩ := net.exists_construction hoperands
  rw [hc] at hok ⊢
  rcases Outcome.build_of_ends h .relationship with ⟨r, net', ho, hgood⟩ | ⟨fault, net', ho, -⟩
  · rw [ho] at hok ⊢
    cases hok
    exact ⟨r, rfl, hgood⟩
  · rw [ho] at hok
    cases hok

/-- A construction is refused for its function, and then nothing has changed; or for one of
its operands, and then what is left behind is what the operands before that one have come
to: all that was there is still there, names that were free have blank variables, literals
have constants, and no relationship is made. So nothing has changed exactly if no variable
had to be made for an operand before the one refused. -/
theorem refused_construction_keeps_earlier_operands {c : Call}
    (hoperands : c.operands? = some operands)
    (hfail : (net.perform c).result = .error fault) :
    (net.RefusesFunction c fault ∧ net.perform c = ⟨.error fault, net, []⟩) ∨
    ∃ before o rest, operands = before ++ o :: rest ∧ net.Accepts before ∧
      (net.supplyAll before).refusal? o = some fault ∧
      net.perform c = ⟨.error fault, net.supplyAll before, []⟩ ∧
      net.Supplied before (net.supplyAll before) ∧
      (net.supplyAll before = net ↔ ∀ p ∈ before, ¬ net.Lacks p) := by
  rcases net.perform_construction hoperands with ⟨r, net', ho⟩ | ⟨fault', net', ho, hrefused⟩
  · rw [ho] at hfail
    cases hfail
  · rw [ho] at hfail
    cases hfail
    rcases hrefused with ⟨hf, rfl⟩ | ⟨before, o, rest, hsplit, haccepts, rfl, hrefusal⟩
    · exact .inl ⟨hf, ho⟩
    · exact .inr ⟨before, o, rest, hsplit, haccepts, hrefusal, ho,
        supplied_supplyAll net before, supplyAll_eq_self_iff⟩

def staleHandle : Network := (empty .standard).after [.declare "x", .destroy "x"]

theorem refused_construction_keeps_earlier_operands_staleHandle :
    Reachable staleHandle ∧
      (Call.arithmetic .add (.name "A") (.literal 1) (.handle ⟨0⟩)).operands? =
        some [.name "A", .literal 1, .handle ⟨0⟩] ∧
      (staleHandle.perform (.arithmetic .add (.name "A") (.literal 1) (.handle ⟨0⟩))).result =
        .error (.unknownVariable ⟨0⟩) ∧
      ∃ before o rest, [Operand.name "A", .literal 1, .handle ⟨0⟩] = before ++ o :: rest ∧
        (staleHandle.supplyAll before).refusal? o = some (.unknownVariable ⟨0⟩) ∧
        (staleHandle.perform (.arithmetic .add (.name "A") (.literal 1) (.handle ⟨0⟩))).network =
          staleHandle.supplyAll before ∧
        staleHandle.Supplied before (staleHandle.supplyAll before) ∧
        staleHandle.supplyAll before ≠ staleHandle := by
  have hr : Reachable staleHandle := ⟨.standard, empty .standard, _, create_standard, rfl⟩
  have hfail : (staleHandle.perform
      (.arithmetic .add (.name "A") (.literal 1) (.handle ⟨0⟩))).result =
        .error (.unknownVariable ⟨0⟩) := rfl
  have hnext : (staleHandle.perform
      (.arithmetic .add (.name "A") (.literal 1) (.handle ⟨0⟩))).network.vars.next ≠
        staleHandle.vars.next := by decide +kernel
  rcases refused_construction_keeps_earlier_operands rfl hfail with
    ⟨⟨name, output, params, hcall, -⟩, -⟩ |
      ⟨before, o, rest, hsplit, -, hrefusal, ho, hsupplied, -⟩
  · cases hcall
  · refine ⟨hr, rfl, hfail, before, o, rest, hsplit, hrefusal, by rw [ho], hsupplied, ?_⟩
    intro hsame
    rw [ho, hsame] at hnext
    exact hnext rfl

/-- `a` tied to an operand without a name is refused, and yet `a` is declared. -/
theorem refused_equality_declares_operand :
    Reachable (empty .standard) ∧
      ((empty .standard).perform (.equals (.name "a") (.name ""))).result =
        .error (.invalidValue .emptyName) ∧
      (empty .standard).lookup "a" = none ∧
      ((empty .standard).perform (.equals (.name "a") (.name ""))).network.lookup "a" =
        some ⟨0⟩ :=
  ⟨⟨.standard, empty .standard, [], create_standard, rfl⟩, rfl, rfl, rfl⟩

end Network

end ConstraintNet

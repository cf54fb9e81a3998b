import ConstraintNet.Proofs.Chain
import ConstraintNet.Proofs.Naming
import ConstraintNet.Proofs.Refusal

/-!
# Handles and names of intermediates are given out once

Indices and the counter of intermediates only go up. What was given out and is gone stays gone,
whatever is called, and an intermediate never has the name of another one, not even of one that
was collected long ago.
-/

set_option autoImplicit false

namespace ConstraintNet

def Call.tearsDown : Call → Bool
  | .set _ _ | .destroy _ | .destroyVariable _ | .clear _ => true
  | _ => false

namespace Network

variable {net mid net' : Network} {v : VariableId} {r : RelationshipId} {x y : Variable}
  {o : Operand} {operands : List Operand}

/-- A handle that was given out stays behind when its variable is gone. -/
structure Dead (net : Network) (v : VariableId) : Prop where
  issued : v.index < net.vars.next
  absent : net.variableAt v = none

theorem Dead.edits (h : net.Dead v) (hw : net.WellHeld) (he : Edits net net') : net'.Dead v where
  issued := h.issued.trans_le he.vars_next_le
  absent := by
    cases hy : net'.variableAt v with
    | none => rfl
    | some y =>
      rcases he.descends hw hy with ⟨x, hx, -⟩ | ⟨hle, -⟩
      · rw [h.absent] at hx
        cases hx
      · exact absurd h.issued (Nat.not_lt_of_le hle)

theorem Dead.supply (h : net.Dead v) (o : Operand) : (net.supply o).Dead v where
  issued := h.issued.trans_le (next_le_supply net o)
  absent := by
    cases o with
    | name name => exact (grows_declare name net).gone h.issued h.absent
    | literal value =>
      have hne : v ≠ (net.addVariable (.literal (Decimal.text value) value)).1 := by
        rintro rfl
        exact Nat.lt_irrefl _ h.issued
      exact (net.variableAt_addVariable _ v).trans ((if_neg hne).trans h.absent)
    | handle w => exact h.absent

theorem Dead.not_accepts (h : net.Dead v) (hv : .handle v ∈ operands) : ¬ net.Accepts operands := by
  induction operands generalizing net with
  | nil => cases hv
  | cons o os ih =>
    rintro ⟨ho, hos⟩
    rcases List.mem_cons.mp hv with rfl | hv
    · simp [refusal?, h.absent] at ho
    · exact ih (h.supply o) hv hos

structure Useless (net : Network) (v : VariableId) : Prop where
  absent : net.variableAt v = none
  valueless : net.valueOf v = none
  undestroyed : net.perform (.destroyVariable v) = ⟨.ok (.flag false), net, []⟩
  refused : ∀ c operands, c.operands? = some operands → .handle v ∈ operands →
    ∃ fault, (net.perform c).result = .error fault

theorem Dead.useless (h : net.Dead v) : net.Useless v where
  absent := h.absent
  valueless := by simp [valueOf, h.absent]
  undestroyed := by simp only [perform, destroyVariable, h.absent]
  refused c operands hoperands hv := by
    cases hc : (net.perform c).result with
    | error fault => exact ⟨fault, rfl⟩
    | ok a =>
      obtain ⟨_, -, haccepts, -⟩ := constructs_of_answer hoperands hc
      exact absurd haccepts (h.not_accepts hv)

def Retains (net net' : Network) : Prop :=
  ∀ v, (net.variableAt v).isSome → (net'.variableAt v).isSome

theorem Retains.of_chain (h : Relation.ReflTransGen Retains net net') : Retains net net' := by
  induction h with
  | refl => exact fun _ => id
  | tail _ hlast ih => exact fun v hv => hlast v (ih v hv)

theorem SameGraph.retains (h : SameGraph net net') : Retains net net' :=
  fun v hv => h.isSome_variableAt v ▸ hv

theorem retains_updateVariable (net : Network) (v : VariableId) (f : Variable → Variable) :
    Retains net (net.updateVariable v f) := by
  intro w hw
  rw [variableAt_updateVariable]
  split
  · rwa [Option.isSome_map]
  · exact hw

theorem makes_retains_assign (net : Network) (name : String) (value : Float) (source : State) :
    Makes Retains (Build.assign name value source) net fun _ _ => True :=
  makes_assign_of (.single fun _ hv => Grows.live (grows_declare name net) hv)
    fun _ mid v => retains_updateVariable mid v _

theorem makes_retains_register (net : Network) (name : String) (function : HostFunction)
    (arity : Option Nat) :
    Makes Retains (Build.register name function arity) net fun _ _ => True :=
  makes_register_of fun _ _ hv => hv

theorem retains_solve (net : Network) (d : Digest) :
    Retains net (net.perform (.solve d)).network := by
  obtain ⟨mid, run', outcome, hpre, hlast, hnet, -⟩ := net.solve_passes d
  rw [hnet]
  exact (hpre.advance.trans hlast.advance).sameGraph.retains

theorem retains_write (net : Network) (name : String) (value : Float) (d : Digest) :
    Retains net (net.perform (.write name value d)).network := by
  have hcascade {outcome : Option Fault} {run' : Run}
      (h : Cascade d (.write (net.declare name).1 value) ⟨net.prepared name d, []⟩ outcome run') :
      Retains net run'.network :=
    fun v hv => h.advance.sameGraph.retains v (Grows.live (grows_declare name net) hv)
  rcases Outcome.of_ends (ends_write ⟨net, []⟩ name value d) .flag with
    ⟨_, run', hrun, hgood⟩ | ⟨_, run', hrun, hbad⟩
  · rw [perform, hrun]
    exact hcascade hgood.2
  · rw [perform, hrun]
    rcases hbad with ⟨-, rfl, -⟩ | hbad
    · exact fun _ => id
    · exact hcascade hbad.2

theorem retains_of_not_tearsDown (hi : net.Integrity) {c : Call} (hc : c.tearsDown = false) :
    Retains net (net.perform c).network := by
  have hadds {α : Type} {p : Build α} {good : α → Network → Prop} (h : Adds p net good)
      (answer : α → Answer) : Retains net (Outcome.ofBuild answer p net).network :=
    fun _ hv => Grows.live (made_ofBuild h answer) hv
  have hmakes {α : Type} {p : Build α} {good : α → Network → Prop} (h : Makes Retains p net good)
      (answer : α → Answer) : Retains net (Outcome.ofBuild answer p net).network :=
    .of_chain (made_ofBuild h answer)
  cases c with
  | declare name => exact hadds (adds_declare hi name) _
  | equals result value => exact hadds (adds_equals hi result value) _
  | arithmetic op result left right => exact hadds (adds_arithmetic hi op result left right) _
  | call name output params => exact hadds (adds_call hi name output params) _
  | evaluate e => exact hadds (adds_evaluate hi e) _
  | evaluateText text => exact hadds (adds_evaluateText hi text) _
  | register name function arity => exact hmakes (makes_retains_register net name function arity) _
  | assign name value => exact hmakes (makes_retains_assign net name value .explicit) _
  | assignEnvironment name value =>
    exact hmakes (makes_retains_assign net name value .environment) _
  | write name value d => exact retains_write net name value d
  | watch name w =>
    exact fun v hv => retains_updateVariable _ _ _ v (Grows.live (grows_declare name net) hv)
  | solve d => exact retains_solve net d
  | next => exact retains_solve net (net.lastDigest + 1)
  | reset => exact (sameGraph_reset net).retains
  | set | destroy | destroyVariable | clear => cases hc

theorem Edit.relationships_next_le (h : Edit net net') :
    net.relationships.next ≤ net'.relationships.next := by
  cases h with
  | construct h => exact h.appends.next_le
  | discard h =>
    cases h with
    | remove h =>
      rw [removeRelationship_eq h]
      exact (Arena.next_erase _ _).ge
    | drop w =>
      unfold dropVariable
      split <;> exact le_rfl
  | mark => exact (Arena.next_modify _ _ _).ge
  | reset => exact (Arena.next_map _ _).ge
  | define | undefine | register | hold | watch | settle | see => exact le_rfl

theorem Edits.relationships_next_le (h : Edits net net') :
    net.relationships.next ≤ net'.relationships.next := by
  induction h with
  | refl => exact le_rfl
  | tail _ he ih => exact ih.trans he.relationships_next_le

theorem Edit.old_relationship (h : Edit net net') {rel : Relationship}
    (hr : net'.relationshipAt r = some rel) :
    (∃ old, net.relationshipAt r = some old ∧ rel.relation = old.relation) ∨
      net.relationships.next ≤ r.index := by
  cases h with
  | construct h => exact (h.appends.old r rel hr).imp_left fun hold => ⟨rel, hold, rfl⟩
  | discard h => exact .inl ⟨rel, h.relationship hr, rfl⟩
  | mark s m => exact .inl ((sameGraph_mark net s m).relationship_some hr)
  | reset => exact .inl ((sameGraph_reset net).relationship_some hr)
  | define | undefine | register | hold | watch | settle | see => exact .inl ⟨rel, hr, rfl⟩

theorem Edits.old_relationship (h : Edits net net') {rel : Relationship}
    (hr : net'.relationshipAt r = some rel) :
    (∃ old, net.relationshipAt r = some old ∧ rel.relation = old.relation) ∨
      net.relationships.next ≤ r.index := by
  induction h generalizing rel with
  | refl => exact .inl ⟨rel, hr, rfl⟩
  | tail hpre he ih =>
    rcases he.old_relationship hr with ⟨old, hold, hsame⟩ | hle
    · exact (ih hold).imp_left fun ⟨older, holder, hsame'⟩ => ⟨older, holder, hsame.trans hsame'⟩
    · exact .inr ((Edits.relationships_next_le hpre).trans hle)

theorem Edit.nextIntermediate_le (h : Edit net net') :
    net.nextIntermediate ≤ net'.nextIntermediate := by
  cases h with
  | construct h =>
    cases h with
    | intermediate n hle hfree => exact hle.trans (Nat.le_succ n)
    | constant | named | relate => exact le_rfl
  | discard h =>
    cases h with
    | remove h => rw [removeRelationship_eq h]
    | drop w => unfold dropVariable; split <;> exact le_rfl
  | _ => exact le_rfl

theorem Edits.nextIntermediate_le (h : Edits net net') :
    net.nextIntermediate ≤ net'.nextIntermediate := by
  induction h with
  | refl => exact le_rfl
  | tail _ he ih => exact ih.trans he.nextIntermediate_le

def Numbered (net net' : Network) (name : String) : Prop :=
  ∃ n, net.nextIntermediate ≤ n ∧ n < net'.nextIntermediate ∧ name = net.intermediateName n

theorem Edits.intermediateName (h : Edits net net') (n : Nat) :
    net'.intermediateName n = net.intermediateName n := by
  rw [Network.intermediateName, h.config, Network.intermediateName]

theorem Edit.construct_of_new (h : Edit net net') (hn : net.variableAt v = none)
    (hy : net'.variableAt v = some y) : Construct net net' := by
  have hsame (hs : SameGraph net net') : Construct net net' := by
    have hlive := hs.isSome_variableAt v
    rw [hn, hy] at hlive
    cases hlive
  cases h with
  | construct h => exact h
  | discard h =>
    obtain ⟨x, hx, -⟩ := h.old_variable hy
    rw [hn] at hx
    cases hx
  | mark s m => exact hsame (sameGraph_mark net s m)
  | reset => exact hsame (sameGraph_reset net)
  | define | undefine | register | see =>
    rw [show net.variableAt v = some y from hy] at hn
    cases hn
  | hold | watch | settle =>
    rw [variableAt_updateVariable, hn] at hy
    split at hy <;> cases hy

theorem Construct.numbered (h : Construct net net') (hn : net.variableAt v = none)
    (hy : net'.variableAt v = some y) (hk : y.kind = .intermediate) :
    net.Numbered net' y.name := by
  have hmade (net : Network) {x : Variable} (hn : net.variableAt v = none)
      (hy : (net.addVariable x).2.variableAt v = some y) : y = x := by
    rw [variableAt_addVariable, hn] at hy
    split at hy
    · exact (Option.some.inj hy).symm
    · cases hy
  cases h with
  | constant value hf =>
    rw [hmade net hn hy] at hk
    cases hk
  | named name hfree =>
    rw [hmade net hn hy] at hk
    cases hk
  | intermediate n hle hfree =>
    rw [hmade { net with nextIntermediate := n + 1 } hn hy]
    exact ⟨n, hle, Nat.lt_succ_self n, rfl⟩
  | relate relation hlive =>
    have hlive := net.isSome_variableAt_relate relation (v := v)
    rw [hn, hy] at hlive
    cases hlive

theorem Edits.numbered (h : Edits net net') (hw : net.WellHeld)
    (hy : net'.variableAt v = some y) (hk : y.kind = .intermediate) :
    (∃ x, net.variableAt v = some x ∧ Variable.Descends x y) ∨ net.Numbered net' y.name := by
  induction h generalizing y with
  | refl => exact .inl ⟨y, hy, .refl y⟩
  | @tail mid net' hpre he ih =>
    cases hx : mid.variableAt v with
    | none =>
      obtain ⟨n, hle, hlt, hname⟩ := (he.construct_of_new hx hy).numbered hx hy hk
      exact .inr ⟨n, (Edits.nextIntermediate_le hpre).trans hle, hlt,
        hname.trans (Edits.intermediateName hpre n)⟩
    | some x =>
      rcases he.descends (Edits.wellHeld hpre hw) hy with ⟨x', hx', hd⟩ | ⟨hle, -⟩
      · rw [hx] at hx'
        cases hx'
        rcases ih hx (hd.kind.symm.trans hk) with ⟨w, hw, hd'⟩ | ⟨n, hle, hlt, hname⟩
        · exact .inl ⟨w, hw, hd'.trans hd⟩
        · exact .inr ⟨n, hle, hlt.trans_le he.nextIntermediate_le, hd.name.trans hname⟩
      · exact absurd (index_lt_of_variableAt hx) (Nat.not_lt_of_le hle)

theorem Reachable.numbered (hr : Reachable net) (hx : net.variableAt v = some x)
    (hk : x.kind = .intermediate) :
    ∃ n < net.nextIntermediate, x.name = net.intermediateName n := by
  obtain ⟨config, -, he⟩ := hr.edits
  rcases Edits.numbered he (wellHeld_empty config) hx hk with ⟨w, hw, -⟩ | ⟨n, -, hlt, hname⟩
  · simp [empty, variableAt] at hw
  · exact ⟨n, hlt, hname.trans (Edits.intermediateName he n).symm⟩

theorem Integrity.eq_of_name (hi : net.Integrity) {w : VariableId} (hx : net.variableAt v = some x)
    (hy : net.variableAt w = some y) (hk : x.kind ≠ .constant) (hk' : y.kind ≠ .constant)
    (hname : x.name = y.name) : v = w := by
  have hv := (hi.registered x.name v).mpr ⟨x, hx, hk, rfl⟩
  have hw := (hi.registered x.name w).mpr ⟨y, hy, hk', hname.symm⟩
  rw [hv] at hw
  exact Option.some.inj hw

def nextName (net : Network) : String := net.intermediateName net.freeNumber

theorem variableAt_intermediate (net : Network) :
    net.intermediate.2.variableAt net.intermediate.1 = some (.blank net.nextName .intermediate) :=
  (variableAt_addNamed { net with nextIntermediate := _ } _ _).trans (if_pos rfl)

/-- An intermediate that is made later has another name, whatever happens in between. -/
theorem Edits.nextName_ne (h : Edits net.intermediate.2 mid) : mid.nextName ≠ net.nextName := by
  intro hsame
  have hfirst : mid.nextIntermediate ≤ mid.freeNumber := le_firstFree _ _ _ _
  have hnext : net.freeNumber + 1 ≤ mid.nextIntermediate := h.nextIntermediate_le
  have hconfig : mid.intermediateName mid.freeNumber = net.intermediateName mid.freeNumber :=
    Edits.intermediateName h mid.freeNumber
  have hnumber := net.intermediateName_injective (hconfig.symm.trans hsame)
  omega

theorem Reachable.intermediate_eq (hr : Reachable net) (he : Edits net net') {w : VariableId}
    (hx : net.variableAt v = some x) (hy : net'.variableAt w = some y)
    (hk : x.kind = .intermediate) (hk' : y.kind = .intermediate) (hname : x.name = y.name) :
    v = w := by
  rcases he.numbered hr.wellHeld hy hk' with ⟨z, hz, hd⟩ | ⟨n, hle, -, hn⟩
  · have hkz : z.kind = .intermediate := hd.kind.symm.trans hk'
    exact hr.integrity.eq_of_name hx hz (by simp [hk]) (by simp [hkz]) (hname.trans hd.name)
  · obtain ⟨m, hlt, hm⟩ := hr.numbered hx hk
    have hnumber := net.intermediateName_injective (hm.symm.trans (hname.trans hn))
    omega

/-- A variable that is new under a name leaves nothing of the one that had it before. -/
theorem Integrity.name_freed (hi : net.Integrity) (hw : net.WellHeld) (he : Edits net net')
    (hn : net.variableAt v = none) (hy : net'.variableAt v = some y) (hk : y.kind ≠ .constant)
    {u : VariableId} (hu : net.lookup y.name = some u) : net'.variableAt u = none := by
  obtain ⟨x, hx, hkx, hname⟩ := (hi.registered y.name u).mp hu
  refine (he.kept hw hx).resolve_right ?_
  rintro ⟨z, hz, hd⟩
  have hsame : u = v := (he.integrity hi).eq_of_name hz hy (hd.kind ▸ hkx) hk (hd.name.trans hname)
  rw [hsame, hn] at hx
  cases hx

theorem Outcome.answer_of_build {α : Type} {answer : α → Answer} {p : Build α} {a : Answer}
    (h : (Outcome.ofBuild answer p net).result = .ok a) : ∃ x, a = answer x := by
  unfold Outcome.ofBuild at h
  split at h
  · exact ⟨_, (Except.ok.inj h).symm⟩
  · cases h

theorem Outcome.answer_of_propagation {α : Type} {answer : α → Answer} {p : Propagation α}
    {a : Answer} (h : (Outcome.ofPropagation answer p net).result = .ok a) : ∃ x, a = answer x := by
  unfold Outcome.ofPropagation at h
  split at h
  · exact ⟨_, (Except.ok.inj h).symm⟩
  · cases h

theorem live_of_answer (hi : net.Integrity) {c : Call}
    (hc : (net.perform c).result = .ok (.handle v)) :
    ((net.perform c).network.variableAt v).isSome := by
  cases c with
  | declare name =>
    obtain ⟨w, hw, -, hlive⟩ := (adds_declare hi name).answered hc
    cases hw
    exact hlive
  | evaluate e =>
    obtain ⟨w, hw, -, hlive⟩ := (adds_evaluate hi e).answered hc
    cases hw
    exact hlive
  | evaluateText text =>
    obtain ⟨w, hw, -, hlive⟩ := (adds_evaluateText hi text).answered hc
    cases hw
    exact hlive
  | equals | arithmetic | register | call | assign | assignEnvironment | set =>
    obtain ⟨x, hx⟩ := Outcome.answer_of_build hc
    cases hx
  | write | solve | next =>
    obtain ⟨x, hx⟩ := Outcome.answer_of_propagation hc
    cases hx
  | watch | destroy | destroyVariable | clear | reset => cases hc

theorem operands_of_answer {c : Call} (hc : (net.perform c).result = .ok (.relationship r)) :
    ∃ operands, c.operands? = some operands := by
  cases c with
  | equals | arithmetic | call => exact ⟨_, rfl⟩
  | declare | evaluate | evaluateText | register | assign | assignEnvironment | set =>
    obtain ⟨x, hx⟩ := Outcome.answer_of_build hc
    cases hx
  | write | solve | next =>
    obtain ⟨x, hx⟩ := Outcome.answer_of_propagation hc
    cases hx
  | watch | destroy | destroyVariable | clear | reset => cases hc

theorem index_of_answer {c : Call} (hc : (net.perform c).result = .ok (.relationship r)) :
    r.index = net.relationships.next ∧
      (net.perform c).network.relationships.next = net.relationships.next + 1 := by
  obtain ⟨operands, hoperands⟩ := operands_of_answer hc
  obtain ⟨_, hr, -, relation, hmade⟩ := constructs_of_answer hoperands hc
  cases hr
  have hsame : (net.supplyAll operands).relationships = net.relationships := by
    rw [(net.supplied_supplyAll operands).rest]
  obtain ⟨rfl, hnet⟩ := Prod.mk.inj hmade
  rw [hnet, ← hsame]
  exact ⟨rfl, Arena.next_push _ _⟩

/-- Ids and names are given out once. An id that was returned, by a call or by a lookup, stands for
a variable of one name and one kind until a teardown takes that variable away, and from then on
nothing can be done with it. The id of a relationship is never issued again and never comes to
stand for another one. No two intermediates have the same name, whatever was collected between
them, and a new one has no name that is registered. -/
theorem handles_never_recycled (hr : Reachable net) :
    (∀ c v, (net.perform c).result = .ok (.handle v) →
        ((net.perform c).network.variableAt v).isSome) ∧
      (∀ name v, net.lookup name = some v → (net.variableAt v).isSome) ∧
      (∀ c, c.tearsDown = false → Retains net (net.perform c).network) ∧
      (∀ v x, net.variableAt v = some x → ∀ calls,
        (∃ y, (net.after calls).variableAt v = some y ∧ y.name = x.name ∧ y.kind = x.kind) ∨
          ∀ more, ((net.after calls).after more).Useless v) ∧
      (∀ c r, (net.perform c).result = .ok (.relationship r) → ∀ calls c',
        (((net.perform c).network.after calls).perform c').result ≠ .ok (.relationship r)) ∧
      (∀ calls r rel, r.index < net.relationships.next →
        (net.after calls).relationshipAt r = some rel →
          ∃ old, net.relationshipAt r = some old ∧ rel.relation = old.relation) ∧
      (∀ calls v w x y, net.variableAt v = some x → (net.after calls).variableAt w = some y →
        x.kind = .intermediate → y.kind = .intermediate → x.name = y.name → v = w) ∧
      (∀ calls w y u, net.variableAt w = none → (net.after calls).variableAt w = some y →
        y.kind = .intermediate → net.lookup y.name = some u →
          (net.after calls).variableAt u = none) ∧
      ∀ mid, Edits net mid →
        mid.lookup mid.nextName = none ∧
        mid.intermediate.2.variableAt mid.intermediate.1 =
          some (.blank mid.nextName .intermediate) ∧
        ∀ later, Edits mid.intermediate.2 later → later.nextName ≠ mid.nextName := by
  have hi := hr.integrity
  have hw := hr.wellHeld
  have hedits (calls : List Call) : Edits net (net.after calls) := edits_after hi hw calls
  refine ⟨fun c v => live_of_answer hi, fun name v hv => ?_,
    fun c => retains_of_not_tearsDown hi, fun v x hx calls => ?_,
    fun c r hc calls c' hc' => ?_, fun calls r rel hlt hrel => ?_,
    fun calls v w x y hx hy => hr.intermediate_eq (hedits calls) hx hy,
    fun calls w y u hn hy hk => hi.name_freed hw (hedits calls) hn hy (by simp [hk]),
    fun mid _ => ⟨?_, mid.variableAt_intermediate, fun later => Edits.nextName_ne⟩⟩
  · obtain ⟨x, hx, -, -⟩ := (hi.registered name v).mp hv
    simp [hx]
  · rcases (hedits calls).kept hw hx with hgone | ⟨y, hy, hd⟩
    · have hdead : (net.after calls).Dead v :=
        ⟨(index_lt_of_variableAt hx).trans_le (hedits calls).vars_next_le, hgone⟩
      have hlater := hr.after calls
      exact .inr fun more =>
        (hdead.edits hlater.wellHeld (edits_after hlater.integrity hlater.wellHeld more)).useless
    · exact .inl ⟨y, hy, hd.name, hd.kind⟩
  · -- the second id is an index that comes after the first one
    obtain ⟨hindex, hnext⟩ := index_of_answer hc
    obtain ⟨hindex', -⟩ := index_of_answer hc'
    have hnow := hr.perform c
    have hle := (edits_after hnow.integrity hnow.wellHeld calls).relationships_next_le
    omega
  · exact ((hedits calls).old_relationship hrel).resolve_right (Nat.not_le_of_lt hlt)
  · exact lookup_firstFree mid _

def summed : Network := (empty .standard).after [.declare "x", .evaluateText "x + y"]

theorem handles_never_recycled_summed :
    Reachable summed ∧
      (let gone := summed.after [.destroy "x"]
       let back := gone.after [.declare "x", .evaluateText "x + y"]
       (summed.variableAt ⟨0⟩).map Variable.name = some "x" ∧
         (summed.variableAt ⟨2⟩).map Variable.name = some "$0" ∧
         (∀ more, (gone.after more).Useless ⟨0⟩) ∧ (∀ more, (gone.after more).Useless ⟨2⟩) ∧
         (back.variableAt ⟨3⟩).map Variable.name = some "x" ∧
         (back.variableAt ⟨5⟩).map Variable.name = some "$1") := by
  have hr : Reachable summed := ⟨.standard, empty .standard, _, create_standard, rfl⟩
  have hx : (summed.variableAt ⟨0⟩).map Variable.name = some "x" := rfl
  have hresult : (summed.variableAt ⟨2⟩).map Variable.name = some "$0" := rfl
  obtain ⟨-, -, -, hids, -⟩ := handles_never_recycled hr
  have hgone {v : VariableId} {name : String}
      (hv : (summed.variableAt v).map Variable.name = some name)
      (hnone : (summed.after [.destroy "x"]).variableAt v = none) (more : List Call) :
      ((summed.after [.destroy "x"]).after more).Useless v := by
    obtain ⟨x, hx, -⟩ := Option.map_eq_some_iff.mp hv
    refine (hids v x hx [.destroy "x"]).resolve_left ?_ more
    rintro ⟨y, hy, -⟩
    rw [hnone] at hy
    cases hy
  exact ⟨hr, hx, hresult, hgone hx rfl, hgone hresult rfl, rfl, rfl⟩

end Network

end ConstraintNet

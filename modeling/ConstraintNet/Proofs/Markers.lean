import ConstraintNet.Proofs.Fixpoint
import ConstraintNet.Proofs.Knowledge

/-!
# What is marked is known

Before a cascade writes a value it marks the relationship that derived it, so a marker promises
more than is known until the write is done. Whichever way the write ends, the promise is kept
again. Calls that build or take away forget no value that a marker has promised, and so it
stays kept for as long as no other digest is solved and no variable is cleared.
-/

set_option autoImplicit false

namespace ConstraintNet

/-- Calls that solve and write in no other digest and clear no variable. -/
def Call.StaysIn (d : Digest) : Call → Prop
  | .solve e | .write _ _ e => e = d
  | .next | .set _ _ | .clear _ => False
  | _ => True

namespace Network

variable {d : Digest} {net mid net' : Network} {stale : RelationshipId → Prop}

/-- What is marked was marked before, with the same operands, and none of them is forgotten. -/
def Carries (d : Digest) (net net' : Network) : Prop :=
  ∀ r v, net'.IsMarked d r → net'.Touches r v → net.IsMarked d r ∧ net.Touches r v ∧
    ((net.valueAt d v).isSome → (net'.valueAt d v).isSome)

theorem Carries.refl (d : Digest) (net : Network) : Carries d net net :=
  fun _ _ hm ht => ⟨hm, ht, id⟩

theorem Carries.trans (h : Carries d net mid) (h' : Carries d mid net') : Carries d net net' := by
  intro r v hm ht
  obtain ⟨hm, ht, hk'⟩ := h' r v hm ht
  obtain ⟨hm, ht, hk⟩ := h r v hm ht
  exact ⟨hm, ht, hk' ∘ hk⟩

theorem Carries.of_chain (h : Relation.ReflTransGen (Carries d) net net') :
    Carries d net net' := by
  induction h with
  | refl => exact .refl d net
  | tail _ hlast ih => exact ih.trans hlast

theorem Grounded.carry (hg : net.Grounded d stale) (h : Carries d net net') :
    net'.Grounded d stale := by
  intro r hm hs v ht
  obtain ⟨hm, ht, hk⟩ := h r v hm ht
  exact hk (hg r hm hs v ht)

def Holds (net net' : Network) (v : VariableId) : Prop :=
  ∀ x, net.variableAt v = some x → ∃ y, net'.variableAt v = some y ∧ y.holding = x.holding

theorem Carries.of_old
    (hr : ∀ r rel, net'.relationshipAt r = some rel → rel.isMarked d →
      net.relationshipAt r = some rel)
    (hv : ∀ v, (∃ r, net'.Touches r v) → (net.valueAt d v).isSome → (net'.valueAt d v).isSome) :
    Carries d net net' := by
  intro r v hm ht
  obtain ⟨rel, hrel, hmem⟩ := id ht
  have hmarked : rel.isMarked d := isMarked_eq hrel ▸ hm
  have hold := hr r rel hrel hmarked
  exact ⟨(isMarked_eq hold).trans hmarked, ⟨rel, hold, hmem⟩, hv v ⟨r, ht⟩⟩

theorem Holds.isSome_valueAt {v : VariableId} (h : Holds net net' v)
    (hk : (net.valueAt d v).isSome) : (net'.valueAt d v).isSome := by
  cases hx : net.variableAt v with
  | none => simp [valueAt, hx] at hk
  | some x =>
    obtain ⟨y, hy, hsame⟩ := h x hx
    rwa [valueAt_eq hy, hsame, ← valueAt_eq hx]

theorem Construct.carries (h : Construct net net') : Carries d net net' := by
  have hadd (net : Network) (x : Variable) : Carries d net (net.addNamed x).2 :=
    .of_old (fun _ _ hr _ => hr) fun v _ => Holds.isSome_valueAt fun y hy =>
      ⟨y, net.variableAt_addVariable_of_some hy, rfl⟩
  cases h with
  | constant value hf => exact hadd net _
  | named name hfree => exact hadd net _
  | intermediate n hle hfree => exact hadd { net with nextIntermediate := n + 1 } _
  | relate relation hlive =>
    refine .of_old (fun r rel hr hm => ?_) fun v _ => Holds.isSome_valueAt fun x hx => ?_
    · rw [relationshipAt_relate_eq] at hr
      split at hr
      · -- a new relationship bears no mark
        cases hr
        cases hm
      · exact hr
    · rw [variableAt_relate, hx]
      split
      · exact ⟨_, rfl, x.holding_attach _⟩
      · exact ⟨x, rfl, rfl⟩

theorem Discard.carries (h : Discard net net') : Carries d net net' := by
  refine .of_old (fun r rel hr _ => h.relationship hr) fun v ht => Holds.isSome_valueAt ?_
  intro x hx
  cases h with
  | remove h =>
    rw [variableAt_removeRelationship h, hx]
    split <;> exact ⟨_, rfl, rfl⟩
  | drop w hfree =>
    obtain ⟨r, rel, hr, hmem⟩ := ht
    rw [relationshipAt_dropVariable] at hr
    have hne : w ≠ v := fun he => hfree r (he ▸ ⟨rel, hr, hmem⟩)
    exact ⟨x, by rw [variableAt_dropVariable, if_neg hne, hx], rfl⟩

theorem Grows.carries (h : Grows net net') : Carries d net net' :=
  .of_chain (Relation.ReflTransGen.mono (fun _ _ hc => Construct.carries hc) _ _ h)

theorem Shrinks.carries (h : Shrinks net net') : Carries d net net' :=
  .of_chain (Relation.ReflTransGen.mono (fun _ _ hd => Discard.carries hd) _ _ h)

theorem carries_updateVariable (net : Network) (v : VariableId) (f : Variable → Variable)
    (hf : ∀ x, (x.holding.valueAt d).isSome → ((f x).holding.valueAt d).isSome) :
    Carries d net (net.updateVariable v f) := by
  refine .of_old (fun _ _ hr _ => hr) fun w _ hk => ?_
  cases hx : net.variableAt w with
  | none => simp [valueAt, hx] at hk
  | some x =>
    rw [valueAt_eq hx] at hk
    by_cases hvw : v = w
    · have hy : (net.updateVariable v f).variableAt w = some (f x) := by
        rw [variableAt_updateVariable, if_pos hvw, hx]
        rfl
      rw [valueAt_eq hy]
      exact hf x hk
    · have hy : (net.updateVariable v f).variableAt w = some x := by
        rw [variableAt_updateVariable, if_neg hvw, hx]
      rwa [valueAt_eq hy]

theorem carries_watch (net : Network) (name : String) (w : WatchId) :
    Carries d net (net.watch name w) :=
  (Grows.carries (grows_declare name net)).trans (carries_updateVariable _ _ _ fun _ hk => hk)

theorem isSome_valueAt_hold {x : Variable} {h : Holding} (hp : h.isPinned)
    (hk : (x.holding.valueAt d).isSome) : ((x.hold h).holding.valueAt d).isSome := by
  unfold Variable.hold
  split
  · exact hk
  · cases h with
    | explicit | environment => rfl
    | unset | solved => cases hp

theorem makes_carries_assign (net : Network) (name : String) (value : Float) {source : State}
    (hs : (Holding.ofState value source).isPinned) :
    Makes (Carries d) (Build.assign name value source) net fun _ _ => True :=
  makes_assign_of (.single (Grows.carries (grows_declare name net)))
    fun _ mid v => carries_updateVariable mid v _ fun _ => isSome_valueAt_hold hs

theorem makes_carries_register (net : Network) (name : String) (function : HostFunction)
    (arity : Option Nat) :
    Makes (Carries d) (Build.register name function arity) net fun _ _ => True :=
  makes_register_of fun _ => Carries.refl d net

theorem carries_reset (net : Network) : Carries d net net.reset := by
  intro r v hm _
  obtain ⟨rel, hr, hmarker⟩ := isMarked_iff.mp hm
  rw [relationshipAt_reset] at hr
  obtain ⟨_, -, rfl⟩ := Option.map_eq_some_iff.mp hr
  cases hmarker

theorem Adds.carries {α : Type} {p : Build α} {good : α → Network → Prop} (h : Adds p net good)
    (answer : α → Answer) : Carries d net (Outcome.ofBuild answer p net).network :=
  Grows.carries (made_ofBuild h answer)

theorem Grounded.solve (hg : net.Grounded d stale) :
    (net.perform (.solve d)).network.Grounded d stale := by
  obtain ⟨mid, run', outcome, hpre, hlast, hnet, -⟩ := net.solve_passes d
  rw [hnet]
  exact hlast.grounded stale (hpre.grounded hg)

theorem Grounded.write (hg : net.Grounded d stale) (name : String) (value : Float) :
    (net.perform (.write name value d)).network.Grounded d stale := by
  by_cases hf : value.isFinite
  · obtain ⟨run', outcome, h, hnet, -⟩ := net.write_cascades name hf d
    have hdeclared := hg.carry (Grows.carries (grows_declare name net))
    rw [hnet]
    exact h.grounded stale hdeclared
  · rw [write_refuses net name hf]
    exact hg

theorem Grounded.perform (hg : net.Grounded d stale) (hi : net.Integrity) {c : Call}
    (hc : c.StaysIn d) : (net.perform c).network.Grounded d stale := by
  cases c with
  | solve e =>
    obtain rfl : e = d := hc
    exact hg.solve
  | write name value e =>
    obtain rfl : e = d := hc
    exact hg.write name value
  | next | set | clear => exact hc.elim
  | declare name => exact hg.carry ((adds_declare hi name).carries _)
  | equals result value => exact hg.carry ((adds_equals hi result value).carries _)
  | arithmetic op result left right =>
    exact hg.carry ((adds_arithmetic hi op result left right).carries _)
  | register name function arity =>
    exact hg.carry (.of_chain (made_ofBuild (makes_carries_register net name function arity) _))
  | call name output params => exact hg.carry ((adds_call hi name output params).carries _)
  | assign name value | assignEnvironment name value =>
    exact hg.carry (.of_chain (made_ofBuild (makes_carries_assign net name value rfl) _))
  | watch name w => exact hg.carry (carries_watch net name w)
  | evaluate e => exact hg.carry ((adds_evaluate hi e).carries _)
  | evaluateText text => exact hg.carry ((adds_evaluateText hi text).carries _)
  | destroy name => exact hg.carry (Shrinks.carries (shrinks_destroy hi name))
  | destroyVariable v => exact hg.carry (Shrinks.carries (shrinks_destroyVariable hi v))
  | reset => exact hg.carry (carries_reset net)

theorem Grounded.after (hg : net.Grounded d stale) (hr : Reachable net) {calls : List Call}
    (hc : ∀ c ∈ calls, c.StaysIn d) : (net.after calls).Grounded d stale := by
  induction calls generalizing net with
  | nil => exact hg
  | cons c calls ih =>
    obtain ⟨hfirst, hrest⟩ := List.forall_mem_cons.mp hc
    exact ih (hg.perform hr.integrity hfirst) (hr.perform c) hrest

theorem Fresh.grounded (h : net.Fresh d) : net.Grounded d fun _ => False :=
  fun r hm => absurd hm (h.not_isMarked r)

/-- From a network that knows nothing of a digest, after calls that stay in it, in any order and
however each of them ends, every relationship that is marked has a value for each operand. -/
theorem marked_operands_known (hr : Reachable net) (hf : net.Fresh d) {calls : List Call}
    (hc : ∀ c ∈ calls, c.StaysIn d) {r : RelationshipId} {rel : Relationship}
    (hrel : (net.after calls).relationshipAt r = some rel) (hm : rel.isMarked d) :
    ∀ v ∈ rel.relation.operands, ((net.after calls).valueAt d v).isSome := by
  intro v hv
  have hmarked : (net.after calls).IsMarked d r := (isMarked_eq hrel).trans hm
  exact (hf.grounded.after hr hc) r hmarked id v ⟨rel, hrel, hv⟩

theorem marked_operands_known_failedWrite :
    let calls : List Call := [.write "a" 2 1, .destroy "c", .evaluateText "a + b", .solve 1,
      .assign "a" 7]
    Reachable watchedChain ∧ watchedChain.Fresh 1 ∧ (∀ c ∈ calls, c.StaysIn 1) ∧
      (watchedChain.perform (.write "a" 2 1)).result = .error (.contradiction ⟨"c", 5, 2⟩) ∧
      ∃ rel, (watchedChain.after calls).relationshipAt ⟨2⟩ = some rel ∧ rel.isMarked 1 ∧
        ∀ v ∈ rel.relation.operands, ((watchedChain.after calls).valueAt 1 v).isSome := by
  intro calls
  have hr : Reachable watchedChain := ⟨.standard, empty .standard, _, create_standard, rfl⟩
  have hf : watchedChain.Fresh 1 := hr.wellHeld.fresh (by decide +kernel)
  have hc : ∀ c ∈ calls, c.StaysIn 1 := by simp [calls, Call.StaysIn]
  have hmarked : (watchedChain.after calls).IsMarked 1 ⟨2⟩ := by decide +kernel
  obtain ⟨rel, hrel, hmarker⟩ := isMarked_iff.mp hmarked
  have hm : rel.isMarked 1 := isMarked_iff_marker.mpr hmarker
  exact ⟨hr, hf, hc, rfl, rel, hrel, hm, marked_operands_known hr hf hc hrel hm⟩

end Network

end ConstraintNet

import ConstraintNet.Proofs.Fixpoint
import ConstraintNet.Proofs.Twin

/-!
# A fresh digest forgets the past

What solving a fresh digest comes to depends on the configuration, the variables, what is
pinned in them and the relations in their order, and on nothing else: values solved
before, markers, the digests seen and the handles of relationships leave no trace. Two
networks that agree on the former are twins, each in a digest that is fresh for it.
-/

set_option autoImplicit false

namespace ConstraintNet

open Network

namespace Propagation

variable {d d' : Digest} {pair : RelationshipId → RelationshipId → Prop} {run run' : Run}

theorem lockstep_passSettles (h : run.Twin d d' pair run') :
    Lockstep (passSettles d) run (passSettles d') run' Eq (Run.Twin d d' pair) := by
  apply lockstep_network
  refine (lockstep_pass h).bind fun _ _ s t _ hinv => ?_
  apply lockstep_network
  rw [h.1.solvedCount, hinv.1.solvedCount]
  exact ⟨rfl, hinv⟩

theorem lockstep_passes (spare : Nat) (h : run.Twin d d' pair run') :
    Lockstep (passes d spare) run (passes d' spare) run' Eq (Run.Twin d d' pair) := by
  induction spare generalizing run run' with
  | zero => exact (lockstep_pass h).bind fun _ _ _ _ _ hinv => ⟨rfl, hinv⟩
  | succ spare ih =>
    refine (lockstep_passSettles h).bind fun settles _ s t he hinv => ?_
    subst he
    cases settles with
    | true => exact ⟨rfl, hinv⟩
    | false => exact (ih hinv).bind fun made _ s t he hinv => ⟨congrArg (· + 1) he, hinv⟩

theorem twin_start (h : run.Twin d d' pair run') :
    (start d run).Twin d d' pair (start d' run') :=
  ⟨⟨h.1.tolerance, h.1.order, h.1.vars, h.1.rels, h.1.matched⟩, h.2⟩

theorem lockstep_solve (h : run.Twin d d' pair run')
    (hf : run'.network.config.fixpoint = run.network.config.fixpoint) :
    Lockstep (solve d) run (solve d') run'
      (fun report report' => report.digest = d ∧ report' = { report with digest := d' })
      (Run.Twin d d' pair) := by
  apply lockstep_update
  apply lockstep_network
  have hlength := h.1.order.length_eq
  simp only [hf, ← hlength]
  refine (lockstep_passes _ (twin_start h)).bind fun made _ s t he hinv => ?_
  subst he
  apply lockstep_network
  have hcount := hinv.1.solvedCount
  have hlength' := hinv.1.order.length_eq
  exact ⟨⟨rfl, by rw [hcount, hlength']⟩, hinv⟩

end Propagation

def Network.relationAt (net : Network) (r : RelationshipId) : Option Relation :=
  (net.relationshipAt r).map (·.relation)

/-- Two variables differ at most in what was solved for them and in the handles of their
relationships. -/
structure Variable.Alike (x x' : Variable) : Prop where
  name : x'.name = x.name
  kind : x'.kind = x.kind
  watches : x'.watches = x.watches
  pinned : x.holding.isPinned ∨ x'.holding.isPinned → x'.holding = x.holding

namespace Network

variable {net net' : Network} {d d' : Digest} {v : VariableId} {r r' : RelationshipId}

/-- Two networks have the same settings, the same variables, the same values pinned in
them, and the same relations in the same order. -/
structure Alike (net net' : Network) : Prop where
  config : net'.config = net.config
  vars : ∀ v, Option.Rel Variable.Alike (net.variableAt v) (net'.variableAt v)
  relations : net'.order.map net'.relationAt = net.order.map net.relationAt

def reaches (net : Network) (v : VariableId) (r : RelationshipId) : Bool :=
  (net.relationAt r).any fun relation => v ∈ relation.operands

theorem reaches_iff : net.reaches v r ↔ net.Touches r v := by
  unfold reaches relationAt
  cases hr : net.relationshipAt r <;> simp [Touches, hr]

theorem Integrity.relationships_eq (hi : net.Integrity) {x : Variable}
    (hx : net.variableAt v = some x) : x.relationships = net.order.filter (net.reaches v) := by
  apply sorted_ext (hi.attached_sorted v x hx) (hi.order_sorted.filter _)
  intro r
  rw [hi.attached v x hx, List.mem_filter, reaches_iff, hi.mem_order]
  constructor
  · intro ht
    obtain ⟨rel, hr, -⟩ := id ht
    exact ⟨by rw [hr]; rfl, ht⟩
  · exact And.right

theorem Integrity.order_nodup (hi : net.Integrity) : net.order.Nodup :=
  hi.order_sorted.imp fun hlt he => absurd (he ▸ hlt) (Nat.lt_irrefl _)

theorem Fresh.valueAt_holding (h : net.Fresh d) {x : Variable} (hx : net.variableAt v = some x) :
    x.holding.valueAt d = if x.holding.isPinned then x.holding.value? else none := by
  have hunsolved := h.unsolved v x hx
  cases hh : x.holding with
  | solved value at? =>
    rw [hh] at hunsolved
    simpa [Holding.valueAt, Holding.isPinned, Holding.digest?] using hunsolved
  | _ => rfl

theorem Fresh.valueAt_alike (hf : net.Fresh d) (hf' : net'.Fresh d') {x x' : Variable}
    (h : x.Alike x') (hx : net.variableAt v = some x) (hx' : net'.variableAt v = some x') :
    x'.holding.valueAt d' = x.holding.valueAt d := by
  rw [hf.valueAt_holding hx, hf'.valueAt_holding hx']
  by_cases hp : x.holding.isPinned ∨ x'.holding.isPinned
  · rw [h.pinned hp]
  · rw [not_or] at hp
    rw [if_neg hp.1, if_neg hp.2]

def Paired (net net' : Network) (r r' : RelationshipId) : Prop :=
  (r, r') ∈ net.order.zip net'.order

theorem zip_matched {α β : Type} {xs : List α} {ys : List β} (hx : xs.Nodup) (hy : ys.Nodup)
    {a a' : α} {b b' : β} (h : (a, b) ∈ xs.zip ys) (h' : (a', b') ∈ xs.zip ys) :
    a = a' ↔ b = b' := by
  obtain ⟨i, hi, he⟩ := List.getElem_of_mem h
  obtain ⟨j, hj, he'⟩ := List.getElem_of_mem h'
  rw [List.getElem_zip, Prod.mk.injEq] at he he'
  rw [← he.1, ← he.2, ← he'.1, ← he'.2, hx.getElem_inj_iff, hy.getElem_inj_iff]

theorem Alike.paired (h : net.Alike net') :
    List.Forall₂ (net.Paired net') net.order net'.order ∧
      ∀ r r', net.Paired net' r r' → net.relationAt r = net'.relationAt r' := by
  have hrelations := h.relations.symm
  rw [← List.forall₂_eq_eq_eq, List.forall₂_map_left_iff, List.forall₂_map_right_iff] at hrelations
  exact ⟨List.forall₂_iff_zip.mpr ⟨hrelations.length_eq, id⟩,
    fun r r' hr => List.forall₂_zip hrelations hr⟩

theorem Alike.twin (h : net.Alike net') (hi : net.Integrity) (hi' : net'.Integrity)
    (hf : net.Fresh d) (hf' : net'.Fresh d') : net.Twin d d' (net.Paired net') net' := by
  obtain ⟨horder, hrelation⟩ := h.paired
  constructor
  case tolerance => rw [h.config]
  case order => exact horder
  case vars =>
    intro v
    rcases rel_cases (h.vars v) with ⟨hx, hx'⟩ | ⟨x, x', hx, hx', ha⟩
    · rw [hx, hx']
      exact .none
    · have hattached : List.Forall₂ (net.Paired net') x.relationships x'.relationships := by
        rw [hi.relationships_eq hx, hi'.relationships_eq hx']
        apply List.rel_filter _ horder
        intro r r' hr
        simp only [reaches, hrelation r r' hr]
      rw [hx, hx']
      exact .some ⟨ha.name, ha.watches, hf.valueAt_alike hf' ha hx hx', hattached⟩
  case rels =>
    intro r r' hr
    obtain ⟨hmem, hmem'⟩ := List.of_mem_zip hr
    obtain ⟨rel, hrel⟩ := Option.isSome_iff_exists.mp ((hi.mem_order r).mp hmem)
    obtain ⟨rel', hrel'⟩ := Option.isSome_iff_exists.mp ((hi'.mem_order r').mp hmem')
    have hsame := hrelation r r' hr
    simp only [relationAt, hrel, hrel', Option.map_some, Option.some.injEq] at hsame
    have hunmarked := Bool.eq_false_iff.mpr (hf.unmarked r rel hrel)
    have hunmarked' := Bool.eq_false_iff.mpr (hf'.unmarked r' rel' hrel')
    exact ⟨rel, rel', hrel, hrel', hsame.symm, by rw [hunmarked, hunmarked']⟩
  case matched =>
    exact fun r r' s s' hr hs => zip_matched hi.order_nodup hi'.order_nodup hr hs

end Network

theorem Outcome.of_lockstep {α β : Type} {p : Propagation α} {q : Propagation β}
    {net net' : Network} {answers : α → β → Prop} {inv : Run → Run → Prop}
    (h : Lockstep p ⟨net, []⟩ q ⟨net', []⟩ answers inv) (answer : α → Answer)
    (answer' : β → Answer) :
    ∃ run run', inv run run' ∧
      ((∃ a b, answers a b ∧
        Outcome.ofPropagation answer p net = ⟨.ok (answer a), run.network, run.fired⟩ ∧
        Outcome.ofPropagation answer' q net' = ⟨.ok (answer' b), run'.network, run'.fired⟩) ∨
      ∃ fault, Outcome.ofPropagation answer p net = ⟨.error fault, run.network, run.fired⟩ ∧
        Outcome.ofPropagation answer' q net' = ⟨.error fault, run'.network, run'.fired⟩) := by
  unfold Outcome.ofPropagation
  rcases h.outcomes with
    ⟨a, b, run, run', hp, hq, hanswers, hinv⟩ | ⟨fault, run, run', hp, hq, hinv⟩
  · rw [hp, hq]
    exact ⟨run, run', hinv, .inl ⟨a, b, hanswers, rfl, rfl⟩⟩
  · rw [hp, hq]
    exact ⟨run, run', hinv, .inr ⟨fault, rfl, rfl⟩⟩

namespace Network

variable {net net' : Network} {d d' : Digest}

/-- Solving a fresh digest in two networks that are alike, each in a digest of its own,
fails with the same fault or reports the same but for the digest, tells the same watches
the same values in the same order, and makes the same known, also where it fails. -/
theorem history_never_leaks (hr : Reachable net) (hr' : Reachable net') (h : net.Alike net')
    (hf : net.Fresh d) (hf' : net'.Fresh d') :
    let one := net.perform (.solve d)
    let other := net'.perform (.solve d')
    ((∃ fault, one.result = .error fault ∧ other.result = .error fault) ∨
      ∃ report, report.digest = d ∧ one.result = .ok (.report report) ∧
        other.result = .ok (.report { report with digest := d' })) ∧
    other.fired = one.fired ∧
    ∀ v, other.network.valueAt d' v = one.network.valueAt d v := by
  have htwin := h.twin hr.integrity hr'.integrity hf hf'
  have hstart : (⟨net, []⟩ : Run).Twin d d' (net.Paired net') ⟨net', []⟩ := ⟨htwin, rfl⟩
  have hsolve := Propagation.lockstep_solve hstart (congrArg Config.fixpoint h.config)
  obtain ⟨run, run', ⟨htwin', hfired⟩, hends⟩ := Outcome.of_lockstep hsolve .report .report
  have hvalues (v : VariableId) : run'.network.valueAt d' v = run.network.valueAt d v := by
    rw [htwin'.valueAt]
  simp only [perform]
  rcases hends with ⟨report, _, ⟨hdigest, rfl⟩, hone, hother⟩ | ⟨fault, hone, hother⟩
  · rw [hone, hother]
    exact ⟨.inr ⟨report, hdigest, rfl, rfl⟩, hfired, hvalues⟩
  · rw [hone, hother]
    exact ⟨.inl ⟨fault, rfl, rfl⟩, hfired, hvalues⟩

def resolvedPair : Network :=
  (empty .standard).after [.declare "b", .declare "a", .assign "a" 1,
    .set "b" (.expression "a"), .clear "b", .equals (.name "b") (.name "a"), .solve 1]

theorem alike_resolvedPair : pinnedPair.Alike resolvedPair where
  config := rfl
  vars v := by
    obtain ⟨i⟩ := v
    match i with
    | 0 => exact .some ⟨rfl, rfl, rfl, by rintro (h | h) <;> cases h⟩
    | 1 => exact .some ⟨rfl, rfl, rfl, fun _ => rfl⟩
    | i + 2 =>
      have hsize : pinnedPair.vars.next = 2 ∧ resolvedPair.vars.next = 2 := ⟨rfl, rfl⟩
      have hnone : pinnedPair.variableAt ⟨i + 2⟩ = none :=
        Arena.get?_eq_none_of_next_le (by simp [hsize.1])
      have hnone' : resolvedPair.variableAt ⟨i + 2⟩ = none :=
        Arena.get?_eq_none_of_next_le (by simp [hsize.2])
      rw [hnone, hnone']
      exact .none
  relations := rfl

theorem history_never_leaks_resolvedPair :
    Reachable pinnedPair ∧ Reachable resolvedPair ∧ pinnedPair.Alike resolvedPair ∧
      pinnedPair.Fresh 1 ∧ resolvedPair.Fresh 2 ∧
      (pinnedPair.perform (.solve 1)).result = .ok (.report ⟨1, 2, 1, 0⟩) ∧
      (resolvedPair.perform (.solve 2)).result = .ok (.report ⟨2, 2, 1, 0⟩) ∧
      (resolvedPair.perform (.solve 2)).network.valueAt 2 ⟨0⟩ =
        (pinnedPair.perform (.solve 1)).network.valueAt 1 ⟨0⟩ := by
  have hr : Reachable resolvedPair := ⟨.standard, empty .standard, _, create_standard, rfl⟩
  have hf : pinnedPair.Fresh 1 := reachable_pinnedPair.wellHeld.fresh (by decide +kernel)
  have hf' : resolvedPair.Fresh 2 := hr.wellHeld.fresh (by decide +kernel)
  have hsame := history_never_leaks reachable_pinnedPair hr alike_resolvedPair hf hf'
  exact ⟨reachable_pinnedPair, hr, alike_resolvedPair, hf, hf', rfl, rfl, hsame.2.2 ⟨0⟩⟩

end Network

end ConstraintNet

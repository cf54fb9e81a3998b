import Mathlib.Data.List.Forall2
import ConstraintNet.Proofs.Cascade

/-!
# Two networks that propagate alike

Propagation reads of a network the order of its relationships, their relations, which of
them are marked for the digest, and of its variables the names, the watches, the
relationships and what is known in the digest. Two networks that agree on this, each in
a digest of its own, stay in agreement: whatever one program does to the first, the same
program does to the second.
-/

set_option autoImplicit false

namespace ConstraintNet

section Lockstep

variable {ε σ α β γ δ : Type} {p : EStateM ε σ α} {q : EStateM ε σ β} {s t : σ}
  {answers : α → β → Prop} {inv : σ → σ → Prop}

/-- Two programs both answer, as `answers` says, or both fail with the same fault. What
they leave is related. -/
def Lockstep (p : EStateM ε σ α) (s : σ) (q : EStateM ε σ β) (t : σ)
    (answers : α → β → Prop) (inv : σ → σ → Prop) : Prop :=
  match p.run s, q.run t with
  | .ok a s', .ok b t' => answers a b ∧ inv s' t'
  | .error e s', .error e' t' => e = e' ∧ inv s' t'
  | _, _ => False

theorem Lockstep.outcomes (h : Lockstep p s q t answers inv) :
    (∃ a b s' t', p.run s = .ok a s' ∧ q.run t = .ok b t' ∧ answers a b ∧ inv s' t') ∨
      ∃ e s' t', p.run s = .error e s' ∧ q.run t = .error e t' ∧ inv s' t' := by
  unfold Lockstep at h
  cases hp : p.run s with
  | ok a s' =>
    cases hq : q.run t with
    | ok b t' =>
      rw [hp, hq] at h
      exact .inl ⟨a, b, s', t', rfl, rfl, h⟩
    | error e t' =>
      rw [hp, hq] at h
      exact h.elim
  | error e s' =>
    cases hq : q.run t with
    | ok b t' =>
      rw [hp, hq] at h
      exact h.elim
    | error e' t' =>
      rw [hp, hq] at h
      obtain ⟨rfl, hinv⟩ := h
      exact .inr ⟨e, s', t', rfl, rfl, hinv⟩

theorem Lockstep.bind {f : α → EStateM ε σ γ} {g : β → EStateM ε σ δ}
    {answers' : γ → δ → Prop} (h : Lockstep p s q t answers inv)
    (hf : ∀ a b s' t', answers a b → inv s' t' → Lockstep (f a) s' (g b) t' answers' inv) :
    Lockstep (p >>= f) s (q >>= g) t answers' inv := by
  unfold Lockstep
  rw [EStateM.run_bind, EStateM.run_bind]
  rcases h.outcomes with ⟨a, b, s', t', hp, hq, hanswers, hinv⟩ | ⟨e, s', t', hp, hq, hinv⟩
  · rw [hp, hq]
    exact hf a b s' t' hanswers hinv
  · rw [hp, hq]
    exact ⟨rfl, hinv⟩

theorem Lockstep.discard (h : Lockstep p s q t answers inv) :
    Lockstep (discard p) s (discard q) t (fun _ _ => True) inv :=
  h.bind fun _ _ _ _ _ hinv => ⟨trivial, hinv⟩

theorem Lockstep.recover {handler : ε → EStateM ε σ α} {handler' : ε → EStateM ε σ β}
    (h : Lockstep p s q t answers inv)
    (hh : ∀ e s' t', inv s' t' → Lockstep (handler e) s' (handler' e) t' answers inv) :
    Lockstep (tryCatch p handler) s (tryCatch q handler') t answers inv := by
  have houtcomes := h.outcomes
  unfold Lockstep EStateM.run at *
  simp only [MonadExcept.tryCatch, tryCatchThe, MonadExceptOf.tryCatch, EStateM.tryCatch]
  rcases houtcomes with ⟨a, b, s', t', hp, hq, hends⟩ | ⟨e, s', t', hp, hq, hinv⟩
  · rw [hp, hq]
    exact hends
  · rw [hp, hq]
    exact hh e s' t' hinv

theorem Lockstep.both (h : Lockstep p s q t answers inv) {one other : σ → Prop}
    (hp : Ends p s (fun _ s' => one s') fun _ s' => one s')
    (hq : Ends q t (fun _ t' => other t') fun _ t' => other t') {inv' : σ → σ → Prop}
    (hi : ∀ s' t', inv s' t' → one s' → other t' → inv' s' t') :
    Lockstep p s q t answers inv' := by
  unfold Ends at hp hq
  unfold Lockstep
  rcases h.outcomes with ⟨a, b, s', t', hs, ht, hanswers, hinv⟩ | ⟨e, s', t', hs, ht, hinv⟩
  · rw [hs] at hp ⊢
    rw [ht] at hq ⊢
    exact ⟨hanswers, hi s' t' hinv hp hq⟩
  · rw [hs] at hp ⊢
    rw [ht] at hq ⊢
    exact ⟨rfl, hi s' t' hinv hp hq⟩

theorem Lockstep.forM {ι κ : Type} {pair : ι → κ → Prop} {xs : List ι} {ys : List κ}
    {f : ι → EStateM ε σ Unit} {g : κ → EStateM ε σ Unit} (hxy : List.Forall₂ pair xs ys)
    (hf : ∀ x y s t, pair x y → inv s t → Lockstep (f x) s (g y) t (fun _ _ => True) inv)
    (hinv : inv s t) : Lockstep (xs.forM f) s (ys.forM g) t (fun _ _ => True) inv := by
  induction hxy generalizing s t with
  | nil => exact ⟨trivial, hinv⟩
  | cons hx _ ih => exact (hf _ _ s t hx hinv).bind fun _ _ _ _ _ hinv => ih hinv

end Lockstep

/-- Two variables look the same, each in a digest of its own, where relationships
correspond by `pair`. -/
structure Variable.Twin (d d' : Digest) (pair : RelationshipId → RelationshipId → Prop)
    (x x' : Variable) : Prop where
  name : x'.name = x.name
  watches : x'.watches = x.watches
  value : x'.holding.valueAt d' = x.holding.valueAt d
  relationships : List.Forall₂ pair x.relationships x'.relationships

namespace Network

/-- Two networks look the same to propagation, each in a digest of its own, where
relationships correspond by `pair`. -/
structure Twin (d d' : Digest) (pair : RelationshipId → RelationshipId → Prop)
    (net net' : Network) : Prop where
  tolerance : net'.config.tolerance = net.config.tolerance
  order : List.Forall₂ pair net.order net'.order
  vars : ∀ v, Option.Rel (Variable.Twin d d' pair) (net.variableAt v) (net'.variableAt v)
  rels : ∀ r r', pair r r' → ∃ rel rel', net.relationshipAt r = some rel ∧
    net'.relationshipAt r' = some rel' ∧ rel'.relation = rel.relation ∧
    rel'.isMarked d' = rel.isMarked d
  matched : ∀ r r' s s', pair r r' → pair s s' → (r = s ↔ r' = s')

variable {d d' : Digest} {pair : RelationshipId → RelationshipId → Prop} {net net' : Network}

namespace Twin

theorem variable_cases (h : Twin d d' pair net net') (v : VariableId) :
    net.variableAt v = none ∧ net'.variableAt v = none ∨
      ∃ x x', net.variableAt v = some x ∧ net'.variableAt v = some x' ∧ x.Twin d d' pair x' :=
  rel_cases (h.vars v)

theorem valueAt (h : Twin d d' pair net net') : net'.valueAt d' = net.valueAt d := by
  funext v
  rcases h.variable_cases v with ⟨hx, hx'⟩ | ⟨x, x', hx, hx', hv⟩
  · simp [Network.valueAt, hx, hx']
  · rw [valueAt_eq hx, valueAt_eq hx', hv.value]

theorem isMarked (h : Twin d d' pair net net') {r r' : RelationshipId} (hr : pair r r') :
    net'.IsMarked d' r' = net.IsMarked d r := by
  obtain ⟨rel, rel', hrel, hrel', -, hm⟩ := h.rels r r' hr
  rw [isMarked_eq hrel, isMarked_eq hrel', hm]

theorem label (h : Twin d d' pair net net') : net'.label = net.label := by
  funext v
  rcases h.variable_cases v with ⟨hx, hx'⟩ | ⟨x, x', hx, hx', hv⟩
  · simp [Network.label, hx, hx']
  · simp [Network.label, hx, hx', hv.name]

theorem render (h : Twin d d' pair net net') {r r' : RelationshipId} (hr : pair r r') :
    net'.render r' = net.render r := by
  obtain ⟨rel, rel', hrel, hrel', hrelation, -⟩ := h.rels r r' hr
  simp only [Network.render, hrel, hrel', hrelation]
  unfold equation
  rw [h.label]

theorem unknownCount (h : Twin d d' pair net net') :
    net'.unknownCount d' = net.unknownCount d := by
  rw [unknownCount_eq, unknownCount_eq]
  congr 1
  ext i
  rw [mem_unknowns, mem_unknowns, h.valueAt]
  rcases h.variable_cases ⟨i⟩ with ⟨hx, hx'⟩ | ⟨x, x', hx, hx', -⟩
  · rw [hx, hx']
  · rw [hx, hx']
    rfl

theorem solvedCount (h : Twin d d' pair net net') :
    net'.solvedCount d' = net.solvedCount d := by
  have hcount {xs ys : List RelationshipId} (hxy : List.Forall₂ pair xs ys) :
      ys.countP (net'.IsMarked d') = xs.countP (net.IsMarked d) := by
    induction hxy with
    | nil => rfl
    | cons hr _ ih => rw [List.countP_cons, List.countP_cons, ih, h.isMarked hr]
  exact hcount h.order

theorem mark (h : Twin d d' pair net net') {r r' : RelationshipId} (hr : pair r r')
    {m m' : Option Digest} (hm : m' = some d' ↔ m = some d) :
    Twin d d' pair (net.updateRelationship r (·.mark m))
      (net'.updateRelationship r' (·.mark m')) where
  tolerance := h.tolerance
  order := h.order
  vars := h.vars
  rels s s' hs := by
    obtain ⟨rel, rel', hrel, hrel', hrelation, hmarked⟩ := h.rels s s' hs
    rw [relationshipAt_updateRelationship, relationshipAt_updateRelationship, hrel, hrel']
    by_cases hrs : r = s
    · rw [if_pos hrs, if_pos ((h.matched r r' s s' hr hs).mp hrs)]
      exact ⟨_, _, rfl, rfl, hrelation, decide_eq_decide.mpr hm⟩
    · rw [if_neg hrs, if_neg fun he => hrs ((h.matched r r' s s' hr hs).mpr he)]
      exact ⟨rel, rel', rfl, rfl, hrelation, hmarked⟩
  matched := h.matched

theorem store (h : Twin d d' pair net net') {v : VariableId} {x x' : Variable}
    (hx : net.variableAt v = some x) (hx' : net'.variableAt v = some x')
    (hv : x.Twin d d' pair x') (value : Float) :
    Twin d d' pair
      (net.updateVariable v fun _ => { x with holding := .solved value (some d) })
      (net'.updateVariable v fun _ => { x' with holding := .solved value (some d') }) where
  tolerance := h.tolerance
  order := h.order
  vars w := by
    rw [variableAt_updateVariable, variableAt_updateVariable]
    by_cases hvw : v = w
    · subst hvw
      rw [if_pos rfl, if_pos rfl, hx, hx']
      exact .some ⟨hv.name, hv.watches, by simp [Holding.valueAt], hv.relationships⟩
    · rw [if_neg hvw, if_neg hvw]
      exact h.vars w
  rels := h.rels
  matched := h.matched

end Twin

end Network

open Network

def Run.Twin (d d' : Digest) (pair : RelationshipId → RelationshipId → Prop) (run run' : Run) :
    Prop :=
  run.network.Twin d d' pair run'.network ∧ run'.fired = run.fired

namespace Propagation

variable {d d' : Digest} {pair : RelationshipId → RelationshipId → Prop} {run run' : Run}
  {write write' : VariableId → Float → Propagation Bool}

/-- Two ways of writing that do the same to twins. -/
def Mirrors (d d' : Digest) (pair : RelationshipId → RelationshipId → Prop)
    (write write' : VariableId → Float → Propagation Bool) : Prop :=
  ∀ v value run run', run.Twin d d' pair run' →
    Lockstep (write v value) run (write' v value) run' Eq (Run.Twin d d' pair)

theorem lockstep_network {β γ : Type} {f : Network → Propagation β} {g : Network → Propagation γ}
    {answers : β → γ → Prop} {inv : Run → Run → Prop}
    (h : Lockstep (f run.network) run (g run'.network) run' answers inv) :
    Lockstep (network >>= f) run (network >>= g) run' answers inv := h

theorem lockstep_update {β γ : Type} {f g : Network → Network} {p : Propagation β}
    {q : Propagation γ} {answers : β → γ → Prop} {inv : Run → Run → Prop}
    (h : Lockstep p { run with network := f run.network } q
      { run' with network := g run'.network } answers inv) :
    Lockstep (update f >>= fun _ => p) run (update g >>= fun _ => q) run' answers inv := h

theorem lockstep_fire {β γ : Type} {x x' : Variable} {value : Float} {p : Propagation β}
    {q : Propagation γ} {answers : β → γ → Prop} {inv : Run → Run → Prop}
    (h : Lockstep p { run with fired := run.fired ++ x.watches.map (⟨·, value⟩) } q
      { run' with fired := run'.fired ++ x'.watches.map (⟨·, value⟩) } answers inv) :
    Lockstep (fire x value >>= fun _ => p) run (fire x' value >>= fun _ => q) run' answers inv :=
  h

theorem lockstep_depth {β γ : Type} {f : Nat → Propagation β} {g : Nat → Propagation γ}
    {answers : β → γ → Prop} {inv : Run → Run → Prop}
    (h : Lockstep (f (run.network.unknownCount d + 1)) run
      (g (run'.network.unknownCount d' + 1)) run' answers inv) :
    Lockstep (depth d >>= f) run (depth d' >>= g) run' answers inv := h

theorem lockstep_solveWith (hw : Mirrors d d' pair write write') (h : run.Twin d d' pair run')
    {r r' : RelationshipId} (hr : pair r r') :
    Lockstep (solveWith write d r) run (solveWith write' d' r') run' Eq (Run.Twin d d' pair) := by
  obtain ⟨ht, hfired⟩ := id h
  obtain ⟨rel, rel', hrel, hrel', hrelation, hmarked⟩ := ht.rels r r' hr
  have hmarker : rel'.marker = some d' ↔ rel.marker = some d := by
    simpa [Relationship.isMarked] using hmarked
  apply lockstep_network
  simp only [hrel, hrel', hrelation, ht.valueAt]
  cases hd : rel.relation.derive (run.network.valueAt d) with
  | error fault =>
    have hrender := ht.render hr
    cases fault with
    | divisionByZero => exact ⟨by rw [hrender], h⟩
    | nonFinite => exact ⟨by rw [hrender], h⟩
  | ok derivation =>
    cases derivation with
    | pending => exact ⟨rfl, h⟩
    | derived t value =>
      apply lockstep_update
      have hmark : (run.mark r (some d)).Twin d d' pair (run'.mark r' (some d')) :=
        ⟨ht.mark hr (by simp), hfired⟩
      have hwrite := (hw t value _ _ hmark).discard
      refine Lockstep.bind (hwrite.recover ?_) fun _ _ _ _ _ hinv => ⟨rfl, hinv⟩
      intro fault s s' hinv
      exact ⟨rfl, hinv.1.mark hr hmarker, hinv.2⟩

theorem lockstep_notifyWith (hw : Mirrors d d' pair write write') (h : run.Twin d d' pair run')
    {r r' : RelationshipId} (hr : pair r r') :
    Lockstep (notifyWith write d r) run (notifyWith write' d' r') run' Eq
      (Run.Twin d d' pair) := by
  obtain ⟨rel, rel', hrel, hrel', -, hmarked⟩ := h.1.rels r r' hr
  apply lockstep_network
  simp only [hrel, hrel', hmarked]
  by_cases hm : rel.isMarked d
  · rw [if_pos hm, if_pos hm]
    exact ⟨rfl, h⟩
  · rw [if_neg hm, if_neg hm]
    exact lockstep_solveWith hw h hr

theorem mirrors_writeWithin (d d' : Digest) (pair : RelationshipId → RelationshipId → Prop)
    (depth : Nat) : Mirrors d d' pair (writeWithin d depth) (writeWithin d' depth) := by
  induction depth with
  | zero => exact fun v value run run' h => ⟨rfl, h⟩
  | succ depth ih =>
    intro v value run run' h
    obtain ⟨ht, hfired⟩ := id h
    apply lockstep_network
    rcases ht.variable_cases v with ⟨hx, hx'⟩ | ⟨x, x', hx, hx', hv⟩
    · simp only [hx, hx']
      exact ⟨rfl, h⟩
    · simp only [hx, hx', Variable.settle, hv.value, ht.tolerance]
      cases hh : x.holding.valueAt d with
      | some held =>
        by_cases hc : (held - value).abs ≤ run.network.config.tolerance
        · simp only [if_pos hc]
          exact ⟨rfl, h⟩
        · simp only [if_neg hc]
          exact ⟨by rw [hv.name], h⟩
      | none =>
        apply lockstep_update
        have hstore : (run.store d v x value).Twin d d' pair (run'.store d' v x' value) := by
          refine ⟨ht.store hx hx' hv value, ?_⟩
          simp only [Run.store, hfired, hv.watches]
        have hall := Lockstep.forM hv.relationships (fun r r' s t hr hinv =>
          (lockstep_notifyWith ih hinv hr).discard) hstore
        apply lockstep_fire
        exact Lockstep.bind hall fun _ _ _ _ _ hinv => ⟨rfl, hinv⟩

theorem lockstep_solveRelationship (h : run.Twin d d' pair run') {r r' : RelationshipId}
    (hr : pair r r') : Lockstep (solveRelationship d r) run (solveRelationship d' r') run' Eq
      (Run.Twin d d' pair) := by
  apply lockstep_depth
  rw [h.1.unknownCount]
  exact lockstep_solveWith (mirrors_writeWithin d d' pair _) h hr

theorem lockstep_pass (h : run.Twin d d' pair run') :
    Lockstep (pass d) run (pass d') run' (fun _ _ => True) (Run.Twin d d' pair) :=
  lockstep_network (Lockstep.forM h.1.order
    (fun _ _ _ _ hr hinv => (lockstep_solveRelationship hinv hr).discard) h)

end Propagation

end ConstraintNet

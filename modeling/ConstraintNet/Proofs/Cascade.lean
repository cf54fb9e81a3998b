import ConstraintNet.Network.Call
import ConstraintNet.Proofs.Advance
import ConstraintNet.Proofs.Construction

/-!
# The cascade without its bound

Propagation as a relation between the run before and the run after, with no count
of writes in it. The program that stops at a depth follows it, since every write
that cascades makes one more variable known.
-/

set_option autoImplicit false

namespace ConstraintNet

def DeriveFault.fault (text : String) : DeriveFault → Fault
  | .divisionByZero => .divisionByZero text
  | .nonFinite => .invalidValue (.nonFiniteResult text)

namespace Run

def mark (run : Run) (r : RelationshipId) (m : Option Digest) : Run :=
  { run with network := run.network.updateRelationship r (·.mark m) }

def store (run : Run) (d : Digest) (v : VariableId) (x : Variable) (value : Float) : Run where
  network := run.network.updateVariable v fun _ => { x with holding := .solved value (some d) }
  fired := run.fired ++ x.watches.map (⟨·, value⟩)

end Run

/-- What a cascade has in hand. -/
inductive Task where
  | write (v : VariableId) (value : Float)
  | solve (r : RelationshipId)
  /-- Every relationship in turn; a guarded turn passes over those that are marked. -/
  | each (guarded : Bool) (rs : List RelationshipId)

/-- A task carried out in a digest, and the fault that stopped it if one did. -/
inductive Cascade (d : Digest) : Task → Run → Option Fault → Run → Prop
  | unknown {run : Run} {v : VariableId} {value : Float}
      (hx : run.network.variableAt v = none) :
    Cascade d (.write v value) run (some (.unknownVariable v)) run
  | contradicts {run : Run} {v : VariableId} {value held : Float} {x : Variable}
      (hx : run.network.variableAt v = some x) (hh : x.holding.valueAt d = some held)
      (hc : ¬ (held - value).abs ≤ run.network.config.tolerance) :
    Cascade d (.write v value) run (some (.contradiction ⟨x.name, held, value⟩)) run
  | agrees {run : Run} {v : VariableId} {value held : Float} {x : Variable}
      (hx : run.network.variableAt v = some x) (hh : x.holding.valueAt d = some held)
      (hc : (held - value).abs ≤ run.network.config.tolerance) :
    Cascade d (.write v value) run none run
  | stores {run run' : Run} {v : VariableId} {value : Float} {x : Variable}
      {outcome : Option Fault}
      (hx : run.network.variableAt v = some x) (hu : x.holding.valueAt d = none)
      (h : Cascade d (.each true x.relationships) (run.store d v x value) outcome run') :
    Cascade d (.write v value) run outcome run'
  | absent {run : Run} {r : RelationshipId} (hr : run.network.relationshipAt r = none) :
    Cascade d (.solve r) run none run
  | waits {run : Run} {r : RelationshipId} {rel : Relationship}
      (hr : run.network.relationshipAt r = some rel)
      (hd : rel.relation.derive (run.network.valueAt d) = .ok .pending) :
    Cascade d (.solve r) run none run
  | refuses {run : Run} {r : RelationshipId} {rel : Relationship} {fault : DeriveFault}
      (hr : run.network.relationshipAt r = some rel)
      (hd : rel.relation.derive (run.network.valueAt d) = .error fault) :
    Cascade d (.solve r) run (some (fault.fault (run.network.render r))) run
  | derives {run run' : Run} {r : RelationshipId} {rel : Relationship} {t : VariableId}
      {value : Float} (hr : run.network.relationshipAt r = some rel)
      (hd : rel.relation.derive (run.network.valueAt d) = .ok (.derived t value))
      (h : Cascade d (.write t value) (run.mark r (some d)) none run') :
    Cascade d (.solve r) run none run'
  | restores {run run' : Run} {r : RelationshipId} {rel : Relationship} {t : VariableId}
      {value : Float} {fault : Fault} (hr : run.network.relationshipAt r = some rel)
      (hd : rel.relation.derive (run.network.valueAt d) = .ok (.derived t value))
      (h : Cascade d (.write t value) (run.mark r (some d)) (some fault) run') :
    Cascade d (.solve r) run (some fault) (run'.mark r rel.marker)
  | done {run : Run} {guarded : Bool} : Cascade d (.each guarded []) run none run
  | skips {run run' : Run} {r : RelationshipId} {rs : List RelationshipId}
      {outcome : Option Fault} (hm : run.network.IsMarked d r)
      (h : Cascade d (.each true rs) run outcome run') :
    Cascade d (.each true (r :: rs)) run outcome run'
  | turns {run mid run' : Run} {guarded : Bool} {r : RelationshipId}
      {rs : List RelationshipId} {outcome : Option Fault}
      (hg : guarded → ¬ run.network.IsMarked d r)
      (h : Cascade d (.solve r) run none mid)
      (h' : Cascade d (.each guarded rs) mid outcome run') :
    Cascade d (.each guarded (r :: rs)) run outcome run'
  | stops {run run' : Run} {guarded : Bool} {r : RelationshipId}
      {rs : List RelationshipId} {fault : Fault}
      (hg : guarded → ¬ run.network.IsMarked d r)
      (h : Cascade d (.solve r) run (some fault) run') :
    Cascade d (.each guarded (r :: rs)) run (some fault) run'

variable {d : Digest}

namespace Network

theorem rel_updateRelationship {net : Network} {r : RelationshipId} {rel : Relationship}
    {R : Relationship → Relationship → Prop} (hR : ∀ x, R x x)
    (hr : net.relationshipAt r = some rel) {m : Option Digest} (h : R rel (rel.mark m))
    (s : RelationshipId) :
    Option.Rel R (net.relationshipAt s) ((net.updateRelationship r (·.mark m)).relationshipAt s) := by
  rw [relationshipAt_updateRelationship]
  split
  · rename_i hrs
    subst hrs
    rw [hr]
    exact .some h
  · exact rel_refl hR _

theorem advance_mark {net : Network} {r : RelationshipId} {rel : Relationship}
    (hr : net.relationshipAt r = some rel) :
    Advance d net (net.updateRelationship r (·.mark (some d))) where
  rest := rfl
  vars_next := rfl
  vars _ := rel_refl (fun _ => .inl rfl) _
  relationships_next := Arena.next_modify _ _ _
  relationships := rel_updateRelationship (fun _ => .inl rfl) hr (.inr rfl)

theorem advance_store {net : Network} {v : VariableId} {x : Variable}
    (hx : net.variableAt v = some x) (hu : x.holding.valueAt d = none) (value : Float) :
    Advance d net (net.updateVariable v fun _ => { x with holding := .solved value (some d) }) where
  rest := rfl
  vars_next := Arena.next_modify _ _ _
  vars w := by
    rw [variableAt_updateVariable]
    split
    · rename_i hvw
      subst hvw
      rw [hx]
      exact .some (.inr ⟨hu, value, rfl⟩)
    · exact rel_refl (fun _ => .inl rfl) _
  relationships_next := rfl
  relationships _ := rel_refl (fun _ => .inl rfl) _

theorem valueAt_store {net : Network} {v : VariableId} {x : Variable}
    (hx : net.variableAt v = some x) (value : Float) (w : VariableId) :
    (net.updateVariable v fun _ => { x with holding := .solved value (some d) }).valueAt d w =
      if v = w then some value else net.valueAt d w := by
  simp only [valueAt, variableAt_updateVariable]
  split
  · rename_i hvw
    subst hvw
    simp [hx, Holding.valueAt]
  · rfl

/-- Once the marker is put back nothing is left of the turn but what it wrote. -/
theorem Advance.restore {net mid : Network} {r : RelationshipId} {rel : Relationship}
    (hr : net.relationshipAt r = some rel)
    (h : Advance d (net.updateRelationship r (·.mark (some d))) mid) :
    Advance d net (mid.updateRelationship r (·.mark rel.marker)) where
  rest := by
    rw [h.rest]
    rfl
  vars_next := h.vars_next
  vars := h.vars
  relationships_next := by
    rw [← Arena.next_modify net.relationships r.index (·.mark (some d))]
    exact (Arena.next_modify _ _ _).trans h.relationships_next
  relationships s := by
    by_cases hrs : r = s
    · subst hrs
      have hm := h.relationships r
      rw [relationshipAt_updateRelationship, if_pos rfl, hr] at hm
      rw [relationshipAt_updateRelationship, if_pos rfl, hr]
      cases hmid : mid.relationshipAt r with
      | none =>
        rw [hmid] at hm
        cases hm
      | some rel' =>
        rw [hmid] at hm
        cases hm with
        | some hm => rcases hm with rfl | rfl <;> exact .some (.inl rfl)
    · have hm := h.relationships s
      rw [relationshipAt_updateRelationship, if_neg hrs] at hm
      rwa [relationshipAt_updateRelationship, if_neg hrs]

end Network

open Network

theorem Cascade.advance {task : Task} {run run' : Run} {outcome : Option Fault}
    (h : Cascade d task run outcome run') : Advance d run.network run'.network := by
  induction h with
  | unknown => exact .refl _ _
  | contradicts => exact .refl _ _
  | agrees => exact .refl _ _
  | stores hx hu _ ih => exact (advance_store hx hu _).trans ih
  | absent => exact .refl _ _
  | waits => exact .refl _ _
  | refuses => exact .refl _ _
  | derives hr _ _ ih => exact (advance_mark hr).trans ih
  | restores hr _ _ ih => exact Advance.restore hr ih
  | done => exact .refl _ _
  | skips _ _ ih => exact ih
  | turns _ _ _ ih ih' => exact ih.trans ih'
  | stops _ _ ih => exact ih

def Follows (d : Digest) {α : Type} (p : Propagation α) (task : Task) (run : Run) : Prop :=
  Ends p run (fun _ run' => Cascade d task run none run')
    fun fault run' => Cascade d task run (some fault) run'

namespace Propagation

variable {run : Run}

theorem ends_network {β : Type} {f : Network → Propagation β} {good : β → Run → Prop}
    {bad : Fault → Run → Prop} (h : Ends (f run.network) run good bad) :
    Ends (network >>= f) run good bad := h

theorem ends_update {β : Type} {f : Network → Network} {p : Propagation β}
    {good : β → Run → Prop} {bad : Fault → Run → Prop}
    (h : Ends p { run with network := f run.network } good bad) :
    Ends (update f >>= fun _ => p) run good bad := h

theorem ends_depth {β : Type} {f : Nat → Propagation β} {good : β → Run → Prop}
    {bad : Fault → Run → Prop} (h : Ends (f (run.network.unknownCount d + 1)) run good bad) :
    Ends (depth d >>= f) run good bad := h

section Nested

variable {write : VariableId → Float → Propagation Bool} {bound : Nat}

def Writes (d : Digest) (bound : Nat) (write : VariableId → Float → Propagation Bool) : Prop :=
  ∀ v value run, run.network.unknownCount d < bound → Follows d (write v value) (.write v value) run

theorem follows_solveWith (hw : Writes d bound write) (r : RelationshipId)
    (hb : run.network.unknownCount d < bound) : Follows d (solveWith write d r) (.solve r) run := by
  apply ends_network
  cases hr : run.network.relationshipAt r with
  | none => exact .absent hr
  | some rel =>
    simp only
    cases hd : rel.relation.derive (run.network.valueAt d) with
    | error fault =>
      have h := Cascade.refuses hr hd
      cases fault <;> exact h
    | ok derivation =>
      cases derivation with
      | pending => exact .waits hr hd
      | derived t value =>
        refine ends_update (Ends.bind (Ends.recover (Ends.discard ?_)))
        have hu := (advance_mark (d := d) hr).unknownCount_le
        refine Ends.mono (hw t value (run.mark r (some d)) (hu.trans_lt hb)) ?_ ?_
        · exact fun _ run' h => .derives hr hd h
        · exact fun fault run' h => .restores hr hd h

theorem follows_notifyAll (hw : Writes d bound write) (rs : List RelationshipId)
    (hb : run.network.unknownCount d < bound) :
    Follows d (rs.forM fun r => discard (notifyWith write d r)) (.each true rs) run := by
  induction rs generalizing run with
  | nil => exact .done
  | cons r rs ih =>
    refine Ends.bind (Ends.discard (ends_network ?_))
    cases hr : run.network.relationshipAt r with
    | none =>
      have hn : true → ¬ run.network.IsMarked d r := by simp [IsMarked, hr]
      exact Ends.mono (ih hb) (fun _ _ h => .turns hn (.absent hr) h)
        fun _ _ h => .turns hn (.absent hr) h
    | some rel =>
      simp only
      by_cases hm : run.network.IsMarked d r
      · rw [if_pos (isMarked_eq hr ▸ hm)]
        exact Ends.mono (ih hb) (fun _ _ h => .skips hm h) fun _ _ h => .skips hm h
      · rw [if_neg (isMarked_eq hr ▸ hm)]
        refine Ends.mono (follows_solveWith hw r hb) (fun _ mid h => ?_) ?_
        · exact Ends.mono (ih (h.advance.unknownCount_le.trans_lt hb))
            (fun _ _ h' => .turns (fun _ => hm) h h') fun _ _ h' => .turns (fun _ => hm) h h'
        · exact fun fault run' h => .stops (fun _ => hm) h

end Nested

/-- A bound above the count of unknown variables is no bound. -/
theorem writes_writeWithin (d : Digest) (depth : Nat) : Writes d depth (writeWithin d depth) := by
  induction depth with
  | zero => exact fun v value run hb => absurd hb (Nat.not_lt_zero _)
  | succ depth ih =>
    intro v value run hb
    apply ends_network
    cases hx : run.network.variableAt v with
    | none => exact .unknown hx
    | some x =>
      simp only [Variable.settle]
      cases hh : x.holding.valueAt d with
      | some held =>
        by_cases hc : (held - value).abs ≤ run.network.config.tolerance
        · simp only [if_pos hc]
          exact .agrees hx hh hc
        · simp only [if_neg hc]
          exact .contradicts hx hh hc
      | none =>
        refine ends_update (Ends.bind ?_)
        have hlt := (advance_store hx hh value).unknownCount_lt (v := v) (by simp [hx])
          (by rw [valueAt_eq hx, hh]) (by simp [valueAt_store hx])
        have hb' : (run.store d v x value).network.unknownCount d < depth :=
          Nat.lt_of_lt_of_le hlt (Nat.le_of_lt_succ hb)
        have h := follows_notifyAll ih x.relationships hb'
        exact Ends.bind (Ends.mono h (fun _ _ h => .stores hx hh h) fun _ _ h => .stores hx hh h)

theorem follows_write (d : Digest) (v : VariableId) (value : Float) (run : Run) :
    Follows d (write d v value) (.write v value) run :=
  ends_depth (writes_writeWithin d _ v value run (Nat.lt_succ_self _))

theorem follows_solveRelationship (d : Digest) (r : RelationshipId) (run : Run) :
    Follows d (solveRelationship d r) (.solve r) run :=
  ends_depth (follows_solveWith (writes_writeWithin d _) r (Nat.lt_succ_self _))

theorem follows_turns (d : Digest) (rs : List RelationshipId) (run : Run) :
    Follows d (rs.forM fun r => discard (solveRelationship d r)) (.each false rs) run := by
  induction rs generalizing run with
  | nil => exact .done
  | cons r rs ih =>
    have hg : false → ¬ run.network.IsMarked d r := by simp
    refine Ends.bind (Ends.discard ?_)
    refine Ends.mono (follows_solveRelationship d r run) (fun _ mid h => ?_) ?_
    · exact Ends.mono (ih mid) (fun _ _ h' => .turns hg h h') fun _ _ h' => .turns hg h h'
    · exact fun fault run' h => .stops hg h

theorem follows_pass (d : Digest) (run : Run) :
    Follows d (pass d) (.each false run.network.order) run :=
  ends_network (follows_turns d _ run)

end Propagation

end ConstraintNet

import Mathlib.Data.List.Basic
import ConstraintNet.Proofs.Edit

/-!
# What variables hold

Every value is finite, constants keep a value of their own, and no derived value
and no marker is of a digest that has not been seen. Each edit keeps this.
-/

set_option autoImplicit false

namespace ConstraintNet

/-- `last` is the highest digest seen. -/
def Variable.WellHeld (last : Digest) (x : Variable) : Prop :=
  match x.holding with
  | .unset => x.kind ≠ .constant
  | .explicit value => value.isFinite
  | .environment value => value.isFinite ∧ x.kind ≠ .constant
  | .solved value d => value.isFinite ∧ x.kind ≠ .constant ∧ ∃ e ≤ last, d = some e

def Relationship.WellMarked (last : Digest) (rel : Relationship) : Prop :=
  ∀ d, rel.marker = some d → d ≤ last

structure Network.WellHeld (net : Network) : Prop where
  held : ∀ v x, net.variableAt v = some x → x.WellHeld net.lastDigest
  marked : ∀ r rel, net.relationshipAt r = some rel → rel.WellMarked net.lastDigest

namespace Variable

variable {last : Digest} {x : Variable}

theorem WellHeld.mono (h : x.WellHeld last) {last' : Digest} (hl : last ≤ last') :
    x.WellHeld last' := by
  unfold WellHeld at *
  split <;> simp_all
  exact h.2.2.imp fun _ he => ⟨he.1.trans hl, he.2⟩

theorem WellHeld.congr (h : x.WellHeld last) {y : Variable} (hk : y.kind = x.kind)
    (hh : y.holding = x.holding) : y.WellHeld last := by
  simpa only [WellHeld, hk, hh] using h

theorem WellHeld.finite (h : x.WellHeld last) {value : Float}
    (hv : x.holding.value? = some value) : value.isFinite := by
  unfold WellHeld at h
  cases hx : x.holding <;> simp_all [Holding.value?]

theorem WellHeld.digest_le (h : x.WellHeld last) {value : Float} {d : Digest}
    (hv : x.holding = .solved value (some d)) : d ≤ last := by
  simp only [WellHeld, hv] at h
  obtain ⟨-, -, e, he, hd⟩ := h
  exact Option.some.inj hd ▸ he

theorem WellHeld.explicit_of_constant (h : x.WellHeld last) (hk : x.kind = .constant) :
    ∃ value, x.holding = .explicit value := by
  cases hx : x.holding <;> simp_all [WellHeld]

theorem WellHeld.hold (h : x.WellHeld last) {held : Holding} (hs : held.state ≠ .solved)
    (hf : ∀ value, held.value? = some value → value.isFinite) : (x.hold held).WellHeld last := by
  unfold Variable.hold
  split
  · exact h
  · rename_i hc
    have hk : x.kind ≠ .constant := by simpa [isConstant] using hc
    cases held <;> simp_all [WellHeld, Holding.state, Holding.value?]

end Variable

namespace Network

variable {net net' : Network}

theorem wellHeld_empty (config : Config) : (empty config).WellHeld where
  held v x h := by simp [empty, variableAt] at h
  marked r rel h := by simp [empty, relationshipAt] at h

theorem Construct.wellHeld (h : Construct net net') (hw : net.WellHeld) : net'.WellHeld := by
  have hnew (x : Variable) (hx : x.WellHeld net.lastDigest) : (net.addVariable x).2.WellHeld := by
    refine ⟨fun v y hy => ?_, hw.marked⟩
    rw [variableAt_addVariable] at hy
    split at hy
    · cases hy
      exact hx
    · exact hw.held v y hy
  cases h with
  | constant value hf =>
    exact hnew _ (by simpa [Variable.WellHeld, Variable.literal] using hf)
  | named name hfree =>
    have h := hnew (.blank name .named) (by simp [Variable.WellHeld, Variable.blank])
    exact ⟨h.held, h.marked⟩
  | intermediate n hle hfree =>
    have h := hnew (.blank (net.intermediateName n) .intermediate)
      (by simp [Variable.WellHeld, Variable.blank])
    exact ⟨h.held, h.marked⟩
  | relate relation hlive =>
    refine ⟨fun v y hy => ?_, fun r rel hr => ?_⟩
    · rw [variableAt_relate] at hy
      split at hy
      · obtain ⟨x, hx, rfl⟩ := Option.map_eq_some_iff.mp hy
        exact (hw.held v x hx).congr (by simp) (by simp)
      · exact hw.held v y hy
    · rw [relationshipAt_relate_eq] at hr
      split at hr
      · cases hr
        intro d hd
        cases hd
      · exact hw.marked r rel hr

theorem Discard.wellHeld (h : Discard net net') (hw : net.WellHeld) : net'.WellHeld := by
  cases h with
  | remove h =>
    have hl : net'.lastDigest = net.lastDigest := by rw [removeRelationship_eq h]
    refine ⟨fun v y hy => ?_, fun s rel hs => ?_⟩
    · rw [hl]
      rw [variableAt_removeRelationship h] at hy
      split at hy
      · obtain ⟨x, hx, rfl⟩ := Option.map_eq_some_iff.mp hy
        exact (hw.held v x hx).congr rfl rfl
      · exact hw.held v y hy
    · rw [hl]
      rw [relationshipAt_removeRelationship h] at hs
      split at hs
      · cases hs
      · exact hw.marked s rel hs
  | drop v hfree =>
    have hl : (net.dropVariable v).lastDigest = net.lastDigest := by
      unfold dropVariable
      split <;> rfl
    refine ⟨fun w y hy => ?_, fun s rel hs => ?_⟩
    · rw [hl]
      rw [variableAt_dropVariable] at hy
      split at hy
      · cases hy
      · exact hw.held w y hy
    · rw [hl]
      rw [relationshipAt_dropVariable] at hs
      exact hw.marked s rel hs

theorem WellHeld.updateVariable (hw : net.WellHeld) {v : VariableId} {f : Variable → Variable}
    (hf : ∀ x, net.variableAt v = some x → x.WellHeld net.lastDigest →
      (f x).WellHeld net.lastDigest) : (net.updateVariable v f).WellHeld := by
  refine ⟨fun w y hy => ?_, hw.marked⟩
  rw [variableAt_updateVariable] at hy
  split at hy
  · rename_i hvw
    obtain ⟨x, hx, rfl⟩ := Option.map_eq_some_iff.mp hy
    exact hf x (hvw ▸ hx) (hw.held w x hx)
  · exact hw.held w y hy

theorem Edit.wellHeld (h : Edit net net') (hw : net.WellHeld) : net'.WellHeld := by
  cases h with
  | construct h => exact h.wellHeld hw
  | discard h => exact h.wellHeld hw
  | define v r hv hr => exact ⟨hw.held, hw.marked⟩
  | undefine v => exact ⟨hw.held, hw.marked⟩
  | register name entry hfree => exact ⟨hw.held, hw.marked⟩
  | hold v h hs hf => exact hw.updateVariable fun x _ hx => hx.hold hs hf
  | watch v w => exact hw.updateVariable fun x _ hx => hx.congr rfl rfl
  | @settle v x value d hx hu hf hd =>
    apply hw.updateVariable
    intro y hy hwy
    rw [hx] at hy
    cases hy
    refine ⟨hf, fun hk => ?_, d, hd, rfl⟩
    -- A constant is known in every digest, so it never is written.
    obtain ⟨c, hc⟩ := hwy.explicit_of_constant hk
    simp [hc, Holding.valueAt] at hu
  | mark r m hm =>
    refine ⟨hw.held, fun s rel hs => ?_⟩
    rw [relationshipAt_updateRelationship] at hs
    split at hs
    · obtain ⟨rel', -, rfl⟩ := Option.map_eq_some_iff.mp hs
      exact hm
    · exact hw.marked s rel hs
  | see d =>
    exact ⟨fun v x hx => (hw.held v x hx).mono (le_max_left _ _),
      fun r rel hr e he => (hw.marked r rel hr e he).trans (le_max_left _ _)⟩
  | reset =>
    refine ⟨fun v y hy => ?_, fun r rel hr => ?_⟩
    · rw [variableAt_reset] at hy
      obtain ⟨x, hx, rfl⟩ := Option.map_eq_some_iff.mp hy
      exact (hw.held v x hx).hold (by simp [Holding.state]) (by simp [Holding.value?])
    · rw [relationshipAt_reset] at hr
      obtain ⟨rel', -, rfl⟩ := Option.map_eq_some_iff.mp hr
      intro d hd
      cases hd

theorem Edits.wellHeld (h : Edits net net') (hw : net.WellHeld) : net'.WellHeld := by
  induction h with
  | refl => exact hw
  | tail _ he ih => exact he.wellHeld ih

end Network

end ConstraintNet

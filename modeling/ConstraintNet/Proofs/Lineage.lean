import ConstraintNet.Proofs.Fixpoint

/-!
# Where a variable comes from

A handle is given out once. What stands behind it later was made behind it, keeps its
name and its kind, and, if it is a literal, the value that its name spells.
-/

set_option autoImplicit false

namespace ConstraintNet

namespace Variable

def Literal (x : Variable) : Prop :=
  x.kind = .constant → ∃ value, x.holding = .explicit value ∧ x.name = Decimal.text value

/-- What a variable starts from, its relationships apart. -/
structure Newborn (x : Variable) : Prop where
  unset : x.kind ≠ .constant → x.holding = .unset
  literal : x.Literal
  unwatched : x.watches = []

/-- `y` is what became of `x`. -/
structure Descends (x y : Variable) : Prop where
  name : y.name = x.name
  kind : y.kind = x.kind
  constant : x.kind = .constant → y.holding = x.holding

variable {x y z : Variable}

theorem Descends.refl (x : Variable) : Descends x x := ⟨rfl, rfl, fun _ => rfl⟩

theorem Descends.trans (h : Descends x y) (h' : Descends y z) : Descends x z where
  name := h'.name.trans h.name
  kind := h'.kind.trans h.kind
  constant hk := (h'.constant (h.kind.trans hk)).trans (h.constant hk)

theorem Descends.literal (h : Descends x y) (hx : x.Literal) : y.Literal := by
  intro hk
  rw [h.kind] at hk
  rw [h.constant hk, h.name]
  exact hx hk

theorem descends_hold (x : Variable) (h : Holding) : Descends x (x.hold h) := by
  refine ⟨by simp, by simp, fun hk => ?_⟩
  simp [hold, isConstant, hk]

theorem newborn_blank (name : String) {kind : Kind} (hk : kind ≠ .constant) :
    (blank name kind).Newborn :=
  ⟨fun _ => rfl, fun h => absurd h hk, rfl⟩

theorem newborn_literal (value : Float) : (literal (Decimal.text value) value).Newborn :=
  ⟨fun h => absurd rfl h, fun _ => ⟨value, rfl, rfl⟩, rfl⟩

theorem Newborn.congr (h : x.Newborn) (hy : y = { x with relationships := y.relationships }) :
    y.Newborn := by
  rw [hy]
  exact ⟨h.unset, h.literal, h.unwatched⟩

end Variable

namespace Network

variable {net net' : Network} {v : VariableId} {y : Variable}

theorem Construct.vars_next_le (h : Construct net net') : net.vars.next ≤ net'.vars.next := by
  have hadd (net : Network) (x : Variable) :
      net.vars.next ≤ (net.addVariable x).2.vars.next := by
    simp [addVariable]
  cases h with
  | constant value hf => exact hadd net _
  | named name hfree => exact hadd net _
  | intermediate n hle hfree => exact hadd { net with nextIntermediate := n + 1 } _
  | relate relation hlive => exact (Arena.next_foldl_modify _ _ _ _).ge

theorem Edit.vars_next_le (h : Edit net net') : net.vars.next ≤ net'.vars.next := by
  cases h with
  | construct h => exact h.vars_next_le
  | discard h =>
    cases h with
    | remove h =>
      rw [removeRelationship_eq h]
      exact (Arena.next_foldl_modify _ _ _ _).ge
    | drop v =>
      unfold dropVariable
      split
      · exact le_rfl
      · exact (Arena.next_erase _ _).ge
  | hold | watch | settle => exact (Arena.next_modify _ _ _).ge
  | reset => exact (Arena.next_map _ _).ge
  | define | undefine | register | mark | see => exact le_rfl

theorem Edits.vars_next_le (h : Edits net net') : net.vars.next ≤ net'.vars.next := by
  induction h with
  | refl => exact le_rfl
  | tail _ he ih => exact ih.trans he.vars_next_le

theorem Construct.variable (h : Construct net net') (hy : net'.variableAt v = some y) :
    (∃ x, net.variableAt v = some x ∧ y = { x with relationships := y.relationships }) ∨
      net.vars.next ≤ v.index ∧ y.Newborn := by
  have hadd (net : Network) {x : Variable} (hx : x.Newborn)
      (hy : (net.addVariable x).2.variableAt v = some y) :
      (∃ x, net.variableAt v = some x ∧ y = { x with relationships := y.relationships }) ∨
        net.vars.next ≤ v.index ∧ y.Newborn := by
    rw [variableAt_addVariable] at hy
    split at hy
    · rename_i hv
      cases hy
      exact .inr ⟨hv ▸ le_rfl, hx⟩
    · exact .inl ⟨y, hy, rfl⟩
  cases h with
  | constant value hf => exact hadd net (Variable.newborn_literal value) hy
  | named name hfree => exact hadd net (Variable.newborn_blank name (by simp)) hy
  | intermediate n hle hfree =>
    exact hadd { net with nextIntermediate := n + 1 } (Variable.newborn_blank _ (by simp)) hy
  | relate relation hlive =>
    rw [variableAt_relate] at hy
    split at hy
    · obtain ⟨x, hx, rfl⟩ := Option.map_eq_some_iff.mp hy
      refine .inl ⟨x, hx, ?_⟩
      unfold Variable.attach
      split <;> rfl
    · exact .inl ⟨y, hy, rfl⟩

theorem Grows.variable (h : Grows net net') (hy : net'.variableAt v = some y) :
    (∃ x, net.variableAt v = some x ∧ y = { x with relationships := y.relationships }) ∨
      net.vars.next ≤ v.index ∧ y.Newborn := by
  induction h generalizing y with
  | refl => exact .inl ⟨y, hy, rfl⟩
  | tail hpre hc ih =>
    rcases hc.variable hy with ⟨x, hx, he⟩ | ⟨hle, hnew⟩
    · rcases ih hx with ⟨w, hw, he'⟩ | ⟨hle, hnew⟩
      · refine .inl ⟨w, hw, ?_⟩
        rw [he, he']
      · exact .inr ⟨hle, hnew.congr he⟩
    · exact .inr ⟨(Edits.vars_next_le (Grows.edits hpre)).trans hle, hnew⟩

theorem Edit.descends (h : Edit net net') (hw : net.WellHeld) (hy : net'.variableAt v = some y) :
    (∃ x, net.variableAt v = some x ∧ Variable.Descends x y) ∨
      net.vars.next ≤ v.index ∧ y.Newborn := by
  have hupdate {w : VariableId} {f : Variable → Variable}
      (hf : ∀ x, net.variableAt w = some x → Variable.Descends x (f x))
      (hy : (net.updateVariable w f).variableAt v = some y) :
      ∃ x, net.variableAt v = some x ∧ Variable.Descends x y := by
    rw [variableAt_updateVariable] at hy
    split at hy
    · rename_i hwv
      obtain ⟨x, hx, rfl⟩ := Option.map_eq_some_iff.mp hy
      exact ⟨x, hx, hf x (hwv ▸ hx)⟩
    · exact ⟨y, hy, .refl y⟩
  cases h with
  | construct h =>
    refine (h.variable hy).imp_left ?_
    rintro ⟨x, hx, he⟩
    exact ⟨x, hx, by rw [he]; exact ⟨rfl, rfl, fun _ => rfl⟩⟩
  | discard h =>
    cases h with
    | remove h =>
      rw [variableAt_removeRelationship h] at hy
      split at hy
      · obtain ⟨x, hx, rfl⟩ := Option.map_eq_some_iff.mp hy
        exact .inl ⟨x, hx, rfl, rfl, fun _ => rfl⟩
      · exact .inl ⟨y, hy, .refl y⟩
    | drop w hfree =>
      rw [variableAt_dropVariable] at hy
      split at hy
      · cases hy
      · exact .inl ⟨y, hy, .refl y⟩
  | hold w held hs hf => exact .inl (hupdate (fun x _ => x.descends_hold held) hy)
  | watch w watch =>
    exact .inl (hupdate (f := fun x => x.watch watch) (fun x _ => ⟨rfl, rfl, fun _ => rfl⟩) hy)
  | @settle w x value d hx hu hf hd =>
    refine .inl (hupdate (f := fun _ => { x with holding := .solved value (some d) })
      (fun x' hx' => ?_) hy)
    rw [hx] at hx'
    cases hx'
    refine ⟨rfl, rfl, fun hk => ?_⟩
    -- A literal is known in every digest, so no value is derived for it.
    obtain ⟨c, hc⟩ := (hw.held w x hx).explicit_of_constant hk
    simp [hc, Holding.valueAt] at hu
  | reset =>
    rw [variableAt_reset] at hy
    obtain ⟨x, hx, rfl⟩ := Option.map_eq_some_iff.mp hy
    exact .inl ⟨x, hx, x.descends_hold .unset⟩
  | define | undefine | register | mark | see => exact .inl ⟨y, hy, .refl y⟩

/-- What stands behind a handle after any edits descends from what stood there before, or
the handle was not given out yet. -/
theorem Edits.descends (h : Edits net net') (hw : net.WellHeld)
    (hy : net'.variableAt v = some y) :
    (∃ x, net.variableAt v = some x ∧ Variable.Descends x y) ∨
      net.vars.next ≤ v.index ∧ y.Literal := by
  induction h generalizing y with
  | refl => exact .inl ⟨y, hy, .refl y⟩
  | tail hpre he ih =>
    rcases he.descends (Edits.wellHeld hpre hw) hy with ⟨x, hx, hd⟩ | ⟨hle, hnew⟩
    · rcases ih hx with ⟨w, hw, hd'⟩ | ⟨hle, hliteral⟩
      · exact .inl ⟨w, hw, hd'.trans hd⟩
      · exact .inr ⟨hle, hd.literal hliteral⟩
    · exact .inr ⟨(Edits.vars_next_le hpre).trans hle, hnew.literal⟩

theorem Edits.kept {x : Variable} (h : Edits net net') (hw : net.WellHeld)
    (hx : net.variableAt v = some x) :
    net'.variableAt v = none ∨ ∃ y, net'.variableAt v = some y ∧ Variable.Descends x y := by
  cases hy : net'.variableAt v with
  | none => exact .inl rfl
  | some y =>
    rcases h.descends hw hy with ⟨x', hx', hd⟩ | ⟨hle, -⟩
    · rw [hx] at hx'
      cases hx'
      exact .inr ⟨y, rfl, hd⟩
    · exact absurd (index_lt_of_variableAt hx) (Nat.not_lt_of_le hle)

theorem Edit.lastDigest_le (h : Edit net net') : net.lastDigest ≤ net'.lastDigest := by
  cases h with
  | construct h => cases h <;> exact le_rfl
  | discard h =>
    cases h with
    | remove h => rw [removeRelationship_eq h]
    | drop v => unfold dropVariable; split <;> exact le_rfl
  | see d => exact le_max_left _ _
  | _ => exact le_rfl

theorem Edits.lastDigest_le (h : Edits net net') : net.lastDigest ≤ net'.lastDigest := by
  induction h with
  | refl => exact le_rfl
  | tail _ he ih => exact ih.trans he.lastDigest_le

end Network

/-- What every variable of a network keeps to in which `last` is the highest digest seen. -/
structure Variable.Sound (last : Digest) (x : Variable) : Prop where
  finite : ∀ value, x.cell.value? = some value → value.isFinite
  valued : x.cell.value?.isSome ↔ x.cell.state ≠ .unset
  dated : x.cell.digest?.isSome ↔ x.cell.state = .solved
  seen : ∀ d, x.cell.digest? = some d → d ≤ last
  literal : x.Literal

theorem Variable.WellHeld.sound {last : Digest} {x : Variable} (h : x.WellHeld last)
    (hl : x.Literal) : x.Sound last where
  finite _ hv := h.finite hv
  valued := (Holding.written_iff.mpr ⟨x.holding, rfl⟩).valued
  dated := by
    unfold WellHeld at h
    cases hx : x.holding with
    | solved value d =>
      simp only [hx] at h
      obtain ⟨-, -, e, -, rfl⟩ := h
      simp [cell, hx, Holding.cell, Holding.digest?, Holding.state]
    | _ => simp [cell, hx, Holding.cell, Holding.digest?, Holding.state]
  seen d hd := by
    change x.holding.digest? = some d at hd
    cases hx : x.holding with
    | solved value at? =>
      simp only [hx, Holding.digest?] at hd
      exact h.digest_le (hd ▸ hx)
    | _ => simp [hx, Holding.digest?] at hd
  literal := hl

namespace Network

variable {net : Network}

theorem Reachable.literal (hr : Reachable net) {v : VariableId} {x : Variable}
    (hx : net.variableAt v = some x) : x.Literal := by
  obtain ⟨config, -, he⟩ := hr.edits
  rcases Edits.descends he (wellHeld_empty config) hx with ⟨w, hw, -⟩ | ⟨-, hl⟩
  · -- There is nothing in a network to begin with.
    simp [empty, variableAt] at hw
  · exact hl

/-- After any calls, failed ones included, with any arguments and host functions: every
value is finite; a variable has one unless it is unset, and a digest exactly if it is
solved; a literal holds the value that its name spells, and goes on to hold it until it
is gone; digests of variables and markers have been seen, and the last digest seen never
falls. So the next digest is one in which nothing is solved and nothing is marked. -/
theorem values_stay_sound (hr : Reachable net) :
    (∀ v x, net.variableAt v = some x → x.Sound net.lastDigest) ∧
    (∀ r rel, net.relationshipAt r = some rel → ∀ d, rel.marker = some d → d ≤ net.lastDigest) ∧
    (∀ calls, net.lastDigest ≤ (net.after calls).lastDigest ∧
      ∀ v x, net.variableAt v = some x → x.kind = .constant →
        (net.after calls).variableAt v = none ∨
          ∃ y, (net.after calls).variableAt v = some y ∧ y.kind = .constant ∧
            y.name = x.name ∧ y.holding = x.holding) ∧
    net.perform .next = net.perform (.solve (net.lastDigest + 1)) ∧
    net.Fresh (net.lastDigest + 1) := by
  have hw := hr.wellHeld
  refine ⟨fun v x hx => (hw.held v x hx).sound (hr.literal hx), hw.marked, fun calls => ?_,
    rfl, hw.fresh (Nat.lt_succ_self _)⟩
  have he := edits_after hr.integrity hw calls
  refine ⟨Edits.lastDigest_le he, fun v x hx hk => ?_⟩
  refine (Edits.kept he hw hx).imp_right ?_
  rintro ⟨y, hy, hd⟩
  exact ⟨y, hy, hd.kind.trans hk, hd.name, hd.constant hk⟩

def mixedCalls : Network :=
  (empty .standard).after [.evaluateText "2", .equals (.name "b") (.name "a"), .assign "a" 1,
    .solve 3, .write "b" 5 3, .assign "a" (0 / 0)]

theorem values_stay_sound_mixedCalls :
    Reachable mixedCalls ∧ (mixedCalls.variableAt ⟨0⟩).any (·.isConstant) ∧
      (∃ x, mixedCalls.variableAt ⟨0⟩ = some x ∧ x.Sound 3) ∧ mixedCalls.Fresh 4 := by
  have hr : Reachable mixedCalls := ⟨.standard, empty .standard, _, create_standard, rfl⟩
  have hlast : mixedCalls.lastDigest = 3 := by decide +kernel
  have hconstant : (mixedCalls.variableAt ⟨0⟩).any (·.isConstant) := by decide +kernel
  obtain ⟨hsound, -, -, -, hfresh⟩ := values_stay_sound hr
  rw [hlast] at hsound hfresh
  obtain ⟨x, hx, -⟩ := (Option.any_eq_true _ _).mp hconstant
  exact ⟨hr, hconstant, ⟨x, hx, hsound ⟨0⟩ x hx⟩, hfresh⟩

end Network

end ConstraintNet

import ConstraintNet.Proofs.Checking
import ConstraintNet.Proofs.Lineage

/-!
# What a new definition keeps

A variable that is set to an expression first loses its old definition, and with that
whatever is orphaned then. Only after that is the expression lowered. A name that it
mentions keeps its variable if the variable was no orphan; if it was one, the name is
given to a variable that is new.
-/

set_option autoImplicit false

namespace ConstraintNet

namespace Network

variable {net net' : Network} {name text x : String} {v : VariableId}

mutual

theorem stands_lower {net : Network} (hi : net.Integrity) : ∀ e, Adds (Build.lower e) net
    fun v net' => net'.Lowered e v ∧ (net'.variableAt v).isSome
  | .ident name => makes_modifyGet (grows_declare name net)
      ⟨lookup_declare name net, live_declare hi name⟩
  | .number value => by
    refine makes_unless _ fun hfin => makes_modifyGet (.single (.constant net value ?_)) ?_
    · simpa using hfin
    · have hat := variableAt_addVariable net (.literal (Decimal.text value) value)
      exact ⟨⟨_, by rw [hat, if_pos rfl], rfl⟩, by rw [hat, if_pos rfl]; rfl⟩
  | .op symbol left right => by
    unfold Build.lower
    cases hop : Operator.ofSymbol? symbol with
    | none => exact makes_throw _
    | some op =>
      refine (stands_lower hi left).bind fun l mid hg ⟨hl, hlive⟩ => ?_
      refine (stands_lower (hg.edits.integrity hi) right).bind fun r mid' hg' ⟨hr, hlive'⟩ => ?_
      refine (adds_intermediate mid').bind fun v mid'' hg'' hv => ?_
      refine (adds_relate (.arithmetic op v l r) ?_).bind fun s net' hlast hs => makes_pure ?_
      · simp [Relation.operands, Relation.result, Relation.arguments, hv, hg''.live hlive',
          hg''.live (hg'.live hlive)]
      · have hgrows := hg''.trans hlast
        refine ⟨⟨op, l, r, hop, ?_, Lowered.extends (Grows.extends hgrows) right hr, s, _, hs, rfl⟩,
          hlast.live hv⟩
        exact Lowered.extends (Grows.extends (hg'.trans hgrows)) left hl
  | .call name params => by
    unfold Build.lower
    refine (stands_lowerAll hi params).bind fun inputs mid hg ⟨hin, hlive⟩ => ?_
    refine (adds_intermediate mid).bind fun v mid' hg' hv => ?_
    apply (adds_lookupFunction name inputs.length).bind
    rintro f mid' - ⟨rfl, hf⟩
    refine (adds_relate (.custom name f inputs v) ?_).bind fun s net' hlast hs => makes_pure ?_
    · intro w hw
      rcases List.mem_cons.mp hw with rfl | hw
      · exact hv
      · exact hg'.live (hlive w hw)
    · refine ⟨⟨f, inputs, ?_, LoweredAll.extends (Grows.extends (hg'.trans hlast)) params hin,
        s, _, hs, rfl⟩, hlast.live hv⟩
      rw [hlast.extends.function, ← hin.length]
      exact hf

theorem stands_lowerAll {net : Network} (hi : net.Integrity) : ∀ es,
    Adds (Build.lowerAll es) net fun vs net' =>
      net'.LoweredAll es vs ∧ ∀ v ∈ vs, (net'.variableAt v).isSome
  | [] => makes_pure ⟨rfl, by simp⟩
  | e :: es => by
    unfold Build.lowerAll
    refine (stands_lower hi e).bind fun v mid hg ⟨hl, hlive⟩ => ?_
    refine (stands_lowerAll (hg.edits.integrity hi) es).bind
      fun vs net' hg' ⟨hls, hlives⟩ => makes_pure ?_
    refine ⟨⟨v, vs, rfl, Lowered.extends hg'.extends e hl, hls⟩, fun w hw => ?_⟩
    rcases List.mem_cons.mp hw with rfl | hw
    · exact hg'.live hlive
    · exact hlives w hw

end

def Keeps (net net' : Network) (x : String) (v : VariableId) : Prop :=
  net'.lookup x = some v ∧ ∃ y y', net.variableAt v = some y ∧ net'.variableAt v = some y' ∧
    y' = { y with relationships := y'.relationships }

def Remakes (net net' : Network) (x : String) : Prop :=
  ∃ v y, net'.lookup x = some v ∧ net'.variableAt v = some y ∧ net.vars.next ≤ v.index ∧
    y.holding = .unset ∧ y.watches = []

theorem Grows.kept {y : Variable} (h : Grows net net') (hy : net.variableAt v = some y) :
    ∃ y', net'.variableAt v = some y' ∧ y' = { y with relationships := y'.relationships } := by
  obtain ⟨y', hy'⟩ := Option.isSome_iff_exists.mp (h.live (by rw [hy]; rfl))
  rcases h.variable hy' with ⟨x, hx, he⟩ | ⟨hle, -⟩
  · rw [hy] at hx
    cases hx
    exact ⟨y', hy', he⟩
  · exact absurd (index_lt_of_variableAt hy) (Nat.not_lt_of_le hle)

theorem Grows.gone (h : Grows net net') (hv : v.index < net.vars.next)
    (hgone : net.variableAt v = none) : net'.variableAt v = none := by
  cases hy : net'.variableAt v with
  | none => rfl
  | some y =>
    rcases h.variable hy with ⟨x, hx, -⟩ | ⟨hle, -⟩
    · rw [hgone] at hx
      cases hx
    · exact absurd hv (Nat.not_lt_of_le hle)

theorem Keeps.grows {mid : Network} (h : net.Keeps mid x v) (hg : Grows mid net') :
    net.Keeps net' x v := by
  obtain ⟨hname, y, y', hy, hy', he⟩ := h
  obtain ⟨z, hz, he'⟩ := hg.kept hy'
  exact ⟨hg.extends.lookup x v hname, y, z, hy, hz, by rw [he', he]⟩

theorem Grows.remakes (h : Grows net net') (hi : net.Integrity) (hfree : net.lookup x = none)
    (hx : net'.lookup x = some v) : net.Remakes net' x := by
  obtain ⟨y, hy, hk, hname⟩ := ((h.edits.integrity hi).registered x v).mp hx
  rcases h.variable hy with ⟨w, hw, he⟩ | ⟨hle, hnew⟩
  · rw [he] at hk hname
    have htaken := (hi.registered x v).mpr ⟨w, hw, hk, hname⟩
    rw [hfree] at htaken
    cases htaken
  · exact ⟨v, y, hx, hy, hle, hnew.unset hk, hnew.unwatched⟩

def bearer (net : Network) (name : String) : Set VariableId := {v | net.lookup name = some v}

def defining (net : Network) (name : String) : Set RelationshipId :=
  {r | ∃ v, net.lookup name = some v ∧ net.definitions.find? v = some r}

/-- Clearing collects what the old definition leaves behind; nothing else happens but to the
variable itself. -/
theorem exists_collects_clear (hi : net.Integrity) (name : String) : ∃ mid,
    net.Collects ∅ (net.defining name) (net.bearer name) mid ∧
      (∀ x, (net.clear name).lookup x = mid.lookup x) ∧
      ∀ v, v ∉ net.bearer name → (net.clear name).variableAt v = mid.variableAt v := by
  cases hname : net.lookup name with
  | none =>
    have hcut : net.defining name = ∅ := by simp [defining, hname]
    have hclear : net.clear name = net := by simp only [clear, hname]
    rw [hcut, hclear]
    exact ⟨net, collects_nothing hi, fun _ => rfl, fun _ _ => rfl⟩
  | some w =>
    have hcut : net.defining name = {r | net.definitions.find? w = some r} := by
      simp [defining, hname]
    have hspared : net.bearer name = {w} := by
      ext v
      simp [bearer, hname, eq_comm]
    have hclear : net.clear name = (net.undefine w).updateVariable w Variable.clear := by
      simp only [clear, hname]
    rw [hcut, hspared, hclear]
    refine ⟨net.undefine w, collects_undefine hi w, fun _ => rfl, fun v hv => ?_⟩
    rw [variableAt_updateVariable, if_neg (fun he => hv he.symm)]

theorem clear_keeps (hi : net.Integrity) (name : String) : ∃ T R,
    net.OrphanClosure ∅ (net.defining name) (net.bearer name) T R ∧
      ∀ x v, x ≠ name → net.lookup x = some v →
        (v ∉ T → net.Keeps (net.clear name) x v) ∧
        (v ∈ T → (net.clear name).lookup x = none ∧ (net.clear name).variableAt v = none) := by
  obtain ⟨mid, hc, hlookup, hvariable⟩ := exists_collects_clear hi name
  refine ⟨_, _, hc.closure, fun x v hne hx => ?_⟩
  have hlive := hi.live_of_lookup hx
  have hother : v ∉ net.bearer name := fun hv => hne (hi.lookup_inj hx hv)
  rw [Keeps, hlookup, hvariable v hother]
  constructor
  · intro hkept
    obtain ⟨y', hy'⟩ := Option.isSome_iff_exists.mp ((not_mem_lostVariables hlive).mp hkept)
    obtain ⟨y, hy, he⟩ := hc.residue.old_variables v y' hy'
    refine ⟨(hc.residue.names x v).mpr ⟨hx, hkept⟩, y, y', hy, hy', ?_⟩
    rw [he]
    rfl
  · intro hlost
    refine ⟨?_, hlost.2⟩
    cases hw : mid.lookup x with
    | none => rfl
    | some w =>
      obtain ⟨hold, hkept⟩ := (hc.residue.names x w).mp hw
      rw [hx] at hold
      cases hold
      exact absurd hlost hkept

theorem redefined (hi : net.Integrity)
    (hdone : (net.perform (.set name (.expression text))).result = .ok .done) :
    ∃ e root grown definitions, Expr.parse text = .ok e ∧ Grows (net.clear name) grown ∧
      grown.Lowered e root ∧ (net.perform (.set name (.expression text))).network =
        { grown with definitions := definitions } := by
  obtain ⟨e, root, lowered, hparse, hrun, hafter⟩ := perform_definition hi hdone
  have hcleared := Edits.integrity (edits_clear hi name) hi
  have hdeclare := grows_declare name (net.clear name)
  have hbefore := hdeclare.edits.integrity hcleared
  obtain ⟨hg, hstands, hroot⟩ := (stands_lower hbefore e).of_run hrun
  have hlast := construct_define (Grows.live hg (live_declare hcleared name)) hroot
  exact ⟨e, root, _, _, hparse, (hdeclare.trans hg).tail hlast,
    Lowered.extends hlast.extends e hstands, hafter⟩

/-- When a variable has been set to an expression, every other name that was registered
keeps its handle, and its variable what it holds and its watches, unless the variable is
in the orphan closure that the loss of the old definition starts. A variable there is gone,
and if the expression mentions its name, that stands for a new variable, unset
and unwatched. What is pinned is not in the closure, nor what was named by the host and
has a relationship that is not in it. -/
theorem redefinition_keeps_all_but_orphans (hr : Reachable net)
    (hdone : (net.perform (.set name (.expression text))).result = .ok .done) :
    ∃ e T R, Expr.parse text = .ok e ∧
      net.OrphanClosure ∅ (net.defining name) (net.bearer name) T R ∧
      ∀ x v, x ≠ name → net.lookup x = some v →
        (v ∉ T → net.Keeps (net.perform (.set name (.expression text))).network x v) ∧
        (v ∈ T → (net.perform (.set name (.expression text))).network.variableAt v = none ∧
          ((Expr.ident x).Part e →
            net.Remakes (net.perform (.set name (.expression text))).network x)) ∧
        ∀ y, net.variableAt v = some y →
          (y.holding.isPinned ∨ y.kind = .named ∧ ∃ r ∈ y.relationships, r ∉ R) → v ∉ T := by
  have hi := hr.integrity
  have hcleared := (edits_clear hi name).integrity hi
  have hnext := (edits_clear hi name).vars_next_le
  obtain ⟨e, root, grown, definitions, hparse, hg, hroot, hafter⟩ := redefined hi hdone
  obtain ⟨T, R, hclosure, hkeeps⟩ := clear_keeps hi name
  rw [hafter]
  refine ⟨e, T, R, hparse, hclosure, fun x v hne hx => ⟨?_, ?_, ?_⟩⟩
  · intro hkept
    have hgrown : net.Keeps grown x v := ((hkeeps x v hne hx).1 hkept).grows hg
    exact hgrown
  · intro hlost
    obtain ⟨hfree, hgone⟩ := (hkeeps x v hne hx).2 hlost
    obtain ⟨y, hy, -⟩ := (hi.registered x v).mp hx
    refine ⟨hg.gone ((index_lt_of_variableAt hy).trans_le hnext) hgone, fun hpart => ?_⟩
    obtain ⟨w, hw⟩ := hroot.part hpart
    obtain ⟨u, z, hu, hz, hle, hfresh⟩ := hg.remakes hcleared hfree hw
    exact ⟨u, z, hu, hz, hnext.trans hle, hfresh⟩
  · intro y hy
    obtain ⟨y', hy', hk, -⟩ := (hi.registered x v).mp hx
    rw [hy] at hy'
    cases hy'
    exact hclosure.spares (Set.notMem_empty v) hy hk

theorem redefinition_keeps_all_but_orphans_difference :
    Reachable definedDifference ∧
      (definedDifference.perform (.set "W" (.expression "R + L"))).result = .ok .done ∧
      definedDifference.lookup "R" = some ⟨1⟩ ∧ definedDifference.lookup "L" = some ⟨2⟩ ∧
      definedDifference.Keeps
        (definedDifference.perform (.set "W" (.expression "R + L"))).network "R" ⟨1⟩ ∧
      definedDifference.Remakes
        (definedDifference.perform (.set "W" (.expression "R + L"))).network "L" := by
  have hr : Reachable definedDifference := ⟨.standard, empty .standard, _, create_standard, rfl⟩
  have hdone : (definedDifference.perform (.set "W" (.expression "R + L"))).result =
      .ok .done := rfl
  have hR : definedDifference.lookup "R" = some ⟨1⟩ := rfl
  have hL : definedDifference.lookup "L" = some ⟨2⟩ := rfl
  have hparse : Expr.parse "R + L" = .ok (.op "+" (.ident "R") (.ident "L")) := rfl
  have hnew : (definedDifference.perform (.set "W" (.expression "R + L"))).network.lookup "L" =
      some ⟨4⟩ := rfl
  obtain ⟨e, T, R, he, -, h⟩ := redefinition_keeps_all_but_orphans hr hdone
  rw [hparse] at he
  cases he
  obtain ⟨hkeeps, -, hspares⟩ := h "R" ⟨1⟩ (by decide) hR
  obtain ⟨hsame, hremakes, -⟩ := h "L" ⟨2⟩ (by decide) hL
  have hpinned : (⟨1⟩ : VariableId) ∉ T := hspares _ rfl (.inl rfl)
  have hlost : (⟨2⟩ : VariableId) ∈ T := by
    by_contra hkept
    have hold := (hsame hkept).1
    rw [hnew] at hold
    cases hold
  exact ⟨hr, hdone, hR, hL, hkeeps hpinned, (hremakes hlost).2 (.right .refl)⟩

def sharedOperand : Network :=
  (empty .standard).after [.set "W" (.expression "L"), .assign "W" 1, .watch "L" 7, .solve 1]

/-- Setting `W` to `L` once more costs `L` its handle, its value and its watch, though `L` was
registered and the new definition mentions it. -/
theorem redefinition_remakes_shared_operand :
    Reachable sharedOperand ∧ Expr.parse "L" = .ok (.ident "L") ∧
      (sharedOperand.perform (.set "W" (.expression "L"))).result = .ok .done ∧
      sharedOperand.lookup "L" = some ⟨1⟩ ∧
      (sharedOperand.variableAt ⟨1⟩).map (fun y => (y.holding, y.watches)) =
        some (.solved 1 (some 1), [7]) ∧
      (sharedOperand.perform (.set "W" (.expression "L"))).network.variableAt ⟨1⟩ = none ∧
      (sharedOperand.perform (.set "W" (.expression "L"))).network.lookup "L" = some ⟨2⟩ ∧
      ((sharedOperand.perform (.set "W" (.expression "L"))).network.variableAt ⟨2⟩).map
        (fun y => (y.holding, y.watches)) = some (.unset, []) := by
  have hr : Reachable sharedOperand := ⟨.standard, empty .standard, _, create_standard, rfl⟩
  exact ⟨hr, rfl, rfl, rfl, rfl, rfl, rfl, rfl⟩

end Network

end ConstraintNet

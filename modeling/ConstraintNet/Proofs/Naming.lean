import ConstraintNet.Proofs.Redefinition

/-!
# Names given while an expression is lowered

Lowering meets names and gives names in one pass from left to right. An intermediate takes
the first numbered name that is free at that moment, so a name that the expression mentions
further to the right is not yet taken.
-/

set_option autoImplicit false

namespace ConstraintNet

inductive Naming where
  | mention (name : String)
  /-- The result of an operation or a call is given a name. -/
  | result
  deriving DecidableEq

namespace Expr

mutual

def namings : Expr → List Naming
  | .ident name => [.mention name]
  | .number _ => []
  | .op _ left right => namings left ++ namings right ++ [.result]
  | .call _ params => namingsAll params ++ [.result]

def namingsAll : List Expr → List Naming
  | [] => []
  | e :: es => namings e ++ namingsAll es

end

theorem Part.mention_mem {e : Expr} {x : String} (h : Part (.ident x) e) :
    .mention x ∈ e.namings := by
  have hparams {es : List Expr} {e : Expr} (he : e ∈ es) : e.namings ⊆ namingsAll es := by
    induction es with
    | nil => cases he
    | cons first es ih =>
      rcases List.mem_cons.mp he with rfl | he
      · exact List.subset_append_left _ _
      · exact List.Subset.trans (ih he) (List.subset_append_right _ _)
  generalize hpart : Expr.ident x = part at h
  induction h with
  | refl => exact hpart ▸ List.mem_singleton_self _
  | left _ ih => exact List.mem_append_left _ (List.mem_append_left _ ih)
  | right _ ih => exact List.mem_append_left _ (List.mem_append_right _ ih)
  | param he _ ih => exact List.mem_append_left _ (hparams he ih)

end Expr

/-- The names that intermediates are given along some steps, when names are taken already and
the numbers are used up below `next`. A name is taken once it was mentioned or given. -/
def allot (stem : String) : (taken : List String) → (next : Nat) → List Naming → List String
  | _, _, [] => []
  | taken, next, .mention name :: steps => allot stem (taken.insert name) next steps
  | taken, next, .result :: steps =>
    let n := Network.firstFree (· ∈ taken) (stem ++ ·.repr) taken.length next
    (stem ++ n.repr) :: allot stem ((stem ++ n.repr) :: taken) (n + 1) steps

theorem Table.entries_insert {κ α : Type} [DecidableEq κ] {t : Table κ α} {k : κ}
    (h : t.find? k = none) (x : α) : (t.insert k x).entries = t.entries ++ [(k, x)] := by
  have hkept : t.entries.filter (fun e => e.1 ≠ k) = t.entries := by
    refine List.filter_eq_self.mpr fun e he => decide_eq_true fun hk => ?_
    rw [Table.find?_eq_some_iff.mpr (hk ▸ he : (k, e.2) ∈ t.entries)] at h
    cases h
  simp only [Table.insert, Table.erase, Table.filter, hkept]

namespace Network

variable {net net' : Network} {steps steps' : List Naming} {name text x : String}

def names (net : Network) : List String := (net.registry.entries.map Prod.fst).reverse

theorem mem_names : x ∈ net.names ↔ (net.lookup x).isSome := by
  rw [names, List.mem_reverse]
  refine ⟨fun h => ?_, mem_keys_of_has⟩
  obtain ⟨⟨y, v⟩, he, rfl⟩ := List.mem_map.mp h
  exact Option.isSome_iff_exists.mpr ⟨v, Table.find?_eq_some_iff.mpr he⟩

theorem names_addNamed (net : Network) {y : Variable} (hfree : net.lookup y.name = none) :
    (net.addNamed y).2.names = y.name :: net.names := by
  simp [names, addNamed, addVariable, Table.entries_insert hfree]

theorem names_declare (name : String) (net : Network) :
    (net.declare name).2.names = net.names.insert name := by
  unfold declare
  split
  · rename_i v hv
    rw [List.insert_of_mem (mem_names.mpr (Option.isSome_iff_exists.mpr ⟨v, hv⟩))]
  · rename_i hfree
    have hnew : name ∉ net.names := by simp [mem_names, hfree]
    rw [List.insert_of_not_mem hnew]
    exact names_addNamed net hfree

def allotted (net : Network) (steps : List Naming) : List String :=
  allot net.config.stem net.names net.nextIntermediate steps

theorem allotted_mention (name : String) (net : Network) :
    net.allotted (.mention name :: steps) = (net.declare name).2.allotted steps := by
  rw [allotted, allotted, names_declare, declare_rest, allot]

def freeNumber (net : Network) : Nat :=
  firstFree net.has net.intermediateName net.registry.entries.length net.nextIntermediate

theorem allotted_result (net : Network) : net.allotted (.result :: steps) =
    net.intermediateName net.freeNumber :: net.intermediate.2.allotted steps := by
  have htaken : (fun x => decide (x ∈ net.names)) = net.has := by
    funext x
    rw [Bool.eq_iff_iff, decide_eq_true_iff, mem_names]
    rfl
  have hlength : net.names.length = net.registry.entries.length := by simp [names]
  have hnames : net.intermediate.2.names = net.intermediateName net.freeNumber :: net.names :=
    names_addNamed { net with nextIntermediate := _ } (lookup_firstFree net _)
  simp only [allotted, allot, htaken, hlength, hnames]
  rfl

theorem Grows.free (h : Grows net net') (hfree : net'.lookup x = none) : net.lookup x = none := by
  cases hx : net.lookup x with
  | none => rfl
  | some v =>
    rw [h.extends.lookup x v hx] at hfree
    cases hfree

theorem exists_of_mem_allotted (hx : x ∈ net.allotted steps) : net.lookup x = none ∧
    ∃ n before after, net.nextIntermediate ≤ n ∧ x = net.intermediateName n ∧
      steps = before ++ .result :: after ∧ .mention x ∉ before := by
  induction steps generalizing net with
  | nil => cases hx
  | cons step steps ih =>
    cases step with
    | mention name =>
      rw [allotted_mention] at hx
      obtain ⟨hfree, n, before, after, hle, hn, rfl, hbefore⟩ := ih hx
      have hne : x ≠ name := by
        rintro rfl
        rw [lookup_declare] at hfree
        cases hfree
      refine ⟨(grows_declare name net).free hfree, n, .mention name :: before, after, ?_, ?_, rfl, ?_⟩
      · rwa [declare_rest] at hle
      · rwa [declare_rest] at hn
      · simp [hne, hbefore]
    | result =>
      rw [allotted_result] at hx
      have hfirst : net.nextIntermediate ≤ net.freeNumber := le_firstFree _ _ _ _
      rcases List.mem_cons.mp hx with rfl | hx
      · exact ⟨lookup_firstFree net _, net.freeNumber, [], steps, hfirst, rfl, rfl,
          List.not_mem_nil⟩
      · obtain ⟨hfree, n, before, after, hle, hn, rfl, hbefore⟩ := ih hx
        have hnext : net.freeNumber + 1 ≤ n := hle
        exact ⟨(grows_intermediate net).free hfree, n, .result :: before, after, by omega, hn, rfl,
          by simp [hbefore]⟩

/-- A network grows while names are mentioned and given along some steps; constants and
relationships are made in between. -/
inductive Enacts : List Naming → Network → Network → Prop
  | done (net : Network) : Enacts [] net net
  | mention {net net' : Network} {steps : List Naming} (name : String)
      (h : Enacts steps (net.declare name).2 net') : Enacts (.mention name :: steps) net net'
  | result {net net' : Network} {steps : List Naming} (h : Enacts steps net.intermediate.2 net') :
    Enacts (.result :: steps) net net'
  | quiet {net mid net' : Network} {steps : List Naming} (hc : Construct net mid)
      (hsame : mid.registry = net.registry ∧ mid.nextIntermediate = net.nextIntermediate)
      (h : Enacts steps mid net') : Enacts steps net net'

theorem Enacts.grows (h : Enacts steps net net') : Grows net net' := by
  induction h with
  | done => exact .refl
  | mention name _ ih => exact (grows_declare name _).trans ih
  | result _ ih => exact (grows_intermediate _).trans ih
  | quiet hc _ _ ih => exact .head hc ih

theorem Enacts.append {mid : Network} (h : Enacts steps net mid) (h' : Enacts steps' mid net') :
    Enacts (steps ++ steps') net net' := by
  induction h with
  | done => exact h'
  | mention name _ ih => exact .mention name (ih h')
  | result _ ih => exact .result (ih h')
  | quiet hc hsame _ ih => exact .quiet hc hsame (ih h')

theorem adds_node_enacts (relation : VariableId → Relation) {mid : Network}
    {answers : List VariableId} (h : Enacts steps net mid)
    (hlive : ∀ a ∈ answers, (mid.variableAt a).isSome) (hresult : ∀ v, (relation v).result = v)
    (hargs : ∀ v, (relation v).arguments = answers) :
    Adds (modifyGet (relate (relation mid.intermediate.1))) mid.intermediate.2 fun _ net' =>
      Enacts (steps ++ [.result]) net net' ∧ (net'.variableAt mid.intermediate.1).isSome := by
  have hadd := construct_node hresult (hargs mid.intermediate.1 ▸ hlive)
  exact makes_modifyGet (.single hadd)
    ⟨h.append (.result (.quiet hadd ⟨rfl, rfl⟩ (.done _))), hadd.live (live_intermediate mid)⟩

mutual

theorem enacts_lower {net : Network} (hi : net.Integrity) : ∀ e, Adds (Build.lower e) net
    fun v net' => Enacts e.namings net net' ∧ (net'.variableAt v).isSome
  | .ident name => makes_modifyGet (grows_declare name net)
      ⟨.mention name (.done _), live_declare hi name⟩
  | .number value => by
    refine makes_unless _ fun hfin => ?_
    have hf : value.isFinite := by simpa using hfin
    have hadd := Construct.constant net value hf
    refine makes_modifyGet (.single hadd) ⟨.quiet hadd ⟨rfl, rfl⟩ (.done _), ?_⟩
    simp [variableAt_addVariable]
  | .op symbol left right => by
    unfold Build.lower
    cases Operator.ofSymbol? symbol with
    | none => exact makes_throw _
    | some op =>
      refine (enacts_lower hi left).bind fun l mid hg ⟨hl, hlive⟩ => ?_
      refine (enacts_lower (hg.edits.integrity hi) right).bind fun r mid' hg' ⟨hr, hlive'⟩ => ?_
      have hnode := adds_node_enacts (fun v => .arithmetic op v l r) (hl.append hr)
        (by simp [hg'.live hlive, hlive']) (fun _ => rfl) fun _ => rfl
      apply (lowers_intermediate mid').bind
      rintro v mid'' _ ⟨hv, hmid⟩
      subst hv hmid
      exact hnode.bind fun _ _ _ hdone => makes_pure hdone
  | .call name params => by
    unfold Build.lower
    refine (enacts_lowerAll hi params).bind fun inputs mid hg ⟨hin, hlive⟩ => ?_
    apply (lowers_intermediate mid).bind
    rintro v mid' _ ⟨hv, hmid⟩
    subst hv hmid
    apply (adds_lookupFunction name inputs.length).bind
    rintro f _ _ ⟨rfl, -⟩
    have hnode := adds_node_enacts (fun v => .custom name f inputs v) hin hlive (fun _ => rfl)
      fun _ => rfl
    exact hnode.bind fun _ _ _ hdone => makes_pure hdone

theorem enacts_lowerAll {net : Network} (hi : net.Integrity) : ∀ es,
    Adds (Build.lowerAll es) net fun vs net' =>
      Enacts (Expr.namingsAll es) net net' ∧ ∀ v ∈ vs, (net'.variableAt v).isSome
  | [] => makes_pure ⟨.done _, by simp⟩
  | e :: es => by
    unfold Build.lowerAll
    refine (enacts_lower hi e).bind fun v mid hg ⟨hl, hlive⟩ => ?_
    refine (enacts_lowerAll (hg.edits.integrity hi) es).bind
      fun vs net' hg' ⟨hls, hlives⟩ => makes_pure ⟨hl.append hls, fun w hw => ?_⟩
    rcases List.mem_cons.mp hw with rfl | hw
    · exact hg'.live hlive
    · exact hlives w hw

end

def kindOf (net : Network) (name : String) : Option Kind := do
  return (← net.variableAt (← net.lookup name)).kind

theorem Grows.kindOf {kind : Kind} (h : Grows net net') (hx : net.kindOf x = some kind) :
    net'.kindOf x = some kind := by
  simp only [Network.kindOf, Option.bind_eq_bind, Option.bind_eq_some_iff] at hx ⊢
  obtain ⟨v, hv, y, hy, hk⟩ := hx
  obtain ⟨y', hy', he⟩ := h.kept hy
  exact ⟨v, h.extends.lookup x v hv, y', hy', by rw [he]; exact hk⟩

theorem kindOf_addNamed (net : Network) (y : Variable) :
    (net.addNamed y).2.kindOf y.name = some y.kind := by
  simp [Network.kindOf, lookup_addNamed, variableAt_addNamed]

theorem kindOf_declare (hfree : net.lookup name = none) :
    (net.declare name).2.kindOf name = some .named := by
  unfold declare
  rw [hfree]
  exact kindOf_addNamed net (.blank name .named)

/-- A name that was free before some steps were followed has been given to an intermediate, or
else it has been mentioned and stands for a variable of its own. -/
theorem Enacts.kindOf (h : Enacts steps net net') (hfree : net.lookup x = none)
    (hx : .mention x ∈ steps) :
    net'.kindOf x = some (if x ∈ net.allotted steps then .intermediate else .named) := by
  induction h with
  | done => cases hx
  | @mention net net' steps name h ih =>
    rw [allotted_mention]
    by_cases hne : x = name
    · subst hne
      have htaken : x ∉ (net.declare x).2.allotted steps := by
        intro hgiven
        have := (exists_of_mem_allotted hgiven).1
        rw [lookup_declare] at this
        cases this
      rw [if_neg htaken]
      exact h.grows.kindOf (kindOf_declare hfree)
    · exact ih (by rw [lookup_declare_of_ne hne, hfree]) (by simpa [hne] using hx)
  | @result net net' steps h ih =>
    rw [allotted_result]
    by_cases hgiven : x = net.intermediateName net.freeNumber
    · rw [if_pos (hgiven ▸ List.mem_cons_self), hgiven]
      exact h.grows.kindOf (kindOf_addNamed { net with nextIntermediate := _ } _)
    · have hstill : net.intermediate.2.lookup x = none :=
        (lookup_addNamed { net with nextIntermediate := _ } _ x).trans ((if_neg hgiven).trans hfree)
      simpa [hgiven] using ih hstill (by simpa using hx)
  | @quiet net mid net' steps hc hsame h ih =>
    have hlookup : mid.lookup x = net.lookup x := by rw [lookup, hsame.1]; rfl
    have hnames : mid.allotted steps = net.allotted steps := by
      simp only [allotted, names, hsame, Edits.config (.single (.construct hc))]
    exact hnames ▸ ih (hlookup.trans hfree) hx

theorem lookup_clear_of_free (hi : net.Integrity) (name : String) (hfree : net.lookup x = none) :
    (net.clear name).lookup x = none := by
  obtain ⟨mid, hc, hlookup, -⟩ := exists_collects_clear hi name
  rw [hlookup]
  cases hx : mid.lookup x with
  | none => rfl
  | some v =>
    rw [((hc.residue.names x v).mp hx).1] at hfree
    cases hfree

theorem kindOf_lower (hi : net.Integrity) {e : Expr} {v : VariableId}
    (hrun : (Build.lower e).run net = .ok v net') (hpart : (Expr.ident x).Part e)
    (hx : net.lookup x = none ∨ net.kindOf x = some .named) : net'.kindOf x =
      some (if x ∈ net.allotted e.namings then .intermediate else .named) := by
  have henacts := ((enacts_lower hi e).of_run hrun).2.1
  rcases hx with hfree | hnamed
  · exact henacts.kindOf hfree hpart.mention_mem
  · have htaken : x ∉ net.allotted e.namings := by
      intro hgiven
      simp [Network.kindOf, (exists_of_mem_allotted hgiven).1] at hnamed
    rw [if_neg htaken]
    exact henacts.grows.kindOf hnamed

/-- When an expression has been taken in, each of its identifiers that was free before stands for
a variable of its own unless the name is among those that the intermediates of this expression
are given; and then it stands for the intermediate. Such a name was free, is a numbered one, and
is given when an operation or a call is complete and the identifier has not been mentioned yet. -/
theorem identifier_named_iff_not_allotted (hr : Reachable net) :
    (∀ e, (net.perform (.evaluate e)).result.isOk →
      ∀ x, (Expr.ident x).Part e → net.lookup x = none →
        (net.perform (.evaluate e)).network.kindOf x =
          some (if x ∈ net.allotted e.namings then .intermediate else .named)) ∧
    (∀ text, (net.perform (.evaluateText text)).result.isOk →
      ∃ e, Expr.parse text = .ok e ∧ ∀ x, (Expr.ident x).Part e → net.lookup x = none →
        (net.perform (.evaluateText text)).network.kindOf x =
          some (if x ∈ net.allotted e.namings then .intermediate else .named)) ∧
    (∀ name text, (net.perform (.set name (.expression text))).result.isOk →
      ∃ e, Expr.parse text = .ok e ∧ ∀ x, (Expr.ident x).Part e → net.lookup x = none →
        (net.perform (.set name (.expression text))).network.kindOf x =
          some (if x ∈ ((net.clear name).declare name).2.allotted e.namings then .intermediate
            else .named)) ∧
    ∀ (start : Network) (e : Expr), ∀ x ∈ start.allotted e.namings, start.lookup x = none ∧
      ∃ n before after, start.nextIntermediate ≤ n ∧ x = start.intermediateName n ∧
        e.namings = before ++ .result :: after ∧ .mention x ∉ before := by
  have hi := hr.integrity
  refine ⟨fun e hok x hpart hfree => ?_, fun text hok => ?_, fun name text hok => ?_,
    fun start e x hx => exists_of_mem_allotted hx⟩
  · obtain ⟨v, net', hout, hrun⟩ := Outcome.build_of_isOk (ends_evaluate hi e) .handle hok
    have hafter : (net.perform (.evaluate e)).network = net' := congrArg Outcome.network hout
    exact hafter ▸ kindOf_lower hi hrun hpart (.inl hfree)
  · obtain ⟨v, net', hout, e, hparse, hrun⟩ :=
      Outcome.build_of_isOk (ends_evaluateText hi text) .handle hok
    have hafter : (net.perform (.evaluateText text)).network = net' :=
      congrArg Outcome.network hout
    exact ⟨e, hparse, fun x hpart hfree => hafter ▸ kindOf_lower hi hrun hpart (.inl hfree)⟩
  · obtain ⟨-, net', hout, e, root, lowered, hparse, hrun, rfl⟩ :=
      Outcome.build_of_isOk (ends_definition hi name text) (fun _ => .done) hok
    have hafter : (net.perform (.set name (.expression text))).network = _ :=
      congrArg Outcome.network hout
    refine ⟨e, hparse, fun x hpart hfree => ?_⟩
    have hi' := Edits.integrity (edits_clear_declare hi name) hi
    have hstill := lookup_clear_of_free hi name hfree
    have hx : ((net.clear name).declare name).2.lookup x = none ∨
        ((net.clear name).declare name).2.kindOf x = some .named := by
      by_cases hne : x = name
      · exact .inr (hne ▸ kindOf_declare (hne ▸ hstill))
      · exact .inl ((lookup_declare_of_ne hne).trans hstill)
    obtain ⟨hg, hroot⟩ := (adds_lower hi' e).of_run hrun
    have hlive := live_declare (Edits.integrity (edits_clear hi name) hi) name
    have hlast : Grows lowered _ := .single (construct_define (Grows.live hg hlive) hroot)
    exact hafter ▸ hlast.kindOf (kindOf_lower hi' hrun hpart hx)

def capturing : Expr := .op "+" (.op "*" (.ident "a") (.ident "b")) (.ident "$0")

theorem identifier_named_iff_not_allotted_capturing :
    Reachable (empty .standard) ∧
      ((empty .standard).perform (.evaluate capturing)).network.kindOf "$0" = some .intermediate ∧
      ((empty .standard).perform (.evaluateText "$0 + a * b")).network.kindOf "$0" = some .named ∧
      ((empty .standard).perform (.set "$0" (.expression "a * b + $0"))).network.kindOf "$0" =
        some .named := by
  have hr : Reachable (empty .standard) := ⟨.standard, empty .standard, [], create_standard, rfl⟩
  obtain ⟨hevaluate, htext, hset, -⟩ := identifier_named_iff_not_allotted hr
  have hfirst : Expr.parse "$0 + a * b" =
      .ok (.op "+" (.ident "$0") (.op "*" (.ident "a") (.ident "b"))) := rfl
  have hlast : Expr.parse "a * b + $0" = .ok capturing := rfl
  refine ⟨hr, ?_, ?_, ?_⟩
  · refine (hevaluate capturing (by decide +kernel) "$0" (.right .refl) rfl).trans ?_
    decide +kernel
  · obtain ⟨e, he, h⟩ := htext "$0 + a * b" (by decide +kernel)
    rw [hfirst] at he
    cases he
    refine (h "$0" (.left .refl) rfl).trans ?_
    decide +kernel
  · obtain ⟨e, he, h⟩ := hset "$0" "a * b + $0" (by decide +kernel)
    rw [hlast] at he
    cases he
    refine (h "$0" (.right .refl) rfl).trans ?_
    decide +kernel

theorem intermediate_captures_identifier :
    Reachable (empty .standard) ∧ Expr.parse "a * b + $0" = .ok capturing ∧
      (Expr.ident "$0").Part capturing ∧ (empty .standard).lookup "$0" = none ∧
      ((empty .standard).perform (.evaluate capturing)).result.isOk ∧
      ((empty .standard).perform (.evaluate capturing)).network.kindOf "$0" =
        some .intermediate :=
  ⟨⟨.standard, empty .standard, [], create_standard, rfl⟩, rfl, .right .refl, rfl,
    by decide +kernel, by decide +kernel⟩

end Network

end ConstraintNet

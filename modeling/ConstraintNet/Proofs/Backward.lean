import ConstraintNet.Proofs.Planning

/-!
# Expressions solve backwards

A variable that is defined by an expression and given a value determines a name of the
expression that has none: solving carries the value down from the root, operation by
operation, to where the name stands.
-/

set_option autoImplicit false

namespace ConstraintNet

open Postfix

def Token.Sound : Token → Prop
  | .number value => value.isFinite
  | .identifier name => name ≠ ""
  | .operator _ | .openParen | .closeParen => True

theorem Token.Scanned.sound {t : Token} (ht : t.Scanned) : t.Sound := by
  cases ht with
  | number _ _ hf => exact hf
  | @identifier word hword =>
    have hname : String.ofList word ≠ "" := by simpa using hword.nonempty
    exact hname
  | openParen | closeParen | operator => trivial

theorem Postorder.check {ts : List Token} {e : Expr} (h : Postorder ts e)
    (hs : ∀ t ∈ ts, t.Sound) (net : Network) : net.check e = .ok () := by
  induction h with
  | number value =>
    have hf : value.isFinite = true := hs _ (List.mem_singleton_self _)
    rw [Network.check, if_pos hf]
  | identifier name =>
    have hname : name ≠ "" := hs _ (List.mem_singleton_self _)
    rw [Network.check, if_neg hname]
  | @op ls rs l r op _ _ ihl ihr =>
    have hl := ihl fun t ht => hs t (List.mem_append_left _ (List.mem_append_left _ ht))
    have hr := ihr fun t ht => hs t (List.mem_append_left _ (List.mem_append_right _ ht))
    simp [Network.check, Operator.ofSymbol?_symbol, hl, hr]
    rfl

theorem Expr.check_of_parse {text : String} {e : Expr} (h : Expr.parse text = .ok e)
    (net : Network) : net.check e = .ok () := by
  obtain ⟨rpn, hrpn, hpost⟩ := Expr.parse_eq_ok.mp h
  refine hpost.check (fun t ht => ?_) net
  have hmem := (rearranges_reorderFrom hrpn).perm.mem_iff.mp ht
  exact (Token.scanned_of_mem_scan (List.mem_of_mem_filter hmem)).sound

namespace Network

variable {base net : Network} {e : Expr} {text x name : String} {root goal v : VariableId}
  {a w value : Float} {d : Digest}

theorem definition_answers (hi : net.Integrity) (hparse : Expr.parse text = .ok e)
    (hname : name ≠ "") : (net.perform (.set name (.expression text))).result = .ok .done := by
  have hblank : ¬ Text.isBlankText text := by
    intro hblank
    obtain ⟨rpn, hrpn, hpost⟩ := Expr.parse_eq_ok.mp hparse
    rw [Token.scan_of_isBlankText hblank] at hrpn
    cases hrpn
    cases fold_postorder hpost
  have hc := Expr.check_of_parse hparse net
  have hends : Ends (Build.redefine name (.expression text)) net (fun _ _ => True)
      fun _ _ => False := by
    refine Ends.unless (fun h => hname h) fun _ => Ends.unless (fun h => hblank h) fun _ => ?_
    apply Ends.bind
    rw [Build.parse, hparse]
    apply Ends.bind
    apply Ends.get
    rw [hc]
    have hedits := edits_clear_declare hi name
    apply Ends.modifyGet
    apply Ends.modifyGet
    apply Ends.bind
    exact (ends_lower (Edits.integrity hedits hi) (Edits.check hedits e hc)).mono
      (fun _ _ _ => trivial) fun _ _ => False.elim
  have hset : net.perform (.set name (.expression text)) =
    .ofBuild (fun _ => .done) (Build.redefine name (.expression text)) net := rfl
  rw [hset]
  rcases Outcome.build_of_ends hends fun _ => .done with ⟨_, net', he, -⟩ | ⟨_, _, -, h⟩
  · rw [he]
  · exact h.elim

theorem perform_assign (hname : name ≠ "")
    (hv : net.lookup name = some v) (hf : a.isFinite) : net.perform (.assign name a) =
      ⟨.ok .done, net.updateVariable v (·.assign a .explicit), []⟩ := by
  have hdeclare : net.declare name = (v, net) := by simp [declare, hv]
  have hrun : (Build.assign name a .explicit).run net =
      .ok () (net.updateVariable v (·.assign a .explicit)) := by
    unfold Build.assign
    rw [if_neg hname]
    simp only [hf, Bool.not_true, Bool.false_eq_true, if_false]
    show EStateM.Result.ok () ((net.declare name).2.updateVariable (net.declare name).1
      (·.assign a .explicit)) = _
    rw [hdeclare]
  have hperform : net.perform (.assign name a) =
      .ofBuild (fun _ => .done) (Build.assign name a .explicit) net := rfl
  rw [hperform, Outcome.ofBuild, hrun]

theorem isFinite_of_assign
    (h : (net.perform (.assign name a)).result = .ok .done) : a.isFinite := by
  by_contra hf
  have hperform : net.perform (.assign name a) =
      .ofBuild (fun _ => .done) (Build.assign name a .explicit) net := rfl
  rw [hperform, Outcome.ofBuild, Build.assign] at h
  by_cases hname : name = ""
  · rw [if_pos hname] at h
    cases h
  · rw [if_neg hname] at h
    simp only [hf, Bool.not_false, if_true] at h
    cases h

theorem ne_empty_of_set {setting : Setting}
    (h : (net.perform (.set name setting)).result = .ok .done) : name ≠ "" := by
  rintro rfl
  cases h

theorem assign_definition (hi : net.Integrity) (hparse : Expr.parse text = .ok e)
    (hdone : (net.perform (.set name (.expression text))).result = .ok .done) :
    ∃ root lowered, (Build.lower e).run ((net.clear name).declare name).2 = .ok root lowered ∧
      ∀ {a : Float}, a.isFinite →
        (net.perform (.set name (.expression text))).network.perform (.assign name a) =
          ⟨.ok .done, lowered.definedAs ((net.clear name).declare name).1 root a, []⟩ := by
  obtain ⟨e', root, lowered, hparse', hrun, hdefined⟩ := perform_definition hi hdone
  rw [hparse] at hparse'
  cases hparse'
  refine ⟨root, lowered, hrun, fun {a} hf => ?_⟩
  have hbefore := Edits.integrity (edits_clear_declare hi name) hi
  have hgrown : Grows _ lowered := ((chains_lower hbefore e).of_run hrun).1
  have hlookup : (lowered.define ((net.clear name).declare name).1 root).lookup name =
      some ((net.clear name).declare name).1 :=
    hgrown.extends.lookup name _ (lookup_declare name _)
  rw [hdefined]
  exact perform_assign (ne_empty_of_set hdone) hlookup hf

theorem direct_congr (ha : e.Arithmetic)
    (h : ∀ name ∈ e.names, net.direct (.ident name) = base.direct (.ident name)) :
    net.direct e = base.direct e := by
  induction ha with
  | ident name => exact h name (List.mem_singleton_self _)
  | number value => rfl
  | op op _ _ ihl ihr =>
    have hl := ihl fun name hn => h name (List.mem_append_left _ hn)
    have hr := ihr fun name hn => h name (List.mem_append_right _ hn)
    simp only [direct, hl, hr]

theorem inverse_congr (ha : e.Arithmetic)
    (h : ∀ name ∈ e.names, net.direct (.ident name) = base.direct (.ident name)) :
    net.inverse x e a = base.inverse x e a := by
  induction ha generalizing a with
  | ident name => rfl
  | number value => rfl
  | op op hl hr ihl ihr =>
    have hnl {name : String} := fun hn => h name (List.mem_append_left _ hn)
    have hnr {name : String} := fun hn => h name (List.mem_append_right _ hn)
    simp only [inverse, direct_congr hl fun _ => hnl, direct_congr hr fun _ => hnr,
      ihl fun _ => hnl, ihr fun _ => hnr]

theorem clear_of_order (hi : net.Integrity) (hnone : net.order = []) (name : String) :
    net.clear name = net ∨ ∃ v, net.lookup name = some v ∧
      net.clear name = net.updateVariable v Variable.clear := by
  cases hname : net.lookup name with
  | none =>
    left
    rw [clear, hname]
  | some v =>
    right
    have hdefined : net.definitions.find? v = none := by
      apply Option.eq_none_iff_forall_ne_some.mpr
      intro r hr
      obtain ⟨-, rel, right, hrel, -⟩ := hi.defined v r hr
      rw [relationshipAt_eq_none_of_order hi hnone r] at hrel
      cases hrel
    refine ⟨v, rfl, ?_⟩
    simp only [clear, hname, undefine, hdefined]

/-- What a definition is lowered into, when there are no relationships. -/
structure Prepares (base before : Network) (name : String) : Prop where
  order : before.order = []
  others : ∀ other v y, other ≠ name → base.lookup other = some v → base.variableAt v = some y →
    before.lookup other = some v ∧ ∃ y', before.variableAt v = some y' ∧ y'.holding = y.holding
  lastDigest : before.lastDigest = base.lastDigest
  config : before.config = base.config

theorem prepares (hi : base.Integrity) (hnone : base.order = []) (name : String) :
    Prepares base ((base.clear name).declare name).2 name := by
  have hext := Grows.extends (grows_declare name (base.clear name))
  have hclear : (base.clear name).order = base.order ∧
      (base.clear name).lastDigest = base.lastDigest := by
    rcases clear_of_order hi hnone name with he | ⟨v, -, he⟩
    · rw [he]
      exact ⟨rfl, rfl⟩
    · rw [he]
      exact ⟨rfl, rfl⟩
  refine ⟨?_, fun other v y hne hv hy => ?_, hext.lastDigest.trans hclear.2,
    Edits.config (edits_clear_declare hi name)⟩
  · rw [declare_rest name (base.clear name)]
    exact hclear.1.trans hnone
  · have hcleared : (base.clear name).lookup other = some v ∧
        (base.clear name).variableAt v = some y := by
      rcases clear_of_order hi hnone name with he | ⟨u, hu, he⟩
      · rw [he]
        exact ⟨hv, hy⟩
      · have huv : u ≠ v := by
          rintro rfl
          exact hne (hi.lookup_inj hv hu)
        rw [he]
        refine ⟨hv, ?_⟩
        rw [variableAt_updateVariable, if_neg huv, hy]
    exact ⟨hext.lookup other v hcleared.1, hext.holding v y hcleared.2⟩

theorem Prepares.direct_ident {before : Network} {name other : String} {v : VariableId}
    (h : Prepares base before name) (hi : base.Integrity) (hne : other ≠ name)
    (hv : base.lookup other = some v) :
    before.direct (.ident other) = base.direct (.ident other) := by
  obtain ⟨y, hy⟩ := Option.isSome_iff_exists.mp (hi.live_of_lookup hv)
  obtain ⟨hlookup, y', hy', hh⟩ := h.others other v y hne hv hy
  simp [direct, pinnedAt, hlookup, hy', hv, hy, hh]

/-- A variable that was there and is not pinned means nothing once an expression has been
lowered, since results are new. -/
theorem meaning_eq_none_of_old {mentions : String → Prop} {answers : List VariableId}
    (hf : net.Forward) (hc : Chained mentions answers base net)
    (hblank : ∀ r, base.relationshipAt r = none) (he : Extends base net) {y : Variable}
    (hy : base.variableAt v = some y) (hfree : base.pinnedAt v = none) : net.meaning v = none := by
  by_contra hmeaning
  obtain ⟨u, hu⟩ := Option.ne_none_iff_exists'.mp hmeaning
  cases hf.meaning_eq_some.mp hu with
  | pinned hz hp hvalue =>
    obtain ⟨y', hy', hh⟩ := he.holding v y hy
    rw [hz] at hy'
    cases hy'
    rw [hh] at hp hvalue
    simp [pinnedAt, hy, hp, hvalue] at hfree
  | computed hr hresult =>
    obtain ⟨r, rel, hrel, rfl⟩ := hr
    have habsent := (hc.produces r rel (hblank r) hrel).absent
    rw [hresult, hy] at habsent
    cases habsent

/-- An expression mentions a name that is not pinned, once, and besides it only names that
are. The variable that it is to define is not mentioned. -/
structure OneUnknown (net : Network) (e : Expr) (x name : String) (goal : VariableId) : Prop where
  once : e.names.count x = 1
  apart : name ∉ e.names
  named : net.lookup x = some goal
  free : net.pinnedAt goal = none
  pins : ∀ other ∈ e.names, other ≠ x →
    ∃ v y, net.lookup other = some v ∧ net.variableAt v = some y ∧ y.holding.isPinned

namespace OneUnknown

theorem mem (h : base.OneUnknown e x name goal) : x ∈ e.names :=
  List.count_pos_iff.mp (by rw [h.once]; exact Nat.one_pos)

theorem ne_name (h : base.OneUnknown e x name goal) {other : String} (ho : other ∈ e.names) :
    other ≠ name := by
  rintro rfl
  exact h.apart ho

theorem knows (h : base.OneUnknown e x name goal) {other : String} (ho : other ∈ e.names) :
    ∃ v, base.lookup other = some v := by
  by_cases hx : other = x
  · exact ⟨goal, hx ▸ h.named⟩
  · obtain ⟨v, -, hv, -⟩ := h.pins other ho hx
    exact ⟨v, hv⟩

theorem prepared (h : base.OneUnknown e x name goal) (hi : base.Integrity) {before : Network}
    (hp : Prepares base before name) : before.OneUnknown e x name goal where
  once := h.once
  apart := h.apart
  named := by
    obtain ⟨y, hy⟩ := Option.isSome_iff_exists.mp (hi.live_of_lookup h.named)
    exact (hp.others x goal y (h.ne_name h.mem) h.named hy).1
  free := by
    obtain ⟨y, hy⟩ := Option.isSome_iff_exists.mp (hi.live_of_lookup h.named)
    obtain ⟨-, y', hy', hh⟩ := hp.others x goal y (h.ne_name h.mem) h.named hy
    simpa [pinnedAt, hy, hy', hh] using h.free
  pins other ho hne := by
    obtain ⟨v, y, hv, hy, hpin⟩ := h.pins other ho hne
    obtain ⟨hv', y', hy', hh⟩ := hp.others other v y (h.ne_name ho) hv hy
    exact ⟨v, y', hv', hy', hh ▸ hpin⟩

theorem mem_of_part {other : String} (hp : (Expr.ident other).Part e) : other ∈ e.names :=
  hp.names_subset (List.mem_singleton_self other)

theorem direct_eq_none (h : base.OneUnknown e x name goal) : base.direct (.ident x) = none := by
  simp only [direct, h.named, Option.bind_eq_bind, Option.bind_some, h.free]

theorem reads (h : base.OneUnknown e x name goal) (hi : base.Integrity)
    (hblank : ∀ r, base.relationshipAt r = none) (hext : Extends base net) (hf : net.Forward)
    {mentions : String → Prop} {answers : List VariableId}
    (hc : Chained mentions answers base net) : base.Reads net e := by
  intro other v hp hv
  by_cases hx : other = x
  · subst hx
    rw [hext.lookup other goal h.named] at hv
    cases hv
    obtain ⟨y, hy⟩ := Option.isSome_iff_exists.mp (hi.live_of_lookup h.named)
    rw [meaning_eq_none_of_old hf hc hblank hext hy h.free, h.direct_eq_none]
  · have hpins : base.Pins (.ident other) := by
      intro another hp'
      cases hp'
      exact h.pins other (mem_of_part hp) hx
    exact hpins.reads hext hf other v .refl hv

theorem source_ne (h : base.OneUnknown e x name goal) (hi : base.Integrity) {target : VariableId}
    (htarget : base.lookup name = some target)
    (hv : base.Source (fun other => (Expr.ident other).Part e) v) : v ≠ target := by
  rintro rfl
  rcases hv with hnew | ⟨other, hp, hv⟩
  · have hlive := hi.live_of_lookup htarget
    rw [hnew] at hlive
    cases hlive
  · exact h.ne_name (mem_of_part hp) (hi.lookup_inj hv htarget)

theorem inverted (h : base.OneUnknown e x name goal) (hi : base.Integrity) (hw : base.WellHeld)
    (hnone : base.order = []) (ha : e.Arithmetic) (hinv : base.inverse x e w = some value)
    (hf : w.isFinite) {target : VariableId} (htarget : base.lookup name = some target)
    (hrun : (Build.lower e).run base = .ok root net) :
    ∃ next wanted, Inverted base net e x root goal target w value next wanted := by
  have hblank := relationshipAt_eq_none_of_order hi hnone
  have hforward := forward_of_order hi hnone
  have hknows : base.Knows e := fun other hp => h.knows (mem_of_part hp)
  obtain ⟨(hg : Grows base net), hdone, hstands, -⟩ :=
    (lowers (.refl _) hi hforward e hknows).of_run hrun
  have hchained := ((chains_lower hi e).of_run hrun).2.1
  have hi' := hg.edits.integrity hi
  obtain ⟨next, wanted, hroute⟩ :=
    route_lower ha (.refl _) hi hforward hknows h.once h.named hrun hinv
  exact ⟨next, wanted, {
    arithmetic := ha
    carried := hinv
    unknown := h.direct_eq_none
    blank := hblank
    grown := hg
    forward := hdone.forward
    wellHeld := hg.edits.wellHeld hw
    chained := hchained
    reads := h.reads hi hblank hg.extends hdone.forward hchained
    stands := hstands
    named := hg.extends.lookup x goal h.named
    route := hroute
    finite := hf
    settable := by
      obtain ⟨z, hz, hk, -⟩ :=
        (hi'.registered name target).mp (hg.extends.lookup name target htarget)
      exact ⟨z, hz, hk⟩
    apart := fun r ht => h.source_ne hi htarget (hchained.touched r target (hblank r) ht) rfl
    root_ne := h.source_ne hi htarget (hchained.answered root (List.mem_singleton_self root))
    goal_ne := h.source_ne hi htarget (.inr ⟨x, ha.part_of_mem_names h.mem, h.named⟩) }⟩

end OneUnknown

/-- In a network without relationships, let a text mention a name once that is not pinned,
besides others that are. When another variable is set to the text and assigned a value, then
solving a fresh digest gives the name the value that the text needs it to have, by the inverses
of the operations on the way down to it; whatever comes of further passes, and without them the
solve answers. -/
theorem expression_solves_backwards (hr : Reachable base) (hnone : base.order = [])
    (hparse : Expr.parse text = .ok e) (hx : base.OneUnknown e x name goal)
    (hinv : base.inverse x e w = some value) :
    (name ≠ "" → (base.perform (.set name (.expression text))).result = .ok .done) ∧
    ((base.perform (.set name (.expression text))).result = .ok .done →
      let defined := (base.perform (.set name (.expression text))).network
      (w.isFinite → (defined.perform (.assign name w)).result = .ok .done) ∧
      ((defined.perform (.assign name w)).result = .ok .done →
        ∀ d, base.lastDigest < d →
          let outcome := (defined.perform (.assign name w)).network.perform (.solve d)
          outcome.network.lookup x = some goal ∧
          outcome.network.valueAt d goal = some value ∧
          (¬ base.config.fixpoint → ∃ report, outcome.result = .ok (.report report)))) := by
  have hi := hr.integrity
  refine ⟨definition_answers hi hparse, fun hdone => ?_⟩
  intro defined
  obtain ⟨root, lowered, hrun, hassign⟩ := assign_definition hi hparse hdone
  refine ⟨fun hf => by rw [hassign hf], fun hassigned d hd => ?_⟩
  have hf := isFinite_of_assign hassigned
  have hreachable : Reachable (defined.perform (.assign name w)).network :=
    (hr.perform (.set name (.expression text))).perform (.assign name w)
  rw [hassign hf] at hreachable ⊢
  obtain ⟨rpn, -, hpost⟩ := Expr.parse_eq_ok.mp hparse
  have ha := hpost.arithmetic
  have hprep := prepares hi hnone name
  have hedits := edits_clear_declare hi name
  have hinverse : ((base.clear name).declare name).2.inverse x e w = some value := by
    rw [← hinv]
    refine inverse_congr ha fun other ho => ?_
    obtain ⟨v, hv⟩ := hx.knows ho
    exact hprep.direct_ident hi (hx.ne_name ho) hv
  obtain ⟨next, wanted, h⟩ := (hx.prepared hi hprep).inverted (hedits.integrity hi)
    (hedits.wellHeld hr.wellHeld) hprep.order ha hinverse hf (lookup_declare name _) hrun
  have hlast : lowered.lastDigest = base.lastDigest :=
    h.grown.extends.lastDigest.trans hprep.lastDigest
  have hconfig : lowered.config = base.config := h.grown.edits.config.trans hprep.config
  rw [← hconfig]
  exact h.solve hreachable (hlast ▸ hd)

def unknownDividend : Network :=
  (empty .standard).after [.assign "a" 6, .assign "b" 3, .declare "x"]

def differenceOfQuotient : Expr := .op "-" (.ident "a") (.op "/" (.ident "x") (.ident "b"))

theorem oneUnknown_unknownDividend :
    unknownDividend.OneUnknown differenceOfQuotient "x" "W" ⟨2⟩ where
  once := by decide
  apart := by decide
  named := rfl
  free := rfl
  pins other ho hne := by
    have hcases : other = "a" ∨ other = "x" ∨ other = "b" := by
      simpa [differenceOfQuotient, Expr.names] using ho
    rcases hcases with rfl | rfl | rfl
    · exact ⟨⟨0⟩, _, rfl, rfl, rfl⟩
    · exact absurd rfl hne
    · exact ⟨⟨1⟩, _, rfl, rfl, rfl⟩

theorem expression_solves_backwards_differenceOfQuotient :
    Reachable unknownDividend ∧ unknownDividend.order = [] ∧
      Expr.parse "a - x / b" = .ok differenceOfQuotient ∧
      unknownDividend.OneUnknown differenceOfQuotient "x" "W" ⟨2⟩ ∧
      unknownDividend.inverse "x" differenceOfQuotient 4 = some 6 ∧
      unknownDividend.lastDigest < 1 ∧
      (unknownDividend.perform (.set "W" (.expression "a - x / b"))).result = .ok .done ∧
      (((unknownDividend.perform (.set "W" (.expression "a - x / b"))).network.perform
        (.assign "W" 4)).network.perform (.solve 1)).network.valueAt 1 ⟨2⟩ = some 6 := by
  have hr : Reachable unknownDividend := ⟨.standard, empty .standard, _, create_standard, rfl⟩
  have hparse : Expr.parse "a - x / b" = .ok differenceOfQuotient := rfl
  have hinv : unknownDividend.inverse "x" differenceOfQuotient 4 = some 6 := by decide +kernel
  have hd : unknownDividend.lastDigest < 1 := by decide +kernel
  have hf : (4 : Float).isFinite := by decide +kernel
  obtain ⟨hset, hsolves⟩ :=
    expression_solves_backwards hr rfl hparse oneUnknown_unknownDividend hinv
  have hdone := hset (by decide)
  obtain ⟨hassign, hvalue⟩ := hsolves hdone
  exact ⟨hr, rfl, hparse, oneUnknown_unknownDividend, hinv, hd, hdone,
    (hvalue (hassign hf) 1 hd).2.1⟩

end Network

end ConstraintNet

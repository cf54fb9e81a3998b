import Mathlib.Data.List.Sort
import ConstraintNet.Proofs.Grammar

/-!
# What reordering puts out

Tokens are refused if their parentheses are not balanced, and for no other reason. Of others
every token but the parentheses is put out, and none twice. An operand never waits, so operands
keep their order and come out ahead of whatever stands behind them.
-/

set_option autoImplicit false

namespace ConstraintNet

namespace Token

def isOpen : Token → Bool
  | .openParen => true
  | _ => false

def isClose : Token → Bool
  | .closeParen => true
  | _ => false

def isParen : Token → Bool
  | .openParen | .closeParen => true
  | _ => false

def isOperand : Token → Bool
  | .number _ | .identifier _ => true
  | _ => false

def isOperator : Token → Bool
  | .operator _ => true
  | _ => false

def balanced (opened : Nat) : List Token → Bool
  | [] => opened == 0
  | .openParen :: ts => balanced (opened + 1) ts
  | .closeParen :: ts => opened != 0 && balanced (opened - 1) ts
  | .number _ :: ts | .identifier _ :: ts | .operator _ :: ts => balanced opened ts

/-- Read from the left, tokens never close more parentheses than are open, where some are open
already. -/
def Closable (opened : Nat) (ts : List Token) : Prop :=
  ∀ before, before <+: ts → before.countP isClose ≤ opened + before.countP isOpen

variable {opened : Nat} {token : Token} {ts : List Token}

theorem closable_zero : Closable 0 ts ↔
    ∀ before, before <+: ts → before.countP isClose ≤ before.countP isOpen := by
  simp only [Closable, Nat.zero_add]

theorem closable_nil (opened : Nat) : Closable opened [] := by
  intro before hbefore
  rw [List.prefix_nil.mp hbefore]
  exact Nat.zero_le _

theorem closable_cons : Closable opened (token :: ts) ↔ ∀ before, before <+: ts →
    (token :: before).countP isClose ≤ opened + (token :: before).countP isOpen := by
  constructor
  · intro h before hbefore
    exact h _ ((List.prefix_cons_inj token).mpr hbefore)
  · intro h before hbefore
    rcases List.prefix_cons_iff.mp hbefore with rfl | ⟨rest, rfl, hrest⟩
    · exact Nat.zero_le _
    · exact h rest hrest

theorem closable_openParen : Closable opened (.openParen :: ts) ↔ Closable (opened + 1) ts := by
  rw [closable_cons]
  refine forall₂_congr fun before _ => ?_
  rw [List.countP_cons_of_neg (by decide), List.countP_cons_of_pos (by decide)]
  omega

theorem closable_closeParen :
    Closable opened (.closeParen :: ts) ↔ opened ≠ 0 ∧ Closable (opened - 1) ts := by
  have hclose (before : List Token) :
      (Token.closeParen :: before).countP isClose = before.countP isClose + 1 :=
    List.countP_cons_of_pos rfl
  have hopen (before : List Token) :
      (Token.closeParen :: before).countP isOpen = before.countP isOpen :=
    List.countP_cons_of_neg (by decide)
  rw [closable_cons]
  constructor
  · intro h
    have hfirst := h [] List.nil_prefix
    rw [hclose, hopen, List.countP_nil, List.countP_nil] at hfirst
    refine ⟨by omega, fun before hbefore => ?_⟩
    have hle := h before hbefore
    rw [hclose, hopen] at hle
    omega
  · rintro ⟨hopened, h⟩ before hbefore
    have hle := h before hbefore
    rw [hclose, hopen]
    omega

theorem closable_of_not_isParen (h : token.isParen = false) :
    Closable opened (token :: ts) ↔ Closable opened ts := by
  rw [closable_cons]
  refine forall₂_congr fun before _ => ?_
  cases token with
  | number | identifier | operator => rfl
  | openParen | closeParen => cases h

theorem balanced_iff : balanced opened ts ↔
    Closable opened ts ∧ ts.countP isClose = opened + ts.countP isOpen := by
  induction ts generalizing opened with
  | nil =>
    rw [balanced, beq_iff_eq]
    exact ⟨fun h => ⟨closable_nil opened, h.symm⟩, fun h => h.2.symm⟩
  | cons token ts ih =>
    cases token with
    | number | identifier | operator =>
      rw [balanced, ih, closable_of_not_isParen rfl]
      rfl
    | openParen =>
      rw [balanced, ih, closable_openParen, List.countP_cons_of_neg (by decide),
        List.countP_cons_of_pos (by decide)]
      refine and_congr_right fun _ => ?_
      omega
    | closeParen =>
      rw [balanced, Bool.and_eq_true, bne_iff_ne, ih, closable_closeParen, and_assoc,
        List.countP_cons_of_pos (by decide), List.countP_cons_of_neg (by decide)]
      refine and_congr_right fun hopened => and_congr_right fun _ => ?_
      omega

end Token

namespace Postfix

open Token

def opened (stack : List Waiting) : Nat :=
  stack.countP fun
    | .openParen => true
    | .operator _ => false

def waiting (stack : List Waiting) : List Token :=
  stack.filterMap fun
    | .openParen => none
    | .operator op => some (.operator op)

@[simp] theorem opened_openParen (stack : List Waiting) :
    opened (.openParen :: stack) = opened stack + 1 := by
  simp [opened]

@[simp] theorem opened_operator (op : Operator) (stack : List Waiting) :
    opened (.operator op :: stack) = opened stack := by
  simp [opened]

@[simp] theorem waiting_openParen (stack : List Waiting) :
    waiting (.openParen :: stack) = waiting stack := rfl

@[simp] theorem waiting_operator (op : Operator) (stack : List Waiting) :
    waiting (.operator op :: stack) = .operator op :: waiting stack := rfl

theorem not_mem_waiting {token : Token} (h : token.isOperand) (stack : List Waiting) :
    token ∉ waiting stack := by
  induction stack with
  | nil => exact List.not_mem_nil
  | cons top stack ih =>
    cases top with
    | openParen => exact ih
    | operator op =>
      intro hmem
      rcases List.mem_cons.mp hmem with rfl | hmem
      · cases h
      · exact ih hmem

theorem pops_popTighter (op : Operator) (stack : List Waiting) :
    (popTighter op stack).1 ++ waiting (popTighter op stack).2 = waiting stack ∧
      opened (popTighter op stack).2 = opened stack := by
  induction stack with
  | nil => exact ⟨rfl, rfl⟩
  | cons top stack ih =>
    cases top with
    | openParen => exact ⟨rfl, rfl⟩
    | operator top =>
      unfold popTighter
      split
      · exact ⟨rfl, rfl⟩
      · simpa using ih

theorem pops_popGroup? {stack rest : List Waiting} {popped : List Token}
    (h : popGroup? stack = some (popped, rest)) :
    popped ++ waiting rest = waiting stack ∧ opened stack = opened rest + 1 := by
  induction stack generalizing popped with
  | nil => cases h
  | cons top stack ih =>
    cases top with
    | openParen =>
      cases h
      simp
    | operator top =>
      simp only [popGroup?, Option.bind_eq_bind, Option.bind_eq_some_iff] at h
      obtain ⟨⟨popped', rest'⟩, hgroup, hsome⟩ := h
      cases hsome
      obtain ⟨hwaiting, hopened⟩ := ih hgroup
      simp [hwaiting, hopened]

theorem isSome_popGroup? (stack : List Waiting) :
    (popGroup? stack).isSome = (opened stack != 0) := by
  induction stack with
  | nil => rfl
  | cons top stack ih =>
    cases top with
    | openParen => simp [popGroup?]
    | operator top =>
      rw [opened_operator, ← ih]
      simp [popGroup?, Option.isSome_bind]

theorem popAll?_eq (stack : List Waiting) :
    popAll? stack = if opened stack = 0 then some (waiting stack) else none := by
  induction stack with
  | nil => rfl
  | cons top stack ih =>
    cases top with
    | openParen => simp [popAll?]
    | operator top =>
      simp only [popAll?, ih, opened_operator, waiting_operator]
      split <;> rfl

theorem isOk_map {α β : Type} (f : α → β) (x : Except SyntaxError α) :
    (f <$> x).isOk = x.isOk := by
  cases x <;> rfl

theorem isOk_reorderFrom (whole : List Token) (stack : List Waiting) (ts : List Token) :
    (reorderFrom whole stack ts).isOk = balanced (opened stack) ts := by
  induction ts generalizing stack with
  | nil =>
    rw [reorderFrom, popAll?_eq]
    by_cases h : opened stack = 0 <;> simp [h, Token.balanced, Except.isOk, Except.toBool]
  | cons token ts ih =>
    cases token with
    | number | identifier => simp [reorderFrom, isOk_map, ih, Token.balanced]
    | operator op =>
      simp [reorderFrom, isOk_map, ih, (pops_popTighter op stack).2, Token.balanced]
    | openParen => rw [reorderFrom, ih, opened_openParen, Token.balanced]
    | closeParen =>
      rw [reorderFrom, Token.balanced, ← isSome_popGroup?]
      cases hpop : popGroup? stack with
      | none => rfl
      | some pop => simp [isOk_map, ih, (pops_popGroup? hpop).2]

theorem map_eq_ok {α β : Type} {f : α → β} {x : Except SyntaxError α} {b : β}
    (h : f <$> x = .ok b) : ∃ a, x = .ok a ∧ b = f a := by
  cases x with
  | error fault => cases h
  | ok a =>
    cases h
    exact ⟨a, rfl, rfl⟩

theorem map_eq_error {α β : Type} {f : α → β} {x : Except SyntaxError α} {fault : SyntaxError}
    (h : f <$> x = .error fault) : x = .error fault := by
  cases x with
  | error =>
    cases h
    rfl
  | ok => cases h

theorem fault_of_reorderFrom {whole : List Token} {stack : List Waiting} {ts : List Token}
    {fault : SyntaxError} (h : reorderFrom whole stack ts = .error fault) :
    (fault = .unmatchedClose whole ∧ ¬ Closable (opened stack) ts) ∨
    (fault = .unmatchedOpen whole ∧ Closable (opened stack) ts) := by
  induction ts generalizing stack with
  | nil =>
    unfold reorderFrom at h
    split at h
    · cases h
    · cases h
      exact .inr ⟨rfl, closable_nil _⟩
  | cons token ts ih =>
    cases token with
    | number | identifier =>
      simp only [reorderFrom, bind_pure_comp] at h
      rw [closable_of_not_isParen rfl]
      exact ih (map_eq_error h)
    | operator op =>
      simp only [reorderFrom, bind_pure_comp] at h
      have hrest := ih (map_eq_error h)
      rw [opened_operator, (pops_popTighter op stack).2] at hrest
      rwa [closable_of_not_isParen rfl]
    | openParen =>
      rw [reorderFrom] at h
      rw [closable_openParen, ← opened_openParen]
      exact ih h
    | closeParen =>
      rw [reorderFrom] at h
      rw [closable_closeParen, ← bne_iff_ne, ← isSome_popGroup?]
      split at h
      · rename_i hpop
        rw [bind_pure_comp] at h
        have hrest := ih (map_eq_error h)
        rw [hpop, (pops_popGroup? hpop).2, Nat.add_sub_cancel]
        simpa using hrest
      · rename_i hpop
        cases h
        rw [hpop]
        refine .inl ⟨rfl, ?_⟩
        rintro ⟨hsome, -⟩
        cases hsome

theorem eq_waiting_of_reorderFrom_nil {whole out : List Token} {stack : List Waiting}
    (h : reorderFrom whole stack [] = .ok out) : out = waiting stack := by
  rw [reorderFrom, popAll?_eq] at h
  by_cases hopened : opened stack = 0
  · rw [if_pos hopened] at h
    exact (Except.ok.inj h).symm
  · rw [if_neg hopened] at h
    cases h

section Places

variable {ι : Type} {token : ι → Token} {held kept popped rest order : List ι} {i j : ι}
  {stack : List Waiting}

theorem not_mem_held (hheld : held.map token = waiting stack) (hj : (token j).isOperand) :
    j ∉ held := by
  intro hmem
  exact not_mem_waiting hj stack (hheld ▸ List.mem_map_of_mem hmem)

variable [LT ι]

/-- Places in the order in which their tokens are put out, where those of `held` wait on the
stack and those of `rest` are still to come. -/
structure PutsOut (token : ι → Token) (held rest order : List ι) : Prop where
  perm : order.Perm (held ++ rest.filter fun i => !(token i).isParen)
  /-- What comes out ahead of an operand stood before it. -/
  ahead : order.Pairwise fun i j => (token j).isOperand → i < j

theorem PutsOut.mem_rest (h : PutsOut token held rest order) (hj : j ∈ order) (hnot : j ∉ held) :
    j ∈ rest := by
  rcases List.mem_append.mp (h.perm.mem_iff.mp hj) with hheld | hrest
  · exact absurd hheld hnot
  · exact List.mem_of_mem_filter hrest

theorem PutsOut.last (hheld : held.map token = waiting stack) : PutsOut token held [] held where
  perm := by rw [List.filter_nil, List.append_nil]
  ahead := List.pairwise_of_forall_mem_list fun _ _ _ hj hoperand =>
    absurd hj (not_mem_held hheld hoperand)

theorem PutsOut.operand (h : PutsOut token held rest order) (hi : (token i).isOperand)
    (hheld : held.map token = waiting stack) (hrest : ∀ j ∈ rest, i < j) :
    PutsOut token held (i :: rest) (i :: order) where
  perm := by
    have hparen : (token i).isParen = false := by
      cases ht : token i with
      | number | identifier | operator => rfl
      | openParen | closeParen => simp [ht, isOperand] at hi
    rw [List.filter_cons_of_pos (by simp [hparen])]
    exact (h.perm.cons i).trans List.perm_middle.symm
  ahead := List.pairwise_cons.mpr ⟨fun j hj hoperand =>
    hrest j (h.mem_rest hj (not_mem_held hheld hoperand)), h.ahead⟩

theorem PutsOut.operator (h : PutsOut token (i :: held) rest order)
    (hi : (token i).isParen = false) : PutsOut token held (i :: rest) order where
  perm := by
    rw [List.filter_cons_of_pos (by simp [hi])]
    exact h.perm.trans List.perm_middle.symm
  ahead := h.ahead

theorem PutsOut.paren (h : PutsOut token held rest order) (hi : (token i).isParen) :
    PutsOut token held (i :: rest) order where
  perm := by
    rw [List.filter_cons_of_neg (by simp [hi])]
    exact h.perm
  ahead := h.ahead

theorem PutsOut.pop (h : PutsOut token kept rest order)
    (hheld : (popped ++ kept).map token = waiting stack)
    (hbefore : ∀ i ∈ popped, ∀ j ∈ rest, i < j) :
    PutsOut token (popped ++ kept) rest (popped ++ order) where
  perm := by
    rw [List.append_assoc]
    exact h.perm.append_left popped
  ahead := by
    have hnot (j : ι) (hoperand : (token j).isOperand) : j ∉ popped ∧ j ∉ kept := by
      simpa using not_mem_held hheld hoperand
    refine List.pairwise_append.mpr ⟨?_, h.ahead, fun i hi j hj hoperand => ?_⟩
    · exact List.pairwise_of_forall_mem_list fun _ _ j hj hoperand =>
        absurd hj (hnot j hoperand).1
    · exact hbefore i hi j (h.mem_rest hj (hnot j hoperand).2)

/-- Reordering the tokens of places, in order and behind those of the stack, puts out the
places. -/
theorem exists_putsOut {whole out : List Token}
    (h : reorderFrom whole stack (rest.map token) = .ok out)
    (hheld : held.map token = waiting stack) (hrest : rest.Pairwise (· < ·))
    (hbefore : ∀ i ∈ held, ∀ j ∈ rest, i < j) :
    ∃ order, order.map token = out ∧ PutsOut token held rest order := by
  -- Whatever comes next, what waits are operators, and they stood before all that is to come.
  induction rest generalizing stack held out with
  | nil => exact ⟨held, hheld.trans (eq_waiting_of_reorderFrom_nil h).symm, .last hheld⟩
  | cons i rest ih =>
    obtain ⟨hfirst, hrest⟩ := List.pairwise_cons.mp hrest
    have hbehind (j : ι) (hj : j ∈ held) (k : ι) (hk : k ∈ rest) : j < k :=
      hbefore j hj k (List.mem_cons_of_mem i hk)
    rw [List.map_cons] at h
    cases hi : token i with
    | number | identifier =>
      rw [hi, reorderFrom, bind_pure_comp] at h
      obtain ⟨out, hout, rfl⟩ := map_eq_ok h
      obtain ⟨order, rfl, horder⟩ := ih hout hheld hrest hbehind
      exact ⟨i :: order, by rw [List.map_cons, hi],
        horder.operand (by rw [hi]; rfl) hheld hfirst⟩
    | operator op =>
      simp only [hi, reorderFrom, bind_pure_comp] at h
      obtain ⟨out, hout, rfl⟩ := map_eq_ok h
      obtain ⟨popped, kept, rfl, hpopped, hkept⟩ :=
        List.map_eq_append_iff.mp (hheld.trans (pops_popTighter op stack).1.symm)
      -- The operator waits on top of what was kept, and stood before all that follows as well.
      have hpushed : (i :: kept).map token = waiting (.operator op :: (popTighter op stack).2) := by
        rw [List.map_cons, hi, hkept, waiting_operator]
      obtain ⟨order, rfl, horder⟩ := ih hout hpushed hrest (List.forall_mem_cons.mpr
        ⟨hfirst, fun j hj => hbehind j (List.mem_append_right popped hj)⟩)
      have hwaits := horder.operator (by rw [hi]; rfl)
      exact ⟨popped ++ order, by rw [List.map_append, hpopped],
        hwaits.pop hheld fun j hj => hbefore j (List.mem_append_left kept hj)⟩
    | openParen =>
      rw [hi, reorderFrom] at h
      obtain ⟨order, rfl, horder⟩ := ih h hheld hrest hbehind
      exact ⟨order, rfl, horder.paren (by rw [hi]; rfl)⟩
    | closeParen =>
      rw [hi, reorderFrom] at h
      split at h
      · rename_i hpop
        rw [bind_pure_comp] at h
        obtain ⟨out, hout, rfl⟩ := map_eq_ok h
        obtain ⟨popped, kept, rfl, hpopped, hkept⟩ :=
          List.map_eq_append_iff.mp (hheld.trans (pops_popGroup? hpop).1.symm)
        obtain ⟨order, rfl, horder⟩ := ih hout hkept hrest fun j hj =>
          hbehind j (List.mem_append_right popped hj)
        have hclosed : PutsOut token kept (i :: rest) order := horder.paren (by rw [hi]; rfl)
        exact ⟨popped ++ order, by rw [List.map_append, hpopped],
          hclosed.pop hheld fun j hj => hbefore j (List.mem_append_left kept hj)⟩
      · cases h

end Places

variable {ts out : List Token}

theorem map_get_filter_finRange (ts : List Token) (keep : Token → Bool) :
    ((List.finRange ts.length).filter fun i => keep (ts.get i)).map ts.get = ts.filter keep := by
  calc
    _ = ((List.finRange ts.length).map ts.get).filter keep := List.filter_map.symm
    _ = ts.filter keep := by rw [List.map_get_finRange]

theorem exists_order {whole : List Token} (h : reorderFrom whole [] ts = .ok out) :
    ∃ order, order.map ts.get = out ∧ PutsOut ts.get [] (List.finRange ts.length) order := by
  rw [← List.map_get_finRange ts] at h
  exact exists_putsOut h rfl (List.sortedLT_finRange ts.length).pairwise fun _ hi => nomatch hi

theorem PutsOut.operands {n : Nat} {token : Fin n → Token} {rest order : List (Fin n)}
    (h : PutsOut token [] rest order) (hrest : rest.Pairwise (· < ·)) :
    order.filter (fun i => (token i).isOperand) = rest.filter fun i => (token i).isOperand := by
  have hsorted : (order.filter fun i => (token i).isOperand).Pairwise (· < ·) :=
    List.pairwise_filter.mpr (h.ahead.imp fun hij _ hj => hij hj)
  have hperm := h.perm.filter fun i => (token i).isOperand
  rw [List.nil_append, List.filter_filter] at hperm
  refine List.Perm.eq_of_pairwise' hsorted (hrest.filter _) (hperm.trans (.of_eq ?_))
  refine List.filter_congr fun i _ => ?_
  cases token i <;> rfl

/-- The tokens without parentheses, and the operands among them in the same order. -/
structure Rearranges (ts out : List Token) : Prop where
  perm : out.Perm (ts.filter (!·.isParen))
  operands : out.filter isOperand = ts.filter isOperand

theorem rearranges_reorderFrom {whole : List Token} (h : reorderFrom whole [] ts = .ok out) :
    Rearranges ts out := by
  obtain ⟨order, hout, horder⟩ := exists_order h
  constructor
  · rw [← hout, ← map_get_filter_finRange]
    exact horder.perm.map ts.get
  · calc
      _ = (order.filter fun i => (ts.get i).isOperand).map ts.get := by
        rw [← hout, List.filter_map]
        rfl
      _ = ts.filter isOperand := by
        rw [horder.operands (List.sortedLT_finRange ts.length).pairwise, map_get_filter_finRange]

/-- The places at which the tokens that are put out stood: each place once, unless there is a
parenthesis. -/
structure Origins (tokens rpn : List Token) (origin : Fin rpn.length → Fin tokens.length) :
    Prop where
  injective : Function.Injective origin
  token_eq : ∀ k, tokens[origin k] = rpn[k]
  range : ∀ i, (∃ k, origin k = i) ↔ tokens[i].isParen = false
  /-- What stood behind an operand is not put out before it. -/
  behind : ∀ k l, rpn[k].isOperand → origin k < origin l → k < l

theorem exists_origins {whole : List Token} (h : reorderFrom whole [] ts = .ok out) :
    ∃ origin, Origins ts out origin := by
  obtain ⟨order, rfl, horder⟩ := exists_order h
  have hperm : order.Perm ((List.finRange ts.length).filter fun i => !(ts.get i).isParen) :=
    horder.perm
  have hlength : (order.map ts.get).length = order.length := List.length_map _
  refine ⟨fun k => order.get (k.cast hlength), ?_, ?_, ?_, ?_⟩
  · intro k l hkl
    have hnodup : order.Nodup := hperm.nodup_iff.mpr ((List.nodup_finRange _).filter _)
    exact Fin.cast_injective _ (List.nodup_iff_injective_get.mp hnodup hkl)
  · intro k
    simp
  · intro i
    constructor
    · rintro ⟨k, rfl⟩
      have hmem := hperm.mem_iff.mp (List.get_mem order (k.cast hlength))
      simpa using (List.mem_filter.mp hmem).2
    · intro hi
      have hmem : i ∈ order :=
        hperm.mem_iff.mpr (List.mem_filter.mpr ⟨List.mem_finRange i, by simpa using hi⟩)
      obtain ⟨k, hk⟩ := List.mem_iff_get.mp hmem
      exact ⟨k.cast hlength.symm, hk⟩
  · intro k l hk hlt
    by_contra hle
    rcases (not_lt.mp hle).eq_or_lt with rfl | hlk
    · exact lt_irrefl _ hlt
    · have hahead := List.pairwise_iff_get.mp horder.ahead (l.cast hlength) (k.cast hlength) hlk
      exact lt_asymm hlt (hahead (by simpa using hk))

theorem ofInfix_outcome (tokens : List Token) :
    (Closable 0 tokens ∧ tokens.countP isClose = tokens.countP isOpen ∧
      ∃ rpn, ofInfix tokens = .ok rpn) ∨
    (Closable 0 tokens ∧ tokens.countP isClose < tokens.countP isOpen ∧
      ofInfix tokens = .error (.unmatchedOpen tokens)) ∨
    (¬ Closable 0 tokens ∧ ofInfix tokens = .error (.unmatchedClose tokens)) := by
  have hbalanced : (ofInfix tokens).isOk ↔
      Closable 0 tokens ∧ tokens.countP isClose = 0 + tokens.countP isOpen := by
    rw [← balanced_iff]
    exact Bool.eq_iff_iff.mp (isOk_reorderFrom tokens [] tokens)
  rw [Nat.zero_add] at hbalanced
  cases h : ofInfix tokens with
  | ok rpn =>
    rw [h] at hbalanced
    obtain ⟨hclosable, hcount⟩ := hbalanced.mp rfl
    exact .inl ⟨hclosable, hcount, rpn, rfl⟩
  | error fault =>
    rcases fault_of_reorderFrom h with ⟨rfl, hclosable⟩ | ⟨rfl, hclosable⟩
    · exact .inr (.inr ⟨hclosable, rfl⟩)
    · have hle := closable_zero.mp hclosable tokens (List.prefix_refl tokens)
      have hne (hcount : tokens.countP isClose = tokens.countP isOpen) : False := by
        have hok := hbalanced.mpr ⟨hclosable, hcount⟩
        rw [h] at hok
        cases hok
      exact .inr (.inl ⟨hclosable, lt_of_le_of_ne hle hne, rfl⟩)

theorem ofInfix_outcome_iff (tokens : List Token) :
    ((∃ rpn, ofInfix tokens = .ok rpn) ↔
      Closable 0 tokens ∧ tokens.countP isClose = tokens.countP isOpen) ∧
    (ofInfix tokens = .error (.unmatchedClose tokens) ↔ ¬ Closable 0 tokens) ∧
    (ofInfix tokens = .error (.unmatchedOpen tokens) ↔
      Closable 0 tokens ∧ tokens.countP isClose < tokens.countP isOpen) := by
  rcases ofInfix_outcome tokens with ⟨hc, hcount, rpn, h⟩ | ⟨hc, hcount, h⟩ | ⟨hc, h⟩
  · simp [h, hc, hcount]
  · simp [h, hc, hcount, hcount.ne]
  · simp [h, hc]

/-- Tokens are put into postfix order exactly if their parentheses are balanced, and the fault
tells on which side one is missing. No parenthesis is put out, the operands are put out in order
and the operators in some order, and each operator comes out after all operands that it stood
behind. -/
theorem reordering_keeps_tokens (tokens : List Token) :
    ((∃ rpn, ofInfix tokens = .ok rpn) ↔
      (∀ before, before <+: tokens → before.countP isClose ≤ before.countP isOpen) ∧
      tokens.countP isClose = tokens.countP isOpen) ∧
    (ofInfix tokens = .error (.unmatchedClose tokens) ↔
      ∃ before, before <+: tokens ∧ before.countP isOpen < before.countP isClose) ∧
    (ofInfix tokens = .error (.unmatchedOpen tokens) ↔
      (∀ before, before <+: tokens → before.countP isClose ≤ before.countP isOpen) ∧
      tokens.countP isClose < tokens.countP isOpen) ∧
    ∀ rpn, ofInfix tokens = .ok rpn →
      (∀ token ∈ rpn, token.isParen = false) ∧
      rpn.filter isOperand = tokens.filter isOperand ∧
      (rpn.filter isOperator).Perm (tokens.filter isOperator) ∧
      ∃ origin, Origins tokens rpn origin := by
  have hexists : (∃ before, before <+: tokens ∧ before.countP isOpen < before.countP isClose) ↔
      ¬ Closable 0 tokens := by
    simp only [closable_zero, not_forall, Nat.not_le, exists_prop]
  rw [hexists, ← closable_zero]
  -- The three conditions exclude each other.
  obtain ⟨hok, hclose, hopen⟩ := ofInfix_outcome_iff tokens
  refine ⟨hok, hclose, hopen, fun rpn hrpn => ?_⟩
  obtain ⟨hperm, hoperands⟩ := rearranges_reorderFrom hrpn
  refine ⟨fun token htoken => ?_, hoperands, ?_, exists_origins hrpn⟩
  · have hkept := List.mem_filter.mp (hperm.mem_iff.mp htoken)
    simpa using hkept.2
  · have hoperators := hperm.filter isOperator
    rw [List.filter_filter] at hoperators
    refine hoperators.trans (.of_eq (List.filter_congr fun token _ => ?_))
    cases token <;> rfl

theorem reordering_keeps_tokens_grouped :
    let tokens := [.identifier "a", .operator .sub, .openParen, .identifier "b", .operator .add,
      .number 2, .closeParen, .operator .mul, .identifier "c", .operator .sub, .identifier "d"]
    let rpn := [.identifier "a", .identifier "b", .number 2, .operator .add, .identifier "c",
      .operator .mul, .operator .sub, .identifier "d", .operator .sub]
    ofInfix tokens = .ok rpn ∧
      (∀ before, before <+: tokens → before.countP isClose ≤ before.countP isOpen) ∧
      (∀ token ∈ rpn, token.isParen = false) ∧
      rpn.filter isOperand = tokens.filter isOperand ∧
      (rpn.filter isOperator).Perm (tokens.filter isOperator) ∧
      (∃ origin, Origins tokens rpn origin) ∧
      ofInfix [.closeParen, .identifier "a", .openParen] =
        .error (.unmatchedClose [.closeParen, .identifier "a", .openParen]) := by
  intro tokens rpn
  have hrpn : ofInfix tokens = .ok rpn := rfl
  obtain ⟨hok, -, -, hkeeps⟩ := reordering_keeps_tokens tokens
  obtain ⟨-, hclose, -, -⟩ := reordering_keeps_tokens [.closeParen, .identifier "a", .openParen]
  obtain ⟨hparen, hoperands, hoperators, horigins⟩ := hkeeps rpn hrpn
  exact ⟨hrpn, (hok.mp ⟨rpn, hrpn⟩).1, hparen, hoperands, hoperators, horigins,
    hclose.mpr ⟨[.closeParen], ⟨_, rfl⟩, by decide⟩⟩

end Postfix

end ConstraintNet

import Mathlib.Order.Basic
import ConstraintNet.Postfix

/-!
# The grammar of infix expressions

Sums are made of products and products of factors, and both group to the left. What the
grammar derives is put into the postfix order of its tree and folded to that tree again, so
a list of tokens has one tree at most.
-/

set_option autoImplicit false

namespace ConstraintNet

inductive Level where
  | expr
  | term
  | factor

def Level.precedence : Level → Nat
  | .expr => 1
  | .term => 2
  | .factor => 3

/-- Tokens that the grammar derives, and the tree of the derivation. -/
inductive Derives : Level → List Token → Expr → Prop
  | sum {op : Operator} {ls rs : List Token} {l r : Expr} (hop : op = .add ∨ op = .sub)
      (left : Derives .expr ls l) (right : Derives .term rs r) :
    Derives .expr (ls ++ .operator op :: rs) (.op op.symbol l r)
  | ofTerm {ts : List Token} {e : Expr} (h : Derives .term ts e) : Derives .expr ts e
  | product {op : Operator} {ls rs : List Token} {l r : Expr} (hop : op = .mul ∨ op = .div)
      (left : Derives .term ls l) (right : Derives .factor rs r) :
    Derives .term (ls ++ .operator op :: rs) (.op op.symbol l r)
  | ofFactor {ts : List Token} {e : Expr} (h : Derives .factor ts e) : Derives .term ts e
  | number (value : Float) : Derives .factor [.number value] (.number value)
  | identifier (name : String) : Derives .factor [.identifier name] (.ident name)
  /-- Parentheses leave no trace in the tree. -/
  | group {ts : List Token} {e : Expr} (h : Derives .expr ts e) :
    Derives .factor (.openParen :: ts ++ [.closeParen]) e

theorem Operator.precedence_sum {op : Operator} (h : op = .add ∨ op = .sub) :
    op.precedence = 1 := by
  rcases h with rfl | rfl <;> rfl

theorem Operator.precedence_product {op : Operator} (h : op = .mul ∨ op = .div) :
    op.precedence = 2 := by
  rcases h with rfl | rfl <;> rfl

theorem Operator.sum_or_product (op : Operator) :
    (op = .add ∨ op = .sub) ∨ (op = .mul ∨ op = .div) := by
  cases op <;> simp

/-- Tokens in the postfix order of a tree. -/
inductive Postorder : List Token → Expr → Prop
  | number (value : Float) : Postorder [.number value] (.number value)
  | identifier (name : String) : Postorder [.identifier name] (.ident name)
  | op {ls rs : List Token} {l r : Expr} (op : Operator) (left : Postorder ls l)
      (right : Postorder rs r) : Postorder (ls ++ rs ++ [.operator op]) (.op op.symbol l r)

namespace Postfix

theorem foldFrom_postorder {ts : List Token} {e : Expr} (h : Postorder ts e)
    (whole : List Token) (operands : List Expr) (rest : List Token) :
    foldFrom whole operands (ts ++ rest) = foldFrom whole (e :: operands) rest := by
  induction h generalizing operands rest with
  | number | identifier => simp [foldFrom]
  | op op _ _ ihl ihr =>
    rw [List.append_assoc, List.append_assoc, ihl, ihr]
    simp [foldFrom]

theorem fold_postorder {ts : List Token} {e : Expr} (h : Postorder ts e) : fold ts = .ok e := by
  have hfold := foldFrom_postorder h ts [] []
  rw [List.append_nil] at hfold
  unfold fold
  rw [hfold]
  rfl

def Looser (precedence : Nat) (stack : List Waiting) : Prop :=
  ∀ op, stack.head? = some (.operator op) → op.precedence < precedence

theorem Looser.mono {n m : Nat} {stack : List Waiting} (h : Looser n stack) (hle : n ≤ m) :
    Looser m stack :=
  fun op htop => Nat.lt_of_lt_of_le (h op htop) hle

theorem looser_nil (n : Nat) : Looser n [] := by
  intro op htop
  cases htop

theorem looser_openParen (n : Nat) (stack : List Waiting) : Looser n (.openParen :: stack) := by
  intro op htop
  cases htop

theorem looser_operator {n : Nat} {op : Operator} (h : op.precedence < n) (stack : List Waiting) :
    Looser n (.operator op :: stack) := by
  intro top htop
  cases htop
  exact h

theorem popTighter_append {op : Operator} {ops : List Operator} {stack : List Waiting}
    (hops : ∀ o ∈ ops, op.precedence ≤ o.precedence) (hs : Looser op.precedence stack) :
    popTighter op (ops.map .operator ++ stack) = (ops.map .operator, stack) := by
  induction ops with
  | nil =>
    rcases stack with _ | ⟨top | _, stack⟩
    · rfl
    · exact if_pos (hs top rfl)
    · rfl
  | cons o ops ih =>
    rw [List.forall_mem_cons] at hops
    simp only [List.map_cons, List.cons_append, popTighter]
    rw [if_neg (Nat.not_lt.mpr hops.1), ih hops.2]

theorem popGroup?_append (ops : List Operator) (stack : List Waiting) :
    popGroup? (ops.map .operator ++ .openParen :: stack) = some (ops.map .operator, stack) := by
  induction ops with
  | nil => rfl
  | cons o ops ih => simp [popGroup?, ih]

theorem popAll?_map (ops : List Operator) :
    popAll? (ops.map .operator) = some (ops.map .operator) := by
  induction ops with
  | nil => rfl
  | cons o ops ih => simp [popAll?, ih]

/-- Reordering tokens above a stack puts out some of them and leaves the operators of some
precedence waiting; together they are in the postfix order of a tree. -/
structure Reorders (precedence : Nat) (stack : List Waiting) (ts : List Token) (e : Expr)
    (out : List Token) (ops : List Operator) : Prop where
  reorder : ∀ whole rest, reorderFrom whole stack (ts ++ rest) =
    (out ++ ·) <$> reorderFrom whole (ops.map .operator ++ stack) rest
  postorder : Postorder (out ++ ops.map .operator) e
  tighter : ∀ op ∈ ops, precedence ≤ op.precedence

theorem Reorders.mono {n m : Nat} {stack : List Waiting} {ts out : List Token} {e : Expr}
    {ops : List Operator} (h : Reorders n stack ts e out ops) (hle : m ≤ n) :
    Reorders m stack ts e out ops :=
  ⟨h.reorder, h.postorder, fun op hop => Nat.le_trans hle (h.tighter op hop)⟩

theorem Reorders.leaf {token : Token} {e : Expr} (h : Postorder [token] e) (n : Nat)
    (stack : List Waiting) (hput : ∀ whole rest, reorderFrom whole stack (token :: rest) =
      (token :: ·) <$> reorderFrom whole stack rest) : Reorders n stack [token] e [token] [] :=
  ⟨hput, h, fun _ hop => absurd hop List.not_mem_nil⟩

theorem Reorders.binary {op : Operator} {n m : Nat} {stack : List Waiting}
    {ls rs outl outr : List Token} {l r : Expr} {opsl opsr : List Operator}
    (hop : op.precedence = n) (hl : Reorders n stack ls l outl opsl) (hs : Looser n stack)
    (hr : Reorders m (.operator op :: stack) rs r outr opsr) (hle : n ≤ m) :
    Reorders n stack (ls ++ .operator op :: rs) (.op op.symbol l r)
      (outl ++ opsl.map .operator ++ outr) (opsr ++ [op]) := by
  subst hop
  constructor
  · -- what the left operand left waiting comes out before the new operator goes on the stack
    intro whole rest
    rw [List.append_assoc, hl.reorder, List.cons_append, reorderFrom,
      popTighter_append hl.tighter hs]
    simp only [bind_pure_comp, hr.reorder, Functor.map_map]
    simp [List.append_assoc]
  · have h := Postorder.op op hl.postorder hr.postorder
    simpa [List.append_assoc] using h
  · intro o ho
    rcases List.mem_append.mp ho with ho | ho
    · exact Nat.le_trans hle (hr.tighter o ho)
    · have hlast := List.mem_singleton.mp ho
      subst hlast
      exact Nat.le_refl _

theorem Reorders.group {n m : Nat} {stack : List Waiting} {ts out : List Token} {e : Expr}
    {ops : List Operator} (h : Reorders n (.openParen :: stack) ts e out ops) :
    Reorders m stack (.openParen :: ts ++ [.closeParen]) e (out ++ ops.map .operator) [] where
  reorder whole rest := by
    rw [List.append_assoc, List.cons_append, reorderFrom, h.reorder, List.singleton_append,
      reorderFrom, popGroup?_append]
    simp [List.append_assoc]
  postorder := by simpa using h.postorder
  tighter o ho := absurd ho List.not_mem_nil

/-- What a level derives is reordered above any stack on which no operator is waiting that
has to come out before. -/
theorem reorders_of_derives {n : Level} {ts : List Token} {e : Expr} (h : Derives n ts e)
    {stack : List Waiting} (hs : Looser n.precedence stack) :
    ∃ out ops, Reorders n.precedence stack ts e out ops := by
  induction h generalizing stack with
  | @sum op _ _ _ _ hop _ _ ihl ihr =>
    have hprec := Operator.precedence_sum hop
    obtain ⟨outl, opsl, hl⟩ := ihl hs
    obtain ⟨outr, opsr, hr⟩ := ihr (looser_operator (hprec.trans_lt Nat.one_lt_two) stack)
    exact ⟨_, _, .binary hprec hl hs hr (Nat.le_succ 1)⟩
  | ofTerm _ ih =>
    obtain ⟨out, ops, h⟩ := ih (hs.mono (Nat.le_succ 1))
    exact ⟨out, ops, h.mono (Nat.le_succ 1)⟩
  | @product op _ _ _ _ hop _ _ ihl ihr =>
    have hprec := Operator.precedence_product hop
    obtain ⟨outl, opsl, hl⟩ := ihl hs
    obtain ⟨outr, opsr, hr⟩ := ihr (looser_operator (hprec.trans_lt (Nat.lt_succ_self 2)) stack)
    exact ⟨_, _, .binary hprec hl hs hr (Nat.le_succ 2)⟩
  | ofFactor _ ih =>
    obtain ⟨out, ops, h⟩ := ih (hs.mono (Nat.le_succ 2))
    exact ⟨out, ops, h.mono (Nat.le_succ 2)⟩
  | number value =>
    refine ⟨_, _, .leaf (.number value) _ stack fun whole rest => ?_⟩
    simp [reorderFrom]
  | identifier name =>
    refine ⟨_, _, .leaf (.identifier name) _ stack fun whole rest => ?_⟩
    simp [reorderFrom]
  | group _ ih =>
    obtain ⟨out, ops, h⟩ := ih (looser_openParen _ stack)
    exact ⟨_, _, h.group⟩

end Postfix

open Postfix

theorem postorder_of_derives {tokens : List Token} {e : Expr} (h : Derives .expr tokens e) :
    ∃ rpn, ofInfix tokens = .ok rpn ∧ Postorder rpn e := by
  obtain ⟨out, ops, hr⟩ := reorders_of_derives h (looser_nil _)
  refine ⟨_, ?_, hr.postorder⟩
  have hreorder := hr.reorder tokens []
  rw [List.append_nil, List.append_nil] at hreorder
  unfold ofInfix
  rw [hreorder, reorderFrom, popAll?_map]
  rfl

/-- What the grammar derives is accepted, with the tree of the derivation. -/
theorem infix_parses {tokens : List Token} {e : Expr} (h : Derives .expr tokens e) :
    (ofInfix tokens >>= fold) = .ok e := by
  obtain ⟨rpn, hrpn, hpost⟩ := postorder_of_derives h
  rw [hrpn]
  exact fold_postorder hpost

theorem infix_parses_nested :
    Derives .expr [.identifier "a", .operator .sub, .identifier "b", .operator .mul, .openParen,
        .identifier "c", .operator .add, .number 2, .closeParen, .operator .div, .identifier "d",
        .operator .sub, .openParen, .identifier "a", .closeParen]
      (.op "-" (.op "-" (.ident "a") (.op "/" (.op "*" (.ident "b")
        (.op "+" (.ident "c") (.number 2))) (.ident "d"))) (.ident "a")) ∧
    (ofInfix [.identifier "a", .operator .sub, .identifier "b", .operator .mul, .openParen,
        .identifier "c", .operator .add, .number 2, .closeParen, .operator .div, .identifier "d",
        .operator .sub, .openParen, .identifier "a", .closeParen] >>= fold) =
      .ok (.op "-" (.op "-" (.ident "a") (.op "/" (.op "*" (.ident "b")
        (.op "+" (.ident "c") (.number 2))) (.ident "d"))) (.ident "a")) := by
  have leaf (name : String) : Derives .term [.identifier name] (.ident name) :=
    .ofFactor (.identifier name)
  have hsum := Derives.sum (.inl rfl) (.ofTerm (leaf "c")) (.ofFactor (.number 2))
  have hproduct := Derives.product (.inl rfl) (leaf "b") (.group hsum)
  have hquotient := Derives.product (.inr rfl) hproduct (.identifier "d")
  have hfirst := Derives.sum (.inr rfl) (.ofTerm (leaf "a")) hquotient
  have h := Derives.sum (.inr rfl) hfirst (.ofFactor (.group (.ofTerm (leaf "a"))))
  exact ⟨h, infix_parses h⟩

theorem Derives.tree_unique {tokens : List Token} {e e' : Expr} (h : Derives .expr tokens e)
    (h' : Derives .expr tokens e') : e = e' := by
  obtain ⟨rpn, hrpn, hpost⟩ := postorder_of_derives h
  obtain ⟨rpn', hrpn', hpost'⟩ := postorder_of_derives h'
  rw [hrpn] at hrpn'
  cases hrpn'
  have hfold := fold_postorder hpost
  rw [fold_postorder hpost'] at hfold
  cases hfold
  rfl

end ConstraintNet

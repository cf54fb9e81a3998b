import ConstraintNet.Proofs.Inverse

/-!
# Folding inverts the postorder

The postorder of a tree is computed from the tree alone, and only names, numbers and the four
operators have one. Tokens are folded to a tree exactly if they are its postorder. Tokens that
are the postorder of no tree begin with whole operands, and the fault tells what comes after
them, or that there are too many or none.
-/

set_option autoImplicit false

namespace ConstraintNet

namespace Expr

/-- Both operands before their operator. There are no tokens for calls and other symbols. -/
def postorder? : Expr → Option (List Token)
  | .ident name => some [.identifier name]
  | .number value => some [.number value]
  | .op symbol left right => do
    let ls ← postorder? left
    let rs ← postorder? right
    let op ← Operator.ofSymbol? symbol
    return ls ++ rs ++ [.operator op]
  | .call _ _ => none

end Expr

theorem Operator.eq_symbol_of_ofSymbol? {symbol : String} {op : Operator}
    (h : ofSymbol? symbol = some op) : symbol = op.symbol := by
  unfold ofSymbol? at h
  split at h
  · rename_i c hc
    have hop : op.symbol.toList = [op.char] := String.toList_singleton op.char
    rw [← ofChar?_eq_some_iff.mp h, ← hc] at hop
    exact (String.toList_inj.mp hop).symm
  · cases h

theorem Postorder.eq_some {rpn : List Token} {tree : Expr} (h : Postorder rpn tree) :
    tree.postorder? = some rpn := by
  induction h with
  | number value => rfl
  | identifier name => rfl
  | op op _ _ ihl ihr => simp [Expr.postorder?, ihl, ihr]

theorem Expr.postorder_of_eq_some : ∀ {tree : Expr} {rpn : List Token},
    tree.postorder? = some rpn → Postorder rpn tree
  | .ident name, _, h => Option.some.inj h ▸ .identifier name
  | .number value, _, h => Option.some.inj h ▸ .number value
  | .op symbol left right, rpn, h => by
    simp only [postorder?, Option.bind_eq_bind, Option.bind_eq_some_iff] at h
    obtain ⟨ls, hl, rs, hr, op, hop, hrpn⟩ := h
    rw [← Option.some.inj hrpn, Operator.eq_symbol_of_ofSymbol? hop]
    exact .op op (postorder_of_eq_some hl) (postorder_of_eq_some hr)
  | .call _ _, _, h => nomatch h

theorem Expr.postorder?_eq_some_iff {tree : Expr} {rpn : List Token} :
    tree.postorder? = some rpn ↔ Postorder rpn tree :=
  ⟨postorder_of_eq_some, Postorder.eq_some⟩

theorem Expr.Arithmetic.isSome_postorder? {tree : Expr} (h : tree.Arithmetic) :
    tree.postorder?.isSome := by
  induction h with
  | ident | number => rfl
  | op op _ _ ihl ihr =>
    obtain ⟨ls, hl⟩ := Option.isSome_iff_exists.mp ihl
    obtain ⟨rs, hr⟩ := Option.isSome_iff_exists.mp ihr
    simp [postorder?, hl, hr]

theorem Expr.isSome_postorder?_iff {tree : Expr} : tree.postorder?.isSome ↔ tree.Arithmetic := by
  constructor
  · intro h
    obtain ⟨rpn, hrpn⟩ := Option.isSome_iff_exists.mp h
    exact (postorder_of_eq_some hrpn).arithmetic
  · exact Arithmetic.isSome_postorder?

namespace Postfix

variable {rpn : List Token}

theorem foldFrom_stacked {before : List Token} {operands : List Expr} (h : Stacked before operands)
    (whole rest : List Token) :
    foldFrom whole [] (before ++ rest) = foldFrom whole operands rest := by
  induction h generalizing rest with
  | nil => rfl
  | push _ hu ih => rw [List.append_assoc, ih, foldFrom_postorder hu]

def Stuck (operands : List Expr) (token : Token) : Prop :=
  token.isParen ∨ ∃ op, token = .operator op ∧ operands.length < 2

theorem Stacked.snoc {before : List Token} {operands : List Expr} (h : Stacked before operands)
    (token : Token) :
    (∃ operands', Stacked (before ++ [token]) operands') ∨ Stuck operands token := by
  cases token with
  | number value => exact .inl ⟨_, h.push (.number value)⟩
  | identifier name => exact .inl ⟨_, h.push (.identifier name)⟩
  | operator op =>
    rcases operands with _ | ⟨right, _ | ⟨left, operands⟩⟩
    · exact .inr (.inr ⟨op, rfl, by decide⟩)
    · exact .inr (.inr ⟨op, rfl, by simp⟩)
    · obtain _ | ⟨h, hr⟩ := h
      obtain _ | ⟨h, hl⟩ := h
      have hop := h.push (.op op hl hr)
      exact .inl ⟨.op op.symbol left right :: operands, by simpa [List.append_assoc] using hop⟩
  | openParen | closeParen => exact .inr (.inl rfl)

/-- All tokens leave operands, or there is a first token that cannot be taken in. -/
theorem stacked_or_stuck (rpn : List Token) : (∃ operands, Stacked rpn operands) ∨
    ∃ before operands token rest, rpn = before ++ token :: rest ∧ Stacked before operands ∧
      Stuck operands token := by
  induction rpn using List.reverseRecOn with
  | nil => exact .inl ⟨[], .nil⟩
  | append_singleton rpn last ih =>
    rcases ih with ⟨operands, h⟩ | ⟨before, operands, token, rest, rfl, h, hstuck⟩
    · rcases h.snoc last with hall | hstuck
      · exact .inl hall
      · exact .inr ⟨rpn, operands, last, [], rfl, h, hstuck⟩
    · exact .inr ⟨before, operands, token, rest ++ [last], by simp, h, hstuck⟩

inductive Misfit (rpn : List Token) : SyntaxError → Prop
  | empty (h : rpn = []) : Misfit rpn (.emptyExpression "")
  | leftover {operands : List Expr} (h : Stacked rpn operands) (hmany : 2 ≤ operands.length) :
    Misfit rpn (.missingOperator rpn)
  | missing {before rest : List Token} {op : Operator} {operands : List Expr}
    (hrpn : rpn = before ++ .operator op :: rest) (h : Stacked before operands)
    (hfew : operands.length < 2) : Misfit rpn (.missingOperand op rpn)
  | parenthesis {before rest : List Token} {token : Token} {operands : List Expr}
    (hrpn : rpn = before ++ token :: rest) (h : Stacked before operands)
    (hparen : token.isParen) : Misfit rpn (.strayParenthesis rpn)

theorem Misfit.fold_eq {fault : SyntaxError} (h : Misfit rpn fault) : fold rpn = .error fault := by
  cases h with
  | empty h =>
    subst h
    rfl
  | @leftover operands h hmany =>
    have hfold := foldFrom_stacked h rpn []
    rw [List.append_nil] at hfold
    rw [fold, hfold]
    rcases operands with _ | ⟨_, _ | ⟨_, _⟩⟩
    · cases hmany
    · simp at hmany
    · rfl
  | @missing before rest op operands hrpn h hfew =>
    have hfold := foldFrom_stacked h rpn (.operator op :: rest)
    rw [← hrpn] at hfold
    rw [fold, hfold]
    rcases operands with _ | ⟨_, _ | ⟨_, _⟩⟩
    · rfl
    · rfl
    · simp only [List.length_cons] at hfew
      omega
  | @parenthesis before rest token operands hrpn h hparen =>
    have hfold := foldFrom_stacked h rpn (token :: rest)
    rw [← hrpn] at hfold
    rw [fold, hfold]
    cases token with
    | openParen | closeParen => simp [foldFrom]
    | _ => cases hparen

theorem postorder_or_misfit (rpn : List Token) :
    (∃ tree, Postorder rpn tree) ∨ ∃ fault, Misfit rpn fault := by
  rcases stacked_or_stuck rpn with
    ⟨operands, h⟩ | ⟨before, operands, token, rest, hrpn, h, hparen | ⟨op, rfl, hfew⟩⟩
  · rcases operands with _ | ⟨root, _ | ⟨second, operands⟩⟩
    · cases h
      exact .inr ⟨_, .empty rfl⟩
    · obtain _ | ⟨hnil, hu⟩ := h
      cases hnil
      exact .inl ⟨root, hu⟩
    · exact .inr ⟨_, .leftover h (by simp)⟩
  · exact .inr ⟨_, .parenthesis hrpn h hparen⟩
  · exact .inr ⟨_, .missing hrpn h hfew⟩

theorem fold_eq_error_iff {fault : SyntaxError} : fold rpn = .error fault ↔ Misfit rpn fault := by
  constructor
  · intro h
    rcases postorder_or_misfit rpn with ⟨tree, htree⟩ | ⟨fault', hmisfit⟩
    · rw [fold_postorder htree] at h
      cases h
    · rw [hmisfit.fold_eq] at h
      cases h
      exact hmisfit
  · exact Misfit.fold_eq

theorem fold_eq_ok_iff {tree : Expr} : fold rpn = .ok tree ↔ Postorder rpn tree :=
  ⟨postorder_of_fold, fold_postorder⟩

/-- Tokens are folded to a tree exactly if they are its postorder, which the trees of names,
numbers and the four operators have and no others, and no two of them the same. All other
tokens are refused, with the fault that tells why they are the postorder of no tree. -/
theorem fold_inverts_postorder (rpn : List Token) :
    (∀ tree, fold rpn = .ok tree ↔ tree.postorder? = some rpn) ∧
    (∀ tree : Expr, tree.postorder?.isSome ↔ tree.Arithmetic) ∧
    (∀ tree tree' : Expr, tree.postorder? = some rpn → tree'.postorder? = some rpn →
      tree = tree') ∧
    ((∀ tree : Expr, tree.postorder? ≠ some rpn) ↔ ∃ fault, fold rpn = .error fault) ∧
    ∀ fault, fold rpn = .error fault ↔ Misfit rpn fault := by
  have hok (tree : Expr) : fold rpn = .ok tree ↔ tree.postorder? = some rpn :=
    fold_eq_ok_iff.trans Expr.postorder?_eq_some_iff.symm
  refine ⟨hok, fun _ => Expr.isSome_postorder?_iff, fun tree tree' h h' => ?_, ?_,
    fun _ => fold_eq_error_iff⟩
  · rw [← hok] at h h'
    rw [h] at h'
    exact Except.ok.inj h'
  · simp only [ne_eq, ← hok]
    cases fold rpn with
    | error fault => simp
    | ok tree => simp

theorem fold_inverts_postorder_difference :
    let rpn := [.identifier "a", .identifier "b", .number 2, .operator .mul, .operator .sub]
    let tree := Expr.op "-" (.ident "a") (.op "*" (.ident "b") (.number 2))
    tree.postorder? = some rpn ∧ fold rpn = .ok tree ∧
      (∀ tree' : Expr, tree'.postorder? = some rpn → tree' = tree) ∧
      fold [.identifier "a", .identifier "b"] =
        .error (.missingOperator [.identifier "a", .identifier "b"]) := by
  intro rpn tree
  have htree : tree.postorder? = some rpn := rfl
  obtain ⟨hok, -, hunique, -, -⟩ := fold_inverts_postorder rpn
  obtain ⟨-, -, -, -, hleft⟩ := fold_inverts_postorder [.identifier "a", .identifier "b"]
  have hboth : Stacked [.identifier "a", .identifier "b"] [.ident "b", .ident "a"] :=
    .push (.push .nil (.identifier "a")) (.identifier "b")
  exact ⟨htree, (hok tree).mpr htree, fun tree' h => hunique tree' tree h htree,
    (hleft _).mpr (.leftover hboth (by decide))⟩

end Postfix

end ConstraintNet

import ConstraintNet.Proofs.Reordering
import ConstraintNet.Proofs.Scanning

/-!
# What the parser accepts

The grammar derives exactly the tokens in which parentheses are balanced and operands and
operators take turns. The parser asks for balanced parentheses and for enough operands, not
for the turns: it accepts some texts that the grammar does not derive, but none that
alternates.
-/

set_option autoImplicit false

namespace ConstraintNet

namespace Token

/-- Operands and operators take turns: where an operand is due, no operator and no closing
parenthesis comes, and nothing else where it is not. -/
def alternates (due : Bool) : List Token → Bool
  | [] => !due
  | .number _ :: ts | .identifier _ :: ts => due && alternates false ts
  | .openParen :: ts => due && alternates true ts
  | .operator _ :: ts => !due && alternates true ts
  | .closeParen :: ts => !due && alternates false ts

end Token

open Token Postfix

theorem Derives.balanced_append {n : Level} {ts : List Token} {e : Expr} (h : Derives n ts e)
    (opened : Nat) (rest : List Token) : balanced opened (ts ++ rest) = balanced opened rest := by
  induction h generalizing opened rest with
  | sum _ _ _ ihl ihr | product _ _ _ ihl ihr =>
    rw [List.append_assoc, ihl, List.cons_append, balanced, ihr]
  | ofTerm _ ih | ofFactor _ ih => exact ih opened rest
  | number | identifier => rfl
  | group _ ih => simp [balanced, ih]

theorem Derives.alternates_append {n : Level} {ts : List Token} {e : Expr} (h : Derives n ts e)
    (rest : List Token) : alternates true (ts ++ rest) = alternates false rest := by
  induction h generalizing rest with
  | sum _ _ _ ihl ihr | product _ _ _ ihl ihr =>
    rw [List.append_assoc, ihl, List.cons_append, alternates, ihr]
    rfl
  | ofTerm _ ih | ofFactor _ ih => exact ih rest
  | number | identifier => rfl
  | group _ ih => simp [alternates, ih]

theorem Derives.balanced {ts : List Token} {e : Expr} (h : Derives .expr ts e) :
    balanced 0 ts := by
  have hend := h.balanced_append 0 []
  rw [List.append_nil] at hend
  exact hend

theorem Derives.alternates {ts : List Token} {e : Expr} (h : Derives .expr ts e) :
    alternates true ts := by
  have hend := h.alternates_append []
  rw [List.append_nil] at hend
  exact hend

/-- What stands before a term: nothing, or an expression and `+` or `-`. -/
inductive BeforeTerm : List Token → Prop
  | nil : BeforeTerm []
  | operator {op : Operator} {ts : List Token} {e : Expr} (hop : op = .add ∨ op = .sub)
      (h : Derives .expr ts e) : BeforeTerm (ts ++ [.operator op])

inductive BeforeFactor : List Token → Prop
  | ofTerm {before : List Token} (h : BeforeTerm before) : BeforeFactor before
  | operator {op : Operator} {before ts : List Token} {e : Expr} (hop : op = .mul ∨ op = .div)
      (hb : BeforeTerm before) (h : Derives .term ts e) :
    BeforeFactor (before ++ ts ++ [.operator op])

inductive Complete : List Token → Prop
  | mk {before ts : List Token} {e : Expr} (hb : BeforeTerm before) (h : Derives .term ts e) :
    Complete (before ++ ts)

theorem Complete.derives {ts : List Token} (h : Complete ts) : ∃ e, Derives .expr ts e := by
  cases h with
  | mk hb h =>
    cases hb with
    | nil => exact ⟨_, .ofTerm h⟩
    | operator hop hl =>
      rw [List.append_assoc]
      exact ⟨_, .sum hop hl h⟩

theorem BeforeFactor.complete {before ts : List Token} {e : Expr} (hb : BeforeFactor before)
    (h : Derives .factor ts e) : Complete (before ++ ts) := by
  cases hb with
  | ofTerm hb => exact .mk hb (.ofFactor h)
  | operator hop hb hl =>
    rw [List.append_assoc, List.append_assoc]
    exact .mk hb (.product hop hl h)

theorem Complete.beforeFactor {ts : List Token} (h : Complete ts) (op : Operator) :
    BeforeFactor (ts ++ [.operator op]) := by
  rcases op.sum_or_product with hop | hop
  · obtain ⟨e, he⟩ := h.derives
    exact .ofTerm (.operator hop he)
  · cases h with
    | mk hb h => exact .operator hop hb h

/-- Tokens inside of parentheses that are still open, with what stands before each of them,
the innermost first. -/
def enclose : List (List Token) → List Token → List Token
  | [], inner => inner
  | before :: outer, inner => enclose outer (before ++ .openParen :: inner)

theorem derives_enclose {outer : List (List Token)} {read rest : List Token} {due : Bool}
    (ha : alternates due rest) (hb : Token.balanced outer.length rest)
    (houter : ∀ before ∈ outer, BeforeFactor before)
    (hread : if due then BeforeFactor read else Complete read) :
    ∃ e, Derives .expr (enclose outer (read ++ rest)) e := by
  induction rest generalizing outer read due with
  | nil =>
    cases due with
    | true => cases ha
    | false =>
      have hnil : outer = [] := by simpa [Token.balanced] using hb
      subst hnil
      rw [List.append_nil]
      exact hread.derives
  | cons token rest ih =>
    rw [List.append_cons]
    cases token with
    | number value =>
      simp only [Token.alternates, Bool.and_eq_true] at ha
      obtain ⟨rfl, ha⟩ := ha
      exact ih ha hb houter (BeforeFactor.complete hread (.number value))
    | identifier name =>
      simp only [Token.alternates, Bool.and_eq_true] at ha
      obtain ⟨rfl, ha⟩ := ha
      exact ih ha hb houter (BeforeFactor.complete hread (.identifier name))
    | operator op =>
      simp only [Token.alternates, Bool.and_eq_true, Bool.not_eq_true'] at ha
      obtain ⟨rfl, ha⟩ := ha
      exact ih ha hb houter (Complete.beforeFactor hread op)
    | openParen =>
      simp only [Token.alternates, Bool.and_eq_true] at ha
      obtain ⟨rfl, ha⟩ := ha
      -- What was read stands before the group, of which nothing is read yet.
      have hread' : ∀ before ∈ read :: outer, BeforeFactor before :=
        List.forall_mem_cons.mpr ⟨hread, houter⟩
      have hgroup := @ih (read :: outer) [] true ha hb hread' (.ofTerm .nil)
      rwa [← List.append_cons]
    | closeParen =>
      simp only [Token.alternates, Bool.and_eq_true, Bool.not_eq_true'] at ha
      obtain ⟨rfl, ha⟩ := ha
      cases outer with
      | nil => cases hb
      | cons before outer =>
        rw [List.forall_mem_cons] at houter
        obtain ⟨e, he⟩ := Complete.derives hread
        have hgroup := ih ha hb houter.2 (BeforeFactor.complete houter.1 (.group he))
        simpa [enclose] using hgroup

theorem derivable_iff {ts : List Token} :
    (∃ e, Derives .expr ts e) ↔ alternates true ts ∧ balanced 0 ts := by
  constructor
  · rintro ⟨e, h⟩
    exact ⟨h.alternates, h.balanced⟩
  · rintro ⟨ha, hb⟩
    exact @derives_enclose [] [] ts true ha hb (List.forall_mem_nil _) (.ofTerm .nil)

namespace Postfix

inductive Stacked : List Token → List Expr → Prop
  | nil : Stacked [] []
  | push {ts us : List Token} {operands : List Expr} {e : Expr} (h : Stacked ts operands)
      (hu : Postorder us e) : Stacked (ts ++ us) (e :: operands)

theorem postorder_of_foldFrom {whole before rest : List Token} {operands : List Expr} {e : Expr}
    (h : foldFrom whole operands rest = .ok e) (hs : Stacked before operands) :
    Postorder (before ++ rest) e := by
  induction rest generalizing before operands with
  | nil =>
    rcases operands with _ | ⟨root, _ | ⟨second, operands⟩⟩
    · cases h
    · cases h
      obtain _ | ⟨hnil, hu⟩ := hs
      cases hnil
      simpa using hu
    · cases h
  | cons token rest ih =>
    rw [List.append_cons]
    cases token with
    | number value =>
      rw [foldFrom] at h
      exact ih h (hs.push (.number value))
    | identifier name =>
      rw [foldFrom] at h
      exact ih h (hs.push (.identifier name))
    | operator op =>
      rcases operands with _ | ⟨right, _ | ⟨left, operands⟩⟩
      · cases h
      · cases h
      · rw [foldFrom] at h
        obtain _ | ⟨hs, hr⟩ := hs
        obtain _ | ⟨hs, hl⟩ := hs
        have hop := ih h (hs.push (.op op hl hr))
        simpa [List.append_assoc] using hop
    | openParen | closeParen => simp [foldFrom] at h

theorem postorder_of_fold {rpn : List Token} {e : Expr} (h : fold rpn = .ok e) :
    Postorder rpn e := by
  have hpost := postorder_of_foldFrom h .nil
  rwa [List.nil_append] at hpost

end Postfix

theorem Expr.parse_eq_ok {text : String} {node : Expr} : Expr.parse text = .ok node ↔
    ∃ rpn, ofInfix (Token.scan text) = .ok rpn ∧ Postorder rpn node := by
  unfold Expr.parse
  split
  · rename_i hblank
    -- There are no tokens, and no tree has nothing in its postfix order.
    rw [Token.scan_of_isBlankText hblank]
    constructor
    · intro h
      cases h
    · rintro ⟨rpn, hrpn, hpost⟩
      cases hrpn
      have hfold := fold_postorder hpost
      cases hfold
  · cases hrpn : ofInfix (Token.scan text) with
    | error fault =>
      constructor
      · intro h
        cases h
      · rintro ⟨rpn, h, -⟩
        cases h
    | ok rpn =>
      constructor
      · exact fun h => ⟨rpn, rfl, postorder_of_fold h⟩
      · rintro ⟨_, hok, hpost⟩
        cases hok
        exact fold_postorder hpost

theorem Derives.parse {text : String} {node : Expr} (h : Derives .expr (Token.scan text) node) :
    Expr.parse text = .ok node :=
  Expr.parse_eq_ok.mpr (postorder_of_derives h)

/-- The tokens of a text derive a tree exactly if the text is accepted with the tree and its
tokens alternate. Whatever is accepted, its parentheses are balanced, and its tree is made of
all its operands, in order, and of all its operators. -/
theorem accepts_alternating_iff_derives (text : String) (node : Expr) :
    (Derives .expr (Token.scan text) node ↔
      Expr.parse text = .ok node ∧ alternates true (Token.scan text)) ∧
    (Expr.parse text = .ok node → balanced 0 (Token.scan text) ∧ ∃ rpn, Postorder rpn node ∧
      rpn.Perm ((Token.scan text).filter (!·.isParen)) ∧
      rpn.filter isOperand = (Token.scan text).filter isOperand) := by
  have hbalanced {rpn : List Token} (h : ofInfix (Token.scan text) = .ok rpn) :
      balanced 0 (Token.scan text) := by
    have hok := isOk_reorderFrom (Token.scan text) [] (Token.scan text)
    unfold ofInfix at h
    rw [h] at hok
    exact hok.symm
  constructor
  · constructor
    · exact fun h => ⟨h.parse, h.alternates⟩
    · rintro ⟨hparse, ha⟩
      obtain ⟨rpn, hrpn, -⟩ := Expr.parse_eq_ok.mp hparse
      obtain ⟨e, h⟩ := derivable_iff.mpr ⟨ha, hbalanced hrpn⟩
      rw [h.parse] at hparse
      cases hparse
      exact h
  · intro hparse
    obtain ⟨rpn, hrpn, hpost⟩ := Expr.parse_eq_ok.mp hparse
    have hr := rearranges_reorderFrom hrpn
    exact ⟨hbalanced hrpn, rpn, hpost, hr.perm, hr.operands⟩

theorem accepts_alternating_iff_derives_group :
    Expr.parse "(a + b) * 2" = .ok (.op "*" (.op "+" (.ident "a") (.ident "b")) (.number 2)) ∧
      balanced 0 (Token.scan "(a + b) * 2") ∧
      Derives .expr (Token.scan "(a + b) * 2")
        (.op "*" (.op "+" (.ident "a") (.ident "b")) (.number 2)) := by
  have hparse : Expr.parse "(a + b) * 2" =
      .ok (.op "*" (.op "+" (.ident "a") (.ident "b")) (.number 2)) := rfl
  have h := accepts_alternating_iff_derives "(a + b) * 2"
    (.op "*" (.op "+" (.ident "a") (.ident "b")) (.number 2))
  exact ⟨hparse, (h.2 hparse).1, h.1.mpr ⟨hparse, rfl⟩⟩

theorem postfix_text_accepted :
    Expr.parse "a b +" = .ok (.op "+" (.ident "a") (.ident "b")) ∧
      ∀ node, ¬ Derives .expr (Token.scan "a b +") node := by
  refine ⟨rfl, fun node h => ?_⟩
  have hnot : alternates true (Token.scan "a b +") = false := rfl
  rw [h.alternates] at hnot
  cases hnot

end ConstraintNet

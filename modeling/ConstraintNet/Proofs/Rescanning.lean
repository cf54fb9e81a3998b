import ConstraintNet.Proofs.Folding
import ConstraintNet.Proofs.Numerals
import ConstraintNet.Proofs.Signs

/-!
# Tokens are scanned as they are written

A scan holds no number with a sign, and none that is not finite. Such a number is written with
digits and a point, hence as one word, and an identifier is the word that it was. So tokens
that are written with a blank between them are scanned back, and a message about parentheses
shows a fragment that fails in the same way.
-/

set_option autoImplicit false

namespace ConstraintNet

namespace Decimal

variable {x : Float}

theorem not_special_of_isFinite (hx : x.isFinite) : x.isNaN = false ∧ x.isInf = false := by
  change x.toModel.unpack.isFinite = true at hx
  change x.toModel.unpack.isNaN = false ∧ x.toModel.unpack.isInf = false
  cases hu : x.toModel.unpack with
  | finite | zero => exact ⟨rfl, rfl⟩
  | infinity | notANumber =>
    rw [hu] at hx
    cases hx

theorem exponent_plain (b : Binary) : (plain.parts b).exponent = none := by
  simp only [Layout.parts, plain, Bool.or_true, if_true]
  unfold Parts.positional
  split
  · rfl
  · split <;> rfl

theorem toList_text (hx : x.isFinite) (hs : isNegative x = false) :
    (text x).toList = (plain.parts (.ofFloat x)).text plain.plus := by
  obtain ⟨hnan, hinf⟩ := not_special_of_isFinite hx
  rw [text, Layout.text, hnan, hinf, hs]
  exact String.toList_ofList

theorem isDigit_or_point (hx : x.isFinite) (hs : isNegative x = false) :
    ∀ c ∈ (text x).toList, c.isDigit = true ∨ c = '.' := by
  have hparts := plain.wellFormed_parts (.ofFloat x) (List.forall_mem_nil _)
  intro c hc
  rw [toList_text hx hs, Parts.text, exponent_plain, List.append_nil] at hc
  rcases List.mem_append.mp hc with hwhole | hfraction
  · exact .inl (hparts.whole c hwhole)
  · split at hfraction
    · cases hfraction
    · rcases List.mem_cons.mp hfraction with hpoint | hdigit
      · exact .inr hpoint
      · exact .inl (hparts.fraction c hdigit)

theorem text_nonempty (hx : x.isFinite) (hs : isNegative x = false) : (text x).toList ≠ [] := by
  have hparts := plain.wellFormed_parts (.ofFloat x) (List.forall_mem_nil _)
  simp [toList_text hx hs, Parts.text, hparts.nonempty]

end Decimal

namespace Token

variable {w : List Char} {s : String} {value : Float}

theorem not_delimits_of_isDigit {c : Char} (hc : c.isDigit = true) (tokens : List Token) :
    ¬ Delimits c tokens := by
  intro h
  cases h with
  | blank hb =>
    simp only [Char.isDigit, Bool.and_eq_true, decide_eq_true_eq, ge_iff_le, UInt32.le_iff_toNat_le]
      at hc
    simp only [Text.isBlank, Text.blankRanges, List.any_cons, List.any_nil, Bool.or_eq_true,
      Bool.and_eq_true, decide_eq_true_eq, Bool.false_eq_true, or_false] at hb
    have hlow : 48 ≤ c.toNat := hc.1
    have hhigh : c.toNat ≤ 57 := hc.2
    omega
  | openParen | closeParen => cases hc
  | operator op => cases op <;> cases hc

theorem not_delimits_point (tokens : List Token) : ¬ Delimits '.' tokens :=
  ofDelimiter?_eq_none_iff.mp rfl tokens

theorem isWord_text (hf : value.isFinite) (hs : Decimal.isNegative value = false) :
    IsWord (Decimal.text value).toList where
  nonempty := Decimal.text_nonempty hf hs
  undelimited c hc tokens := by
    rcases Decimal.isDigit_or_point hf hs c hc with hdigit | rfl
    · exact not_delimits_of_isDigit hdigit tokens
    · exact not_delimits_point tokens

theorem IsWord.head?_ne_minus (hw : IsWord w) : w.head? ≠ some '-' := fun h =>
  hw.undelimited '-' (List.mem_of_mem_head? h) _ (.operator .sub)

theorem Scanned.unsigned (h : Scanned (.number value)) :
    value.isFinite ∧ Decimal.isNegative value = false := by
  cases h with
  | number hw hr hf => exact ⟨hf, Decimal.isNegative_read? hr hw.head?_ne_minus⟩

theorem Scanned.scan_text {token : Token} (h : Scanned token)
    (hread : ∀ value, token = .number value →
      Decimal.read? (Decimal.text value).toList = some value) : scan token.text = [token] := by
  cases id h with
  | @number _ value =>
    obtain ⟨hf, hs⟩ := h.unsigned
    have hword := ofWord_of_finite (hread value rfl) hf
    rw [text, scan, scanFrom_word (isWord_text hf hs), hword]
  | identifier hw hname =>
    rw [text, scan, String.toList_ofList, scanFrom_word hw, hname]
  | openParen | closeParen => rfl
  | operator op => cases op <;> rfl

theorem scan_line {tokens : List Token} (h : ∀ token ∈ tokens, scan token.text = [token]) :
    scan (line tokens) = tokens := by
  induction tokens with
  | nil => rfl
  | cons token rest ih =>
    obtain ⟨hfirst, hrest⟩ := List.forall_mem_cons.mp h
    cases rest with
    | nil => exact hfirst
    | cons next rest =>
      have hline : line (token :: next :: rest) =
          token.text ++ String.singleton ' ' ++ line (next :: rest) :=
        String.intercalate_cons_cons
      rw [hline, scan_append_delimiter _ _ (.blank (by decide)), hfirst, ih hrest]
      rfl

theorem scan_line_scan (hread : ∀ value, .number value ∈ scan s →
    Decimal.read? (Decimal.text value).toList = some value) : scan (line (scan s)) = scan s :=
  scan_line fun _ h => (scanned_of_mem_scan h).scan_text fun value hvalue =>
    hread value (hvalue ▸ h)

end Token

namespace Postfix

inductive Unmatched (tokens : List Token) : SyntaxError → Prop
  | opened : Unmatched tokens (.unmatchedOpen tokens)
  | closed : Unmatched tokens (.unmatchedClose tokens)

theorem Unmatched.fragment {tokens : List Token} {fault : SyntaxError}
    (h : Unmatched tokens fault) : fault.fragment = Token.line tokens := by
  cases h <;> rfl

theorem unmatched_of_reorderFrom {whole rest : List Token} {stack : List Waiting}
    {fault : SyntaxError} (h : reorderFrom whole stack rest = .error fault) :
    Unmatched whole fault := by
  rcases fault_of_reorderFrom h with ⟨rfl, -⟩ | ⟨rfl, -⟩
  · exact .closed
  · exact .opened

end Postfix

/-- Parentheses that do not match are found before anything else. -/
theorem Expr.parse_eq_unmatched {s : String} {tokens : List Token} {fault : SyntaxError}
    (hfault : Postfix.Unmatched tokens fault) :
    Expr.parse s = .error fault ↔ Postfix.ofInfix (Token.scan s) = .error fault := by
  unfold Expr.parse
  split
  · rename_i hblank
    rw [Token.scan_of_isBlankText hblank]
    constructor
    · intro h
      cases h
      cases hfault
    · intro h
      cases h
  · cases h : Postfix.ofInfix (Token.scan s) with
    | error =>
      change Except.error _ = Except.error fault ↔ _
      rw [Except.error.injEq, Except.error.injEq]
    | ok rpn =>
      constructor
      · intro hfold
        -- Nothing that is folded tells of parentheses that do not match.
        cases Postfix.fold_eq_error_iff.mp hfold <;> cases hfault
      · intro h
        cases h

/-- The numbers of a scan are finite and have no sign. If each of them reads as itself, the
tokens are scanned back from the line they are written in. Infix tokens are refused for their
parentheses only, and what such an error shows of a text is scanned to the tokens of the text
and fails with the same error. -/
theorem tokens_scanned_back (s : String)
    (hread : ∀ value, .number value ∈ Token.scan s → value.isFinite →
      Decimal.isNegative value = false →
      Decimal.read? (Decimal.text value).toList = some value) :
    (∀ value, .number value ∈ Token.scan s →
      value.isFinite ∧ Decimal.isNegative value = false) ∧
    Token.scan (Token.line (Token.scan s)) = Token.scan s ∧
    (∀ fault, Postfix.ofInfix (Token.scan s) = .error fault →
      Postfix.Unmatched (Token.scan s) fault ∧ Expr.parse s = .error fault) ∧
    ∀ tokens fault, Postfix.Unmatched tokens fault → Expr.parse s = .error fault →
      Token.scan fault.fragment = Token.scan s ∧ Expr.parse fault.fragment = .error fault := by
  have hunsigned (value : Float) (h : .number value ∈ Token.scan s) :=
    (Token.scanned_of_mem_scan h).unsigned
  have hline : Token.scan (Token.line (Token.scan s)) = Token.scan s :=
    Token.scan_line_scan fun value h => hread value h (hunsigned value h).1 (hunsigned value h).2
  refine ⟨hunsigned, hline, fun fault hreorder => ?_, fun tokens fault hfault hparse => ?_⟩
  · have hfault := Postfix.unmatched_of_reorderFrom hreorder
    exact ⟨hfault, (Expr.parse_eq_unmatched hfault).mpr hreorder⟩
  · have hreorder := (Expr.parse_eq_unmatched hfault).mp hparse
    have hfragment : fault.fragment = Token.line (Token.scan s) :=
      (Postfix.unmatched_of_reorderFrom hreorder).fragment
    rw [hfragment, Expr.parse_eq_unmatched hfault, hline]
    exact ⟨rfl, hreorder⟩

theorem tokens_scanned_back_reformatted :
    Token.scan "(1.50 + inf * 2e3" =
      [.openParen, .number 1.5, .operator .add, .identifier "inf", .operator .mul,
        .number 2000] ∧
    Token.line (Token.scan "(1.50 + inf * 2e3") = "( 1.5 + inf * 2000" ∧
    Token.scan "( 1.5 + inf * 2000" = Token.scan "(1.50 + inf * 2e3" ∧
    Expr.parse "(1.50 + inf * 2e3" =
      .error (.unmatchedOpen (Token.scan "(1.50 + inf * 2e3")) ∧
    Expr.parse "( 1.5 + inf * 2000" =
      .error (.unmatchedOpen (Token.scan "(1.50 + inf * 2e3")) := by
  have hscan : Token.scan "(1.50 + inf * 2e3" = [.openParen, .number 1.5, .operator .add,
      .identifier "inf", .operator .mul, .number 2000] := by
    decide +kernel
  have hparse : Expr.parse "(1.50 + inf * 2e3" =
      .error (.unmatchedOpen (Token.scan "(1.50 + inf * 2e3")) := rfl
  have hread : ∀ value, .number value ∈ Token.scan "(1.50 + inf * 2e3" → value.isFinite →
      Decimal.isNegative value = false →
      Decimal.read? (Decimal.text value).toList = some value := by
    intro value hvalue _ _
    rw [hscan] at hvalue
    simp only [List.mem_cons, reduceCtorEq, false_or, Token.number.injEq, List.not_mem_nil,
      or_false] at hvalue
    rcases hvalue with rfl | rfl
    · decide +kernel
    · decide +kernel
  have hline : Token.line (Token.scan "(1.50 + inf * 2e3") = "( 1.5 + inf * 2000" := by
    rw [hscan]
    decide +kernel
  obtain ⟨-, hback, -, herror⟩ := tokens_scanned_back "(1.50 + inf * 2e3" hread
  have hagain := (herror _ _ .opened hparse).2
  rw [hline] at hback
  refine ⟨hscan, hline, hback, hparse, ?_⟩
  change Expr.parse (Token.line _) = _ at hagain
  rwa [hline] at hagain

end ConstraintNet

import ConstraintNet.Decimal.Layout
import ConstraintNet.Decimal.Reading
import ConstraintNet.Operator
import ConstraintNet.Text.Blank

/-!
# Tokens

Blanks, parentheses and operators end a word. A word is a number if it reads as a
finite one, and an identifier otherwise, so names may hold dots, digits and signs
of any other kind.
-/

set_option autoImplicit false

namespace ConstraintNet

inductive Token where
  | number (value : Float)
  | identifier (name : String)
  | operator (op : Operator)
  | openParen
  | closeParen
  deriving DecidableEq

namespace Token

def text : Token → String
  | .number v => Decimal.text v
  | .identifier name => name
  | .operator op => op.symbol
  | .openParen => "("
  | .closeParen => ")"

def line (tokens : List Token) : String := " ".intercalate (tokens.map text)

def ofWord (word : List Char) : Token :=
  match Decimal.read? word with
  | some v => if v.isFinite then .number v else .identifier (String.ofList word)
  | none => .identifier (String.ofList word)

/-- What a delimiter stands for; no other character is a delimiter. -/
def ofDelimiter? (c : Char) : Option (List Token) :=
  if Text.isBlank c then some []
  else if c = '(' then some [.openParen]
  else if c = ')' then some [.closeParen]
  else (Operator.ofChar? c).map fun op => [.operator op]

def flush (word : List Char) : List Token :=
  if word = [] then [] else [ofWord word]

def scanFrom (word : List Char) : List Char → List Token
  | [] => flush word
  | c :: cs =>
    match ofDelimiter? c with
    | some tokens => flush word ++ tokens ++ scanFrom [] cs
    | none => scanFrom (word ++ [c]) cs

def scan (s : String) : List Token := scanFrom [] s.toList

/-- A delimiter splits the scan in two. -/
theorem scanFrom_append {word before after : List Char} {c : Char} {tokens : List Token}
    (hc : ofDelimiter? c = some tokens) :
    scanFrom word (before ++ c :: after) =
      scanFrom word before ++ tokens ++ scanFrom [] after := by
  induction before generalizing word with
  | nil => simp [scanFrom, hc]
  | cons b before ih =>
    simp only [List.cons_append, scanFrom]
    split <;> simp [ih]

theorem scanFrom_of_no_delimiter {word cs : List Char}
    (h : ∀ c ∈ cs, ofDelimiter? c = none) : scanFrom word cs = flush (word ++ cs) := by
  induction cs generalizing word with
  | nil => simp [scanFrom]
  | cons c cs ih =>
    have hc := h c (by simp)
    simp only [scanFrom, hc]
    rw [ih fun d hd => h d (by simp [hd])]
    simp

end Token

end ConstraintNet

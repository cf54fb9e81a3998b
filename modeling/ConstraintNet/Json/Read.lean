import ConstraintNet.Json.Basic
import ConstraintNet.Decimal.Reading

/-!
# Reading JSON

The strict grammar: four blanks, no comments, no trailing commas, no leading
zeros, no raw control characters in strings. Each reader gives what it read and
the characters after it.
-/

set_option autoImplicit false

namespace ConstraintNet.Json.Read

def isBlank (c : Char) : Bool := c = ' ' || c = '\t' || c = '\n' || c = '\r'

def skip (cs : List Char) : List Char := cs.dropWhile isBlank

inductive Piece where
  | char (c : Char)
  | unit (code : Nat)

def hexValue? (c : Char) : Option Nat :=
  if c.isDigit then some (c.toNat - '0'.toNat)
  else if 'a' ≤ c && c ≤ 'f' then some (c.toNat - 'a'.toNat + 10)
  else if 'A' ≤ c && c ≤ 'F' then some (c.toNat - 'A'.toNat + 10)
  else none

def escaped? : Char → Option Char
  | '"' => some '"'
  | '\\' => some '\\'
  | '/' => some '/'
  | 'b' => some '\x08'
  | 'f' => some '\x0c'
  | 'n' => some '\n'
  | 'r' => some '\r'
  | 't' => some '\t'
  | _ => none

def pieces : List Char → Option (List Piece × List Char)
  | [] => none
  | '"' :: rest => some ([], rest)
  | '\\' :: 'u' :: a :: b :: c :: d :: rest => do
    let code := ((← hexValue? a) * 16 + (← hexValue? b)) * 256
      + (← hexValue? c) * 16 + (← hexValue? d)
    let (ps, rest) ← pieces rest
    return (.unit code :: ps, rest)
  | '\\' :: e :: rest => do
    let c ← escaped? e
    let (ps, rest) ← pieces rest
    return (.char c :: ps, rest)
  | c :: rest => do
    guard (c ≠ '\\' && 0x20 ≤ c.toNat)
    let (ps, rest) ← pieces rest
    return (.char c :: ps, rest)

/-- The characters that pieces denote; surrogates count in pairs only. -/
def join? : List Piece → Option (List Char)
  | [] => some []
  | .char c :: ps => do return c :: (← join? ps)
  | .unit high :: .unit low :: ps =>
    if 0xD800 ≤ high && high < 0xDC00 then
      if 0xDC00 ≤ low && low < 0xE000 then do
        return Char.ofNat (0x10000 + (high - 0xD800) * 0x400 + (low - 0xDC00)) :: (← join? ps)
      else none
    else if 0xDC00 ≤ high && high < 0xE000 then none
    else do return Char.ofNat high :: (← join? (.unit low :: ps))
  | .unit code :: ps =>
    if 0xD800 ≤ code && code < 0xE000 then none
    else do return Char.ofNat code :: (← join? ps)

def string (cs : List Char) : Option (Option String × List Char) := do
  let (ps, rest) ← pieces cs
  return ((join? ps).map String.ofList, rest)

def digits (cs : List Char) : Option (List Char × List Char) := do
  let (ds, rest) := Decimal.leadingDigits cs
  guard (ds ≠ [])
  return (ds, rest)

def whole (cs : List Char) : Option (List Char × List Char) := do
  let (ds, rest) ← digits cs
  guard (ds = ['0'] || ds.head? ≠ some '0')
  return (ds, rest)

def fraction : List Char → Option (List Char × List Char)
  | '.' :: cs => digits cs
  | cs => some ([], cs)

def exponent : List Char → Option (Option Int × List Char)
  | c :: cs =>
    if c = 'e' || c = 'E' then
      match cs with
      | '-' :: cs => do
        let (ds, rest) ← digits cs
        return (some (-(Decimal.digitsValue ds : Int)), rest)
      | '+' :: cs => do
        let (ds, rest) ← digits cs
        return (some (Decimal.digitsValue ds), rest)
      | cs => do
        let (ds, rest) ← digits cs
        return (some (Decimal.digitsValue ds), rest)
    else some (none, c :: cs)
  | [] => some (none, [])

def number (negative : Bool) (cs : List Char) : Option (Json × List Char) := do
  let (ds, cs) ← whole cs
  let (fs, cs) ← fraction cs
  let (e, cs) ← exponent cs
  return (.number ⟨negative, ⟨ds, fs, e⟩⟩, cs)

mutual

/-- A value; `fuel` bounds how many items and levels it may have. -/
def value : (fuel : Nat) → List Char → Option (Json × List Char)
  | 0, _ => none
  | fuel + 1, cs =>
    match skip cs with
    | 'n' :: 'u' :: 'l' :: 'l' :: rest => some (.null, rest)
    | 't' :: 'r' :: 'u' :: 'e' :: rest => some (.bool true, rest)
    | 'f' :: 'a' :: 'l' :: 's' :: 'e' :: rest => some (.bool false, rest)
    | '"' :: rest => do
      let (s, rest) ← string rest
      return (.string s, rest)
    | '[' :: rest =>
      match skip rest with
      | ']' :: rest => some (.array [], rest)
      | rest => do
        let (js, rest) ← items fuel rest
        return (.array js, rest)
    | '\x7b' :: rest =>
      match skip rest with
      | '\x7d' :: rest => some (.object [], rest)
      | rest => do
        let (ms, rest) ← members fuel rest
        return (.object ms, rest)
    | '-' :: rest => number true rest
    | rest => number false rest

def items : (fuel : Nat) → List Char → Option (List Json × List Char)
  | 0, _ => none
  | fuel + 1, cs => do
    let (j, rest) ← value fuel cs
    match skip rest with
    | ']' :: rest => return ([j], rest)
    | ',' :: rest => do
      let (js, rest) ← items fuel rest
      return (j :: js, rest)
    | _ => none

def members : (fuel : Nat) → List Char → Option (List (Option String × Json) × List Char)
  | 0, _ => none
  | fuel + 1, cs =>
    match skip cs with
    | '"' :: rest => do
      let (key, rest) ← string rest
      match skip rest with
      | ':' :: rest => do
        let (j, rest) ← value fuel rest
        match skip rest with
        | '\x7d' :: rest => return ([(key, j)], rest)
        | ',' :: rest => do
          let (ms, rest) ← members fuel rest
          return ((key, j) :: ms, rest)
        | _ => none
      | _ => none
    | _ => none

end

end ConstraintNet.Json.Read

namespace ConstraintNet.Json

/-- The tree of a text that is one JSON value. Every level of nesting costs two of
the fuel and at least one character. -/
def read? (s : String) : Option Json := do
  let cs := s.toList
  let (j, rest) ← Read.value (2 * cs.length + 2) cs
  guard ((Read.skip rest).isEmpty)
  return j

end ConstraintNet.Json

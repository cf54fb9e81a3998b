import Mathlib.Data.List.Basic
import Mathlib.Data.Option.Basic
import ConstraintNet.Json.Read
import ConstraintNet.Json.Write

/-!
# Numerals are read as they are written

Layouts make numerals of the strict grammar: digits only, no leading zero, and a digit on each
side of a point. Such a numeral is read back from its text part by part, and what follows it is
left alone.
-/

set_option autoImplicit false

namespace ConstraintNet

namespace Decimal

theorem digitsValue_toDigits (n : Nat) : digitsValue (Nat.toDigits 10 n) = n :=
  Nat.ofDigitChars_toDigits (by decide) (by decide)

theorem isDigit_of_mem_toDigits {n : Nat} {c : Char} (hc : c ∈ Nat.toDigits 10 n) :
    c.isDigit = true :=
  Nat.isDigit_of_mem_toDigits (by decide) (by decide) hc

theorem digitChar_ne_zero {n : Nat} (hn : n ≠ 0) (hlt : n < 10) : n.digitChar ≠ '0' := by
  intro h
  have hvalue : 48 + n = '0'.toNat := by rw [← Nat.toNat_digitChar_of_lt_ten hlt, h]
  have hzero : '0'.toNat = 48 := rfl
  omega

theorem head?_toDigits {n : Nat} (hn : n ≠ 0) : (Nat.toDigits 10 n).head? ≠ some '0' := by
  induction n using Nat.strongRecOn with
  | ind n ih =>
    rw [Nat.toDigits_eq_if (by decide)]
    split
    case isTrue hlt => simpa using digitChar_ne_zero hn hlt
    case isFalse hge =>
      rw [List.head?_append_of_ne_nil _ Nat.toDigits_ne_nil]
      exact ih (n / 10) (by omega) (by omega)

/-- What follows digits when they are read to their end. -/
def NoDigit (cs : List Char) : Prop := ∀ c ∈ cs.head?, c.isDigit = false

theorem leadingDigits_append_of_noDigit {ds rest : List Char} (hds : ∀ c ∈ ds, c.isDigit = true)
    (hrest : NoDigit rest) : leadingDigits (ds ++ rest) = (ds, rest) := by
  have hstop : rest.takeWhile Char.isDigit = [] ∧ rest.dropWhile Char.isDigit = rest := by
    cases rest with
    | nil => exact ⟨rfl, rfl⟩
    | cons c cs => simp [hrest c rfl]
  rw [leadingDigits, List.takeWhile_append_of_pos hds, List.dropWhile_append_of_pos hds,
    hstop.1, hstop.2, List.append_nil]

theorem Grid.ne_zero_of_rounds {b : Binary} {scale : Int} {n : Nat} (hb : b.significand ≠ 0)
    (h : (Grid.at b scale).rounds b n = true) : n ≠ 0 := by
  rintro rfl
  have hquarter : 0 < (Grid.at b scale).quarter :=
    Nat.mul_pos (Nat.pow_pos (by decide)) (Nat.pow_pos (by decide))
  have hlower : ∀ k, k ≤ 2 → 0 < (4 * b.significand - k) * (Grid.at b scale).quarter :=
    fun k hk => Nat.mul_pos (by omega) hquarter
  have hends : 0 < (4 * b.significand - if b.leastOfBinade then 1 else 2) *
      (Grid.at b scale).quarter := hlower _ (by split <;> omega)
  unfold Grid.rounds at h
  simp only [Nat.zero_mul] at h
  split at h <;> simp only [Bool.and_eq_true, decide_eq_true_eq] at h <;> omega

theorem Grid.rounds_of_nearest {g : Grid} {b : Binary} {tie : Tie} {n : Nat}
    (h : g.nearest? b tie = some n) : g.rounds b n = true := by
  unfold Grid.nearest? at h
  simp only at h
  split at h
  case h_1 hbelow habove =>
    have heither (upward : Bool) : g.rounds b (if upward
        then 4 * b.significand * g.quarter / g.unit + 1
        else 4 * b.significand * g.quarter / g.unit) = true := by
      cases upward <;> assumption
    rw [← Option.some.inj h]
    exact heither _
  case h_2 hbelow _ => rwa [← Option.some.inj h]
  case h_3 _ habove => rwa [← Option.some.inj h]
  case h_4 => cases h

theorem coefficient_ne_zero_of_firstNearest {b : Binary} {tie : Tie} {grids : Nat} {scale : Int}
    {d : Scaled} (hb : b.significand ≠ 0) (h : firstNearest b tie grids scale = some d) :
    d.coefficient ≠ 0 := by
  induction grids generalizing scale with
  | zero => cases h
  | succ grids ih =>
    unfold firstNearest at h
    split at h
    case h_1 n hn =>
      cases h
      exact Grid.ne_zero_of_rounds hb (Grid.rounds_of_nearest hn)
    case h_2 => exact ih h

theorem Scaled.coefficient_trim_ne_zero {steps : Nat} {d : Scaled} (hd : d.coefficient ≠ 0) :
    (d.trim steps).coefficient ≠ 0 := by
  induction steps generalizing d with
  | zero => exact hd
  | succ steps ih =>
    unfold Scaled.trim
    split
    case isTrue h =>
      simp only [Bool.and_eq_true, decide_eq_true_eq] at h
      exact ih (d := ⟨d.coefficient / 10, d.scale + 1⟩) (by simp only; omega)
    case isFalse => exact hd

theorem coefficient_shortest_ne_zero {b : Binary} (tie : Tie) (hb : b.significand ≠ 0) :
    (shortest b tie).coefficient ≠ 0 := by
  rw [shortest, if_neg hb]
  apply Scaled.coefficient_trim_ne_zero
  cases h : firstNearest b tie maxDigits (magnitude b - 1) with
  | none => exact hb
  | some d => exact coefficient_ne_zero_of_firstNearest hb h

structure Parts.WellFormed (p : Parts) : Prop where
  whole : ∀ c ∈ p.whole, c.isDigit = true
  fraction : ∀ c ∈ p.fraction, c.isDigit = true
  nonempty : p.whole ≠ []
  leading : p.whole = ['0'] ∨ p.whole.head? ≠ some '0'

theorem isDigit_of_mem_replicate {n : Nat} {c : Char} (hc : c ∈ List.replicate n '0') :
    c.isDigit = true := by
  rw [List.eq_of_mem_replicate hc]
  rfl

theorem Parts.wellFormed_positional {digits wholeFraction : List Char} (point : Int)
    (hdigits : ∀ c ∈ digits, c.isDigit = true) (hhead : digits.head? ≠ some '0')
    (hne : digits ≠ []) (hfraction : ∀ c ∈ wholeFraction, c.isDigit = true) :
    (Parts.positional digits point wholeFraction).WellFormed := by
  unfold Parts.positional
  split
  case isTrue =>
    refine ⟨fun c hc => ?_, hfraction, by simp [hne], .inr ?_⟩
    · exact (List.mem_append.mp hc).elim (hdigits c) isDigit_of_mem_replicate
    · rwa [List.head?_append_of_ne_nil _ hne]
  case isFalse =>
    split
    case isTrue hpoint =>
      refine ⟨fun c hc => hdigits c (List.mem_of_mem_take hc),
        fun c hc => hdigits c (List.mem_of_mem_drop hc), ?_, .inr ?_⟩
      · simp only [ne_eq, List.take_eq_nil_iff, not_or]
        exact ⟨by omega, hne⟩
      · rwa [List.head?_take, if_neg (by omega)]
    case isFalse =>
      refine ⟨by simp, fun c hc => ?_, by simp, .inl rfl⟩
      exact (List.mem_append.mp hc).elim isDigit_of_mem_replicate (hdigits c)

theorem Parts.wellFormed_scientific {digits : List Char} (exponent : Int)
    (hdigits : ∀ c ∈ digits, c.isDigit = true) (hhead : digits.head? ≠ some '0')
    (hne : digits ≠ []) : (Parts.scientific digits exponent).WellFormed where
  whole c hc := hdigits c (List.mem_of_mem_take hc)
  fraction c hc := hdigits c (List.mem_of_mem_drop hc)
  nonempty := by simp [Parts.scientific, hne]
  leading := .inr (by simpa [Parts.scientific, List.head?_take] using hhead)

theorem Layout.wellFormed_parts (l : Layout) (b : Binary)
    (hfraction : ∀ c ∈ l.wholeFraction, c.isDigit = true) : (l.parts b).WellFormed := by
  by_cases hb : b.significand = 0
  · have hzero : l.parts b = ⟨['0'], l.wholeFraction, none⟩ := by
      simp [Layout.parts, shortest, hb, Parts.positional]
    rw [hzero]
    exact ⟨by simp, hfraction, by simp, .inl rfl⟩
  · have hdigits : ∀ c ∈ Nat.toDigits 10 (shortest b l.tie).coefficient, c.isDigit = true :=
      fun c => isDigit_of_mem_toDigits
    have hhead := head?_toDigits (coefficient_shortest_ne_zero l.tie hb)
    unfold Layout.parts
    simp only
    split
    · exact Parts.wellFormed_positional _ hdigits hhead Nat.toDigits_ne_nil hfraction
    · exact Parts.wellFormed_scientific _ hdigits hhead Nat.toDigits_ne_nil

end Decimal

namespace Json

open Decimal

def Read.continues (c : Char) : Bool := c.isDigit || c = '.' || c = 'e' || c = 'E'

/-- What may follow a number. -/
def Read.Stops (cs : List Char) : Prop := ∀ c ∈ cs.head?, Read.continues c = false

theorem Read.Stops.noDigit {cs : List Char} (h : Stops cs) : NoDigit cs := by
  intro c hc
  have hstop := h c hc
  simp only [continues, Bool.or_eq_false_iff] at hstop
  exact hstop.1.1.1

theorem Read.digits_append {ds rest : List Char} (hds : ∀ c ∈ ds, c.isDigit = true)
    (hne : ds ≠ []) (hrest : NoDigit rest) : Read.digits (ds ++ rest) = some (ds, rest) := by
  rw [Read.digits, leadingDigits_append_of_noDigit hds hrest]
  change (guard (ds ≠ []) : Option Unit).bind (fun _ => some (ds, rest)) = _
  rw [(Option.guard_eq_some' ()).mpr hne]
  rfl

theorem Read.whole_append {ds rest : List Char} (hds : ∀ c ∈ ds, c.isDigit = true)
    (hne : ds ≠ []) (hleading : ds = ['0'] ∨ ds.head? ≠ some '0') (hrest : NoDigit rest) :
    Read.whole (ds ++ rest) = some (ds, rest) := by
  rw [Read.whole, Read.digits_append hds hne hrest]
  change (guard ((ds = ['0'] || ds.head? ≠ some '0') = true) : Option Unit).bind
    (fun _ => some (ds, rest)) = _
  rw [(Option.guard_eq_some' ()).mpr (by simpa using hleading)]
  rfl

theorem Read.fraction_append {fs rest : List Char} (hfs : ∀ c ∈ fs, c.isDigit = true)
    (hrest : NoDigit rest) (hpoint : rest.head? ≠ some '.') :
    Read.fraction ((if fs = [] then [] else '.' :: fs) ++ rest) = some (fs, rest) := by
  by_cases hne : fs = []
  · subst hne
    rw [if_pos rfl, List.nil_append]
    unfold Read.fraction
    split
    · exact absurd rfl hpoint
    · rfl
  · rw [if_neg hne]
    exact Read.digits_append hfs hne hrest

def exponentText : Option Int → List Char
  | none => []
  | some e => 'e' :: ((if e < 0 then ['-'] else layout.plus) ++ Nat.toDigits 10 e.natAbs)

theorem Read.exponent_append {e : Option Int} {rest : List Char} (hrest : Read.Stops rest) :
    Read.exponent (exponentText e ++ rest) = some (e, rest) := by
  cases e with
  | none =>
    cases rest with
    | nil => rfl
    | cons c cs =>
      have hstop := hrest c rfl
      simp only [Read.continues, Bool.or_eq_false_iff, decide_eq_false_iff_not] at hstop
      simp [exponentText, Read.exponent, hstop.1.2, hstop.2]
  | some e =>
    have hdigits : Read.digits (Nat.toDigits 10 e.natAbs ++ rest) =
        some (Nat.toDigits 10 e.natAbs, rest) :=
      Read.digits_append (fun c => isDigit_of_mem_toDigits) Nat.toDigits_ne_nil hrest.noDigit
    by_cases he : e < 0
    · have htext : exponentText (some e) ++ rest =
          'e' :: '-' :: (Nat.toDigits 10 e.natAbs ++ rest) := by simp [exponentText, he]
      have hvalue : -(e.natAbs : Int) = e := by omega
      rw [htext]
      change (Read.digits (Nat.toDigits 10 e.natAbs ++ rest)).bind
        (fun r => some (some (-(digitsValue r.1 : Int)), r.2)) = _
      rw [hdigits]
      change some (some (-(digitsValue (Nat.toDigits 10 e.natAbs) : Int)), rest) = _
      rw [digitsValue_toDigits, hvalue]
    · have htext : exponentText (some e) ++ rest =
          'e' :: '+' :: (Nat.toDigits 10 e.natAbs ++ rest) := by simp [exponentText, layout, he]
      have hvalue : (e.natAbs : Int) = e := by omega
      rw [htext]
      change (Read.digits (Nat.toDigits 10 e.natAbs ++ rest)).bind
        (fun r => some (some (digitsValue r.1 : Int), r.2)) = _
      rw [hdigits]
      change some (some (digitsValue (Nat.toDigits 10 e.natAbs) : Int), rest) = _
      rw [digitsValue_toDigits, hvalue]

theorem text_eq_append (p : Parts) : p.text layout.plus =
    p.whole ++ ((if p.fraction = [] then [] else '.' :: p.fraction) ++
      exponentText p.exponent) := by
  rw [Parts.text, List.append_assoc]
  cases p.exponent <;> rfl

theorem noDigit_exponentText_append {e : Option Int} {rest : List Char} (hrest : Read.Stops rest) :
    NoDigit (exponentText e ++ rest) ∧ (exponentText e ++ rest).head? ≠ some '.' := by
  cases e with
  | none =>
    refine ⟨hrest.noDigit, fun hpoint => ?_⟩
    have hstop := hrest '.' hpoint
    cases hstop
  | some e => simp [exponentText, NoDigit]

theorem Read.number_append {negative : Bool} {p : Parts} {rest : List Char} (hp : p.WellFormed)
    (hrest : Read.Stops rest) :
    Read.number negative (p.text layout.plus ++ rest) =
      some (.number ⟨negative, p⟩, rest) := by
  obtain ⟨hdigit, hpoint⟩ := noDigit_exponentText_append (e := p.exponent) hrest
  have hfraction := Read.fraction_append hp.fraction hdigit hpoint
  have hafter : NoDigit ((if p.fraction = [] then [] else '.' :: p.fraction) ++
      (exponentText p.exponent ++ rest)) := by
    split
    · exact hdigit
    · simp [NoDigit]
  have hwhole := Read.whole_append hp.whole hp.nonempty hp.leading hafter
  rw [text_eq_append, List.append_assoc, List.append_assoc]
  simp [Read.number, hwhole, hfraction, Read.exponent_append hrest]

end Json

end ConstraintNet

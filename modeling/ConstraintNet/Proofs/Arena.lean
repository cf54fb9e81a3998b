import Mathlib.Data.List.Basic
import Mathlib.Data.Finset.Card
import Mathlib.Data.Finset.Range
import ConstraintNet.Arena

/-!
# Arenas seen through their slots

An arena is its size together with what `get?` answers. Counting its items is
counting the indices at which something satisfies a test.
-/

set_option autoImplicit false

namespace ConstraintNet.Arena

variable {α : Type}

theorem ext_get? {a b : Arena α} (hn : a.next = b.next) (hg : ∀ i, a.get? i = b.get? i) :
    a = b := by
  obtain ⟨xs⟩ := a
  obtain ⟨ys⟩ := b
  congr 1
  apply Array.ext hn
  intro i hi hj
  have h := hg i
  simpa [get?, Array.getElem?_eq_getElem hi, Array.getElem?_eq_getElem hj] using h

theorem lt_next_of_get? {a : Arena α} {i : Nat} {x : α} (h : a.get? i = some x) :
    i < a.next := by
  by_contra hn
  rw [get?_eq_none_of_next_le (not_lt.mp hn)] at h
  cases h

theorem next_map (f : α → α) (a : Arena α) : (a.map f).next = a.next := by
  simp [map, next]

theorem modify_eq_self {a : Arena α} {i : Nat} {f : α → α}
    (h : ∀ x, a.get? i = some x → f x = x) : a.modify i f = a := by
  apply ext_get? (next_modify a i f)
  intro j
  rw [get?_modify]
  split
  · rename_i hij
    subst hij
    cases hx : a.get? i with
    | none => rfl
    | some x => simp [h x hx]
  · rfl

section Sweep

variable {ι : Type} (index : ι → Nat) (f : α → α)

/-- A change that is the same made twice, made at every index of a list. -/
theorem get?_foldl_modify (hf : ∀ x, f (f x) = f x) (vs : List ι) (a : Arena α) (i : Nat) :
    (vs.foldl (fun xs v => xs.modify (index v) f) a).get? i =
      if i ∈ vs.map index then (a.get? i).map f else a.get? i := by
  induction vs generalizing a with
  | nil => simp
  | cons v vs ih =>
    rw [List.foldl_cons, ih, get?_modify]
    by_cases hv : index v = i
    · cases hx : a.get? i <;> simp [hv, hf]
    · simp [hv, Ne.symm hv]

theorem next_foldl_modify (vs : List ι) (a : Arena α) :
    (vs.foldl (fun xs v => xs.modify (index v) f) a).next = a.next := by
  induction vs generalizing a with
  | nil => rfl
  | cons v vs ih => rw [List.foldl_cons, ih, next_modify]

end Sweep

theorem live_eq_filterMap (a : Arena α) : a.live = (List.range a.next).filterMap a.get? := by
  obtain ⟨xs⟩ := a
  have hx : xs.toList = (List.range xs.size).map fun i => (xs[i]?).join := by
    apply List.ext_getElem
    · simp
    · intro i hi hj
      simp only [Array.length_toList] at hi
      simp [Array.getElem?_eq_getElem hi]
  rw [live, hx, List.filterMap_map]
  rfl

theorem countP_live (a : Arena α) (p : α → Bool) :
    a.live.countP p = ((Finset.range a.next).filter fun i => (a.get? i).any p).card := by
  rw [live_eq_filterMap, List.countP_filterMap, Finset.card_def, Finset.filter_val,
    Finset.range_val, Multiset.range, Multiset.filter_coe, Multiset.coe_card,
    List.countP_eq_length_filter]
  congr 1
  apply List.filter_congr
  intro i _
  cases a.get? i <;> simp

end ConstraintNet.Arena

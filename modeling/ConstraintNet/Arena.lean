/-!
# Arenas

An arena hands out slots in increasing order and empties them again. A slot that
was emptied stays empty for ever, so a stale index never denotes a newer item.
-/

set_option autoImplicit false

namespace ConstraintNet

structure Arena (α : Type) where
  slots : Array (Option α)

namespace Arena

variable {α : Type}

def empty : Arena α := ⟨#[]⟩

def next (a : Arena α) : Nat := a.slots.size

def get? (a : Arena α) (i : Nat) : Option α := (a.slots[i]?).join

def push (a : Arena α) (x : α) : Arena α := ⟨a.slots.push (some x)⟩

def modify (a : Arena α) (i : Nat) (f : α → α) : Arena α :=
  ⟨a.slots.modify i (Option.map f)⟩

def erase (a : Arena α) (i : Nat) : Arena α := ⟨a.slots.modify i fun _ => none⟩

def map (f : α → α) (a : Arena α) : Arena α := ⟨a.slots.map (Option.map f)⟩

def live (a : Arena α) : List α := a.slots.toList.filterMap id

@[simp] theorem get?_empty (i : Nat) : (empty : Arena α).get? i = none := by
  simp [empty, get?]

@[simp] theorem next_push (a : Arena α) (x : α) : (a.push x).next = a.next + 1 := by
  simp [push, next]

@[simp] theorem next_modify (a : Arena α) (i : Nat) (f : α → α) :
    (a.modify i f).next = a.next := by
  simp [modify, next]

@[simp] theorem next_erase (a : Arena α) (i : Nat) : (a.erase i).next = a.next := by
  simp [erase, next]

theorem get?_eq_none_of_next_le {a : Arena α} {i : Nat} (h : a.next ≤ i) :
    a.get? i = none := by
  simp [get?, Array.getElem?_eq_none h]

theorem get?_push (a : Arena α) (x : α) (i : Nat) :
    (a.push x).get? i = if i = a.next then some x else a.get? i := by
  by_cases h : i = a.slots.size <;> simp [get?, push, next, Array.getElem?_push, h]

theorem get?_modify (a : Arena α) (i j : Nat) (f : α → α) :
    (a.modify i f).get? j = if i = j then (a.get? j).map f else a.get? j := by
  simp only [get?, modify, Array.getElem?_modify]
  split
  · cases a.slots[j]? <;> simp
  · rfl

theorem get?_erase (a : Arena α) (i j : Nat) :
    (a.erase i).get? j = if i = j then none else a.get? j := by
  simp only [get?, erase, Array.getElem?_modify]
  split
  · cases a.slots[j]? <;> simp
  · rfl

theorem get?_map (a : Arena α) (f : α → α) (i : Nat) :
    (a.map f).get? i = (a.get? i).map f := by
  simp only [get?, map, Array.getElem?_map]
  cases a.slots[i]? <;> simp

theorem mem_live {a : Arena α} {x : α} : x ∈ a.live ↔ ∃ i, a.get? i = some x := by
  simp only [live, get?, List.mem_filterMap, id_eq, exists_eq_right, Array.mem_toList_iff,
    Array.mem_iff_getElem?]
  constructor
  · rintro ⟨i, hi⟩
    exact ⟨i, by simp [hi]⟩
  · rintro ⟨i, hi⟩
    exact ⟨i, by cases h : a.slots[i]? <;> simp_all⟩

end Arena

end ConstraintNet

/-!
# Tables

A finite map as a list of entries, oldest first, with one entry per key.
-/

set_option autoImplicit false

namespace ConstraintNet

structure Table (κ α : Type) where
  entries : List (κ × α)
  keys_nodup : (entries.map Prod.fst).Nodup

namespace Table

variable {κ α : Type}

def empty : Table κ α := ⟨[], List.nodup_nil⟩

def filter (t : Table κ α) (keep : κ × α → Bool) : Table κ α :=
  ⟨t.entries.filter keep, t.keys_nodup.sublist (List.filter_sublist.map Prod.fst)⟩

variable [DecidableEq κ]

def find? (t : Table κ α) (k : κ) : Option α :=
  (t.entries.find? fun e => e.1 = k).map Prod.snd

def contains (t : Table κ α) (k : κ) : Bool := (t.find? k).isSome

def erase (t : Table κ α) (k : κ) : Table κ α := t.filter fun e => e.1 ≠ k

/-- Any older entry of the key is replaced. -/
def insert (t : Table κ α) (k : κ) (x : α) : Table κ α where
  entries := (t.erase k).entries ++ [(k, x)]
  keys_nodup := by
    rw [List.map_append, List.nodup_append]
    refine ⟨(t.erase k).keys_nodup, by simp, ?_⟩
    simp only [erase, filter, List.mem_map, List.mem_filter, List.map_cons, List.map_nil,
      List.mem_singleton, decide_eq_true_eq]
    rintro _ ⟨e, ⟨-, he⟩, rfl⟩ _ rfl
    simpa using he

@[simp] theorem find?_empty (k : κ) : (empty : Table κ α).find? k = none := rfl

theorem find?_eq_some_iff {t : Table κ α} {k : κ} {x : α} :
    t.find? k = some x ↔ (k, x) ∈ t.entries := by
  obtain ⟨entries, nodup⟩ := t
  simp only [find?]
  induction entries with
  | nil => simp
  | cons e rest ih =>
    obtain ⟨j, y⟩ := e
    simp only [List.map_cons, List.nodup_cons, List.mem_map, not_exists, not_and] at nodup
    by_cases h : j = k
    · subst h
      simp only [List.find?_cons, decide_true, Option.map_some, Option.some.injEq,
        List.mem_cons, Prod.mk.injEq, true_and]
      exact ⟨fun h => .inl h.symm, fun h => h.elim (·.symm) fun hm => absurd rfl (nodup.1 _ hm)⟩
    · simp [h, ih nodup.2, Ne.symm h]

theorem find?_filter (t : Table κ α) (keep : κ × α → Bool) (k : κ) (x : α) :
    (t.filter keep).find? k = some x ↔ t.find? k = some x ∧ keep (k, x) := by
  simp [find?_eq_some_iff, filter]

theorem find?_erase (t : Table κ α) (k j : κ) :
    (t.erase k).find? j = if j = k then none else t.find? j := by
  apply Option.ext
  intro x
  rw [erase, find?_filter]
  split <;> simp_all

theorem find?_insert (t : Table κ α) (k j : κ) (x : α) :
    (t.insert k x).find? j = if j = k then some x else t.find? j := by
  apply Option.ext
  intro y
  have h := find?_eq_some_iff (t := t.erase k) (k := j) (x := y)
  rw [find?_erase] at h
  simp only [find?_eq_some_iff, insert, List.mem_append, List.mem_singleton, Prod.mk.injEq, ← h]
  split <;> simp_all [eq_comm]

end Table

end ConstraintNet

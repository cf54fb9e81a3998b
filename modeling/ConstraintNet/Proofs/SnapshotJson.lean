import ConstraintNet.Json.Snapshot
import ConstraintNet.Proofs.ExprJson
import ConstraintNet.Proofs.Readout

/-!
# Snapshots survive JSON

The tree of a snapshot is read back field by field, whatever the names and the equations are. Only
a value that is not finite would be lost, since its JSON is the same as that of no value; no
reachable network holds one.
-/

set_option autoImplicit false

namespace ConstraintNet

open Network

theorem VariableSnapshot.depth_data (x : VariableSnapshot) : x.data.depth = 1 := by
  rw [data, Data.depth, Data.membersDepth_zip rfl]
  cases x.value <;> rfl

theorem Snapshot.depth_data_le (s : Snapshot) : s.data.depth ≤ 3 := by
  have hvars : Data.itemsDepth (s.vars.map VariableSnapshot.data) ≤ 1 := by
    refine Data.itemsDepth_le fun d hd => ?_
    obtain ⟨x, -, rfl⟩ := List.mem_map.mp hd
    exact x.depth_data.le
  have hrelationships : Data.itemsDepth (s.relationships.map Data.text) ≤ 1 := by
    refine Data.itemsDepth_le fun d hd => ?_
    obtain ⟨line, -, rfl⟩ := List.mem_map.mp hd
    exact Nat.zero_le 1
  rw [data, Data.depth, Data.membersDepth_zip rfl]
  simp only [Data.itemsDepth, Data.depth]
  omega

namespace JsonLibrary

variable {lib : JsonLibrary}

theorem mapM_map {α β : Type} {f : α → β} {g : β → Option α} {as : List α}
    (h : ∀ a ∈ as, g (f a) = some a) : (as.map f).mapM g = some as := by
  have hsame : as.mapM (g ∘ f) = some (as.map id) := Json.mapM_eq_some h
  rwa [← List.mapM_map, List.map_id] at hsame

theorem Lawful.isNothing_number (hlib : lib.Lawful) {x : Float} (h : lib.ReadsBack x) :
    lib.isNothing (lib.tree (.number x)) = false := by
  by_contra hnothing
  have hnone := hlib.number_of_nothing _ (Bool.not_eq_false _ ▸ hnothing)
  rw [hlib.number h] at hnone
  cases hnone

theorem Lawful.optional_data (hlib : lib.Lawful) {value : Option Float}
    (h : ∀ v ∈ value, lib.ReadsBack v) :
    lib.optional? (some (lib.tree (.optional value))) = some value := by
  cases value with
  | none => simp [Data.optional, optional?, hlib.nothing]
  | some v =>
    have hv : lib.ReadsBack v := h v rfl
    simp [Data.optional, optional?, hlib.isNothing_number hv, hlib.number hv]

theorem Lawful.variableSnapshot_data (hlib : lib.Lawful) {x : VariableSnapshot}
    (h : ∀ v ∈ x.value, lib.ReadsBack v) :
    lib.variableSnapshot? (lib.tree x.data) = some x := by
  rw [variableSnapshot?, VariableSnapshot.data, hlib.fields _ _ (by decide) rfl]
  simp [hlib.text, hlib.word, hlib.optional_data h, Kind.word, State.word]

theorem Lawful.snapshot_data (hlib : lib.Lawful) {s : Snapshot}
    (h : ∀ x ∈ s.vars, ∀ v ∈ x.value, lib.ReadsBack v) :
    lib.snapshot? (lib.tree s.data) = some s := by
  have hvars : ((s.vars.map VariableSnapshot.data).map lib.tree).mapM lib.variableSnapshot? =
      some s.vars := by
    rw [List.map_map]
    exact mapM_map fun x hx => hlib.variableSnapshot_data (h x hx)
  have hrelationships : ((s.relationships.map Data.text).map lib.tree).mapM lib.text? =
      some s.relationships := by
    rw [List.map_map]
    exact mapM_map fun line _ => hlib.text line
  rw [snapshot?, Snapshot.data, hlib.fields _ _ (by decide) rfl]
  simp only [List.map_cons, List.map_nil, Option.bind_eq_bind, Option.bind_some, hlib.list, hvars,
    hrelationships]
  rfl

end JsonLibrary

namespace Network

variable {net : Network}

theorem WellHeld.finite_snapshot (h : net.WellHeld) {x : VariableSnapshot}
    (hx : x ∈ net.snapshot.vars) {v : Float} (hv : v ∈ x.value) : v.isFinite = true := by
  obtain ⟨y, hy, rfl⟩ := List.mem_map.mp hx
  obtain ⟨i, hi⟩ := Arena.mem_live.mp (List.mem_filter.mp hy).1
  exact (h.held ⟨i⟩ y hi).finite hv

/-- Whatever library does as documented: the snapshot of a reachable network is read back from
its JSON, provided that the library reads its finite values as it prints them. Every value
in it is finite, so none is taken for no value. -/
theorem snapshot_read_back {lib : JsonLibrary} (hlib : lib.Lawful) (hlimit : 3 ≤ lib.limit)
    (hr : Reachable net)
    (hread : ∀ x ∈ net.snapshot.vars, ∀ v ∈ x.value, v.isFinite = true → lib.ReadsBack v) :
    lib.readSnapshot? (lib.writeSnapshot net.snapshot) = some net.snapshot ∧
      ∀ x ∈ net.snapshot.vars, x.value.isSome →
        lib.isNothing (lib.tree (.optional x.value)) = false := by
  have hback : ∀ x ∈ net.snapshot.vars, ∀ v ∈ x.value, lib.ReadsBack v :=
    fun x hx v hv => hread x hx v hv (hr.wellHeld.finite_snapshot hx hv)
  constructor
  · have htree := hlib.read_print net.snapshot.data (net.snapshot.depth_data_le.trans hlimit)
    rw [JsonLibrary.readSnapshot?, JsonLibrary.writeSnapshot, htree]
    exact hlib.snapshot_data hback
  · intro x hx hsome
    obtain ⟨v, hv⟩ := Option.isSome_iff_exists.mp hsome
    rw [hv]
    exact hlib.isNothing_number (hback x hx v hv)

def quotedNames : Network :=
  (empty .standard).after [.set "a\"b" (.expression "c\\d - 0.25"), .assign "c\\d" 0.1,
    .declare "e\n", .assign "e\n" (1 / 0), .solve 1]

theorem snapshot_read_back_quotedNames :
    Reachable quotedNames ∧
      quotedNames.snapshot.vars.map (·.value) =
        [some (0.1 - 0.25), some 0.1, some (0.1 - 0.25), none] ∧
      (∀ x ∈ quotedNames.snapshot.vars, ∀ v ∈ x.value, v.isFinite = true →
        Json.library.ReadsBack v) ∧
      Json.library.readSnapshot? (Json.library.writeSnapshot quotedNames.snapshot) =
        some quotedNames.snapshot := by
  have hr : Reachable quotedNames := ⟨.standard, empty .standard, _, create_standard, rfl⟩
  have hread : ∀ x ∈ quotedNames.snapshot.vars, ∀ v ∈ x.value, v.isFinite = true →
      Json.library.ReadsBack v := by
    decide +kernel
  exact ⟨hr, by decide +kernel, hread,
    (snapshot_read_back Json.library_lawful (by decide) hr hread).1⟩

end Network

end ConstraintNet

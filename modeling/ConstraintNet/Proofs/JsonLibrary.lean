import ConstraintNet.Json.Standard
import ConstraintNet.Proofs.JsonText

/-!
# The library keeps to what is documented

What is printed is well formed, so its text is read back as a tree. The reader counts the
levels of the data, and what it checks besides is the numbers.
-/

set_option autoImplicit false

namespace ConstraintNet.Json

theorem wellFormed_ofFloat (x : Float) : (ofFloat x).WellFormed := by
  unfold ofFloat
  split
  · refine Decimal.Layout.wellFormed_parts _ _ fun c hc => ?_
    rw [List.mem_singleton.mp hc]
    rfl
  · trivial

theorem depth_ofFloat (x : Float) : (ofFloat x).depth = 0 := by
  unfold ofFloat
  split <;> rfl

mutual

theorem wellFormed_ofData : ∀ d, (ofData d).WellFormed
  | .nothing | .bool _ => trivial
  | .number x => wellFormed_ofFloat x
  | .text _ => rfl
  | .list ds => wellFormed_ofItems ds
  | .record ms => wellFormed_record (wellFormed_ofMembers ms)

theorem wellFormed_ofItems : ∀ ds, ItemsWellFormed (ofItems ds)
  | [] => trivial
  | d :: ds => ⟨wellFormed_ofData d, wellFormed_ofItems ds⟩

theorem wellFormed_ofMembers : ∀ ms, ItemsWellFormed ((ofMembers ms).map Prod.snd)
  | [] => trivial
  | (_, d) :: ms => ⟨wellFormed_ofData d, wellFormed_ofMembers ms⟩

end

mutual

theorem depth_ofData : ∀ d, (ofData d).depth = d.depth
  | .nothing | .bool _ | .text _ => rfl
  | .number x => depth_ofFloat x
  | .list ds => by rw [ofData, depth, Data.depth, depth_ofItems ds]
  | .record ms => by rw [ofData, depth_record, Data.depth, depth_ofMembers ms]

theorem depth_ofItems : ∀ ds, itemsDepth (ofItems ds) = Data.itemsDepth ds
  | [] => rfl
  | d :: ds => by rw [ofItems, itemsDepth, Data.itemsDepth, depth_ofData d, depth_ofItems ds]

theorem depth_ofMembers : ∀ ms, itemsDepth ((ofMembers ms).map Prod.snd) = Data.membersDepth ms
  | [] => rfl
  | (_, d) :: ms => by
    rw [ofMembers, List.map_cons, itemsDepth, Data.membersDepth, depth_ofData d,
      depth_ofMembers ms]

end

mutual

theorem isSound_ofData : ∀ d, (∀ x ∈ Data.numbers d, (ofFloat x).isSound = true) →
    (ofData d).isSound = true
  | .nothing, _ | .bool _, _ | .text _, _ => rfl
  | .number x, h => h x (List.mem_singleton_self x)
  | .list ds, h => isSound_ofItems ds h
  | .record ms, h => (isSound_record _).trans (isSound_ofMembers ms h)

theorem isSound_ofItems : ∀ ds, (∀ x ∈ Data.itemsNumbers ds, (ofFloat x).isSound = true) →
    allSound (ofItems ds) = true
  | [], _ => rfl
  | d :: ds, h => by
    have hd := isSound_ofData d fun x hx => h x (List.mem_append_left _ hx)
    have hds := isSound_ofItems ds fun x hx => h x (List.mem_append_right _ hx)
    rw [ofItems, allSound, hd, hds]
    rfl

theorem isSound_ofMembers : ∀ ms, (∀ x ∈ Data.membersNumbers ms, (ofFloat x).isSound = true) →
    allSound ((ofMembers ms).map Prod.snd) = true
  | [], _ => rfl
  | (_, d) :: ms, h => by
    have hd := isSound_ofData d fun x hx => h x (List.mem_append_left _ hx)
    have hms := isSound_ofMembers ms fun x hx => h x (List.mem_append_right _ hx)
    rw [ofMembers, List.map_cons, allSound, hd, hms]
    rfl

end

theorem read?_print (d : Data) : read? (library.print d) = some (ofData d) :=
  read?_toText (wellFormed_ofData d)

theorem isSound_ofFloat {x : Float} (h : x.isFinite = true → library.ReadsBack x) :
    (ofFloat x).isSound = true := by
  by_cases hx : x.isFinite = true
  · have hback : (read? (library.print (.number x))).bind number? = some x := h hx
    rw [read?_print, Option.bind_some, ofData] at hback
    rw [ofFloat, if_pos hx] at hback ⊢
    exact Option.isSome_of_eq_some hback
  · rw [ofFloat, if_neg hx]
    rfl

theorem readAll?_print (d : Data) : readAll? (library.print d) =
    if (ofData d).isSound = true ∧ d.depth ≤ maxDepth then some (ofData d) else none := by
  rw [readAll?, read?_print, Option.bind_eq_bind, Option.bind_some, depth_ofData]
  split
  case isTrue h => simp [h]
  case isFalse h => simp_all

theorem ofItems_eq_map (ds : List Data) : ofItems ds = ds.map ofData := by
  induction ds with
  | nil => rfl
  | cons d ds ih => rw [ofItems, ih, List.map_cons]

theorem mapM_eq_some {α β : Type} {f : α → Option β} {g : α → β} {as : List α}
    (h : ∀ a ∈ as, f a = some (g a)) : as.mapM f = some (as.map g) := by
  induction as with
  | nil => rfl
  | cons a as ih =>
    rw [List.forall_mem_cons] at h
    rw [List.mapM_cons, h.1, ih h.2]
    rfl

theorem mapM_zip {α β γ : Type} {f : α → Option γ} {g : β → γ} {names : List α}
    {values : List β} (hlength : values.length = names.length)
    (h : ∀ p ∈ names.zip values, f p.1 = some (g p.2)) :
    names.mapM f = some (values.map g) := by
  have hpairs : (names.zip values).mapM (f ∘ Prod.fst) =
      some ((names.zip values).map (g ∘ Prod.snd)) := mapM_eq_some h
  rwa [← List.mapM_map, List.map_fst_zip (Nat.le_of_eq hlength.symm), ← List.map_map,
    List.map_snd_zip (Nat.le_of_eq hlength)] at hpairs

theorem ofMembers_eq_map (ms : List (String × Data)) :
    ofMembers ms = ms.map fun m => (m.1, ofData m.2) := by
  induction ms with
  | nil => rfl
  | cons m ms ih => rw [ofMembers, ih, List.map_cons]

theorem filter_key {ms : List (String × Data)} (hkeys : (ms.map Prod.fst).Nodup)
    {m : String × Data} (hm : m ∈ ms) : ms.filter (·.1 = m.1) = [m] := by
  induction ms with
  | nil => cases hm
  | cons m' ms ih =>
    obtain ⟨hfirst, hrest⟩ := List.nodup_cons.mp hkeys
    rcases List.mem_cons.mp hm with rfl | hm
    · have hnone : ms.filter (·.1 = m.1) = [] := by
        refine List.filter_eq_nil_iff.mpr fun n hn hkey => hfirst ?_
        exact of_decide_eq_true hkey ▸ List.mem_map_of_mem hn
      rw [List.filter_cons_of_pos (by simp), hnone]
    · have hne : m'.1 ≠ m.1 := fun h => hfirst (h ▸ List.mem_map_of_mem hm)
      rw [List.filter_cons_of_neg (by simpa using hne), ih hrest hm]

section Fields

/-- The members of a record, as they are read. -/
def membersOf (ms : List (String × Data)) : List (Option String × Json) :=
  ms.map fun m => (some m.1, ofData m.2)

theorem ofData_record (ms : List (String × Data)) :
    ofData (.record ms) = .object (membersOf ms) := by
  rw [ofData, record, ofMembers_eq_map, List.map_map]
  rfl

variable {ms : List (String × Data)} {m : String × Data}

theorem member?_membersOf (hkeys : (ms.map Prod.fst).Nodup) (hm : m ∈ ms) :
    member? (membersOf ms) m.1 = some (ofData m.2) := by
  have hfilter : (membersOf ms).filter (·.1 = some m.1) = membersOf [m] := by
    rw [← filter_key hkeys hm, membersOf, List.filter_map]
    simp [membersOf, Function.comp_def]
  rw [member?, hfilter]
  rfl

theorem field?_membersOf (hkeys : (ms.map Prod.fst).Nodup) (hm : m ∈ ms) :
    field? (membersOf ms) m.1 = some (some (ofData m.2)) := by
  have hlacks : ¬ lacks (membersOf ms) m.1 = true := by
    simp only [lacks, membersOf, List.all_eq_true, List.forall_mem_map]
    exact fun h => of_decide_eq_true (h m hm) rfl
  rw [field?, if_neg hlacks, member?_membersOf hkeys hm]
  rfl

theorem hasReadableKeys_membersOf : hasReadableKeys (membersOf ms) = true := by
  simp [hasReadableKeys, membersOf]

end Fields

theorem fields?_ofData {names : List String} (hnames : names.Nodup) {values : List Data}
    (hlength : values.length = names.length) :
    fields? names (ofData (.record (names.zip values))) =
      some (values.map fun d => some (ofData d)) := by
  have hkeys : ((names.zip values).map Prod.fst).Nodup := by
    rwa [List.map_fst_zip (Nat.le_of_eq hlength.symm)]
  have hfound : names.mapM (field? (membersOf (names.zip values))) =
      some (values.map fun d => some (ofData d)) :=
    mapM_zip hlength fun p hp => field?_membersOf hkeys hp
  rw [ofData_record, fields?, hasReadableKeys_membersOf, hfound]
  rfl

theorem formed?_ofData {α : Type} (f : Forms α) (form : α) (nested : Bool) {values : List Data}
    (hlength : values.length = (f.fields form).length) :
    formed? f nested (ofData (f.record form values)) = some (form, values.map ofData) := by
  have hkeys : ((f.members form values).map Prod.fst).Nodup := by
    rw [Forms.members, List.map_cons, List.map_fst_zip (Nat.le_of_eq hlength.symm)]
    exact f.nodup form
  have htag : member? (membersOf (f.members form values)) f.tag =
      some (ofString (f.word form)) := member?_membersOf hkeys List.mem_cons_self
  have hform : ofTag? f nested (ofString (f.word form)) = some form := by simp [ofTag?, ofString]
  have hfound : (f.fields form).mapM (member? (membersOf (f.members form values))) =
      some (values.map ofData) :=
    mapM_zip hlength fun p hp => member?_membersOf hkeys (List.mem_cons_of_mem _ hp)
  rw [Forms.record, ofData_record, formed?, htag, Option.bind_eq_bind, Option.bind_some, hform]
  simp [hfound]

theorem library_lawful : library.Lawful where
  read_print d _ := read?_print d
  readAll_print d hdepth hread := by
    have hsound := isSound_ofData d fun x hx => isSound_ofFloat (hread x hx)
    exact (readAll?_print d).trans (if_pos ⟨hsound, hdepth⟩)
  readAll_deep d hdepth :=
    (readAll?_print d).trans (if_neg fun h => Nat.not_le_of_lt hdepth h.2)
  nonfinite x hx := by
    change ofFloat x = .null
    rw [ofFloat, if_neg hx]
  nothing := rfl
  number_of_nothing t ht := by
    change isNull t = true at ht
    cases t with
    | null => rfl
    | _ => cases ht
  text _ := rfl
  list ds := congrArg some (ofItems_eq_map ds)
  word w a := by
    change (some (w.word a)).bind w.find? = some a
    simp
  fields _ _ hnames hlength := fields?_ofData hnames hlength
  formed f form nested _ hlength := formed?_ofData f form nested hlength

end ConstraintNet.Json

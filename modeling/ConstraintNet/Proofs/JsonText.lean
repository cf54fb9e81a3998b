import ConstraintNet.Proofs.Numerals

/-!
# Trees are read as they are written

The reader inverts the writer. What is written as one value is read as one value, whatever follows
it, and the fuel that a text gets for its length is enough.
-/

set_option autoImplicit false

namespace ConstraintNet.Json

open Read

inductive Read.Piece.Denotes : Piece → Char → Prop
  | char (c : Char) : Denotes (.char c) c
  | unit (c : Char) (h : c.toNat < 0xD800) : Denotes (.unit c.toNat) c

theorem Read.Piece.Denotes.join {p : Piece} {c : Char} (h : p.Denotes c) (ps : List Piece) :
    join? (p :: ps) = (join? ps).map (c :: ·) := by
  cases h with
  | char => rw [join?]; cases join? ps <;> rfl
  | unit _ h =>
    -- no surrogate, so the next piece is not looked at
    have hhigh : ¬ 0xD800 ≤ c.toNat := by omega
    have hlow : ¬ 0xDC00 ≤ c.toNat := by omega
    rw [join?.eq_def]
    cases ps with
    | nil => simp [hhigh, join?]
    | cons q ps =>
      cases q with
      | char d => cases hps : join? (.char d :: ps) <;> simp [hhigh, hps]
      | unit d => cases hps : join? (.unit d :: ps) <;> simp [hhigh, hlow, hps]

theorem Read.join_of_denotes {ps : List Piece} {cs : List Char}
    (h : List.Forall₂ Piece.Denotes ps cs) : join? ps = some cs := by
  induction h with
  | nil => rfl
  | cons hp _ ih => rw [hp.join, ih]; rfl

theorem Read.hexValue_hexDigit {n : Nat} (hn : n < 16) : hexValue? (hexDigit n) = some n := by
  decide +revert

theorem Read.pieces_escape (c : Char) : ∃ p : Piece, p.Denotes c ∧
    ∀ rest, pieces (escape c ++ rest) = (pieces rest).map fun r => (p :: r.1, r.2) := by
  unfold escape
  split
  case h_8 hquote hbackslash _ _ _ _ _ =>
    split
    case isTrue hcontrol =>
      refine ⟨.unit c.toNat, .unit c (by omega), fun rest => ?_⟩
      have hzero : hexValue? '0' = some 0 := rfl
      have hhigh := @hexValue_hexDigit (c.toNat / 16) (by omega)
      have hlow := @hexValue_hexDigit (c.toNat % 16) (by omega)
      have hcode : (c.toNat / 16) * 16 + c.toNat % 16 = c.toNat := by omega
      cases hrest : pieces rest <;> simp [pieces, hzero, hhigh, hlow, hrest, hcode]
    case isFalse hvisible =>
      refine ⟨.char c, .char c, fun rest => ?_⟩
      have hguard : (c ≠ '\\' && 0x20 ≤ c.toNat) = true := by
        simpa using And.intro hbackslash (Nat.le_of_not_lt hvisible)
      have hpieces : pieces (c :: rest) =
          (pieces rest).bind fun r => some (.char c :: r.1, r.2) := by
        rw [pieces]
        · rw [(Option.guard_eq_some' ()).mpr hguard]
          rfl
        · exact hquote
        · rintro _ _ _ _ _ rfl
          exact absurd rfl hbackslash
        · rintro _ _ rfl
          exact absurd rfl hbackslash
      rw [List.singleton_append, hpieces, Option.map_eq_bind]
      rfl
  all_goals
    refine ⟨.char _, .char _, fun rest => ?_⟩
    cases hrest : pieces rest <;> simp [pieces, escaped?, hrest]

theorem Read.string_append (cs rest : List Char) :
    Read.string (cs.flatMap escape ++ '"' :: rest) = some (some (String.ofList cs), rest) := by
  have hpieces : ∃ ps, List.Forall₂ Piece.Denotes ps cs ∧
      pieces (cs.flatMap escape ++ '"' :: rest) = some (ps, rest) := by
    induction cs with
    | nil => exact ⟨[], .nil, by simp [pieces]⟩
    | cons c cs ih =>
      obtain ⟨ps, hps, hrest⟩ := ih
      obtain ⟨p, hp, hc⟩ := pieces_escape c
      refine ⟨p :: ps, .cons hp hps, ?_⟩
      rw [List.flatMap_cons, List.append_assoc, hc, hrest]
      rfl
  obtain ⟨ps, hps, hrest⟩ := hpieces
  simp [Read.string, hrest, join_of_denotes hps]

mutual

/-- Whether a tree has a text of its own: its numerals are well formed and its strings are texts. -/
def WellFormed : Json → Prop
  | .number n => n.parts.WellFormed
  | .string s => s.isSome
  | .array items => ItemsWellFormed items
  | .object members => MembersWellFormed members
  | _ => True

def ItemsWellFormed : List Json → Prop
  | [] => True
  | j :: js => j.WellFormed ∧ ItemsWellFormed js

def MembersWellFormed : List (Option String × Json) → Prop
  | [] => True
  | (key, j) :: ms => key.isSome ∧ j.WellFormed ∧ MembersWellFormed ms

end

def ReadsBack (j : Json) : Prop :=
  ∀ fuel rest, 2 * j.write.length ≤ fuel → Stops rest →
    Read.value fuel (j.write ++ rest) = some (j, rest)

/-- How the text of a value begins; an array that goes on like this is not empty. -/
def Read.Opens (c : Char) : Prop := isBlank c = false ∧ c ≠ ']'

theorem Read.opens_of_isDigit {c : Char} (h : c.isDigit = true) : Opens c := by
  have hne : ∀ d : Char, d.isDigit = false → c ≠ d := by
    rintro d hd rfl
    rw [h] at hd
    cases hd
  have hblank : c ≠ ' ' ∧ c ≠ '\t' ∧ c ≠ '\n' ∧ c ≠ '\r' :=
    ⟨hne _ rfl, hne _ rfl, hne _ rfl, hne _ rfl⟩
  exact ⟨by simp [isBlank, hblank], hne _ rfl⟩

theorem Read.skip_of_opens {c : Char} (h : Opens c) (cs : List Char) : skip (c :: cs) = c :: cs :=
  List.dropWhile_cons_of_neg (by simp [h.1])

theorem Numeral.write_cons {n : Numeral} (h : n.parts.WellFormed) :
    ∃ c cs, n.write = c :: cs ∧ (if n.negative then c = '-' else c.isDigit = true) := by
  obtain ⟨d, ds, hds⟩ := List.exists_cons_of_ne_nil h.nonempty
  have hd : d.isDigit = true := h.whole d (by simp [hds])
  unfold Numeral.write
  cases n.negative with
  | true => exact ⟨_, _, rfl, rfl⟩
  | false => exact ⟨d, _, by simp only [text_eq_append, hds]; rfl, hd⟩

theorem WellFormed.opens {j : Json} (h : j.WellFormed) :
    ∃ c cs, j.write = c :: cs ∧ Opens c := by
  have hopens {c : Char} {cs : List Char} (hj : j.write = c :: cs) (hc : Opens c) :
      ∃ c cs, j.write = c :: cs ∧ Opens c := ⟨c, cs, hj, hc⟩
  match j with
  | .null => exact hopens rfl ⟨rfl, by decide⟩
  | .bool true => exact hopens rfl ⟨rfl, by decide⟩
  | .bool false => exact hopens rfl ⟨rfl, by decide⟩
  | .number n =>
    obtain ⟨c, cs, hn, hc⟩ := Numeral.write_cons h
    refine hopens hn ?_
    split at hc
    · subst hc
      exact ⟨rfl, by decide⟩
    · exact opens_of_isDigit hc
  | .string s => exact hopens rfl ⟨rfl, by decide⟩
  | .array [] => exact hopens rfl ⟨rfl, by decide⟩
  | .array (_ :: _) => exact hopens rfl ⟨rfl, by decide⟩
  | .object [] => exact hopens rfl ⟨rfl, by decide⟩
  | .object ((_, _) :: _) => exact hopens rfl ⟨rfl, by decide⟩

/-- The text of a value is not empty, so there is fuel for it. -/
theorem WellFormed.readsBack_of_succ {j : Json} (hj : j.WellFormed)
    (h : ∀ fuel rest, 2 * j.write.length ≤ fuel + 1 → Stops rest →
      Read.value (fuel + 1) (j.write ++ rest) = some (j, rest)) : j.ReadsBack := by
  intro fuel rest hfuel hrest
  obtain ⟨c, cs, hwrite, -⟩ := hj.opens
  cases fuel with
  | zero => simp [hwrite] at hfuel
  | succ fuel => exact h fuel rest hfuel hrest

theorem readsBack_null : Json.null.ReadsBack :=
  WellFormed.readsBack_of_succ trivial fun _ _ _ _ => rfl

theorem readsBack_bool (b : Bool) : (Json.bool b).ReadsBack :=
  WellFormed.readsBack_of_succ trivial fun _ _ _ _ => by cases b <;> rfl

theorem readsBack_number {n : Numeral} (h : n.parts.WellFormed) : (Json.number n).ReadsBack := by
  refine WellFormed.readsBack_of_succ h fun fuel rest _ hrest => ?_
  have hread : Read.number n.negative (n.parts.text layout.plus ++ rest) =
      some (.number ⟨n.negative, n.parts⟩, rest) := Read.number_append h hrest
  obtain ⟨c, cs, hn, hc⟩ := Numeral.write_cons h
  rw [write, hn, Read.value, List.cons_append]
  obtain ⟨negative, p⟩ := n
  cases negative with
  | true =>
    cases hn
    exact hread
  | false =>
    change p.text layout.plus = c :: cs at hn
    rw [hn] at hread
    have hdigit : c.isDigit = true := hc
    rw [skip_of_opens (opens_of_isDigit hdigit)]
    split
    case h_8 => exact hread
    all_goals
      rename_i heq
      rw [(List.cons.inj heq).1] at hdigit
      cases hdigit

theorem Read.string_writeString (s : String) (rest : List Char) :
    ∃ cs, writeString s ++ rest = '"' :: cs ∧ Read.string cs = some (some s, rest) := by
  refine ⟨s.toList.flatMap escape ++ '"' :: rest, ?_, ?_⟩
  · simp [writeString]
  · rw [string_append, String.ofList_toList]

theorem readsBack_string (s : String) : (Json.string (some s)).ReadsBack := by
  refine WellFormed.readsBack_of_succ rfl fun fuel rest _ _ => ?_
  obtain ⟨cs, htext, hread⟩ := string_writeString s rest
  change Read.value (fuel + 1) (writeString s ++ rest) = _
  rw [htext, Read.value]
  change (Read.string cs).bind (fun r => some (Json.string r.1, r.2)) = _
  rw [hread]
  rfl

theorem Read.items_append {items : List Json} (h : ∀ j ∈ items, j.ReadsBack) {j : Json}
    (hj : j.ReadsBack) {fuel : Nat} (rest : List Char)
    (hfuel : 2 * (j.write ++ writeItems items).length + 1 ≤ fuel) :
    Read.items fuel (j.write ++ writeItems items ++ rest) = some (j :: items, rest) := by
  -- the next item takes the place of the one just read, with a unit of fuel less
  induction items generalizing j fuel with
  | nil =>
    obtain ⟨fuel, rfl⟩ := Nat.exists_eq_add_of_le' (show 1 ≤ fuel by omega)
    have hvalue := hj fuel (']' :: rest) (by simp at hfuel; omega) (by simp [Stops, continues])
    rw [Read.items, List.append_assoc, writeItems, List.singleton_append, hvalue]
    rfl
  | cons i items ih =>
    obtain ⟨fuel, rfl⟩ := Nat.exists_eq_add_of_le' (show 1 ≤ fuel by omega)
    have hvalue := hj fuel (',' :: (i.write ++ writeItems items ++ rest))
      (by simp at hfuel; omega) (by simp [Stops, continues])
    have hitems : Read.items fuel (i.write ++ writeItems items ++ rest) = some (i :: items, rest) :=
      ih (fun j hj => h j (List.mem_cons_of_mem i hj)) (h i List.mem_cons_self)
        (by simp [writeItems] at hfuel ⊢; omega)
    rw [Read.items, List.append_assoc, writeItems, List.cons_append, hvalue]
    change (Read.items fuel (i.write ++ writeItems items ++ rest)).bind
      (fun r => some (j :: r.1, r.2)) = _
    rw [hitems]
    rfl

theorem Read.members_last {key : String} {fuel : Nat} {j : Json} {text rest : List Char}
    (h : Read.value fuel text = some (j, '\x7d' :: rest)) :
    Read.members (fuel + 1) (writeKey (some key) ++ ':' :: text) =
      some ([(some key, j)], rest) := by
  obtain ⟨cs, htext, hread⟩ := string_writeString key (':' :: text)
  change Read.members (fuel + 1) (writeString key ++ ':' :: text) = _
  rw [htext, Read.members, skip_of_opens ⟨rfl, by decide⟩]
  simp only [hread]
  change (Read.value fuel text).bind _ = _
  rw [h]
  rfl

theorem Read.members_next {key : String} {fuel : Nat} {j : Json} {text rest : List Char}
    (h : Read.value fuel text = some (j, ',' :: rest)) :
    Read.members (fuel + 1) (writeKey (some key) ++ ':' :: text) =
      (Read.members fuel rest).bind fun r => some ((some key, j) :: r.1, r.2) := by
  obtain ⟨cs, htext, hread⟩ := string_writeString key (':' :: text)
  change Read.members (fuel + 1) (writeString key ++ ':' :: text) = _
  rw [htext, Read.members, skip_of_opens ⟨rfl, by decide⟩]
  simp only [hread]
  change (Read.value fuel text).bind _ = _
  rw [h]
  rfl

theorem Read.members_append {members : List (Option String × Json)}
    (h : ∀ m ∈ members, m.1.isSome ∧ m.2.ReadsBack) {key : String} {j : Json} (hj : j.ReadsBack)
    {fuel : Nat} (rest : List Char)
    (hfuel : 2 * (j.write ++ writeMembers members).length + 1 ≤ fuel) :
    Read.members fuel (writeKey (some key) ++ ':' :: (j.write ++ (writeMembers members ++ rest))) =
      some ((some key, j) :: members, rest) := by
  induction members generalizing key j fuel with
  | nil =>
    obtain ⟨fuel, rfl⟩ := Nat.exists_eq_add_of_le' (show 1 ≤ fuel by omega)
    have hvalue := hj fuel ('\x7d' :: rest) (by simp at hfuel; omega) (by simp [Stops, continues])
    exact members_last hvalue
  | cons m members ih =>
    obtain ⟨key', i⟩ := m
    obtain ⟨fuel, rfl⟩ := Nat.exists_eq_add_of_le' (show 1 ≤ fuel by omega)
    obtain ⟨hkey, hi⟩ := h (key', i) List.mem_cons_self
    obtain ⟨key', rfl⟩ := Option.isSome_iff_exists.mp hkey
    have hvalue := hj fuel (writeMembers ((some key', i) :: members) ++ rest)
      (by simp at hfuel; omega) (by simp [writeMembers, Stops, continues])
    have hmembers : Read.members fuel
        (writeKey (some key') ++ ':' :: (i.write ++ (writeMembers members ++ rest))) =
          some ((some key', i) :: members, rest) :=
      ih (fun m hm => h m (List.mem_cons_of_mem _ hm)) hi
        (by simp [writeMembers] at hfuel ⊢; omega)
    simp only [writeMembers, List.cons_append, List.append_assoc] at hvalue ⊢
    rw [members_next hvalue, hmembers]
    rfl

theorem Read.value_array {c : Char} (h : Opens c) (fuel : Nat) (cs : List Char) :
    Read.value (fuel + 1) ('[' :: c :: cs) =
      (Read.items fuel (c :: cs)).bind fun r => some (.array r.1, r.2) := by
  rw [Read.value, skip_of_opens ⟨rfl, by decide⟩]
  simp only [skip_of_opens h]
  split
  case h_1 heq => exact absurd (List.cons.inj heq).1 h.2
  case h_2 => rfl

theorem readsBack_array {items : List Json} (hw : ItemsWellFormed items)
    (h : ∀ j ∈ items, j.ReadsBack) : (Json.array items).ReadsBack := by
  refine WellFormed.readsBack_of_succ hw fun fuel rest hfuel _ => ?_
  cases items with
  | nil => rfl
  | cons j js =>
    have hitems : Read.items fuel (j.write ++ writeItems js ++ rest) = some (j :: js, rest) :=
      items_append (fun i hi => h i (List.mem_cons_of_mem j hi)) (h j List.mem_cons_self) rest
        (by simp [write] at hfuel ⊢; omega)
    obtain ⟨c, cs, hj, hopens⟩ := hw.1.opens
    have htext : (Json.array (j :: js)).write ++ rest =
        '[' :: c :: (cs ++ (writeItems js ++ rest)) := by simp [write, hj]
    have hsame : j.write ++ writeItems js ++ rest = c :: (cs ++ (writeItems js ++ rest)) := by
      simp [hj]
    rw [htext, value_array hopens, ← hsame, hitems]
    rfl

theorem readsBack_object {members : List (Option String × Json)} (hw : MembersWellFormed members)
    (h : ∀ m ∈ members, m.1.isSome ∧ m.2.ReadsBack) : (Json.object members).ReadsBack := by
  refine WellFormed.readsBack_of_succ hw fun fuel rest hfuel _ => ?_
  cases members with
  | nil => rfl
  | cons m ms =>
    obtain ⟨key, j⟩ := m
    obtain ⟨hkey, hj⟩ := h (key, j) List.mem_cons_self
    obtain ⟨key, rfl⟩ := Option.isSome_iff_exists.mp hkey
    have hmembers : Read.members fuel
        (writeKey (some key) ++ ':' :: (j.write ++ (writeMembers ms ++ rest))) =
          some ((some key, j) :: ms, rest) :=
      members_append (fun m hm => h m (List.mem_cons_of_mem _ hm)) hj rest
        (by simp [write] at hfuel ⊢; omega)
    have htext : (Json.object ((some key, j) :: ms)).write ++ rest =
        '\x7b' :: (writeKey (some key) ++ ':' :: (j.write ++ (writeMembers ms ++ rest))) := by
      simp [write]
    rw [htext, Read.value]
    change (Read.members fuel (writeKey (some key) ++
      ':' :: (j.write ++ (writeMembers ms ++ rest)))).bind
        (fun r => some (Json.object r.1, r.2)) = _
    rw [hmembers]
    rfl

mutual

theorem readsBack : ∀ j : Json, j.WellFormed → j.ReadsBack
  | .null, _ => readsBack_null
  | .bool b, _ => readsBack_bool b
  | .number _, h => readsBack_number h
  | .string (some s), _ => readsBack_string s
  | .array items, h => readsBack_array h (readsBack_items items h)
  | .object members, h => readsBack_object h (readsBack_members members h)

theorem readsBack_items : ∀ items, ItemsWellFormed items → ∀ j ∈ items, j.ReadsBack
  | j :: js, ⟨hj, hjs⟩, i, hi => by
    rcases List.mem_cons.mp hi with heq | hi
    · rw [heq]
      exact readsBack j hj
    · exact readsBack_items js hjs i hi

theorem readsBack_members : ∀ members, MembersWellFormed members →
    ∀ m ∈ members, m.1.isSome ∧ m.2.ReadsBack
  | (key, j) :: ms, ⟨hkey, hj, hms⟩, m, hm => by
    rcases List.mem_cons.mp hm with heq | hm
    · rw [heq]
      exact ⟨hkey, readsBack j hj⟩
    · exact readsBack_members ms hms m hm

end

theorem read?_toText {j : Json} (h : j.WellFormed) : read? j.toText = some j := by
  have hvalue := readsBack j h (2 * j.write.length + 2) [] (by omega) (by simp [Stops])
  rw [List.append_nil] at hvalue
  simp only [read?, toText, String.toList_ofList, hvalue]
  rfl

@[simp] theorem membersDepth_record (members : List (String × Json)) :
    membersDepth (members.map fun m => (some m.1, m.2)) = itemsDepth (members.map Prod.snd) := by
  induction members with
  | nil => rfl
  | cons m ms ih => simp [membersDepth, itemsDepth, ih]

@[simp] theorem depth_record (members : List (String × Json)) :
    (record members).depth = itemsDepth (members.map Prod.snd) + 1 := by
  rw [record, depth, membersDepth_record]

theorem wellFormed_record {members : List (String × Json)}
    (h : ItemsWellFormed (members.map Prod.snd)) : (record members).WellFormed := by
  change MembersWellFormed (members.map fun m => (some m.1, m.2))
  induction members with
  | nil => trivial
  | cons m ms ih => exact ⟨rfl, h.1, ih h.2⟩

theorem isSound_record (members : List (String × Json)) :
    (record members).isSound = allSound (members.map Prod.snd) := by
  change membersSound (members.map fun m => (some m.1, m.2)) = _
  induction members with
  | nil => rfl
  | cons m ms ih => simp [membersSound, allSound, ih]

end ConstraintNet.Json

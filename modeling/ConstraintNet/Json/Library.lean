/-!
# A JSON library

Data as a library takes them, and what can be asked of the trees that it reads. How texts
are laid out, what numbers look like and which spellings are accepted is up to the library.
-/

set_option autoImplicit false

namespace ConstraintNet

inductive Data where
  | nothing
  | bool (b : Bool)
  | number (x : Float)
  | text (s : String)
  | list (items : List Data)
  | record (members : List (String × Data))

namespace Data

mutual

def depth : Data → Nat
  | .list items => itemsDepth items + 1
  | .record members => membersDepth members + 1
  | _ => 0

def itemsDepth : List Data → Nat
  | [] => 0
  | d :: ds => max d.depth (itemsDepth ds)

def membersDepth : List (String × Data) → Nat
  | [] => 0
  | (_, d) :: ms => max d.depth (membersDepth ms)

end

mutual

def numbers : Data → List Float
  | .number x => [x]
  | .list items => itemsNumbers items
  | .record members => membersNumbers members
  | _ => []

def itemsNumbers : List Data → List Float
  | [] => []
  | d :: ds => d.numbers ++ itemsNumbers ds

def membersNumbers : List (String × Data) → List Float
  | [] => []
  | (_, d) :: ms => d.numbers ++ membersNumbers ms

end

theorem membersDepth_zip {names : List String} {values : List Data}
    (h : values.length = names.length) : membersDepth (names.zip values) = itemsDepth values := by
  induction values generalizing names with
  | nil => simp [membersDepth, itemsDepth]
  | cons d ds ih =>
    cases names with
    | nil => cases h
    | cons _ names =>
      rw [List.zip_cons_cons, membersDepth, itemsDepth, ih (Nat.succ.inj h)]

theorem itemsDepth_le {ds : List Data} {n : Nat} (h : ∀ d ∈ ds, d.depth ≤ n) :
    itemsDepth ds ≤ n := by
  induction ds with
  | nil => exact Nat.zero_le n
  | cons d ds ih =>
    exact Nat.max_le.mpr ⟨h d List.mem_cons_self, ih fun e he => h e (List.mem_cons_of_mem d he)⟩

theorem membersNumbers_zip {names : List String} {values : List Data}
    (h : values.length = names.length) :
    membersNumbers (names.zip values) = itemsNumbers values := by
  induction values generalizing names with
  | nil => simp [membersNumbers, itemsNumbers]
  | cons d ds ih =>
    cases names with
    | nil => cases h
    | cons _ names =>
      rw [List.zip_cons_cons, membersNumbers, itemsNumbers, ih (Nat.succ.inj h)]

def optional : Option Float → Data
  | none => .nothing
  | some x => .number x

end Data

structure Words (α : Type) where
  all : List α
  word : α → String
  mem_all : ∀ a, a ∈ all
  injective : Function.Injective word

namespace Words

variable {α : Type}

def find? (w : Words α) (s : String) : Option α := w.all.find? (w.word · = s)

@[simp] theorem find?_word (w : Words α) (a : α) : w.find? (w.word a) = some a := by
  unfold find?
  cases h : w.all.find? (w.word · = w.word a) with
  | none => exact absurd (List.find?_eq_none.mp h a (w.mem_all a)) (by simp)
  | some b => exact congrArg some (w.injective (by simpa using List.find?_some h))

end Words

/-- A type whose values are records: one field, the tag, holds the word for the form of the
record, and the others depend on the form. -/
structure Forms (α : Type) extends Words α where
  tag : String
  fields : α → List String
  nodup : ∀ a, (tag :: fields a).Nodup

namespace Forms

variable {α : Type} (f : Forms α) (form : α)

def members (values : List Data) : List (String × Data) :=
  (f.tag, .text (f.word form)) :: (f.fields form).zip values

def record (values : List Data) : Data := .record (f.members form values)

theorem depth_record {values : List Data} (h : values.length = (f.fields form).length) :
    (f.record form values).depth = 1 + Data.itemsDepth values := by
  have hword : (Data.text (f.word form)).depth = 0 := rfl
  rw [record, members, Data.depth, Data.membersDepth, Data.membersDepth_zip h, hword,
    Nat.zero_max, Nat.add_comm]

theorem numbers_record {values : List Data} (h : values.length = (f.fields form).length) :
    (f.record form values).numbers = Data.itemsNumbers values := by
  have hword : (Data.text (f.word form)).numbers = [] := rfl
  rw [record, members, Data.numbers, Data.membersNumbers, Data.membersNumbers_zip h, hword,
    List.nil_append]

end Forms

structure JsonLibrary where
  Tree : Type
  print : Data → String
  /-- The tree that data have when they are read. -/
  tree : Data → Tree
  /-- Reads a text as far as its syntax goes. -/
  read? : String → Option Tree
  /-- Reads a text with everything in it, as records with a tag need it, since the tag may
  come last. -/
  readAll? : String → Option Tree
  /-- How deep texts may nest. -/
  limit : Nat
  isNothing : Tree → Bool
  bool? : Tree → Option Bool
  number? : Tree → Option Float
  text? : Tree → Option String
  list? : Tree → Option (List Tree)
  word? {α : Type} : Words α → Tree → Option α
  /-- What the fields of a record hold, `none` where a field is missing. -/
  fields? : List String → Tree → Option (List (Option Tree))
  /-- The form of a record and what the fields of the form hold. A record inside of another
  one may spell its tag in more ways. -/
  formed? {α : Type} : Forms α → (nested : Bool) → Tree → Option (α × List Tree)

namespace JsonLibrary

variable (lib : JsonLibrary)

def ReadsBack (x : Float) : Prop := (lib.read? (lib.print (.number x))).bind lib.number? = some x

instance (x : Float) : Decidable (lib.ReadsBack x) := inferInstanceAs (Decidable (_ = _))

/-- What is documented of a library. Numbers are exempt: whether one is read back depends on
its digits. -/
structure Lawful : Prop where
  read_print : ∀ d : Data, d.depth ≤ lib.limit → lib.read? (lib.print d) = some (lib.tree d)
  readAll_print : ∀ d : Data, d.depth ≤ lib.limit →
    (∀ x ∈ d.numbers, x.isFinite = true → lib.ReadsBack x) →
    lib.readAll? (lib.print d) = some (lib.tree d)
  readAll_deep : ∀ d : Data, lib.limit < d.depth → lib.readAll? (lib.print d) = none
  /-- There is no JSON for a number that is not finite. -/
  nonfinite : ∀ x : Float, ¬ x.isFinite = true → lib.tree (.number x) = lib.tree .nothing
  nothing : lib.isNothing (lib.tree .nothing) = true
  number_of_nothing : ∀ t, lib.isNothing t = true → lib.number? t = none
  text : ∀ s, lib.text? (lib.tree (.text s)) = some s
  list : ∀ ds, lib.list? (lib.tree (.list ds)) = some (ds.map lib.tree)
  word {α : Type} : ∀ (w : Words α) (a : α), lib.word? w (lib.tree (.text (w.word a))) = some a
  fields : ∀ (names : List String) (values : List Data), names.Nodup →
    values.length = names.length →
    lib.fields? names (lib.tree (.record (names.zip values))) =
      some (values.map fun d => some (lib.tree d))
  formed {α : Type} : ∀ (f : Forms α) (form : α) (nested : Bool) (values : List Data),
    values.length = (f.fields form).length →
    lib.formed? f nested (lib.tree (f.record form values)) = some (form, values.map lib.tree)

end JsonLibrary

end ConstraintNet

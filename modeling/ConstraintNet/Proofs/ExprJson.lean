import ConstraintNet.Json.Expr
import ConstraintNet.Proofs.JsonLibrary

/-!
# Expressions survive JSON exactly when they can

The text of an expression is read back as that expression if all of its numbers are finite and it
does not nest too deep, and it is refused otherwise. A number that is not finite has no text, so
what stands for it is no number, and only the reader counts levels.
-/

set_option autoImplicit false

namespace ConstraintNet

namespace Expr

mutual

def numbers : Expr → List Float
  | .ident _ => []
  | .number value => [value]
  | .op _ left right => numbers left ++ numbers right
  | .call _ params => numbersAll params

def numbersAll : List Expr → List Float
  | [] => []
  | e :: es => numbers e ++ numbersAll es

end

mutual

/-- How many objects and arrays of its JSON an expression puts inside of each other. -/
def nesting : Expr → Nat
  | .ident _ | .number _ => 1
  | .op _ left right => 1 + max (nesting left) (nesting right)
  | .call _ params => 1 + 1 + nestingAll params

def nestingAll : List Expr → Nat
  | [] => 0
  | e :: es => max (nesting e) (nestingAll es)

end

theorem nesting_pos (e : Expr) : 0 < e.nesting := by
  cases e <;> rw [nesting] <;> omega

end Expr

namespace Expr

mutual

theorem numbers_data : ∀ e : Expr, e.data.numbers = e.numbers
  | .ident _ | .number _ => rfl
  | .op _ left right => by
    rw [data, forms.numbers_record .op rfl, numbers, ← numbers_data left, ← numbers_data right]
    simp [Data.itemsNumbers, Data.numbers]
  | .call _ params => by
    rw [data, forms.numbers_record .call rfl, numbers, ← numbers_dataAll params]
    simp [Data.itemsNumbers, Data.numbers]

theorem numbers_dataAll : ∀ es, Data.itemsNumbers (dataAll es) = numbersAll es
  | [] => rfl
  | e :: es => by
    rw [dataAll, Data.itemsNumbers, numbersAll, numbers_data e, numbers_dataAll es]

end

mutual

theorem depth_data : ∀ e : Expr, e.data.depth = e.nesting
  | .ident _ | .number _ => rfl
  | .op _ left right => by
    rw [data, forms.depth_record .op rfl, nesting, ← depth_data left, ← depth_data right]
    simp [Data.itemsDepth, Data.depth]
  | .call _ params => by
    rw [data, forms.depth_record .call rfl, nesting, ← depth_dataAll params]
    simp [Data.itemsDepth, Data.depth]
    omega

theorem depth_dataAll : ∀ es, Data.itemsDepth (dataAll es) = nestingAll es
  | [] => rfl
  | e :: es => by rw [dataAll, Data.itemsDepth, nestingAll, depth_data e, depth_dataAll es]

end

end Expr

namespace JsonLibrary

variable {lib : JsonLibrary}

theorem Lawful.number (hlib : lib.Lawful) {x : Float} (h : lib.ReadsBack x) :
    lib.number? (lib.tree (.number x)) = some x := by
  rwa [ReadsBack, hlib.read_print _ (Nat.zero_le _)] at h

theorem Lawful.number_eq_none (hlib : lib.Lawful) {x : Float} (h : ¬ x.isFinite = true) :
    lib.number? (lib.tree (.number x)) = none := by
  rw [hlib.nonfinite x h]
  exact hlib.number_of_nothing _ hlib.nothing

mutual

theorem Lawful.exprWithin_data (hlib : lib.Lawful) : ∀ e : Expr,
    (∀ x ∈ e.numbers, lib.ReadsBack x) → ∀ levels, e.nesting ≤ levels →
    ∀ nested, lib.exprWithin? levels nested (lib.tree e.data) = some e
  | e, _, 0, hlevels, _ => absurd hlevels (Nat.not_le_of_lt e.nesting_pos)
  | .ident name, _, levels + 1, _, nested => by
    rw [Expr.data, exprWithin?, hlib.formed _ _ _ _ rfl]
    simp [hlib.text]
  | .number value, h, levels + 1, _, nested => by
    have hvalue := hlib.number (h value (List.mem_singleton_self value))
    rw [Expr.data, exprWithin?, hlib.formed _ _ _ _ rfl]
    simp [hvalue]
  | .op symbol left right, h, levels + 1, hlevels, nested => by
    rw [Expr.nesting] at hlevels
    have hleft := hlib.exprWithin_data left (fun x hx => h x (List.mem_append_left _ hx)) levels
      (by omega) true
    have hright := hlib.exprWithin_data right (fun x hx => h x (List.mem_append_right _ hx))
      levels (by omega) true
    rw [Expr.data, exprWithin?, hlib.formed _ _ _ _ rfl]
    simp [hlib.text, hleft, hright]
  | .call name params, h, levels + 1, hlevels, nested => by
    rw [Expr.nesting] at hlevels
    have hparams := hlib.mapM_exprWithin_dataAll params h levels (by omega)
    rw [Expr.data, exprWithin?, hlib.formed _ _ _ _ rfl]
    simp [hlib.text, hlib.list, hparams]

theorem Lawful.mapM_exprWithin_dataAll (hlib : lib.Lawful) : ∀ es : List Expr,
    (∀ x ∈ Expr.numbersAll es, lib.ReadsBack x) → ∀ levels, Expr.nestingAll es ≤ levels →
    ((Expr.dataAll es).map lib.tree).mapM (lib.exprWithin? levels true) = some es
  | [], _, _, _ => rfl
  | e :: es, h, levels, hlevels => by
    rw [Expr.nestingAll] at hlevels
    have he := hlib.exprWithin_data e (fun x hx => h x (List.mem_append_left _ hx)) levels
      (by omega) true
    have hes := hlib.mapM_exprWithin_dataAll es (fun x hx => h x (List.mem_append_right _ hx))
      levels (by omega)
    rw [Expr.dataAll, List.map_cons, List.mapM_cons, he, hes]
    rfl

end

mutual

/-- A number that is not finite is no number in the tree, so there is no expression. -/
theorem Lawful.exprWithin_eq_none (hlib : lib.Lawful) : ∀ e : Expr,
    (∃ x ∈ e.numbers, ¬ x.isFinite = true) → ∀ levels nested,
    lib.exprWithin? levels nested (lib.tree e.data) = none
  | _, _, 0, _ => rfl
  | .number value, ⟨x, hx, hinf⟩, levels + 1, nested => by
    rw [List.mem_singleton.mp hx] at hinf
    rw [Expr.data, exprWithin?, hlib.formed _ _ _ _ rfl]
    simp [hlib.number_eq_none hinf]
  | .op symbol left right, ⟨x, hx, hinf⟩, levels + 1, nested => by
    rw [Expr.data, exprWithin?, hlib.formed _ _ _ _ rfl]
    rcases List.mem_append.mp hx with hx | hx
    · simp [hlib.exprWithin_eq_none left ⟨x, hx, hinf⟩ levels true]
    · simp [hlib.exprWithin_eq_none right ⟨x, hx, hinf⟩ levels true]
  | .call name params, ⟨x, hx, hinf⟩, levels + 1, nested => by
    rw [Expr.data, exprWithin?, hlib.formed _ _ _ _ rfl]
    simp [hlib.list, hlib.mapM_exprWithin_eq_none params ⟨x, hx, hinf⟩ levels]

theorem Lawful.mapM_exprWithin_eq_none (hlib : lib.Lawful) : ∀ es : List Expr,
    (∃ x ∈ Expr.numbersAll es, ¬ x.isFinite = true) → ∀ levels,
    ((Expr.dataAll es).map lib.tree).mapM (lib.exprWithin? levels true) = none
  | e :: es, ⟨x, hx, hinf⟩, levels => by
    rcases List.mem_append.mp hx with hx | hx
    · simp [Expr.dataAll, hlib.exprWithin_eq_none e ⟨x, hx, hinf⟩ levels true]
    · simp [Expr.dataAll, hlib.mapM_exprWithin_eq_none es ⟨x, hx, hinf⟩ levels]

end

end JsonLibrary

/-- Whatever library does as documented and reads 127 levels deep: an expression is read back
from its JSON if its numbers are finite and it nests at most that deep, provided that the
library reads its finite numbers as it prints them. Otherwise its JSON is refused, so it is
never read as another expression. -/
theorem Expr.json_read_back {lib : JsonLibrary} (hlib : lib.Lawful) (hlimit : lib.limit = 127)
    (e : Expr) (hread : ∀ x ∈ e.numbers, x.isFinite = true → lib.ReadsBack x) :
    lib.readExpr (lib.writeExpr e) =
      if (∀ x ∈ e.numbers, x.isFinite = true) ∧ e.nesting ≤ 127 then .ok e
      else .error (lib.writeExpr e) := by
  have hdepth : e.data.depth = e.nesting := e.depth_data
  by_cases hlevels : e.nesting ≤ 127
  · have htree : lib.readAll? (lib.writeExpr e) = some (lib.tree e.data) :=
      hlib.readAll_print _ (by rw [hdepth, hlimit]; exact hlevels) (by rwa [e.numbers_data])
    rw [JsonLibrary.readExpr, htree, Option.bind_some]
    by_cases hfinite : ∀ x ∈ e.numbers, x.isFinite = true
    · have hback : ∀ x ∈ e.numbers, lib.ReadsBack x := fun x hx => hread x hx (hfinite x hx)
      rw [hlib.exprWithin_data e hback lib.limit (hlimit ▸ hlevels), if_pos ⟨hfinite, hlevels⟩]
    · have hinf : ∃ x ∈ e.numbers, ¬ x.isFinite = true := by simpa using hfinite
      rw [hlib.exprWithin_eq_none e hinf, if_neg fun h => hfinite h.1]
  · have hdeep : lib.readAll? (lib.writeExpr e) = none :=
      hlib.readAll_deep _ (by rw [hdepth, hlimit]; omega)
    rw [JsonLibrary.readExpr, hdeep, if_neg fun h => hlevels h.2]
    rfl

def quotedSum : Expr :=
  .op "+" (.ident "a\"b") (.call "f" [.number 0.1, .number (-2.5e-7)])

theorem Expr.json_read_back_quotedSum :
    (∀ x ∈ quotedSum.numbers, x.isFinite = true → Json.library.ReadsBack x) ∧
      quotedSum.nesting = 4 ∧
      Json.library.readExpr (Json.library.writeExpr quotedSum) = .ok quotedSum ∧
      Json.library.readExpr (Json.library.writeExpr (.number (1 / 0))) =
        .error (Json.library.writeExpr (.number (1 / 0))) := by
  have hread : ∀ x ∈ quotedSum.numbers, x.isFinite = true → Json.library.ReadsBack x := by
    decide +kernel
  have hfinite : ∀ x ∈ quotedSum.numbers, x.isFinite = true := by decide +kernel
  have hback := Expr.json_read_back Json.library_lawful rfl quotedSum hread
  rw [if_pos ⟨hfinite, by decide +kernel⟩] at hback
  have hinfinite : ¬ ∀ x ∈ (Expr.number (1 / 0)).numbers, x.isFinite = true := by decide +kernel
  have hrefused := Expr.json_read_back Json.library_lawful rfl (.number (1 / 0))
    (by decide +kernel)
  rw [if_neg fun h => hinfinite h.1] at hrefused
  exact ⟨hread, rfl, hback, hrefused⟩

end ConstraintNet

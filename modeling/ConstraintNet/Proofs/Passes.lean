import Mathlib.Logic.Relation
import ConstraintNet.Proofs.Cascade

/-!
# Passes

Solving a digest is a chain of passes. All but the last end well, and where passes
repeat, the last one marks nothing new.
-/

set_option autoImplicit false

namespace ConstraintNet

open Network

variable {d : Digest}

/-- A pass over every relationship, and the fault that stopped it if one did. -/
def Passes (d : Digest) (run : Run) (outcome : Option Fault) (run' : Run) : Prop :=
  Cascade d (.each false run.network.order) run outcome run'

abbrev Passed (d : Digest) := Relation.ReflTransGen fun run run' => Passes d run none run'

theorem Passed.advance {run run' : Run} (h : Passed d run run') :
    Advance d run.network run'.network := by
  induction h with
  | refl => exact .refl _ _
  | tail _ hp ih => exact ih.trans hp.advance

namespace Propagation

variable {run : Run}

theorem ends_passSettles (d : Digest) (run : Run) : Ends (passSettles d) run
    (fun settles run' => Passes d run none run' ∧
      settles = decide (run'.network.solvedCount d = run.network.solvedCount d))
    fun fault run' => Passes d run (some fault) run' := by
  refine ends_network (Ends.bind (Ends.mono (follows_pass d run) ?_ fun _ _ h => h))
  exact fun _ run' h => ⟨h, rfl⟩

/-- If the passes allowed are enough for every relationship that is not yet marked,
they end with one that marks nothing new. -/
theorem ends_passes (d : Digest) (spare : Nat) (run : Run) : Ends (passes d spare) run
    (fun made run' => 0 < made ∧ ∃ mid, Passed d run mid ∧ Passes d mid none run' ∧
      (run.network.order.length ≤ run.network.solvedCount d + spare →
        run'.network.solvedCount d = mid.network.solvedCount d))
    fun fault run' => ∃ mid, Passed d run mid ∧ Passes d mid (some fault) run' := by
  induction spare generalizing run with
  | zero =>
    refine Ends.bind (Ends.mono (follows_pass d run) ?_ ?_)
    · intro _ run' h
      refine ⟨Nat.one_pos, run, .refl, h, fun hall => ?_⟩
      -- Every relationship was marked before the pass.
      have hle := h.advance.solvedCount_le
      have hub := run'.network.solvedCount_le_length d
      rw [h.advance.order] at hub
      omega
    · exact fun fault run' h => ⟨run, .refl, h⟩
  | succ spare ih =>
    refine Ends.bind (Ends.mono (ends_passSettles d run) ?_ fun _ run' h => ⟨run, .refl, h⟩)
    rintro settles mid ⟨h, rfl⟩
    have hle := h.advance.solvedCount_le
    have horder := h.advance.order
    by_cases hs : mid.network.solvedCount d = run.network.solvedCount d
    · rw [decide_eq_true hs]
      exact ⟨Nat.one_pos, run, .refl, h, fun _ => hs⟩
    · rw [decide_eq_false hs]
      refine Ends.bind (Ends.mono (ih mid) ?_ ?_)
      · rintro made run' ⟨-, last, hpre, hlast, hcount⟩
        refine ⟨Nat.succ_pos _, last, hpre.head h, hlast, fun hall => hcount ?_⟩
        rw [horder]
        omega
      · rintro fault run' ⟨last, hpre, hlast⟩
        exact ⟨last, hpre.head h, hlast⟩

def start (d : Digest) (run : Run) : Run :=
  { run with network := { run.network with lastDigest := max run.network.lastDigest d } }

structure Answered (d : Digest) (run : Run) (report : Report) (run' : Run) : Prop where
  digest : report.digest = d
  passes : 0 < report.passes
  solved : report.solved = run'.network.solvedCount d
  pending : report.pending = run'.network.order.length - run'.network.solvedCount d
  passed : ∃ mid, Passed d (start d run) mid ∧ Passes d mid none run' ∧
    (run.network.config.fixpoint → run'.network.solvedCount d = mid.network.solvedCount d)

def Stopped (d : Digest) (run : Run) (fault : Fault) (run' : Run) : Prop :=
  ∃ mid, Passed d (start d run) mid ∧ Passes d mid (some fault) run'

theorem ends_solve (d : Digest) (run : Run) :
    Ends (solve d) run (Answered d run) (Stopped d run) := by
  refine ends_update (ends_network (Ends.bind (Ends.mono (ends_passes d _ (start d run)) ?_ ?_)))
  · rintro made run' ⟨hmade, mid, hpre, hlast, hcount⟩
    refine ⟨rfl, hmade, rfl, rfl, mid, hpre, hlast, fun hf => hcount ?_⟩
    simp only [hf, if_true]
    exact Nat.le_add_left _ _
  · exact fun fault run' h => h

end Propagation

end ConstraintNet

import ConstraintNet.Json.Expr
import ConstraintNet.Json.Snapshot
import ConstraintNet.Network.Call
import ConstraintNet.Network.Inspect
import ConstraintNet.Proofs.Access
import ConstraintNet.Proofs.Integrity
import ConstraintNet.Proofs.Edit
import ConstraintNet.Proofs.WellHeld
import ConstraintNet.Proofs.Construction
import ConstraintNet.Proofs.Advance
import ConstraintNet.Proofs.Cascade
import ConstraintNet.Proofs.Derive
import ConstraintNet.Proofs.Fixpoint
import ConstraintNet.Proofs.Readout
import ConstraintNet.Proofs.Direct
import ConstraintNet.Proofs.Lowering
import ConstraintNet.Proofs.Residue
import ConstraintNet.Proofs.Orphans
import ConstraintNet.Proofs.Knowledge
import ConstraintNet.Proofs.Twin
import ConstraintNet.Proofs.History
import ConstraintNet.Proofs.SinglePass
import ConstraintNet.Proofs.Inference
import ConstraintNet.Proofs.Lineage
import ConstraintNet.Proofs.Termination
import ConstraintNet.Proofs.Projection
import ConstraintNet.Proofs.Independence
import ConstraintNet.Proofs.Redefinition
import ConstraintNet.Proofs.Refusal
import ConstraintNet.Proofs.Checking
import ConstraintNet.Proofs.Chain
import ConstraintNet.Proofs.Undoing
import ConstraintNet.Proofs.Naming
import ConstraintNet.Proofs.Handles
import ConstraintNet.Proofs.Survival
import ConstraintNet.Proofs.Conflict
import ConstraintNet.Proofs.Grammar
import ConstraintNet.Proofs.Reordering
import ConstraintNet.Proofs.Acceptance
import ConstraintNet.Proofs.Plan
import ConstraintNet.Proofs.Inverse
import ConstraintNet.Proofs.Planning
import ConstraintNet.Proofs.Backward
import ConstraintNet.Proofs.Numerals
import ConstraintNet.Proofs.JsonText
import ConstraintNet.Proofs.JsonLibrary
import ConstraintNet.Proofs.ExprJson
import ConstraintNet.Proofs.Folding
import ConstraintNet.Proofs.SnapshotJson
import ConstraintNet.Proofs.Orientation
import ConstraintNet.Proofs.Rounding
import ConstraintNet.Proofs.Binary64
import ConstraintNet.Proofs.Rederivation
import ConstraintNet.Proofs.ThirdOperand
import ConstraintNet.Proofs.Scanning
import ConstraintNet.Proofs.Signs
import ConstraintNet.Proofs.Rescanning
import ConstraintNet.Proofs.Markers
import ConstraintNet.Proofs.Targets

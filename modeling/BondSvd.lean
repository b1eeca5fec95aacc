import BondSvd.Policy.Environment
import BondSvd.Error.Message
import BondSvd.Session
import BondSvd.Proofs.Exact.Matrix
import BondSvd.Proofs.Exact.Rotation
import BondSvd.Proofs.Exact.OrthogonalBlock
import BondSvd.Proofs.Iteration.Factors
import BondSvd.Proofs.Iteration.Isolation
import BondSvd.Proofs.Iteration.Sweep
import BondSvd.Proofs.Iteration.Convergence
import BondSvd.Proofs.Iteration.Equivalence
import BondSvd.Proofs.Ordering
import BondSvd.Proofs.Exact.Reflection
import BondSvd.Proofs.Reduction.Step
import BondSvd.Proofs.Reduction.Run
import BondSvd.Proofs.Reduction.Factors
import BondSvd.Proofs.Reduction.Residue
import BondSvd.Proofs.Reduction.Replay
import BondSvd.Proofs.Reduction.Stored
import BondSvd.Proofs.FlatBlock
import BondSvd.Proofs.Attempt
import BondSvd.Proofs.Spectrum.Mass
import BondSvd.Proofs.Spectrum.Truncation
import BondSvd.Proofs.Spectrum.Kept
import BondSvd.Proofs.Spectrum.Cutoff
import BondSvd.Proofs.Spectrum.Monotone
import BondSvd.Proofs.Bond.Leading
import BondSvd.Proofs.Bond.Blocks
import BondSvd.Proofs.Bond.Convention
import BondSvd.Proofs.Bond.Packing
import BondSvd.Proofs.Bond.Accounts
import BondSvd.Proofs.Binary64.NonFinite
import BondSvd.Proofs.Binary64.Order
import BondSvd.Proofs.Finite.Laws
import BondSvd.Proofs.Finite.Iteration
import BondSvd.Proofs.Finite.Reduction
import BondSvd.Proofs.Finite.Replay
import BondSvd.Proofs.Finite.Attempt
import BondSvd.Proofs.Binary64.Comparison
import BondSvd.Proofs.Binary64.Conversion
import BondSvd.Proofs.Descending.Laws
import BondSvd.Proofs.Descending.Iteration
import BondSvd.Proofs.Descending.Sorting
import BondSvd.Proofs.Descending.Attempt
import BondSvd.Proofs.Exact.Lengths
import BondSvd.Proofs.Reduction.Size
import BondSvd.Proofs.Retry
import BondSvd.Proofs.RelativeAccuracy
import BondSvd.Proofs.Reach
import BondSvd.Proofs.Budget
import BondSvd.Proofs.Shapes
import BondSvd.Proofs.Vendor.Transfer
import BondSvd.Proofs.Vendor.Consultation
import BondSvd.Proofs.Vendor.Workspace
import BondSvd.Proofs.Session
import BondSvd.Proofs.Iteration.Count
import BondSvd.Proofs.Iteration.Writes
import BondSvd.Proofs.Iteration.Rounds
import BondSvd.Proofs.Iteration.Deflation
import BondSvd.Proofs.Validation
import BondSvd.Proofs.Backend
import BondSvd.Proofs.Binary64.Checkers
import BondSvd.Proofs.Scaling.Outcomes
import BondSvd.Proofs.Scaling.Matrix
import BondSvd.Proofs.Scaling.Reduction
import BondSvd.Proofs.Scaling.Iteration
import BondSvd.Proofs.Scaling.Attempt
import BondSvd.Proofs.Guarded.Basic
import BondSvd.Proofs.Guarded.Matrix
import BondSvd.Proofs.Guarded.Reduction
import BondSvd.Proofs.Guarded.Iteration
import BondSvd.Proofs.Guarded.Attempt
import BondSvd.Proofs.Guarded.Decomposition

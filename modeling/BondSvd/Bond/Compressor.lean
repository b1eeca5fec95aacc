import BondSvd.Backend
import BondSvd.Bond.Config
import BondSvd.Decomposition.Truncation
import BondSvd.DenseMatrix.Blocks

namespace BondSvd
universe u

/-- A bond after compression: blocks of the left site, Schmidt coefficients, blocks of the
right site, and the mass that was removed. -/
structure BondSplit (α : Type u) where
  left : DenseMatrix α × DenseMatrix α
  coefficients : List α
  right : DenseMatrix α × DenseMatrix α
  discarded : α

def BondSplit.dimension {α : Type u} (split : BondSplit α) : Nat := split.coefficients.length

/-- Compresses bonds with one backend under one policy. -/
structure Compressor (α : Type u) [Scalar α] where
  backend : Backend α
  config : CompressionConfig α
  policy : Policy α

namespace Compressor
variable {α : Type u} [Scalar α]

/-- The mass that a cutoff has removed already. -/
def cutoffMass (r : Decomposition α) : α :=
  match r.truncation with
  | some record => record.discardedMass r.values
  | none => 0

/-- The halves of the right factor's adjoint. -/
def rightBlocks (r : Decomposition α) : Except (Error α) (DenseMatrix α × DenseMatrix α) :=
  r.rightAdjoint.colHalves

/-- Truncates a decomposition and cuts its factors in halves. -/
def splitFactors (config : CompressionConfig α) (r : Decomposition α) :
    Except (Error α) (BondSplit α) := do
  let (kept, removed) := r.truncate config.maxBondDimension.toNat config.truncationThreshold
  let left ← kept.left.rowHalves
  let right ← rightBlocks kept
  return ⟨left, kept.values, right, cutoffMass r + removed⟩

/-- Compresses the bond between the blocks. -/
def split (c : Compressor α) (blocks : SiteBlocks α) : Recorded α (BondSplit α) :=
  match blocks.pack with
  | .error error => .ofExcept (.error error)
  | .ok packed => (c.backend.decompose c.policy packed).andThen (splitFactors c.config)

/-- A compressor for valid settings, with the backend that they ask for. Like that, it looks at the
dispatcher at each bond. -/
def ofConfig (policy : Policy Float) (config : CompressionConfig Float) :
    Except (Error Float) (Vendor.Dispatcher → Compressor Float) := do
  config.validate
  let backend ← (BackendKind.select config.useVendor).backend
  return fun dispatcher => ⟨backend dispatcher, config, policy⟩

end Compressor
end BondSvd

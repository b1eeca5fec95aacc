import BondSvd.Bond.Compressor

/-! A session with the one registered LAPACK provider. Steps install a provider, clear it,
or decompose and compress; only the first two change which provider is active. Every answer
comes with the routine calls that were made for it. -/
namespace BondSvd

/-- Between two steps a session is what the dispatcher holds. -/
abbrev Session := Vendor.Dispatcher

/-- A series of bonds for one compressor, or each for a compressor of its own that runs
under the process-wide policy. -/
structure CompressionRequest where
  config : CompressionConfig Float
  policy : Policy Float := {}
  oneShot : Bool := false
  bonds : List (SiteBlocks Float)

/-- What a step asks for. -/
inductive SessionStep
  | info
  | install (provider : Vendor.Provider Float)
  | clear
  | svd (A : DenseMatrix Float)
  | decompose (kind : BackendKind) (policy : Policy Float) (A : DenseMatrix Float)
  | compress (request : CompressionRequest)

/-- A compressor's backend and the bonds that it split; a compressor of its own for each
bond leaves no backend to be named. -/
structure CompressionReport where
  backend : Option String
  splits : List (Except (Error Float) (BondSplit Float))

/-- What a step is answered with. -/
inductive SessionAnswer
  | done
  | informed (provider : String) (external : Bool)
  | decomposed (result : Except (Error Float) (Decomposition Float))
  | compressed (result : Except (Error Float) CompressionReport)

namespace Session

/-- A decomposition by a backend of the given kind. -/
def decompose (s : Session) (kind : BackendKind) (policy : Policy Float) (A : DenseMatrix Float) :
    Recorded Float (Decomposition Float) :=
  match kind.backend with
  | .error error => .ofExcept (.error error)
  | .ok backend => (backend s).decompose policy A

/-- One bond with a compressor of its own. -/
def splitBond (s : Session) (policy : Policy Float) (config : CompressionConfig Float)
    (blocks : SiteBlocks Float) : Recorded Float (BondSplit Float) :=
  match Compressor.ofConfig policy config with
  | .error error => .ofExcept (.error error)
  | .ok compressor => (compressor s).split blocks

/-- The bonds of a request, with the calls made for all of them. -/
def compress (s : Session) (request : CompressionRequest) :
    Except (Error Float) CompressionReport × List Vendor.RoutineCall :=
  if request.oneShot then
    let splits := request.bonds.map (s.splitBond {} request.config)
    (.ok ⟨none, splits.map (·.result)⟩, splits.flatMap (·.calls))
  else match Compressor.ofConfig request.policy request.config with
    | .error error => (.error error, [])
    | .ok compressor =>
      let splits := request.bonds.map (compressor s).split
      (.ok ⟨some (compressor s).backend.name, splits.map (·.result)⟩, splits.flatMap (·.calls))

/-- The session after a step, its answer, and the calls made for it. -/
def step (s : Session) : SessionStep → Session × SessionAnswer × List Vendor.RoutineCall
  | .info => (s, .informed s.name s.isExternal, [])
  | .install provider => ({ s with active := some provider }, .done, [])
  | .clear => ({ s with active := none }, .done, [])
  | .svd A =>
    let answer := Vendor.decompose s A
    (s, .decomposed answer.result, answer.calls)
  | .decompose kind policy A =>
    let answer := s.decompose kind policy A
    (s, .decomposed answer.result, answer.calls)
  | .compress request =>
    let answer := s.compress request
    (s, .compressed answer.1, answer.2)

/-- The session after a series of steps. -/
def run (s : Session) (steps : List SessionStep) : Session :=
  steps.foldl (fun s step => (s.step step).1) s

end Session
end BondSvd

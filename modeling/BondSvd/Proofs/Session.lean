import Mathlib
import BondSvd.Proofs.Bond.Packing
import BondSvd.Proofs.Vendor.Consultation
import BondSvd.Session

/-! A session as a state machine. Its state is the provider of the last installation that nothing has
cleared. A step is accounted for decomposition by decomposition: what it hands to the vendor backend,
which calls the active provider gets for that, and which failure comes of them. -/
namespace BondSvd
open Vendor

/-- The decompositions for the bonds of a request, each with the matrix that it hands to the vendor
backend. There is none for the reference backend, for blocks that cannot be packed, and under settings
that are refused. -/
def CompressionRequest.inputs (request : CompressionRequest) : List (Option (DenseMatrix Float)) :=
  match request.config.validate with
  | .ok () => request.bonds.map fun blocks => if request.config.useVendor then blocks.pack.toOption else none
  | .error _ => if request.oneShot then request.bonds.map fun _ => none else [none]

namespace SessionStep

/-- Every step but an installation and a clearing. -/
def Quiet : SessionStep → Prop
  | .install _ | .clear => False
  | _ => True

/-- The decompositions of a step in order, each with the matrix that it hands to the vendor backend. -/
def inputs : SessionStep → List (Option (DenseMatrix Float))
  | .info | .install _ | .clear => []
  | .svd A => [some A]
  | .decompose kind _ A => [if kind = .vendor then some A else none]
  | .compress request => request.inputs

end SessionStep

/-- The failures of routines in an answer, one place for each decomposition. -/
def SessionAnswer.failures : SessionAnswer → List (Option (String × Int32))
  | .done | .informed _ _ => []
  | .decomposed result => [failure result]
  | .compressed (.error error) => [failure (.error error : Except (Error Float) Unit)]
  | .compressed (.ok report) => report.splits.map failure

/-- One decomposition of a step: the matrix that is handed to the vendor backend, if any, the calls that
are made, and the failure of a routine that is reported. -/
structure SessionPart where
  input : Option (DenseMatrix Float)
  calls : List RoutineCall
  failure : Option (String × Int32)

/-- Without an input no provider is told of anything; for an input the active one is consulted, where the
extents and the workspaces that it reports can be told to a routine. -/
def SessionPart.Sound (s : Session) (part : SessionPart) : Prop :=
  match part.input with
  | none => part.calls = [] ∧ part.failure = none
  | some A => 2 * min A.rows A.cols + max A.rows A.cols < 2 ^ 31 →
      (∀ provider, s.active = some provider → Modest provider A) → Consulted s A part.calls part.failure

/-- The calls and the failures of a step come from sound parts with the given inputs. -/
def Accounted (s : Session) (inputs : List (Option (DenseMatrix Float)))
    (calls : List RoutineCall) (failures : List (Option (String × Int32))) : Prop :=
  ∃ parts : List SessionPart, parts.map (·.input) = inputs ∧ parts.flatMap (·.calls) = calls ∧
    parts.map (·.failure) = failures ∧ ∀ part ∈ parts, part.Sound s

section Failures
variable {β γ : Type} {s : Session} {policy : Policy Float} {config : CompressionConfig Float}

theorem failure_bind {next : β → Except (Error Float) γ} (harmless : ∀ value, failure (next value) = none)
    (first : Except (Error Float) β) : failure (first.bind next) = failure first := by
  cases first with
  | ok value => exact harmless value
  | error error => cases error <;> rfl

theorem failure_backend_finish (policy : Policy Float) (input : DenseMatrix Float) (r : Decomposition Float) :
    failure (Backend.finish policy input r) = none := by
  have mapped : Backend.finish policy input r =
      (Backend.check policy input r).bind fun _ => .ok (Backend.applyCutoff policy r) := by
    unfold Backend.finish
    cases Backend.check policy input r <;> rfl
  rw [mapped, failure_bind fun _ => rfl]
  unfold Backend.check Decomposition.validate
  dsimp only
  repeat' split
  all_goals rfl

private theorem failure_reference (policy : Policy Float) (A : DenseMatrix Float) :
    failure (Reference.decompose policy A) = none := by
  cases done : Reference.decompose policy A with
  | ok result => rfl
  | error error =>
    obtain ⟨attempts, rfl⟩ := Reference.decompose_error done
    rfl

private theorem failure_splitFactors (config : CompressionConfig Float) (r : Decomposition Float) :
    failure (Compressor.splitFactors config r) = none := by
  have rows (A : DenseMatrix Float) : failure A.rowHalves = none := by
    unfold DenseMatrix.rowHalves
    split <;> rfl
  have cols (A : DenseMatrix Float) : failure A.colHalves = none := by
    unfold DenseMatrix.colHalves
    split <;> rfl
  exact (failure_bind (fun _ => (failure_bind (fun _ => rfl) _).trans (cols _)) _).trans (rows _)

private theorem failure_pack {blocks : SiteBlocks Float} {error : Error Float} (refused : blocks.pack = .error error) :
    failure (.error error : Except (Error Float) γ) = none := by
  rcases blocks.pack_cases with ⟨-, P, packed, -⟩ | ⟨-, mismatch, faulty⟩
  · rw [packed] at refused
    cases refused
  · rw [faulty] at refused
    cases refused
    rfl

private theorem failure_validate {error : Error Float} (refused : config.validate = .error error) :
    failure (.error error : Except (Error Float) γ) = none := by
  unfold CompressionConfig.validate at refused
  split at refused
  · cases refused
    rfl
  · split at refused <;> cases refused
    rfl

/-- A decomposition by the vendor backend, and whatever is made of it without a failure of a routine. -/
theorem sound_vendor (A : DenseMatrix Float) {next : Decomposition Float → Except (Error Float) γ}
    (harmless : ∀ r, failure (next r) = none) :
    SessionPart.Sound s ⟨some A, (decompose s A).calls, failure ((decompose s A).result.bind next)⟩ := by
  intro fits modest
  rw [failure_bind harmless]
  exact decompose_consulted fits modest

/-- Valid settings make a compressor with the backend that they ask for. -/
theorem ofConfig_valid (policy : Policy Float) (valid : config.validate = .ok ()) :
    Compressor.ofConfig policy config =
      .ok fun dispatcher => ⟨if config.useVendor then .vendor dispatcher else .reference, config, policy⟩ := by
  unfold Compressor.ofConfig
  rw [valid]
  cases config.useVendor <;> rfl

private theorem ofConfig_invalid (policy : Policy Float) {error : Error Float} (invalid : config.validate = .error error) :
    Compressor.ofConfig policy config = .error error := by
  unfold Compressor.ofConfig
  rw [invalid]
  rfl

private theorem sound_split (policy : Policy Float) (config : CompressionConfig Float) (blocks : SiteBlocks Float) :
    let split := Compressor.split ⟨if config.useVendor then .vendor s else .reference, config, policy⟩ blocks
    SessionPart.Sound s
      ⟨if config.useVendor then blocks.pack.toOption else none, split.calls, failure split.result⟩ := by
  dsimp only
  unfold Compressor.split
  cases packed : blocks.pack with
  | error error =>
    have input : (if config.useVendor then (.error error : Except (Error Float) (DenseMatrix Float)).toOption else none) =
        none := by
      split <;> rfl
    rw [input]
    exact ⟨rfl, failure_pack packed⟩
  | ok P =>
    have harmless (r : Decomposition Float) :
        failure ((Backend.finish policy P r).bind (Compressor.splitFactors config)) = none :=
      (failure_bind (failure_splitFactors config) _).trans (failure_backend_finish policy P r)
    dsimp only
    rw [Backend.decompose, Recorded.andThen_andThen]
    cases config.useVendor with
    | true => exact sound_vendor P harmless
    | false => exact ⟨rfl, (failure_bind harmless _).trans (failure_reference policy P)⟩

end Failures

section Step
variable {s : Session}

theorem accounted_map {β γ : Type} (f : β → Recorded Float γ) (input : β → Option (DenseMatrix Float)) (bonds : List β)
    (sound : ∀ bond, SessionPart.Sound s ⟨input bond, (f bond).calls, failure (f bond).result⟩) :
    Accounted s (bonds.map input) ((bonds.map f).flatMap (·.calls)) (((bonds.map f).map (·.result)).map failure) := by
  refine ⟨bonds.map fun bond => ⟨input bond, (f bond).calls, failure (f bond).result⟩, ?_, ?_, ?_, ?_⟩
  · rw [List.map_map]
    rfl
  · rw [List.flatMap_map, List.flatMap_map]
  · rw [List.map_map, List.map_map, List.map_map]
    rfl
  · intro part member
    obtain ⟨bond, -, rfl⟩ := List.mem_map.mp member
    exact sound bond

theorem accounted_single (part : SessionPart) (sound : part.Sound s) :
    Accounted s [part.input] part.calls [part.failure] := by
  refine ⟨[part], rfl, List.append_nil _, rfl, fun member inside => ?_⟩
  rw [List.mem_singleton.mp inside]
  exact sound

private theorem accounted_decompose (s : Session) (kind : BackendKind) (policy : Policy Float) (A : DenseMatrix Float) :
    Accounted s [if kind = .vendor then some A else none] (s.decompose kind policy A).calls
      [failure (s.decompose kind policy A).result] := by
  cases kind with
  | vendor => exact accounted_single _ (sound_vendor A (failure_backend_finish policy A))
  | reference =>
    have quiet := (failure_bind (failure_backend_finish policy A) _).trans (failure_reference policy A)
    exact accounted_single ⟨none, [], _⟩ ⟨rfl, quiet⟩
  | gpu => exact accounted_single ⟨none, [], _⟩ ⟨rfl, rfl⟩

private theorem accounted_compress (s : Session) (request : CompressionRequest) :
    Accounted s request.inputs (s.compress request).2
      (SessionAnswer.failures (.compressed (s.compress request).1)) := by
  unfold Session.compress CompressionRequest.inputs
  cases checked : request.config.validate with
  | ok =>
    have sound (policy : Policy Float) := @sound_split s policy request.config
    cases request.oneShot with
    | true =>
      have alone : s.splitBond {} request.config =
          Compressor.split ⟨if request.config.useVendor then .vendor s else .reference, request.config, {}⟩ := by
        funext blocks
        rw [Session.splitBond, ofConfig_valid _ checked]
      rw [if_pos rfl, alone]
      exact accounted_map _ _ request.bonds (sound {})
    | false =>
      rw [if_neg Bool.false_ne_true, ofConfig_valid _ checked]
      exact accounted_map _ _ request.bonds (sound request.policy)
  | error error =>
    cases request.oneShot with
    | true =>
      have alone : s.splitBond {} request.config = fun _ => .ofExcept (.error error) := by
        funext blocks
        rw [Session.splitBond, ofConfig_invalid _ checked]
      rw [if_pos rfl, alone]
      exact accounted_map _ (fun _ => none) request.bonds fun _ => ⟨rfl, failure_validate checked⟩
    | false =>
      rw [if_neg Bool.false_ne_true, ofConfig_invalid _ checked]
      exact accounted_single ⟨none, [], _⟩ ⟨rfl, failure_validate checked⟩

private theorem accounted_step (s : Session) (step : SessionStep) :
    Accounted s step.inputs (s.step step).2.2 (s.step step).2.1.failures := by
  cases step with
  | info | install | clear => exact ⟨[], rfl, rfl, rfl, fun _ member => absurd member List.not_mem_nil⟩
  | svd A =>
    refine accounted_single ⟨some A, _, _⟩ fun fits modest => ?_
    exact decompose_consulted fits modest
  | decompose kind policy A => exact accounted_decompose s kind policy A
  | compress request => exact accounted_compress s request

/-- Only an installation and a clearing change the session. -/
theorem step_quiet {step : SessionStep} (quiet : step.Quiet) : (s.step step).1 = s := by
  cases step with
  | install | clear => exact quiet.elim
  | info | svd | decompose | compress => rfl

private theorem library_step (s : Session) (step : SessionStep) : (s.step step).1.library = s.library := by
  cases step <;> rfl

private theorem active_step (s : Session) (step : SessionStep) (provider : Provider Float) :
    (s.step step).1.active = some provider ↔ step = .install provider ∨ step.Quiet ∧ s.active = some provider := by
  cases step with
  | install other => simp [Session.step, SessionStep.Quiet]
  | clear => simp [Session.step, SessionStep.Quiet]
  | info | svd | decompose | compress => simp [Session.step, SessionStep.Quiet]

private theorem step_info (s : Session) :
    (s.step .info).2 =
      (if s.active.isSome then .informed "External LAPACK (LP64)" true else .informed "Faer (Pure Rust)" false, []) := by
  rw [Session.step, s.isExternal_eq]
  obtain ⟨library, none | provider⟩ := s
  all_goals rfl

end Step

/-- The provider was installed, and no step since then installs another or clears it. -/
def Installed (steps : List SessionStep) (provider : Provider Float) : Prop :=
  ∃ earlier later, steps = earlier ++ .install provider :: later ∧ ∀ step ∈ later, step.Quiet

private theorem installed_append (steps : List SessionStep) (step : SessionStep) (provider : Provider Float) :
    Installed (steps ++ [step]) provider ↔ step = .install provider ∨ step.Quiet ∧ Installed steps provider := by
  constructor
  · rintro ⟨earlier, later, split, quiet⟩
    rcases List.eq_nil_or_concat later with rfl | ⟨later, last, rfl⟩
    · obtain ⟨-, same⟩ := List.append_inj' split rfl
      exact .inl (List.singleton_inj.mp same)
    · rw [List.concat_eq_append, ← List.cons_append, ← List.append_assoc] at split
      obtain ⟨same, ends⟩ := List.append_inj' split rfl
      obtain rfl := List.singleton_inj.mp ends
      refine .inr ⟨quiet _ (by simp), earlier, later, same, fun step member => quiet step (by simp [member])⟩
  · rintro (rfl | ⟨quiet, earlier, later, rfl, before⟩)
    · exact ⟨steps, [], rfl, fun _ member => absurd member List.not_mem_nil⟩
    · refine ⟨earlier, later ++ [step], by simp, fun other member => ?_⟩
      rcases List.mem_append.mp member with old | new
      · exact before other old
      · rw [List.mem_singleton.mp new]
        exact quiet

/-- After any steps the active provider is the one of the last installation that is not cleared. -/
theorem active_run (library : Library) (steps : List SessionStep) (provider : Provider Float) :
    (Session.run ⟨library, none⟩ steps).active = some provider ↔ Installed steps provider := by
  induction steps using List.reverseRecOn with
  | nil =>
    constructor
    · intro active
      cases active
    · rintro ⟨earlier, later, split, -⟩
      cases List.append_eq_nil_iff.mp split.symm with
      | intro _ later => cases later
  | append_singleton steps step ih =>
    rw [installed_append, ← ih, ← active_step, Session.run, List.foldl_append]
    rfl

private theorem library_run (s : Session) (steps : List SessionStep) : (s.run steps).library = s.library := by
  induction steps generalizing s with
  | nil => rfl
  | cons step steps ih => exact (ih _).trans (library_step s step)

/-- A session is accounted for, whatever the library computes. After any steps the active provider is
the one of the last installation that is not cleared, and without one it is the library; the answer to a
question for it says which. No other step changes it, whether it fails or not. The decompositions of the
next step consult the active provider, one after the other, and fail as it says. -/
theorem Session.run_accounted (library : Library) (steps : List SessionStep) (step : SessionStep) :
    let s := run ⟨library, none⟩ steps
    (∀ provider, s.active = some provider ↔ Installed steps provider) ∧ s.library = library ∧
    ((∃ provider, Installed steps provider) → (s.step .info).2 = (.informed "External LAPACK (LP64)" true, [])) ∧
    ((¬∃ provider, Installed steps provider) → (s.step .info).2 = (.informed "Faer (Pure Rust)" false, [])) ∧
    (step.Quiet → (s.step step).1 = s) ∧
    Accounted s step.inputs (s.step step).2.2 (s.step step).2.1.failures := by
  intro s
  have active : s.active.isSome = true ↔ ∃ provider, Installed steps provider := by
    rw [Option.isSome_iff_exists]
    exact exists_congr (active_run library steps)
  refine ⟨active_run library steps, library_run ⟨library, none⟩ steps, fun installed => ?_, fun cleared => ?_, step_quiet,
    accounted_step s step⟩
  · rw [step_info, if_pos (active.mpr installed)]
  · rw [step_info, if_neg (mt active.mp cleared)]

/-- Refuses every call. -/
def refuser : Provider Float := fun _ _ _ buffers => ⟨7, 0, buffers⟩

/-- Some provider is installed and cleared before another one. -/
def replaced : List SessionStep := [.install emulator, .clear, .install refuser, .info]

/-- The provider that is installed last is named as external, and refuses its one call. -/
theorem Session.run_accounted_refuser :
    (run ⟨referenceLibrary, none⟩ replaced).active = some refuser ∧
      ((run ⟨referenceLibrary, none⟩ replaced).step .info).2 = (.informed "External LAPACK (LP64)" true, []) ∧
      ∃ call : RoutineCall, call.Tells .zgesvd slantColumn 4 ∧
        ((run ⟨referenceLibrary, none⟩ replaced).step (.svd slantColumn)).2.2 = [call] ∧
        ((run ⟨referenceLibrary, none⟩ replaced).step (.svd slantColumn)).2.1.failures = [some ("zgesvd", 7)] := by
  obtain ⟨active, -, external, -, -, parts, inputs, calls, failures, sound⟩ :=
    Session.run_accounted referenceLibrary replaced (.svd slantColumn)
  obtain ⟨part, rfl, input⟩ := List.map_eq_singleton_iff.mp inputs
  have last : Installed replaced refuser := ⟨[.install emulator, .clear], [.info], rfl, by simp [SessionStep.Quiet]⟩
  have installed := (active refuser).mpr last
  have modest : Modest refuser slantColumn := fun _ _ => (by decide +kernel : (0 : Float).toUInt64.toNat < 2 ^ 31)
  have consulted := sound part (List.mem_singleton_self part)
  rw [SessionPart.Sound, input] at consulted
  have consulted := consulted (by decide) (by
    intro provider other
    cases installed.symm.trans other
    exact modest)
  refine ⟨installed, external ⟨_, last⟩, ?_⟩
  rw [← calls, ← failures, List.flatMap_singleton, List.map_singleton]
  generalize part.calls = calls at consulted ⊢
  generalize part.failure = failure at consulted ⊢
  cases consulted with
  | empty empty => exact absurd empty (by decide)
  | builtIn cleared => cases installed.symm.trans cleared
  | standard same nonempty short tells =>
    cases installed.symm.trans same
    exact ⟨_, tells, rfl, rfl⟩
  | refused same long => exact absurd long (by decide)
  | granted same long => exact absurd long (by decide)

end BondSvd

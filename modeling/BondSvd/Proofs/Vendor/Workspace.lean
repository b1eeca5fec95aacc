import Mathlib
import BondSvd.Proofs.Binary64.Conversion
import BondSvd.Proofs.Vendor.Transfer

/-! How much workspace a routine is told. Lengths are counted in 64 bits and told in 32, and only the extents
of the matrix are checked before that. What the standard driver gets is told in full wherever the vectors
fit in memory. What divide and conquer asks for is told wrong from `2 ^ 31` entries on; where the low 32 bits
are all ones, the call is a question once more, and the untouched buffers are taken for a result. -/
namespace BondSvd.Vendor
variable {library : Library} {A : DenseMatrix Float} {provider : Provider Float} {workspace m n : ℕ}

/-- So many complex entries have a count of bytes that memory can be granted for. With more of them a run
ends at their allocation, before any call that would use them. -/
def Grantable (entries : ℕ) : Prop := 16 * entries < 2 ^ 63

/-- The routine is told the length of the workspace that goes with the call: it is some, so the call is no
question. -/
structure RoutineCall.Frank (call : RoutineCall) : Prop where
  exact : call.lwork.toInt = call.workspace
  some : 1 ≤ call.lwork.toInt
  computes : call.lwork ≠ -1

/-- The last call for `A` gets these buffers and a workspace of this length, and its reply decides the
result. -/
structure Decides (library : Library) (provider : Provider Float) (A : DenseMatrix Float) (before : List RoutineCall)
    (buffers : Buffers Float A.rows A.cols) (call : RoutineCall) (workspace : ℕ) : Prop where
  calls : (decompose ⟨library, some provider⟩ A).calls = before ++ [call]
  chosen : call.routine = chooseRoutine A.rows A.cols
  allocated : call.workspace = workspace
  result : (decompose ⟨library, some provider⟩ A).result =
    finish call.routine (provider call _ _ buffers).info (provider call _ _ buffers).buffers

/-- A call of divide and conquer with the length -1 is a question to the provider, and its answer leaves
the buffers as they are. -/
def Obliging (provider : Provider Float) : Prop :=
  ∀ call m n buffers, call.routine = .zgesdd → call.lwork = -1 →
    (provider call m n buffers).info = 0 ∧ (provider call m n buffers).buffers = buffers

/-- Nothing but zeros. -/
structure Blank (r : Decomposition Float) : Prop where
  left : ∀ i j, r.left.entry i j = 0
  values : ∀ v ∈ r.values, v = 0
  right : ∀ i j, r.right.entry i j = 0

section Narrowing

private theorem toInt_ofNat_eq_iff : (Int32.ofNat workspace).toInt = workspace ↔ workspace < 2 ^ 31 := by
  have size : Int32.size = 2 ^ 32 := rfl
  rw [Int32.toInt_ofNat', Int.bmod_eq_emod, size]
  split <;> omega

private theorem computeCall_frank_iff (routine : Routine) (m n : ℕ) (some : 1 ≤ workspace) :
    (computeCall routine m n workspace).Frank ↔ workspace < 2 ^ 31 := by
  refine ⟨fun frank => toInt_ofNat_eq_iff.mp frank.exact, fun fits => ?_⟩
  have told : (computeCall routine m n workspace).lwork.toInt = workspace := toInt_ofNat_eq_iff.mpr fits
  exact ⟨told, by omega, ofNat_ne_neg_one (by omega)⟩

/-- The vectors of a matrix whose workspace needs more than 31 bits are too large for any memory. -/
theorem standard_fits (short : min m n < 64) (left : Grantable (m * m)) (right : Grantable (n * n)) :
    2 * min m n + max m n < 2 ^ 31 := by
  unfold Grantable at left right
  have extent {k : ℕ} (granted : 16 * (k * k) < 2 ^ 63) : k < 2 ^ 30 := by
    by_contra large
    have square := Nat.mul_le_mul (not_lt.mp large) (not_lt.mp large)
    omega
  have rows := extent left
  have cols := extent right
  omega

end Narrowing

section Blank

private theorem entry_ofColumnMajor_replicate (i j : ℕ) :
    (ofColumnMajor (Vector.replicate (m * n) (0 : Cplx Float))).entry i j = 0 := by
  by_cases inside : i < m ∧ j < n
  · have lies := columnMajor_ofColumnMajor (Vector.replicate (m * n) (0 : Cplx Float)) i j inside.1 inside.2
    rw [Vector.getElem?_eq_getElem (place_lt inside.1 inside.2), Vector.getElem_replicate] at lies
    exact (Option.some.inj lies).symm
  · exact DenseMatrix.entry_outside inside

/-- The buffers hold nothing before a routine has stored something. -/
theorem blank_ofMatrix (A : DenseMatrix Float) : Blank (Buffers.ofMatrix A).decomposition where
  left := entry_ofColumnMajor_replicate
  values v member := by
    have filled : (Buffers.ofMatrix A).decomposition.values = List.replicate (min A.rows A.cols) 0 :=
      Vector.toList_replicate
    exact List.eq_of_mem_replicate (filled ▸ member)
  right := entry_ofColumnMajor_replicate

/-- What a question leaves behind is read out as a success. -/
theorem Obliging.finish_blank (obliging : Obliging provider) {call : RoutineCall} (chosen : call.routine = .zgesdd)
    (asks : call.lwork = -1) {buffers : Buffers Float A.rows A.cols} (untouched : buffers = Buffers.ofMatrix A) :
    ∃ r, finish call.routine (provider call _ _ buffers).info (provider call _ _ buffers).buffers = .ok r ∧
      Blank r := by
  obtain ⟨success, kept⟩ := obliging call _ _ buffers chosen asks
  rw [success, kept, untouched]
  exact ⟨_, if_pos rfl, blank_ofMatrix A⟩

end Blank

section Runs
variable (library)

private theorem decompose_standard (callable : Callable A) (short : min A.rows A.cols < 64) :
    Decides library provider A [] (Buffers.ofMatrix A)
      (computeCall .zgesvd A.rows A.cols (2 * min A.rows A.cols + max A.rows A.cols))
      (2 * min A.rows A.cols + max A.rows A.cols) := by
  obtain ⟨calls, reply, exchange, answered⟩ := decompose_exchange provider callable
  have chosen : chooseRoutine A.rows A.cols = .zgesvd := chooseRoutine_eq_zgesvd_iff.mpr short
  rw [chosen] at exchange answered
  cases exchange
  rw [callable.standardWorkspace_eq] at answered
  exact ⟨congrArg Recorded.calls answered, chosen.symm, rfl, congrArg Recorded.result answered⟩

theorem decompose_granted (callable : Callable A) (long : 64 ≤ min A.rows A.cols)
    {answer : Reply Float A.rows A.cols} (asked : provider (queryCall A.rows A.cols) _ _ (Buffers.ofMatrix A) = answer)
    (grant : answer.info = 0) :
    Decides library provider A [queryCall A.rows A.cols] answer.buffers
      (computeCall .zgesdd A.rows A.cols (queriedWorkspace answer.firstWork)) (queriedWorkspace answer.firstWork) := by
  obtain ⟨calls, reply, exchange, answered⟩ := decompose_exchange provider callable
  subst asked
  cases chosen : chooseRoutine A.rows A.cols with
  | zgesvd => exact absurd (chooseRoutine_eq_zgesvd_iff.mp chosen) (not_lt.mpr long)
  | zgesdd =>
    rw [chosen] at exchange answered
    cases exchange with
    | refused refusal => exact absurd grant refusal
    | granted _ wanted =>
      subst wanted
      exact ⟨congrArg Recorded.calls answered, chosen.symm, rfl, congrArg Recorded.result answered⟩

end Runs

/-- The length of the workspace survives the narrowing exactly where it fits 31 bits. With the standard
driver that only fails for vectors beyond any memory. With divide and conquer it depends on the reply to the
question: replies that are no number, below one or fractional do no harm, larger ones from `2 ^ 31` on do. -/
theorem decompose_frank_iff (library : Library) (provider : Provider Float) (callable : Callable A) :
    (min A.rows A.cols < 64 → ∃ call,
      Decides library provider A [] (Buffers.ofMatrix A) call (2 * min A.rows A.cols + max A.rows A.cols) ∧
      (call.Frank ↔ 2 * min A.rows A.cols + max A.rows A.cols < 2 ^ 31) ∧
      (Grantable (A.rows * A.rows) → Grantable (A.cols * A.cols) → call.Frank)) ∧
    (64 ≤ min A.rows A.cols → ∀ answer, provider (queryCall A.rows A.cols) _ _ (Buffers.ofMatrix A) = answer →
      answer.info = 0 → Grantable (max answer.firstWork.toUInt64.toNat 1) → ∃ call,
      Decides library provider A [queryCall A.rows A.cols] answer.buffers call (max answer.firstWork.toUInt64.toNat 1) ∧
      (call.Frank ↔ ¬(2147483648 : Float) ≤ answer.firstWork) ∧
      (call.lwork = -1 ↔ call.workspace % 2 ^ 32 = 2 ^ 32 - 1) ∧
      (call.lwork = -1 → Obliging provider → ∃ r, (decompose ⟨library, some provider⟩ A).result = .ok r ∧ Blank r)) := by
  have fits (reply : Float) : queriedWorkspace reply < 2 ^ 31 ↔ ¬(2147483648 : Float) ≤ reply := by
    rw [← Binary64.toUInt64_lt_iff, queriedWorkspace]
    omega
  constructor
  · intro short
    have some : 1 ≤ 2 * min A.rows A.cols + max A.rows A.cols := by have := callable.nonempty; omega
    have frank := computeCall_frank_iff .zgesvd A.rows A.cols some
    exact ⟨_, decompose_standard library callable short, frank, fun left right =>
      frank.mpr (standard_fits short left right)⟩
  · intro long answer asked grant _
    have decided := decompose_granted library callable long asked grant
    refine ⟨_, decided, (computeCall_frank_iff _ _ _ (le_max_right _ _)).trans (fits _), ofNat_eq_neg_one_iff, ?_⟩
    intro asks obliging
    have untouched : answer.buffers = Buffers.ofMatrix A := asked ▸ (obliging (queryCall _ _) _ _ _ rfl rfl).2
    rw [decided.result]
    exact obliging.finish_blank rfl asks untouched

/-- Wants the given length where it is asked, and decomposes like the emulator where it is not. -/
def hungry (wanted : Float) : Provider Float := fun call m n buffers =>
  if call.lwork = -1 then ⟨0, wanted, buffers⟩ else emulator call m n buffers

theorem hungry_queryCall (wanted : Float) (buffers : Buffers Float m n) :
    hungry wanted (queryCall m n) m n buffers = ⟨0, wanted, buffers⟩ := rfl

private theorem obliging_hungry (wanted : Float) : Obliging (hungry wanted) := by
  intro call m n buffers _ asks
  rw [hungry, if_pos asks]
  exact ⟨rfl, rfl⟩

theorem callable_identity : Callable (.identity 64) := ⟨by decide, by decide, by decide⟩

/-- A reply with half an entry is cut, and one that fills 32 bits asks again. -/
theorem decompose_frank_iff_hungry : Callable (.identity 64) ∧
    (∃ call, (decompose ⟨referenceLibrary, some (hungry 4160.5)⟩ (.identity 64)).calls = [queryCall 64 64, call] ∧
      call.workspace = 4160 ∧ call.Frank) ∧
    ∃ call, (decompose ⟨referenceLibrary, some (hungry 4294967295)⟩ (.identity 64)).calls = [queryCall 64 64, call] ∧
      ¬call.Frank ∧ call.lwork = -1 ∧
      ∃ r, (decompose ⟨referenceLibrary, some (hungry 4294967295)⟩ (.identity 64)).result = .ok r ∧ Blank r := by
  have modest : max (4160.5 : Float).toUInt64.toNat 1 = 4160 := by decide +kernel
  have large : max (4294967295 : Float).toUInt64.toNat 1 = 4294967295 := by decide +kernel
  refine ⟨callable_identity, ?_, ?_⟩
  · obtain ⟨call, decided, frank, -⟩ := (decompose_frank_iff referenceLibrary (hungry 4160.5) callable_identity).2
      le_rfl _ (hungry_queryCall _ _) rfl (by rw [Grantable, modest]; decide)
    exact ⟨call, decided.calls, decided.allocated.trans modest, frank.mpr (by decide +kernel)⟩
  · obtain ⟨call, decided, frank, asks, blank⟩ := (decompose_frank_iff referenceLibrary (hungry 4294967295) callable_identity).2
      le_rfl _ (hungry_queryCall _ _) rfl (by rw [Grantable, large]; decide)
    have asked : call.lwork = -1 := asks.mpr (by rw [decided.allocated, large]; decide)
    exact ⟨call, decided.calls, frank.not.mpr (by decide +kernel), asked, blank asked (obliging_hungry _)⟩

/-- Lengths that are told wrong: as less than nothing; and as a question, after which an identity has no
singular value but zero. -/
theorem hungry_misled : Callable (.identity 64) ∧
    (∃ call, (decompose ⟨referenceLibrary, some (hungry 2147483648)⟩ (.identity 64)).calls = [queryCall 64 64, call] ∧
      call.workspace = 2147483648 ∧ call.lwork.toInt = -2147483648) ∧
    ∃ call r, (decompose ⟨referenceLibrary, some (hungry 4294967295)⟩ (.identity 64)).calls = [queryCall 64 64, call] ∧
      call.workspace = 4294967295 ∧ call.lwork = -1 ∧
      (decompose ⟨referenceLibrary, some (hungry 4294967295)⟩ (.identity 64)).result = .ok r ∧ Blank r := by
  have half : queriedWorkspace 2147483648 = 2147483648 := by decide +kernel
  have full : queriedWorkspace 4294967295 = 4294967295 := by decide +kernel
  refine ⟨callable_identity, ?_, ?_⟩
  · have decided := decompose_granted referenceLibrary callable_identity le_rfl (hungry_queryCall 2147483648 _) rfl
    rw [half] at decided
    exact ⟨_, decided.calls, decided.allocated, by decide⟩
  · have decided := decompose_granted referenceLibrary callable_identity le_rfl (hungry_queryCall 4294967295 _) rfl
    rw [full] at decided
    have asks : (computeCall .zgesdd 64 64 4294967295).lwork = -1 := by decide
    obtain ⟨r, success, blank⟩ := (obliging_hungry 4294967295).finish_blank (A := .identity 64) rfl asks rfl
    exact ⟨_, r, decided.calls, decided.allocated, asks, decided.result.trans success, blank⟩

end BondSvd.Vendor

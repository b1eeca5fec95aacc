import Mathlib
import BondSvd.Proofs.Bond.Convention
import BondSvd.Proofs.Shapes
import BondSvd.Vendor.Dispatcher

namespace BondSvd.Vendor
variable {library : Library} {rows cols m n i j : ℕ} {A : DenseMatrix Float}

/-- The entries of `A` lie in the buffer one column after the other. -/
def ColumnMajor (buffer : Vector (Cplx Float) (rows * cols)) (A : DenseMatrix Float) : Prop :=
  ∀ i j, i < rows → j < cols → buffer[i + j * rows]? = some (A.entry i j)

section ColumnMajor
variable {buffer : Vector (Cplx Float) (rows * cols)}

theorem place_lt (row : i < rows) (col : j < cols) : i + j * rows < rows * cols := by
  rw [Nat.add_comm, Nat.mul_comm rows]
  exact DenseMatrix.position_lt col row

theorem columnMajor_ofFn {f : ℕ → ℕ → Cplx Float} (same : ∀ i j, i < rows → j < cols → f i j = A.entry i j) :
    ColumnMajor (Vector.ofFn fun k : Fin (rows * cols) => f (k.val % rows) (k.val / rows)) A := by
  intro i j row col
  have place : i + j * rows = j * rows + i := Nat.add_comm ..
  rw [Vector.getElem?_eq_getElem (place_lt row col), Vector.getElem_ofFn, ← same i j row col]
  simp only [place, DenseMatrix.position_div row, DenseMatrix.position_mod row]

theorem ColumnMajor.getD (lies : ColumnMajor buffer A) (row : i < rows) (col : j < cols) :
    buffer.getD (i + j * rows) 0 = A.entry i j := by
  rw [Vector.getD, Array.getD_eq_getD_getElem?, Vector.getElem?_toArray, lies i j row col, Option.getD_some]

/-- What is read out of a buffer lies in it. -/
theorem columnMajor_ofColumnMajor (buffer : Vector (Cplx Float) (rows * cols)) :
    ColumnMajor buffer (ofColumnMajor buffer) := by
  intro i j row col
  rw [ofColumnMajor, DenseMatrix.entry_ofFn _ row col, Vector.getD, Array.getD_eq_getD_getElem?,
    Vector.getElem?_toArray, Vector.getElem?_eq_getElem (place_lt row col), Option.getD_some]

/-- A buffer holds only one matrix of its shape. -/
theorem ColumnMajor.ofColumnMajor_eq (lies : ColumnMajor buffer A) (shape : A.shape = (rows, cols)) :
    ofColumnMajor buffer = A :=
  DenseMatrix.ext (congrArg Prod.fst shape).symm (congrArg Prod.snd shape).symm fun _ _ row col =>
    (DenseMatrix.entry_ofFn _ row col).trans (lies.getD row col)

end ColumnMajor

private theorem columnMajor_ofMatrix (A : DenseMatrix Float) : ColumnMajor (Buffers.ofMatrix A).input A :=
  columnMajor_ofFn fun _ _ _ _ => rfl

/-- What is said to a provider about a matrix in the buffers, and its last reply: one call of the
standard driver; or a question for the workspace, and if that is answered, one call of the other
driver on the buffers that the question left. -/
inductive Exchange (provider : Provider Float) (buffers : Buffers Float m n) :
    Routine → List RoutineCall → Reply Float m n → Prop
  | standard : Exchange provider buffers .zgesvd [computeCall .zgesvd m n (standardWorkspace m n)]
      (provider (computeCall .zgesvd m n (standardWorkspace m n)) m n buffers)
  | refused (refusal : (provider (queryCall m n) m n buffers).info ≠ 0) :
      Exchange provider buffers .zgesdd [queryCall m n] (provider (queryCall m n) m n buffers)
  | granted {workspace : ℕ} (answered : (provider (queryCall m n) m n buffers).info = 0)
      (wanted : workspace = queriedWorkspace (provider (queryCall m n) m n buffers).firstWork) :
      Exchange provider buffers .zgesdd [queryCall m n, computeCall .zgesdd m n workspace]
        (provider (computeCall .zgesdd m n workspace) m n (provider (queryCall m n) m n buffers).buffers)

private theorem drive_exchange (provider : Provider Float) (routine : Routine) (buffers : Buffers Float m n) :
    ∃ calls reply, Exchange provider buffers routine calls reply ∧
      provider.drive routine buffers = (calls, reply.info, reply.buffers) := by
  cases routine with
  | zgesvd => exact ⟨_, _, .standard, rfl⟩
  | zgesdd =>
    by_cases answered : (provider (queryCall m n) m n buffers).info = 0
    · exact ⟨_, _, .granted answered rfl, if_pos answered⟩
    · exact ⟨_, _, .refused answered, if_neg answered⟩

/-- The matrix is not empty, and a routine can be told its extents. -/
structure Callable (A : DenseMatrix Float) : Prop where
  nonempty : 0 < min A.rows A.cols
  rows : A.rows < 2 ^ 31
  cols : A.cols < 2 ^ 31

theorem Callable.standardWorkspace_eq (callable : Callable A) :
    standardWorkspace A.rows A.cols = 2 * min A.rows A.cols + max A.rows A.cols := by
  have nonempty := callable.nonempty
  exact max_eq_left (by omega)

theorem decompose_exchange (provider : Provider Float) (callable : Callable A) :
    ∃ calls reply, Exchange provider (Buffers.ofMatrix A) (chooseRoutine A.rows A.cols) calls reply ∧
      decompose ⟨library, some provider⟩ A = ⟨finish (chooseRoutine A.rows A.cols) reply.info reply.buffers, calls⟩ := by
  obtain ⟨nonempty, rows, cols⟩ := callable
  obtain ⟨calls, reply, exchange, driven⟩ :=
    drive_exchange provider (chooseRoutine A.rows A.cols) (Buffers.ofMatrix A)
  have extent : maxExtent = 2 ^ 31 - 1 := rfl
  refine ⟨calls, reply, exchange, ?_⟩
  rw [decompose, if_neg (by omega), if_neg (by omega)]
  dsimp only [Dispatcher.drive]
  rw [driven]

theorem decompose_of_empty (dispatcher : Dispatcher) (empty : min A.rows A.cols = 0) :
    decompose dispatcher A = .pure (emptyDecomposition A) := by
  rw [decompose, if_pos empty]

/-- The factors and the values of `r` in the buffers, the right vectors as rows. -/
structure Buffers.Holds (buffers : Buffers Float m n) (r : Decomposition Float) : Prop where
  left : ColumnMajor buffers.left r.left
  values : buffers.values.toList = r.values
  rightAdjoint : ColumnMajor buffers.rightAdjoint r.rightAdjoint

/-- The buffers decide a decomposition of their shapes in the adjoint convention. -/
theorem Buffers.Holds.decomposition_eq {buffers : Buffers Float m n} {r : Decomposition Float}
    (holds : buffers.Holds r) (left : r.left.shape = (m, m)) (right : r.rightAdjoint.shape = (n, n))
    (untouched : r.truncation = none) : buffers.decomposition = r.withConvention .adjoint := by
  rw [Decomposition.withConvention_adjoint, Buffers.decomposition, holds.left.ofColumnMajor_eq left, holds.values,
    holds.rightAdjoint.ofColumnMajor_eq right, untouched]

/-- A reply that succeeds is read out column by column, and any other is passed on as a failure. -/
structure Outcome (routine : Routine) (reply : Reply Float m n)
    (result : Except (Error Float) (Decomposition Float)) : Prop where
  success : reply.info = 0 → ∃ r, result = .ok r ∧ r.convention = .adjoint ∧ r.truncation = none ∧
    r.left.shape = (m, m) ∧ r.right.shape = (n, n) ∧ reply.buffers.Holds r
  failure : reply.info ≠ 0 → result = .error (.vendorFailure routine.name reply.info)

private theorem finish_outcome (routine : Routine) (reply : Reply Float m n) :
    Outcome routine reply (finish routine reply.info reply.buffers) := by
  refine ⟨fun zero => ⟨_, if_pos zero, rfl, rfl, rfl, rfl, ?_⟩, fun other => if_neg other⟩
  exact ⟨columnMajor_ofColumnMajor _, rfl, columnMajor_ofColumnMajor _⟩

/-- A provider that decomposes what it finds in the input by the reference algorithm, and asks for
some workspace where it is asked for one. -/
structure Emulates (provider : Provider Float) : Prop where
  answers : ∀ m n buffers, (provider (queryCall m n) m n buffers).info = 0
  keeps : ∀ m n buffers, (provider (queryCall m n) m n buffers).buffers.input = buffers.input
  modest : ∀ m n buffers, queriedWorkspace (provider (queryCall m n) m n buffers).firstWork < 2 ^ 31
  stores : ∀ call m n buffers B r, call.lwork ≠ -1 → B.shape = (m, n) → ColumnMajor buffers.input B →
    Reference.decompose {} B = .ok r →
    (provider call m n buffers).info = 0 ∧ (provider call m n buffers).buffers.Holds r
  fails : ∀ call m n buffers B error, call.lwork ≠ -1 → B.shape = (m, n) → ColumnMajor buffers.input B →
    Reference.decompose {} B = .error error → (provider call m n buffers).info = 1

theorem chooseRoutine_eq_zgesvd_iff : chooseRoutine m n = .zgesvd ↔ min m n < divideMinExtent := by
  rw [chooseRoutine, usesDivideAndConquer, lt_iff_not_ge, le_min_iff]
  split
  · next large => simpa using large
  · next small => simpa using small

/-- Only a length whose low bits are all ones could be taken for a question. -/
theorem ofNat_eq_neg_one_iff {workspace : ℕ} : Int32.ofNat workspace = -1 ↔ workspace % 2 ^ 32 = 2 ^ 32 - 1 := by
  have size : Int32.size = 2 ^ 32 := rfl
  have negative : (-1 : Int32).toInt = -1 := rfl
  rw [← Int32.toInt_inj, Int32.toInt_ofNat', negative, Int.bmod_eq_emod, size]
  split <;> omega

theorem ofNat_ne_neg_one {workspace : ℕ} (modest : workspace < 2 ^ 32 - 1) : Int32.ofNat workspace ≠ -1 := by
  rw [ne_eq, ofNat_eq_neg_one_iff]
  omega

/-- The last reply of an emulating provider answers a call that computes, with the input in place. -/
theorem Exchange.computes {provider : Provider Float} {buffers : Buffers Float m n} {calls : List RoutineCall}
    {reply : Reply Float m n} (exchange : Exchange provider buffers (chooseRoutine m n) calls reply)
    (emulates : Emulates provider) (rows : m < 2 ^ 31) (cols : n < 2 ^ 31) :
    ∃ call left, reply = provider call m n left ∧ left.input = buffers.input ∧ call.lwork ≠ -1 := by
  generalize chosen : chooseRoutine m n = routine at exchange
  cases exchange with
  | standard =>
    have short := chooseRoutine_eq_zgesvd_iff.mp chosen
    have extent : divideMinExtent = 64 := rfl
    exact ⟨_, _, rfl, rfl, ofNat_ne_neg_one (by rw [standardWorkspace]; omega)⟩
  | refused refusal => exact absurd (emulates.answers m n buffers) refusal
  | granted answered wanted =>
    have modest := emulates.modest m n buffers
    exact ⟨_, _, rfl, emulates.keeps m n buffers, ofNat_ne_neg_one (by omega)⟩

/-- Through an emulating provider comes what the reference algorithm returns, with the right factor
turned, and a failure with code one where that fails. -/
theorem Emulates.decompose_eq {provider : Provider Float} (emulates : Emulates provider) (callable : Callable A) :
    (decompose ⟨library, some provider⟩ A).result =
      ((Reference.decompose {} A).map fun r => r.withConvention .adjoint).mapError fun _ =>
        .vendorFailure (chooseRoutine A.rows A.cols).name 1 := by
  obtain ⟨calls, reply, exchange, answered⟩ := decompose_exchange provider callable
  obtain ⟨call, left, rfl, kept, computing⟩ := exchange.computes emulates callable.rows callable.cols
  have input : ColumnMajor left.input A := kept ▸ columnMajor_ofMatrix A
  rw [answered]
  cases done : Reference.decompose {} A with
  | ok r =>
    obtain ⟨zero, holds⟩ := emulates.stores call _ _ left A r computing rfl input done
    obtain ⟨leftShape, rightShape, -, columns, untouched⟩ := Reference.decompose_fitting done
    have turned : r.rightAdjoint.shape = (A.cols, A.cols) := by
      rw [Decomposition.rightAdjoint_of_columns columns]
      exact congrArg Prod.swap rightShape
    rw [zero, finish, if_pos rfl, holds.decomposition_eq leftShape turned untouched]
    rfl
  | error error =>
    rw [emulates.fails call _ _ left A error computing rfl input done, finish, if_neg (by decide)]
    rfl

/-- Equal numbers; zeros may differ in their signs. -/
def Alike (x y : Cplx Float) : Prop := (x.re == y.re) = true ∧ (x.im == y.im) = true

instance (x y : Cplx Float) : Decidable (Alike x y) := inferInstanceAs (Decidable (_ ∧ _))

/-- The adjoint of an identity differs from it only in signs of zeros. -/
theorem identity_adjoint_alike (size i j : ℕ) :
    Alike ((DenseMatrix.identity size).entry i j) ((DenseMatrix.identity size).adjoint.entry i j) := by
  have zeros : Alike 0 0 := by decide +kernel
  have turnedZero : Alike 0 (Cplx.conj 0) := by decide +kernel
  have turnedOne : Alike 1 (Cplx.conj 1) := by decide +kernel
  by_cases inside : i < size ∧ j < size
  · rw [DenseMatrix.entry_adjoint _ inside.1 inside.2, DenseMatrix.entry_identity inside.1 inside.2,
      DenseMatrix.entry_identity inside.2 inside.1]
    by_cases same : i = j
    · rw [if_pos same, if_pos same.symm]
      exact turnedOne
    · rw [if_neg same, if_neg (Ne.symm same)]
      exact turnedZero
  · rw [DenseMatrix.entry_outside inside, DenseMatrix.entry_outside inside]
    exact zeros

/-- The adapter is faithful. A provider gets the matrix column by column, and what it leaves is read out
column by column, or passed on as a failure of its routine. So a provider that runs the reference
algorithm gives what that gives, whatever the routine; without entries no provider is needed for that. -/
theorem decompose_faithful (library : Library) (provider : Provider Float) (A : DenseMatrix Float) :
    (Callable A → ∃ (buffers : Buffers Float A.rows A.cols) (calls : _) (reply : _), ColumnMajor buffers.input A ∧
      Exchange provider buffers (chooseRoutine A.rows A.cols) calls reply ∧
      (decompose ⟨library, some provider⟩ A).calls = calls ∧
      Outcome (chooseRoutine A.rows A.cols) reply (decompose ⟨library, some provider⟩ A).result) ∧
    (Emulates provider → Callable A → (decompose ⟨library, some provider⟩ A).result =
      ((Reference.decompose {} A).map fun r => r.withConvention .adjoint).mapError fun _ =>
        .vendorFailure (chooseRoutine A.rows A.cols).name 1) ∧
    (min A.rows A.cols = 0 → ∃ r d, Reference.decompose {} A = .ok r ∧ (decompose ⟨library, some provider⟩ A).result = .ok d ∧
      d = { r.withConvention .adjoint with right := d.right } ∧
      d.right.shape = (r.withConvention .adjoint).right.shape ∧
      ∀ i j, Alike (d.right.entry i j) ((r.withConvention .adjoint).right.entry i j)) := by
  refine ⟨fun callable => ?_, fun emulates callable => emulates.decompose_eq callable, fun empty => ?_⟩
  · obtain ⟨calls, reply, exchange, answered⟩ := decompose_exchange provider callable
    rw [answered]
    exact ⟨_, calls, reply, columnMajor_ofMatrix A, exchange, rfl, finish_outcome _ reply⟩
  · rw [decompose_of_empty _ empty]
    exact ⟨_, _, Reference.decompose_empty empty, rfl, rfl, rfl, identity_adjoint_alike A.cols⟩

/-- The reference algorithm in the place of a library. -/
def referenceLibrary : Library := fun A =>
  (Reference.decompose {} A).toOption.map fun r => ⟨r.values.toArray, r.left, r.right⟩

/-- Stores the reference decomposition of its input, and asks for one place of workspace. -/
def emulator : Provider Float := fun call _ _ buffers =>
  if call.lwork = -1 then ⟨0, 1, buffers⟩
  else match Reference.decompose {} buffers.toMatrix with
    | .ok r => ⟨0, 0, buffers.store ⟨r.values.toArray, r.left, r.right⟩⟩
    | .error _ => ⟨1, 0, buffers⟩

private theorem Buffers.holds_store (buffers : Buffers Float m n) {r : Decomposition Float} (fitting : r.Fitting A)
    (shape : A.shape = (m, n)) : (buffers.store ⟨r.values.toArray, r.left, r.right⟩).Holds r := by
  obtain ⟨rfl, rfl⟩ := Prod.mk.inj shape
  obtain ⟨left, right, length, columns, -⟩ := fitting
  refine ⟨columnMajor_ofFn fun _ _ _ _ => rfl, ?_, ?_⟩
  · refine List.ext_getElem (by rw [Vector.length_toList, length]) fun k inside bound => ?_
    simp [Buffers.store, bound]
  · refine columnMajor_ofFn (f := fun i j => (r.right.entry j i).conj) fun i j row col => ?_
    rw [Decomposition.rightAdjoint_of_columns columns, DenseMatrix.entry_adjoint]
    · exact row.trans_eq (congrArg Prod.snd right).symm
    · exact col.trans_eq (congrArg Prod.fst right).symm

private theorem emulates_emulator : Emulates emulator where
  answers _ _ _ := rfl
  keeps _ _ _ := rfl
  modest _ _ _ := (by decide +kernel : queriedWorkspace 1 < 2 ^ 31)
  stores call m n buffers B r computing shape input done := by
    have read : buffers.toMatrix = B := input.ofColumnMajor_eq shape
    rw [emulator, if_neg computing, read, done]
    exact ⟨rfl, buffers.holds_store (Reference.decompose_fitting done) shape⟩
  fails call m n buffers B error computing shape input failed := by
    have read : buffers.toMatrix = B := input.ofColumnMajor_eq shape
    rw [emulator, if_neg computing, read, failed]

/-- A column, with its entries in the ratio three to four. -/
def slantColumn : DenseMatrix Float := .ofFn 2 1 fun i _ => ⟨0, if i = 0 then 3 else 4⟩

theorem decompose_faithful_emulator :
    Callable slantColumn ∧ Emulates emulator ∧ (Reference.decompose {} slantColumn).isOk = true ∧
      (decompose ⟨referenceLibrary, some emulator⟩ slantColumn).result =
        ((Reference.decompose {} slantColumn).map fun r => r.withConvention .adjoint).mapError fun _ =>
          .vendorFailure "zgesvd" 1 := by
  have callable : Callable slantColumn := ⟨by decide, by decide, by decide⟩
  have success : (Reference.decompose {} slantColumn).isOk = true := by decide +kernel
  exact ⟨callable, emulates_emulator, success,
    (decompose_faithful referenceLibrary emulator slantColumn).2.1 emulates_emulator callable⟩

end BondSvd.Vendor

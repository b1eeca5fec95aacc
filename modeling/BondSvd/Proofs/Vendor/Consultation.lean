import Mathlib
import BondSvd.Proofs.Vendor.Transfer

namespace BondSvd.Vendor
variable {A : DenseMatrix Float} {dispatcher : Dispatcher}

/-- A call of a routine about `A`: all vectors are wanted, and the leading dimensions are those of
buffers without gaps. -/
structure RoutineCall.Tells (call : RoutineCall) (routine : Routine) (A : DenseMatrix Float) (lwork : ℤ) : Prop where
  chosen : call.routine = routine
  jobs : call.jobs = List.replicate (if routine = .zgesvd then 2 else 1) 'A'
  rows : call.rows.toInt = A.rows
  cols : call.cols.toInt = A.cols
  lda : call.lda.toInt = A.rows
  ldu : call.ldu.toInt = A.rows
  ldvt : call.ldvt.toInt = A.cols
  lwork : call.lwork.toInt = lwork

/-- The failure that a code stands for. -/
def verdict (routine : Routine) (info : Int32) : Option (String × Int32) :=
  if info = 0 then none else some (routine.name, info)

/-- The failure of a routine in a result. -/
def failure {β : Type} : Except (Error Float) β → Option (String × Int32)
  | .error (.vendorFailure routine info) => some (routine, info)
  | _ => none

/-- The calls that the active provider gets for a decomposition of `A`, and the failure of a routine
that comes of them. -/
inductive Consulted (dispatcher : Dispatcher) (A : DenseMatrix Float) :
    List RoutineCall → Option (String × Int32) → Prop
  | empty (empty : min A.rows A.cols = 0) : Consulted dispatcher A [] none
  | builtIn (cleared : dispatcher.active = none) :
      Consulted dispatcher A [] (verdict (chooseRoutine A.rows A.cols) (dispatcher.library.drive (Buffers.ofMatrix A)).1)
  | standard {provider : Provider Float} {call : RoutineCall} (installed : dispatcher.active = some provider)
      (nonempty : 0 < min A.rows A.cols) (short : min A.rows A.cols < 64)
      (tells : call.Tells .zgesvd A (2 * min A.rows A.cols + max A.rows A.cols : ℕ)) :
      Consulted dispatcher A [call] (verdict .zgesvd (provider call _ _ (Buffers.ofMatrix A)).info)
  | refused {provider : Provider Float} {query : RoutineCall} (installed : dispatcher.active = some provider)
      (long : 64 ≤ min A.rows A.cols) (asks : query.Tells .zgesdd A (-1))
      (refusal : (provider query _ _ (Buffers.ofMatrix A)).info ≠ 0) :
      Consulted dispatcher A [query] (some (Routine.name .zgesdd, (provider query _ _ (Buffers.ofMatrix A)).info))
  | granted {provider : Provider Float} {query call : RoutineCall} {answer : Reply Float A.rows A.cols}
      (installed : dispatcher.active = some provider) (long : 64 ≤ min A.rows A.cols) (asks : query.Tells .zgesdd A (-1))
      (answered : provider query _ _ (Buffers.ofMatrix A) = answer) (grant : answer.info = 0)
      (tells : call.Tells .zgesdd A (max 1 answer.firstWork.toUInt64.toNat : ℕ)) :
      Consulted dispatcher A [query, call] (verdict .zgesdd (provider call _ _ answer.buffers).info)

/-- Where the provider is asked about `A`, it reports a workspace that a routine can be told. -/
def Modest (provider : Provider Float) (A : DenseMatrix Float) : Prop :=
  ∀ query : RoutineCall, query.Tells .zgesdd A (-1) →
    (provider query _ _ (Buffers.ofMatrix A)).firstWork.toUInt64.toNat < 2 ^ 31

theorem toInt_max_one {size : ℕ} (positive : 0 < size) (fits : size < 2 ^ 31) :
    (max (Int32.ofNat size) 1).toInt = size := by
  have value := Int32.toInt_ofNat_of_lt fits
  have one : (1 : Int32).toInt = 1 := rfl
  have larger : max (Int32.ofNat size) 1 = if Int32.ofNat size ≤ 1 then 1 else Int32.ofNat size := rfl
  rw [larger]
  split
  · next small =>
    rw [Int32.le_iff_toInt_le, value, one] at small
    rw [one]
    omega
  · exact value

theorem computeCall_tells (callable : Callable A) (routine : Routine) {workspace : ℕ} (fits : workspace < 2 ^ 31) :
    (computeCall routine A.rows A.cols workspace).Tells routine A workspace := by
  obtain ⟨nonempty, rows, cols⟩ := callable
  have height : 0 < A.rows := by omega
  have width : 0 < A.cols := by omega
  refine ⟨rfl, ?_, Int32.toInt_ofNat_of_lt rows, Int32.toInt_ofNat_of_lt cols, toInt_max_one height rows,
    toInt_max_one height rows, toInt_max_one width cols, Int32.toInt_ofNat_of_lt fits⟩
  cases routine <;> rfl

private theorem queryCall_tells (callable : Callable A) : (queryCall A.rows A.cols).Tells .zgesdd A (-1) := by
  have tells := computeCall_tells callable .zgesdd (show 1 < 2 ^ 31 by decide)
  exact { tells with lwork := rfl }

private theorem failure_finish {m n : ℕ} (routine : Routine) (info : Int32) (buffers : Buffers Float m n) :
    failure (finish routine info buffers) = verdict routine info := by
  unfold finish verdict
  split <;> rfl

theorem Exchange.consulted {library : Library} {provider : Provider Float} {calls : List RoutineCall} {reply : Reply Float A.rows A.cols}
    (exchange : Exchange provider (Buffers.ofMatrix A) (chooseRoutine A.rows A.cols) calls reply)
    (callable : Callable A) (fits : 2 * min A.rows A.cols + max A.rows A.cols < 2 ^ 31) (modest : Modest provider A) :
    Consulted ⟨library, some provider⟩ A calls (verdict (chooseRoutine A.rows A.cols) reply.info) := by
  have extent : divideMinExtent = 64 := rfl
  have choice := chooseRoutine_eq_zgesvd_iff (m := A.rows) (n := A.cols)
  generalize chosen : chooseRoutine A.rows A.cols = routine at exchange choice
  cases exchange with
  | standard =>
    rw [callable.standardWorkspace_eq]
    exact .standard rfl callable.nonempty (choice.mp rfl) (computeCall_tells callable .zgesvd fits)
  | refused refusal =>
    have long : ¬min A.rows A.cols < divideMinExtent := fun short => Routine.noConfusion (choice.mpr short)
    rw [verdict, if_neg refusal]
    exact .refused rfl (by omega) (queryCall_tells callable) refusal
  | granted answered wanted =>
    have long : ¬min A.rows A.cols < divideMinExtent := fun short => Routine.noConfusion (choice.mpr short)
    have asks := queryCall_tells callable
    have reported := modest _ asks
    rw [queriedWorkspace, max_comm] at wanted
    subst wanted
    exact .granted rfl (by omega) asks rfl answered (computeCall_tells callable .zgesdd (by omega))

theorem decompose_consulted (fits : 2 * min A.rows A.cols + max A.rows A.cols < 2 ^ 31)
    (modest : ∀ provider, dispatcher.active = some provider → Modest provider A) :
    Consulted dispatcher A (decompose dispatcher A).calls (failure (decompose dispatcher A).result) := by
  rcases Nat.eq_zero_or_pos (min A.rows A.cols) with empty | nonempty
  · rw [decompose_of_empty dispatcher empty]
    exact .empty empty
  · have callable : Callable A := ⟨nonempty, by omega, by omega⟩
    obtain ⟨library, none | provider⟩ := dispatcher
    · have extent : maxExtent = 2 ^ 31 - 1 := rfl
      rw [decompose, if_neg (by omega), if_neg (by omega)]
      dsimp only [Dispatcher.drive]
      rw [failure_finish]
      exact .builtIn rfl
    · obtain ⟨calls, reply, exchange, answered⟩ := decompose_exchange provider callable
      rw [answered, failure_finish]
      exact exchange.consulted callable fits (modest provider rfl)

end BondSvd.Vendor

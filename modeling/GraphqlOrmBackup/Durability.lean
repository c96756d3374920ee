import GraphqlOrmBackup.GarbageCollection
import GraphqlOrmBackup.OperationCalls

/-!
# Durability

What a snapshot depends on stays in the repository over whole runs.  The
operations after it may be of any kind and number, each may fail or stop at any
of its calls, and the application may be another one each time; only those that
reuse an id of the chain, delete the snapshot, or let it expire are left out.
-/

namespace GraphqlOrmBackup

open Interaction

section Codec

variable [Crates]

/-- The operation has returned, failed, or stopped at one of its calls. -/
def Operation.Takes (host : Host) (operation : Operation) (w w' : World) : Prop :=
  ∃ rest : Prog Call.Response (Except BackupError operation.Result),
    Reaches host.MayFail w operation.run.run w' rest

/-- The operation is not meant to change the snapshot or those it depends on,
    whose ids are `ids`. -/
def Operation.Spares (s : Store) (id : Uuid) (ids : List Uuid) : Operation → Prop
  | .createFullBackup _ request _ => request.snapshotId ∉ ids
  | .createIncrementalBackup _ request _ => request.snapshotId ∉ ids
  | .compactChain _ request _ => request.snapshotId ∉ ids
  | .prune _ keepPolicy => SurvivesPrune s keepPolicy.keepLast id
  | .deleteSnapshot deleted _ => id ≠ deleted

section

variable {host : Host} {w w' : World} {id : Uuid} {chain : List BackupSnapshotManifest}
  {operation : Operation}

theorem ReachableRepository.takes (h : ReachableRepository w)
    (htakes : operation.Takes host w w') : ReachableRepository w' := by
  rcases htakes with ⟨rest, hrun⟩
  exact h.step hrun

theorem Operation.Spares.of_sameButLock {ids : List Uuid} (h : operation.Spares w.store id ids)
    (hsame : SameButLock w w') : operation.Spares w'.store id ids := by
  cases operation with
  | prune order keepPolicy => exact SurvivesPrune.of_sameButLock h hsame
  | createFullBackup sched request options => exact h
  | createIncrementalBackup sched request options => exact h
  | compactChain order request options => exact h
  | deleteSnapshot deleted lockOptions => exact h

/-- A writer of another snapshot. -/
theorem wpE_writer_keeps {α : Type} {snapshotId : Uuid} {inner : BackupM α}
    {P : α → World → Prop} {E : BackupError → World → Prop} (hw : CrateWritten w.store)
    (hintact : Intact w.store id chain) (hnot : snapshotId ∉ chain.map (·.snapshotId))
    (hinner : wpE host.MayFail (Writing False snapshotId w) inner P E w) :
    wpE host.MayFail (fun w' => AgreeOn (chainKeys chain) w.store w'.store) inner
      (fun _ _ => True) (fun _ _ => True) w := by
  refine wp.mono hinner (fun _ h => h.extends_.agreeOn hw hnot hintact) fun r _ _ _ => ?_
  cases r <;> trivial

/-- The work of an operation that spares a snapshot leaves every blob of its chain
    as it is, wherever it stops. -/
theorem wpE_work_keeps (hw : CrateWritten w.store) (hintact : Intact w.store id chain)
    (hspares : operation.Spares w.store id (chain.map (·.snapshotId))) :
    wpE host.MayFail (fun w' => AgreeOn (chainKeys chain) w.store w'.store) operation.work
      (fun _ _ => True) (fun _ _ => True) w := by
  cases operation with
  | createFullBackup sched request options =>
    exact wpE_writer_keeps hw hintact hspares
      (wpE_createFullBackupInner sched request options fun h : False => h.elim)
  | createIncrementalBackup sched request options =>
    exact wpE_writer_keeps hw hintact hspares
      (wpE_createIncrementalBackupInner sched request options fun h : False => h.elim)
  | compactChain order request options =>
    exact wpE_writer_keeps hw hintact hspares
      (wpE_compactChainInner order request fun h : False => h.elim)
  | prune order keepPolicy => exact wpE_pruneInner order keepPolicy hw hspares hintact
  | deleteSnapshot deleted lockOptions => exact wpE_deleteSnapshotInner hw hspares hintact

/-- **Step lemma.**  So does the operation. -/
theorem Operation.Takes.agreeOn (hw : CrateWritten w.store) (hintact : Intact w.store id chain)
    (hspares : operation.Spares w.store id (chain.map (·.snapshotId)))
    (htakes : operation.Takes host w w') : AgreeOn (chainKeys chain) w.store w'.store := by
  rcases htakes with ⟨rest, hrun⟩
  rw [operation.run_eq] at hrun
  refine hrun.crash (wpE_withLock_keeps hw hintact fun w₁ hsame => ?_)
  exact wpE_work_keeps (hw.of_sameButLock hsame) (hintact.of_sameButLock hw hsame)
    (hspares.of_sameButLock hsame)

end

end Codec

end GraphqlOrmBackup

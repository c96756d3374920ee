import GraphqlOrmBackup.Backup
import Mathlib.Data.List.InsertIdx

/-!
# Concurrent object writes

The stages of one task of `write_object_entries`, and what a step of a task
does to the store.
-/

namespace GraphqlOrmBackup

open Interaction

variable [Crates]

/-- What is stored under the key, if anything, hashes to the key's last segment. -/
def HonestAt (s : Store) (key : String) : Prop :=
  ∀ body, s.lookup key = some body → sha256Hex body = lastSegment key

/-- Every blob of the object store hashes to its key. -/
def HonestObjects (s : Store) : Prop := ∀ key, InObjectStore key → HonestAt s key

theorem honestObjects_empty : HonestObjects ∅ := by
  intro key _ body hbody
  exact absurd (Store.mem_of_lookup hbody) (AList.notMem_empty key)

/-- The result of a task. -/
abbrev ObjectResult := Except BackupError (Nat × ObjectBackupEntry)

abbrev ObjectProg := Prog Call.Response ObjectResult

/-- Where a task stands: before its first load, at the conditional write, at the
    second load, at the deletion of what it wrote, or at its end. -/
inductive ObjectStage where
  | load
  | put (source : StorageByteStream)
  | recheck
  | discard (actual : String)
  | done (result : ObjectResult)

/-- The rest of the task from the stage on. -/
def ObjectStage.prog (index : Nat) (object : BackupObjectRef) : ObjectStage → ObjectProg
  | .load => (objectTask index object).run
  | .put source => (putObject index object source).run
  | .recheck => (recheckObject index object).run
  | .discard actual => (discardObject object actual).run
  | .done result => .ret result

/-- The stage after the bytes have been written. -/
def stageAfterPut (index : Nat) (object : BackupObjectRef) (bytes : Bytes) : ObjectStage :=
  if sha256Hex bytes = object.sha256Hex then .done (.ok (index, objectBackupEntry object))
  else .discard (sha256Hex bytes)

/-- The stage after a source was loaded a second time. -/
def stageAfterRecheck (index : Nat) (object : BackupObjectRef) : StorageByteStream → ObjectStage
  | .ok bytes =>
      if sha256Hex bytes = object.sha256Hex then .done (.ok (index, objectBackupEntry object))
      else .done (.error (objectMismatch object (sha256Hex bytes)))
  | .error e => .done (.error e)

/-- What one call of a task does. -/
inductive StageStep (host : Host) (index : Nat) (object : BackupObjectRef) :
    World → ObjectStage → World → ObjectStage → Prop where
  | loaded {w : World} {source : StorageByteStream}
      (h : host.objects.loadObjectStream object (.ok source)) :
      StageStep host index object w .load w (.put source)
  | notLoaded {w : World} {e : BackupError}
      (h : host.objects.loadObjectStream object (.error e)) :
      StageStep host index object w .load w (.done (.error e))
  | written {w : World} {bytes : Bytes}
      (h : w.store.lookup (objectContentKey object.sha256Hex) = none) :
      StageStep host index object w (.put (.ok bytes))
        (w.withStore (w.store.putBlob (objectContentKey object.sha256Hex) bytes))
        (stageAfterPut index object bytes)
  | broken {w : World} {e : BackupError} :
      StageStep host index object w (.put (.error e)) w (.done (.error e))
  | exists {w : World} {source : StorageByteStream}
      (h : objectContentKey object.sha256Hex ∈ w.store) :
      StageStep host index object w (.put source) w .recheck
  | rechecked {w : World} {source : StorageByteStream}
      (h : host.objects.loadObjectStream object (.ok source)) :
      StageStep host index object w .recheck w (stageAfterRecheck index object source)
  | notRechecked {w : World} {e : BackupError}
      (h : host.objects.loadObjectStream object (.error e)) :
      StageStep host index object w .recheck w (.done (.error e))
  | discarded {w : World} {actual : String} :
      StageStep host index object w (.discard actual)
        (w.withStore (w.store.deleteBlob (objectContentKey object.sha256Hex)))
        (.done (.error (objectMismatch object actual)))

section Steps

variable {host : Host} {index : Nat} {object : BackupObjectRef} {w w' : World}

theorem prog_stageAfterPut (index : Nat) (object : BackupObjectRef) (bytes : Bytes) :
    (stageAfterPut index object bytes).prog index object =
      (if sha256Hex bytes ≠ object.sha256Hex then discardObject object (sha256Hex bytes)
        else pure (index, objectBackupEntry object) : BackupM _).run := by
  unfold stageAfterPut
  by_cases hsha : sha256Hex bytes = object.sha256Hex
  · rw [if_pos hsha, if_neg (not_not_intro hsha)]
    rfl
  · rw [if_neg hsha, if_pos hsha]
    rfl

theorem prog_stageAfterRecheck (index : Nat) (object : BackupObjectRef) (bytes : Bytes) :
    (stageAfterRecheck index object (.ok bytes)).prog index object =
      (if sha256Hex bytes ≠ object.sha256Hex then throw (objectMismatch object (sha256Hex bytes))
        else pure (index, objectBackupEntry object) : BackupM _).run := by
  simp only [stageAfterRecheck]
  by_cases hsha : sha256Hex bytes = object.sha256Hex
  · rw [if_pos hsha, if_neg (not_not_intro hsha)]
    rfl
  · rw [if_neg hsha, if_pos hsha]
    rfl

/-- **Step inversion.**  A task at a call moves to a stage again. -/
theorem stage_step {stage : ObjectStage} {c : Call} {next : c.Response → ObjectProg}
    {r : c.Response} (hprog : stage.prog index object = .call c next)
    (h : host.Answers c w r w') :
    ∃ stage', next r = stage'.prog index object ∧ StageStep host index object w stage w' stage' := by
  cases stage with
  | load =>
    cases hprog
    rcases h with ⟨h, rfl⟩
    cases r with
    | ok source => exact ⟨.put source, rfl, .loaded h⟩
    | error e => exact ⟨.done (.error e), rfl, .notLoaded h⟩
  | put source =>
    cases hprog
    rcases h with ⟨store', hput, rfl⟩
    unfold PutsIfAbsent at hput
    split at hput
    · next bytes hlookup =>
      obtain ⟨rfl, rfl : store' = _⟩ := hput
      exact ⟨_, (prog_stageAfterPut index object bytes).symm, .written hlookup⟩
    · obtain ⟨rfl, rfl : store' = _⟩ := hput
      exact ⟨.done (.error _), rfl, .broken⟩
    · next hlookup =>
      obtain ⟨rfl, rfl : store' = _⟩ := hput
      exact ⟨.recheck, rfl, .exists (Store.mem_of_lookup hlookup)⟩
    · next hlookup =>
      obtain ⟨rfl | rfl, rfl : store' = _⟩ := hput
      · exact ⟨.recheck, rfl, .exists (Store.mem_of_lookup hlookup)⟩
      · exact ⟨.done (.error _), rfl, .broken⟩
  | recheck =>
    cases hprog
    rcases h with ⟨h, rfl⟩
    cases r with
    | error e => exact ⟨.done (.error e), rfl, .notRechecked h⟩
    | ok source =>
      refine ⟨stageAfterRecheck index object source, ?_, .rechecked h⟩
      cases source with
      | error e => exact rfl
      | ok bytes => exact (prog_stageAfterRecheck index object bytes).symm
  | discard actual =>
    cases hprog
    rcases h with ⟨rfl, rfl⟩
    exact ⟨.done (.error (objectMismatch object actual)), rfl, .discarded⟩
  | done result => cases hprog

end Steps

/-! ## The pool of tasks -/

/-- A task in flight. -/
structure ObjectFlight where
  index : Nat
  object : BackupObjectRef
  stage : ObjectStage

def ObjectFlight.key (task : ObjectFlight) : String := objectContentKey task.object.sha256Hex

def ObjectFlight.prog (task : ObjectFlight) : ObjectProg := task.stage.prog task.index task.object

/-- The pool as the list of its tasks in flight: the tasks before `admitted`
    have been admitted. -/
structure ObjectPool where
  admitted : Nat
  flight : List ObjectFlight
  collected : List (Nat × ObjectBackupEntry)

def ObjectPool.pool (objectRefs : List BackupObjectRef) (pool : ObjectPool) :
    Pool Call.Response BackupError (Nat × ObjectBackupEntry) :=
  ⟨(objectTasks objectRefs).drop pool.admitted, pool.flight.map ObjectFlight.prog, pool.collected⟩

/-- What a task does at a call, in some environment. -/
abbrev Moves := Nat → BackupObjectRef → World → ObjectStage → World → ObjectStage → Prop

inductive ObjectPoolStep (moves : Moves) (objectRefs : List BackupObjectRef) (n : Nat) :
    World × ObjectPool → World × ObjectPool → Prop where
  | enter {w : World} {admitted : Nat} {flight : List ObjectFlight}
      {collected : List (Nat × ObjectBackupEntry)} {object : BackupObjectRef}
      (hobject : objectRefs[admitted]? = some object) (hroom : flight.length < n) :
      ObjectPoolStep moves objectRefs n (w, ⟨admitted, flight, collected⟩)
        (w, ⟨admitted + 1, flight ++ [⟨admitted, object, .load⟩], collected⟩)
  | move {w w' : World} {admitted i : Nat} {flight : List ObjectFlight}
      {collected : List (Nat × ObjectBackupEntry)} {task : ObjectFlight} {stage' : ObjectStage}
      (htask : flight[i]? = some task)
      (hmove : moves task.index task.object w task.stage w' stage') :
      ObjectPoolStep moves objectRefs n (w, ⟨admitted, flight, collected⟩)
        (w', ⟨admitted, flight.set i { task with stage := stage' }, collected⟩)
  | collect {w : World} {admitted i index : Nat} {flight : List ObjectFlight}
      {collected : List (Nat × ObjectBackupEntry)} {object : BackupObjectRef}
      {entry : Nat × ObjectBackupEntry}
      (htask : flight[i]? = some ⟨index, object, .done (.ok entry)⟩) :
      ObjectPoolStep moves objectRefs n (w, ⟨admitted, flight, collected⟩)
        (w, ⟨admitted, flight.eraseIdx i, collected ++ [entry]⟩)

theorem objectTasks_drop {objectRefs : List BackupObjectRef} {admitted : Nat}
    {object : BackupObjectRef} (hobject : objectRefs[admitted]? = some object) :
    (objectTasks objectRefs).drop admitted =
      (objectTask admitted object).run :: (objectTasks objectRefs).drop (admitted + 1) := by
  rcases List.getElem?_eq_some_iff.mp hobject with ⟨hlt, rfl⟩
  have hlen : admitted < (objectTasks objectRefs).length := by simpa [objectTasks] using hlt
  rw [List.drop_eq_getElem_cons hlen]
  simp [objectTasks]

theorem ObjectStage.prog_eq_ret {index : Nat} {object : BackupObjectRef} {stage : ObjectStage}
    {result : ObjectResult} (h : stage.prog index object = .ret result) : stage = .done result := by
  cases stage with
  | done result' => rw [show result' = result from by cases h; rfl]
  | load => cases h
  | put source => cases h
  | recheck => cases h
  | discard actual => cases h

section Simulation

variable {H : (c : Call) → World → c.Response → World → Prop} {moves : Moves}
  {objectRefs : List BackupObjectRef} {n : Nat}

/-- The tasks' calls are moves between stages. -/
def MovesOf (H : (c : Call) → World → c.Response → World → Prop) (moves : Moves) : Prop :=
  ∀ index object stage (c : Call) next r w w',
    ObjectStage.prog index object stage = .call c next → H c w r w' →
      ∃ stage', next r = stage'.prog index object ∧ moves index object w stage w' stage'

/-- **Refinement.**  Every step of the pool of programs is a step of the pool of
    stages. -/
theorem poolStep_refines (hmoves : MovesOf H moves) {w w' : World} {pool : ObjectPool}
    {pool' : Pool Call.Response BackupError (Nat × ObjectBackupEntry)}
    (h : PoolStep H n (w, pool.pool objectRefs) (w', pool')) :
    ∃ next, pool' = next.pool objectRefs ∧
      ObjectPoolStep moves objectRefs n (w, pool) (w', next) := by
  rcases pool with ⟨admitted, flight, collected⟩
  generalize hstart : (w, ObjectPool.pool objectRefs ⟨admitted, flight, collected⟩) = start at h
  generalize hstop : (w', pool') = stop at h
  cases h with
  | @enter _ t ws fl acc hroom =>
    simp only [ObjectPool.pool, Prod.mk.injEq, Pool.mk.injEq] at hstart
    rcases hstart with ⟨rfl, hwaiting, rfl, rfl⟩
    obtain ⟨rfl, rfl⟩ := Prod.mk.inj hstop
    rw [List.length_map] at hroom
    have hlt : admitted < objectRefs.length := by
      have hlen := congrArg List.length hwaiting
      simp only [List.length_drop, objectTasks, List.length_map, List.length_zipIdx,
        List.length_cons] at hlen
      omega
    have hobject : objectRefs[admitted]? = some objectRefs[admitted] :=
      List.getElem?_eq_getElem hlt
    rw [objectTasks_drop hobject] at hwaiting
    obtain ⟨rfl, rfl⟩ := List.cons.inj hwaiting
    exact ⟨_, by simp [ObjectPool.pool, ObjectFlight.prog, ObjectStage.prog],
      ObjectPoolStep.enter hobject hroom⟩
  | @call _ s' ws fl acc i c next r htask hcall =>
    simp only [ObjectPool.pool, Prod.mk.injEq, Pool.mk.injEq] at hstart
    rcases hstart with ⟨rfl, rfl, rfl, rfl⟩
    obtain ⟨rfl, rfl⟩ := Prod.mk.inj hstop
    rw [List.getElem?_map] at htask
    rcases Option.map_eq_some_iff.mp htask with ⟨task, htask, hprog⟩
    obtain ⟨stage', hnext, hmove⟩ := hmoves _ _ _ _ _ _ _ _ hprog hcall
    refine ⟨_, ?_, ObjectPoolStep.move htask hmove⟩
    rw [ObjectPool.pool, List.map_set, hnext]
    rfl
  | @collect _ ws fl acc i b htask =>
    simp only [ObjectPool.pool, Prod.mk.injEq, Pool.mk.injEq] at hstart
    rcases hstart with ⟨rfl, rfl, rfl, rfl⟩
    obtain ⟨rfl, rfl⟩ := Prod.mk.inj hstop
    rw [List.getElem?_map] at htask
    rcases Option.map_eq_some_iff.mp htask with ⟨⟨index, object, stage⟩, htask, hprog⟩
    obtain rfl := ObjectStage.prog_eq_ret hprog
    refine ⟨_, ?_, ObjectPoolStep.collect htask⟩
    rw [ObjectPool.pool, List.eraseIdx_map]

/-- **The rule for object pools**, by steps of stages. -/
theorem wp_objectPool {I : World → Prop} {J : ObjectPool → World → Prop}
    {Q : Except BackupError (List (Nat × ObjectBackupEntry)) → World → Prop}
    (hmoves : MovesOf H moves) (hn : 0 < n)
    (hinv : ∀ w pool w' pool', ObjectPoolStep moves objectRefs n (w, pool) (w', pool') →
      J pool w → J pool' w')
    (hI : ∀ pool w, J pool w → I w)
    (hend : ∀ admitted collected w, objectRefs.length ≤ admitted →
      J ⟨admitted, [], collected⟩ w → Q (.ok collected) w)
    (herr : ∀ (pool : ObjectPool) w (i : Nat) task e, J pool w →
      pool.flight[i]? = some task → task.stage = .done (.error e) → Q (.error e) w)
    (sched : List Poll) {w : World} (h : J ⟨0, [], []⟩ w) :
    wp H I (tryCollect n sched (objectTasks objectRefs)).run Q w := by
  refine wp_drive (J := fun p w => ∃ pool : ObjectPool, p = pool.pool objectRefs ∧ J pool w)
    hn ?_ ?_ ?_ ?_ sched _ w ⟨⟨0, [], []⟩, rfl, h⟩
  · rintro w _ w' pool' hstep ⟨pool, rfl, hpool⟩
    obtain ⟨next, rfl, hnext⟩ := poolStep_refines hmoves hstep
    exact ⟨next, rfl, hinv _ _ _ _ hnext hpool⟩
  · rintro _ w ⟨pool, rfl, hpool⟩
    exact hI pool w hpool
  · rintro acc w ⟨⟨admitted, flight, collected⟩, hpool, hw⟩
    simp only [ObjectPool.pool, Pool.mk.injEq] at hpool
    rcases hpool with ⟨hwaiting, hflight, rfl⟩
    rcases List.map_eq_nil_iff.mp hflight.symm with rfl
    refine hend admitted _ w ?_ hw
    simpa [objectTasks] using List.drop_eq_nil_iff.mp hwaiting.symm
  · rintro ws fl acc w i e ⟨⟨admitted, flight, collected⟩, hpool, hw⟩ htask
    simp only [ObjectPool.pool, Pool.mk.injEq] at hpool
    rcases hpool with ⟨_, rfl, _⟩
    rw [List.getElem?_map] at htask
    rcases Option.map_eq_some_iff.mp htask with ⟨task, htask, hprog⟩
    exact herr _ w i task e hw htask (ObjectStage.prog_eq_ret hprog)

end Simulation

end GraphqlOrmBackup

import GraphqlOrmBackup.CrashConsistency
import GraphqlOrmBackup.ObjectAgreement

/-!
# The objects of a full backup

The manifest of a full backup that succeeds, whatever calls have failed in other
runs: it has one entry for each object that the index has listed, in the order of
the listing, and the index has answered with bytes of the entry's checksum.
-/

namespace GraphqlOrmBackup

open Interaction

variable [Crates]

/-! ## The pool of tasks -/

section Pool

variable {host : Host} {objectRefs : List BackupObjectRef} {n admitted i : Nat} {w w' : World}
  {flight : List ObjectFlight} {collected : List (Nat × ObjectBackupEntry)}
  {pool pool' : ObjectPool} {index : Nat} {object : BackupObjectRef} {stage stage' : ObjectStage}

/-- What is known of a task that may yet succeed. -/
def ListedFact (host : Host) (index : Nat) (object : BackupObjectRef) : ObjectStage → Prop
  | .put source => host.objects.loadObjectStream object (.ok source)
  | .done (.ok entry) => entry = (index, objectBackupEntry object) ∧ CanSucceed host object
  | _ => True

/-- The invariant of the pool: each reference that was admitted is in flight or
    has its entry. -/
structure Listed (host : Host) (objectRefs : List BackupObjectRef) (pool : ObjectPool) : Prop where
  tasks : ∀ task ∈ pool.flight, objectRefs[task.index]? = some task.object ∧
    ListedFact host task.index task.object task.stage
  entries : ∀ entry ∈ pool.collected, ∃ object, objectRefs[entry.1]? = some object ∧
    entry.2 = objectBackupEntry object ∧ CanSucceed host object
  indices : (pool.flight.map (·.index) ++ pool.collected.map Prod.fst).Perm
    (List.range pool.admitted)

/-- A comparison that is passed makes the entry. -/
theorem listedFact_of_checksum {bytes : Bytes}
    (hload : host.objects.loadObjectStream object (.ok (.ok bytes)))
    (hstage : stage = stageAfterPut index object bytes ∨
      stage = stageAfterRecheck index object (.ok bytes)) :
    ListedFact host index object stage := by
  by_cases hmatch : sha256Hex bytes = object.sha256Hex
  · rcases hstage with rfl | rfl <;> simp only [stageAfterPut, stageAfterRecheck, if_pos hmatch]
    · exact ⟨rfl, bytes, hload, hmatch⟩
    · exact ⟨rfl, bytes, hload, hmatch⟩
  · rcases hstage with rfl | rfl <;> simp only [stageAfterPut, stageAfterRecheck, if_neg hmatch]
    · trivial
    · trivial

theorem StageStep.listedFact (hmove : StageStep host index object w stage w' stage')
    (h : ListedFact host index object stage) : ListedFact host index object stage' := by
  cases hmove with
  | loaded hload => exact hload
  | notLoaded => trivial
  | written => exact listedFact_of_checksum h (Or.inl rfl)
  | broken => trivial
  | «exists» => trivial
  | @rechecked source hload =>
    cases source with
    | ok bytes => exact listedFact_of_checksum hload (Or.inr rfl)
    | error e => trivial
  | notRechecked => trivial
  | discarded => trivial

theorem StageMayFail.listedFact (hmove : StageMayFail host index object w stage w' stage')
    (h : ListedFact host index object stage) : ListedFact host index object stage' := by
  cases hmove with
  | step hstage => exact hstage.listedFact h
  | failed e => trivial
  | failedAfter e hstage => trivial

theorem Listed.enter (h : Listed host objectRefs ⟨admitted, flight, collected⟩)
    (hobject : objectRefs[admitted]? = some object) :
    Listed host objectRefs ⟨admitted + 1, flight ++ [⟨admitted, object, .load⟩], collected⟩ := by
  refine ⟨List.forall_mem_append.mpr ⟨h.tasks, List.forall_mem_singleton.mpr ⟨hobject, trivial⟩⟩,
    h.entries, ?_⟩
  have hmoved : (flight.map (·.index) ++ ([admitted] ++ collected.map Prod.fst)).Perm
      (flight.map (·.index) ++ (collected.map Prod.fst ++ [admitted])) :=
    List.perm_append_comm.append_left _
  rw [List.range_succ, List.map_append, List.append_assoc]
  exact hmoved.trans (List.append_assoc _ _ _ ▸ h.indices.append_right [admitted])

theorem Listed.move {task : ObjectFlight} (h : Listed host objectRefs ⟨admitted, flight, collected⟩)
    (htask : flight[i]? = some task)
    (hmove : StageMayFail host task.index task.object w task.stage w' stage') :
    Listed host objectRefs ⟨admitted, flight.set i { task with stage := stage' }, collected⟩ := by
  obtain ⟨hobject, hfact⟩ := h.tasks task (List.mem_of_getElem? htask)
  refine ⟨fun t ht => ?_, h.entries, ?_⟩
  · rcases List.mem_or_eq_of_mem_set ht with ht | rfl
    · exact h.tasks t ht
    · exact ⟨hobject, hmove.listedFact hfact⟩
  · rw [map_index_set htask]
    exact h.indices

theorem Listed.collect {entry : Nat × ObjectBackupEntry}
    (h : Listed host objectRefs ⟨admitted, flight, collected⟩)
    (htask : flight[i]? = some ⟨index, object, .done (.ok entry)⟩) :
    Listed host objectRefs ⟨admitted, flight.eraseIdx i, collected ++ [entry]⟩ := by
  obtain ⟨hobject, hentry, hsucceed⟩ : objectRefs[index]? = some object ∧
      entry = (index, objectBackupEntry object) ∧ CanSucceed host object :=
    h.tasks _ (List.mem_of_getElem? htask)
  subst hentry
  refine ⟨fun t ht => h.tasks t ((List.eraseIdx_sublist _ _).subset ht),
    List.forall_mem_append.mpr ⟨h.entries,
      List.forall_mem_singleton.mpr ⟨object, hobject, rfl, hsucceed⟩⟩, ?_⟩
  obtain ⟨hlt, heq⟩ := List.getElem?_eq_some_iff.mp htask
  have hflight : (index :: (flight.eraseIdx i).map (·.index)).Perm (flight.map (·.index)) := by
    have hperm := (List.getElem_cons_eraseIdx_perm hlt).map (·.index)
    rwa [heq] at hperm
  rw [List.map_append, ← List.append_assoc]
  exact (List.perm_append_singleton _ _).trans ((hflight.append_right _).trans h.indices)

theorem Listed.poolStep (h : Listed host objectRefs pool)
    (hstep : ObjectPoolStep (StageMayFail host) objectRefs n (w, pool) (w', pool')) :
    Listed host objectRefs pool' := by
  cases hstep with
  | enter hobject _ => exact h.enter hobject
  | move htask hmove => exact h.move htask hmove
  | collect htask => exact h.collect htask

/-- When the pool has finished, its results in the order of their indices are the
    entries of the references. -/
theorem Listed.finished (h : Listed host objectRefs ⟨admitted, [], collected⟩)
    (hall : objectRefs.length ≤ admitted) :
    (collected.mergeSort fun left right => left.1 ≤ right.1).map Prod.snd =
        objectRefs.map objectBackupEntry ∧
      ∀ object ∈ objectRefs, CanSucceed host object := by
  have hindices : (collected.map Prod.fst).Perm (List.range admitted) := h.indices
  have hadmitted : admitted = objectRefs.length := by
    refine Nat.le_antisymm (Nat.le_of_not_lt fun hlt => ?_) hall
    obtain ⟨entry, hentry, hindex⟩ :=
      List.mem_map.mp (hindices.mem_iff.mpr (List.mem_range.mpr hlt))
    obtain ⟨_, hobject, _⟩ := h.entries entry hentry
    rw [hindex, List.getElem?_eq_none (Nat.le_refl _)] at hobject
    cases hobject
  subst hadmitted
  have hfst := map_fst_mergeSort hindices
  generalize hsorted : (collected.mergeSort fun left right => left.1 ≤ right.1) = sorted at hfst
  constructor
  · have hlength : sorted.length = objectRefs.length := by
      simpa using congrArg List.length hfst
    refine List.ext_getElem (by simp [hlength]) fun i hi hi' => ?_
    rw [List.length_map] at hi hi'
    rw [List.getElem_map, List.getElem_map]
    -- the result at a position has this position as its index
    have hindex := congrArg (·[i]?) hfst
    simp only [List.getElem?_map, List.getElem?_eq_getElem hi, List.getElem?_range hi',
      Option.map_some, Option.some.injEq] at hindex
    have hmem : sorted[i] ∈ collected := by
      apply List.mem_mergeSort.mp
      rw [hsorted]
      exact List.getElem_mem hi
    obtain ⟨object, hobject, hvalue, _⟩ := h.entries _ hmem
    rw [hindex, List.getElem?_eq_getElem hi'] at hobject
    rw [Option.some.inj hobject]
    exact hvalue
  · intro object hobject
    obtain ⟨i, hi, rfl⟩ := List.mem_iff_getElem.mp hobject
    obtain ⟨entry, hentry, rfl⟩ :=
      List.mem_map.mp (hindices.mem_iff.mpr (List.mem_range.mpr hi))
    obtain ⟨other, hother, _, hsucceed⟩ := h.entries entry hentry
    rw [List.getElem?_eq_getElem hi] at hother
    exact Option.some.inj hother ▸ hsucceed

/-- **The run lemma**: a run that succeeds has one entry for each reference. -/
theorem wpE_writeObjectEntries_listed (sched : List Poll) (objectConcurrency : Nat) :
    wpE host.MayFail (fun _ => True) (writeObjectEntries sched objectRefs objectConcurrency)
      (fun entries _ => entries = objectRefs.map objectBackupEntry ∧
        ∀ object ∈ objectRefs, CanSucceed host object) (fun _ _ => True) w := by
  have hpool : wpE host.MayFail (fun _ => True)
      (tryCollect (max objectConcurrency 1) sched (objectTasks objectRefs))
      (fun collected _ => (collected.mergeSort fun left right => left.1 ≤ right.1).map Prod.snd =
          objectRefs.map objectBackupEntry ∧
        ∀ object ∈ objectRefs, CanSucceed host object) (fun _ _ => True) w := by
    refine wp_objectPool (J := fun pool _ => Listed host objectRefs pool)
      (movesOf_stageMayFail host) (by omega) (fun _ _ _ _ hstep h => h.poolStep hstep)
      (fun _ _ _ => trivial) (fun _ _ _ hall h => h.finished hall)
      (fun _ _ _ _ _ _ _ _ => trivial) sched ?_
    exact ⟨by simp, by simp, List.Perm.refl _⟩
  exact wpE.seq hpool fun collected _ _ hentries => ⟨trivial, hentries⟩

end Pool

/-! ## The backup -/

section Backup

variable {host : Host} {w w' : World}

theorem HoldsObject.of_sameObjects {s s' : Store} {entry : ObjectBackupEntry}
    (h : HoldsObject s entry) (hsame : ∀ key, InObjectStore key → s'.lookup key = s.lookup key) :
    HoldsObject s' entry := by
  refine ⟨h.1, ?_⟩
  rw [HoldsBlob, hsame _ h.1]
  exact h.2

/-- The manifest has an entry for each listed object, in the order of the listing;
    where the object store was honest, the blobs of the entries are in place. -/
structure ListsObjects (host : Host) (w : World) (manifest : BackupSnapshotManifest)
    (w' : World) : Prop where
  listed : ∃ objects, host.objects.listObjectsForFullBackup = .ok objects ∧
    manifest.objects = objects.map objectBackupEntry ∧ ∀ object ∈ objects, CanSucceed host object
  holds : HonestObjects w.store → ∀ entry ∈ manifest.objects, HoldsObject w'.store entry

theorem wpE_createFullBackupInner_listed (sched : List Poll) (request : FullBackupRequest)
    (options : BackupExecutionOptions) :
    wpE host.MayFail (Writing False request.snapshotId w)
      (createFullBackupInner sched request options)
      (fun result w' => ListsObjects host w result.manifest w') (fun _ _ => True) w := by
  apply wpE.seq (wpE_planFullBackup (Writing.refl _ w))
  rintro ⟨schema, tables, objects⟩ w - ⟨⟨_, _, hlist⟩, rfl⟩
  apply wpE.seq (wpE_payloads (fun table : BackupTableExport =>
    databaseTableKey request.snapshotId table.tableName) (·.tableName) (·.rows)
    (Preparing.refl _ w) (fun _ => inSnapshotDir_databaseTableKey _ _)
    fun _ => databaseTableKey_ne_snapshotManifestKey _ _)
  rintro tableEntries w₁ - ⟨hwrites, _⟩
  have hpreparing := (Preparing.refl _ w).payloads hwrites
  apply wpE.seq (((wpE_objects hpreparing sched _).and
    (wpE_writeObjectEntries_listed sched _)).relax (fun _ h => h.1) fun _ _ _ _ => trivial)
  rintro objectEntries w₂ - ⟨-, ⟨hadds, hobjects⟩, hlisted, hsucceed⟩
  refine wpE.seq (wpE_writeManifest rfl (hpreparing.objects hadds) False.elim) ?_
  rintro manifest w₃ hI ⟨hset, _, hother⟩
  obtain ⟨checksum, _, hmanifest⟩ := setManifestChecksum_eq_ok.mp hset
  have hentries : manifest.objects = objectEntries := by
    rw [hmanifest]
    rfl
  refine ⟨hI, ⟨objects, hlist, hentries.trans hlisted, hsucceed⟩, fun hhonest entry hentry => ?_⟩
  have hholds := (hobjects (hwrites.honestObjects hhonest)).2 entry (hentries ▸ hentry)
  refine hholds.of_sameObjects fun key hkey => hother key ?_
  rintro rfl
  exact hkey.not_inSnapshotDir _ (inSnapshotDir_snapshotManifestKey _)

/-- **What a full backup lists.** -/
theorem listsObjects_createFullBackup {sched : List Poll} {request : FullBackupRequest}
    {options : BackupExecutionOptions} {result : FullBackupResult}
    (hret : Returns host.MayFail w (createFullBackupWithOptions sched request options).run
      (.ok result) w') :
    ListsObjects host w result.manifest w' := by
  have hfree : ∀ result : FullBackupResult,
      LockFree fun w₁ => ListsObjects host w result.manifest w₁ :=
    fun result w₁ w₂ hsame h => ⟨h.listed, fun hhonest entry hentry =>
      (h.holds hhonest entry hentry).of_sameObjects fun key hkey => hsame.1 key hkey.ne_lock⟩
  have hwork : ∀ w₁, SameButLock w w₁ → wpE host.MayFail (Writing False request.snapshotId w₁)
      (createFullBackupInner sched request options)
      (fun result w₂ => ListsObjects host w result.manifest w₂) (fun _ _ => True) w₁ :=
    fun w₁ hsame => (wpE_createFullBackupInner_listed sched request options).mono
      (fun _ _ _ h => ⟨h.listed, fun hhonest => h.holds (hhonest.of_sameButLock hsame)⟩)
      fun _ _ _ h => h
  exact (returns_withLock hfree hwork hret).2

end Backup

end GraphqlOrmBackup

import GraphqlOrmBackup.ObjectHonesty

/-!
# The entries of written objects

What `write_object_entries` does when any call may fail: it leaves every blob
alone that was stored before, and the entries it returns are of blobs that are
in place.
-/

namespace GraphqlOrmBackup

open Interaction

variable [Crates]

/-! ## Steps under failing calls -/

/-- A call of a task also fails, before or after it has taken effect. -/
inductive StageMayFail (host : Host) (index : Nat) (object : BackupObjectRef) :
    World → ObjectStage → World → ObjectStage → Prop where
  | step {w w' : World} {stage stage' : ObjectStage}
      (h : StageStep host index object w stage w' stage') :
      StageMayFail host index object w stage w' stage'
  | failed {w : World} {stage : ObjectStage} (e : BackupError) :
      StageMayFail host index object w stage w (.done (.error e))
  | failedAfter {w w' : World} {stage stage' : ObjectStage} (e : BackupError)
      (h : StageStep host index object w stage w' stage') :
      StageMayFail host index object w stage w' (.done (.error e))

/-- An error of a call ends the task. -/
theorem next_error {index : Nat} {object : BackupObjectRef} {stage : ObjectStage} {c : Call}
    {next : c.Response → ObjectProg} (hprog : stage.prog index object = .call c next)
    (e : BackupError) : next (.error e) = .ret (.error e) := by
  cases stage with
  | load => cases hprog; rfl
  | put source => cases hprog; rfl
  | recheck => cases hprog; rfl
  | discard actual => cases hprog; rfl
  | done result => cases hprog

theorem movesOf_stageMayFail (host : Host) : MovesOf host.MayFail (StageMayFail host) := by
  rintro index object stage c next r w w' hprog (h | ⟨e, rfl, rfl | ⟨r', h⟩⟩)
  · obtain ⟨stage', hnext, hstep⟩ := stage_step hprog h
    exact ⟨stage', hnext, .step hstep⟩
  · exact ⟨.done (.error e), next_error hprog e, .failed e⟩
  · obtain ⟨stage', _, hstep⟩ := stage_step hprog h
    exact ⟨.done (.error e), next_error hprog e, .failedAfter e hstep⟩

/-! ## The invariant -/

/-- The task can only fail. -/
def ObjectStage.Fails : ObjectStage → Prop
  | .discard _ => True
  | .done (.error _) => True
  | _ => False

/-- The blob of the entry is in place. -/
def HoldsObject (s : Store) (entry : ObjectBackupEntry) : Prop :=
  InObjectStore entry.contentKey ∧ HoldsBlob s entry.contentKey entry.sha256Hex

/-- What a task on its way to success relies on. -/
def ObjectStage.Holds (s : Store) (object : BackupObjectRef) : ObjectStage → Prop
  | .recheck => objectContentKey object.sha256Hex ∈ s
  | .done (.ok entry) => HoldsObject s entry.2
  | _ => True

/-- Blobs that were stored before stay, and so does all that is no object. -/
structure AddsObjects (w w' : World) : Prop where
  lookup : ∀ key, key ∈ w.store ∨ ¬ InObjectStore key →
    w'.store.lookup key = w.store.lookup key
  puts : w'.puts = w.puts

/-- The invariant of the pool. -/
structure Adding (w : World) (pool : ObjectPool) (w' : World) : Prop where
  adds : AddsObjects w w'
  discard : ∀ task ∈ pool.flight, ∀ actual, task.stage = .discard actual → task.key ∉ w.store
  sound : HonestObjects w.store → (∃ task ∈ pool.flight, task.stage.Fails) ∨
    (HonestObjects w'.store ∧ (∀ task ∈ pool.flight, task.stage.Holds w'.store task.object) ∧
      ∀ entry ∈ pool.collected, HoldsObject w'.store entry.2)

section Steps

variable {host : Host} {index : Nat} {object : BackupObjectRef} {w w₁ w' : World}
  {stage stage' : ObjectStage}

omit [Crates] in
theorem AddsObjects.refl (w : World) : AddsObjects w w := ⟨fun _ _ => rfl, rfl⟩

omit [Crates] in
theorem AddsObjects.mem (h : AddsObjects w w') {key : String} (hkey : key ∈ w.store) :
    key ∈ w'.store :=
  (Store.mem_congr (h.lookup key (Or.inl hkey))).mpr hkey

/-- A step adds a blob under a free key, or takes out one that was not there. -/
theorem StageStep.addsObjects (hmove : StageStep host index object w₁ stage w' stage')
    (h : AddsObjects w w₁)
    (hdiscard : ∀ actual, stage = .discard actual → objectContentKey object.sha256Hex ∉ w.store) :
    AddsObjects w w' ∧
      ∀ actual, stage' = .discard actual → objectContentKey object.sha256Hex ∉ w.store := by
  have hkey := inObjectStore_objectContentKey object.sha256Hex
  have hother : ∀ {key}, objectContentKey object.sha256Hex ∉ w.store →
      key ∈ w.store ∨ ¬ InObjectStore key → key ≠ objectContentKey object.sha256Hex := by
    rintro key hnot (hmem | hout) rfl
    · exact hnot hmem
    · exact hout hkey
  cases hmove with
  | written hfree =>
    have hnot : objectContentKey object.sha256Hex ∉ w.store := fun hmem =>
      AList.lookup_eq_none.mp hfree (h.mem hmem)
    refine ⟨⟨fun key hcase => ?_, h.puts⟩, fun _ _ => hnot⟩
    rw [World.withStore_store, Store.lookup_putBlob_of_ne _ _ (hother hnot hcase)]
    exact h.lookup key hcase
  | discarded =>
    refine ⟨⟨fun key hcase => ?_, h.puts⟩, fun _ heq => by cases heq⟩
    rw [World.withStore_store,
      Store.lookup_deleteBlob_of_ne _ (hother (hdiscard _ rfl) hcase)]
    exact h.lookup key hcase
  | @rechecked source _ =>
    refine ⟨h, fun actual heq => ?_⟩
    cases source with
    | error e => cases heq
    | ok bytes =>
      simp only [stageAfterRecheck] at heq
      split at heq <;> cases heq
  | loaded => exact ⟨h, fun _ heq => by cases heq⟩
  | notLoaded => exact ⟨h, fun _ heq => by cases heq⟩
  | broken => exact ⟨h, fun _ heq => by cases heq⟩
  | «exists» => exact ⟨h, fun _ heq => by cases heq⟩
  | notRechecked => exact ⟨h, fun _ heq => by cases heq⟩

theorem StageStep.fails (hmove : StageStep host index object w₁ stage w' stage')
    (h : stage.Fails) : stage'.Fails := by
  cases hmove with
  | discarded => trivial
  | _ => exact h.elim

/-- Bytes under the declared checksum make an entry that holds. -/
theorem holdsObject_objectBackupEntry {s : Store} {bytes body : Bytes}
    (hhonest : HonestAt s (objectContentKey object.sha256Hex))
    (hlookup : s.lookup (objectContentKey object.sha256Hex) = some body)
    (hsha : sha256Hex bytes = object.sha256Hex) : HoldsObject s (objectBackupEntry object) :=
  ⟨inObjectStore_objectContentKey _, body, hlookup,
    (hhonest body hlookup).trans (lastSegment_of_met hsha)⟩

/-- A step that does not fail keeps the objects honest and what other tasks
    hold in place. -/
theorem StageStep.sound (hmove : StageStep host index object w₁ stage w' stage')
    (hnot : ¬ stage.Fails) (hnot' : ¬ stage'.Fails) (hhonest : HonestObjects w₁.store)
    (hholds : stage.Holds w₁.store object) :
    HonestObjects w'.store ∧ stage'.Holds w'.store object ∧
      ∀ key body, w₁.store.lookup key = some body → w'.store.lookup key = some body := by
  cases hmove with
  | @written bytes hfree =>
    have hsha : sha256Hex bytes = object.sha256Hex := by
      by_contra hne
      rw [stageAfterPut, if_neg hne] at hnot'
      exact hnot' trivial
    have hhonest' : HonestObjects
        (w₁.withStore (w₁.store.putBlob (objectContentKey object.sha256Hex) bytes)).store :=
      fun key hkey => honestAt_putBlob (fun _ => hhonest key hkey)
        fun _ => hsha.trans (lastSegment_of_met hsha).symm
    refine ⟨hhonest', ?_, fun key body hbody => ?_⟩
    · rw [stageAfterPut, if_pos hsha]
      exact holdsObject_objectBackupEntry (hhonest' _ (inObjectStore_objectContentKey _))
        (Store.lookup_putBlob_self _ _ _) hsha
    · refine (Store.lookup_putBlob_of_ne _ _ ?_).trans hbody
      rintro rfl
      rw [hfree] at hbody
      cases hbody
  | @rechecked source hload =>
    refine ⟨hhonest, ?_, fun _ _ hbody => hbody⟩
    cases source with
    | error e => exact absurd trivial hnot'
    | ok bytes =>
      simp only [stageAfterRecheck] at hnot' ⊢
      split
      · obtain ⟨body, hbody⟩ := Store.exists_lookup hholds
        exact holdsObject_objectBackupEntry (hhonest _ (inObjectStore_objectContentKey _)) hbody ‹_›
      · rw [if_neg ‹_›] at hnot'
        exact absurd trivial hnot'
  | loaded => exact ⟨hhonest, trivial, fun _ _ hbody => hbody⟩
  | notLoaded => exact absurd trivial hnot'
  | broken => exact absurd trivial hnot'
  | «exists» hmem => exact ⟨hhonest, hmem, fun _ _ hbody => hbody⟩
  | notRechecked => exact absurd trivial hnot'
  | discarded => exact absurd trivial hnot

end Steps

section Runs

variable {host : Host} {objectRefs : List BackupObjectRef} {n admitted i : Nat} {w w₁ w' : World}
  {flight : List ObjectFlight} {collected : List (Nat × ObjectBackupEntry)}
  {pool pool' : ObjectPool} {task : ObjectFlight} {stage' : ObjectStage}

theorem HoldsObject.mono {s s' : Store} {entry : ObjectBackupEntry} (h : HoldsObject s entry)
    (hkeep : ∀ key body, s.lookup key = some body → s'.lookup key = some body) :
    HoldsObject s' entry := by
  rcases h with ⟨hkey, body, hbody, hsha⟩
  exact ⟨hkey, body, hkeep _ _ hbody, hsha⟩

theorem ObjectStage.Holds.mono {s s' : Store} {object : BackupObjectRef} {stage : ObjectStage}
    (h : stage.Holds s object)
    (hkeep : ∀ key body, s.lookup key = some body → s'.lookup key = some body) :
    stage.Holds s' object := by
  cases stage with
  | recheck =>
    obtain ⟨body, hbody⟩ := Store.exists_lookup h
    exact Store.mem_of_lookup (hkeep _ _ hbody)
  | done result =>
    cases result with
    | ok entry => exact HoldsObject.mono h hkeep
    | error e => trivial
  | load => trivial
  | put source => trivial
  | discard actual => trivial

omit [Crates] in
/-- Of the tasks in flight only one changes. -/
theorem mem_set_of_mem {t : ObjectFlight} (ht : t ∈ flight) (htask : flight[i]? = some task)
    (task' : ObjectFlight) : t = task ∨ t ∈ flight.set i task' := by
  rcases List.mem_iff_getElem?.mp ht with ⟨k, hk⟩
  by_cases hi : i = k
  · subst hi
    exact Or.inl (Option.some.inj (hk.symm.trans htask))
  · refine Or.inr (List.mem_of_getElem? (i := k) ?_)
    rw [getElem?_set_of_task htask, if_neg hi]
    exact hk

omit [Crates] in
/-- A task that can only fail keeps the pool from succeeding. -/
theorem fails_set (htask : flight[i]? = some task) (h : task.stage.Fails → stage'.Fails)
    (hex : ∃ t ∈ flight, t.stage.Fails) :
    ∃ t ∈ flight.set i { task with stage := stage' }, t.stage.Fails := by
  rcases hex with ⟨t, ht, hfails⟩
  have hlt : i < flight.length := (List.getElem?_eq_some_iff.mp htask).1
  rcases mem_set_of_mem ht htask { task with stage := stage' } with rfl | hmem
  · exact ⟨_, List.mem_set hlt _, h hfails⟩
  · exact ⟨t, hmem, hfails⟩

theorem Adding.step (h : Adding w ⟨admitted, flight, collected⟩ w₁)
    (htask : flight[i]? = some task)
    (hmove : StageStep host task.index task.object w₁ task.stage w' stage') :
    Adding w ⟨admitted, flight.set i { task with stage := stage' }, collected⟩ w' := by
  have hmem := List.mem_of_getElem? htask
  have hlt : i < flight.length := (List.getElem?_eq_some_iff.mp htask).1
  obtain ⟨hadds, hdiscard⟩ := hmove.addsObjects h.adds (h.discard task hmem)
  refine ⟨hadds, ?_, ?_⟩
  · intro t ht
    rcases List.mem_or_eq_of_mem_set ht with ht | rfl
    · exact h.discard t ht
    · exact hdiscard
  · intro hstart
    by_cases hfails : stage'.Fails
    · exact Or.inl ⟨_, List.mem_set hlt _, hfails⟩
    · rcases h.sound hstart with hex | ⟨hhonest, hholds, hentries⟩
      · exact Or.inl (fails_set htask hmove.fails hex)
      · by_cases hold : task.stage.Fails
        · exact absurd (hmove.fails hold) hfails
        · obtain ⟨hhonest', hholds', hkeep⟩ := hmove.sound hold hfails hhonest (hholds task hmem)
          refine Or.inr ⟨hhonest', ?_, fun entry hentry => (hentries entry hentry).mono hkeep⟩
          intro t ht
          rcases List.mem_or_eq_of_mem_set ht with ht | rfl
          · exact (hholds t ht).mono hkeep
          · exact hholds'

/-- Whatever a failed call has done, the task can only fail. -/
theorem Adding.fail (h : Adding w ⟨admitted, flight, collected⟩ w₁)
    (htask : flight[i]? = some task) (e : BackupError) (hadds : AddsObjects w w') :
    Adding w ⟨admitted, flight.set i { task with stage := .done (.error e) }, collected⟩ w' := by
  have hlt : i < flight.length := (List.getElem?_eq_some_iff.mp htask).1
  refine ⟨hadds, ?_, fun _ => Or.inl ⟨_, List.mem_set hlt _, trivial⟩⟩
  intro t ht actual hactual
  rcases List.mem_or_eq_of_mem_set ht with ht | rfl
  · exact h.discard t ht actual hactual
  · cases hactual

theorem Adding.poolStep
    (hstep : ObjectPoolStep (StageMayFail host) objectRefs n (w₁, pool) (w', pool'))
    (h : Adding w pool w₁) : Adding w pool' w' := by
  cases hstep with
  | enter hobject hroom =>
    refine ⟨h.adds, ?_, ?_⟩
    · intro t ht actual hactual
      rcases List.mem_append.mp ht with ht | ht
      · exact h.discard t ht actual hactual
      · rw [List.mem_singleton.mp ht] at hactual
        cases hactual
    · intro hstart
      rcases h.sound hstart with ⟨t, ht, hfails⟩ | ⟨hhonest, hholds, hentries⟩
      · exact Or.inl ⟨t, List.mem_append_left _ ht, hfails⟩
      · refine Or.inr ⟨hhonest, fun t ht => ?_, hentries⟩
        rcases List.mem_append.mp ht with ht | ht
        · exact hholds t ht
        · rw [List.mem_singleton.mp ht]
          trivial
  | move htask hmove =>
    cases hmove with
    | step hstage => exact h.step htask hstage
    | failed e => exact h.fail htask e h.adds
    | failedAfter e hstage =>
      exact h.fail htask e (hstage.addsObjects h.adds
        (h.discard _ (List.mem_of_getElem? htask))).1
  | @collect _ admitted i index flight collected object entry htask =>
    have hsub : List.Sublist (flight.eraseIdx i) flight := List.eraseIdx_sublist _ _
    refine ⟨h.adds, fun t ht => h.discard t (hsub.subset ht), fun hstart => ?_⟩
    rcases h.sound hstart with ⟨t, ht, hfails⟩ | ⟨hhonest, hholds, hentries⟩
    · refine Or.inl ⟨t, ?_, hfails⟩
      rcases List.mem_iff_getElem?.mp ht with ⟨k, hk⟩
      refine List.mem_eraseIdx_iff_getElem?.mpr ⟨k, ?_, hk⟩
      rintro rfl
      rw [htask] at hk
      rw [← Option.some.inj hk] at hfails
      exact hfails
    · refine Or.inr ⟨hhonest, fun t ht => hholds t (hsub.subset ht), ?_⟩
      intro entry' hentry'
      rcases List.mem_append.mp hentry' with hentry' | hentry'
      · exact hentries entry' hentry'
      · rw [List.mem_singleton.mp hentry']
        exact hholds _ (List.mem_of_getElem? htask)

/-- **The entries of `write_object_entries` are in place** if the object store
    was honest, which it then still is, and no blob that was stored before has
    changed, wherever it stops. -/
theorem wpE_writeObjectEntries_mayFail (sched : List Poll) (objectConcurrency : Nat) :
    wpE host.MayFail (AddsObjects w) (writeObjectEntries sched objectRefs objectConcurrency)
      (fun entries w' => HonestObjects w.store →
        HonestObjects w'.store ∧ ∀ entry ∈ entries, HoldsObject w'.store entry)
      (fun _ _ => True) w := by
  have hpool : wpE host.MayFail (AddsObjects w)
      (tryCollect (max objectConcurrency 1) sched (objectTasks objectRefs))
      (fun entries w' => HonestObjects w.store →
        HonestObjects w'.store ∧ ∀ entry ∈ entries, HoldsObject w'.store entry.2)
      (fun _ _ => True) w := by
    refine wp_objectPool (J := Adding w) (movesOf_stageMayFail host) (by omega)
      (fun _ _ _ _ hstep h => h.poolStep hstep) (fun _ _ h => h.adds) ?_
      (fun _ _ _ _ _ _ _ _ => trivial) sched ?_
    · intro admitted collected w' _ h hstart
      rcases h.sound hstart with ⟨t, ht, _⟩ | ⟨hhonest, _, hentries⟩
      · exact absurd ht List.not_mem_nil
      · exact ⟨hhonest, hentries⟩
    · exact ⟨AddsObjects.refl w, fun _ ht => absurd ht List.not_mem_nil,
        fun hhonest => Or.inr ⟨hhonest, fun _ ht => absurd ht List.not_mem_nil,
          fun _ hentry => absurd hentry List.not_mem_nil⟩⟩
  refine wpE.seq hpool fun entries w' hadds hentries => ⟨hadds, fun hhonest => ?_⟩
  obtain ⟨hhonest', hholds⟩ := hentries hhonest
  refine ⟨hhonest', fun entry hentry => ?_⟩
  rcases List.mem_map.mp hentry with ⟨pair, hpair, rfl⟩
  exact hholds pair (List.mem_mergeSort.mp hpair)

end Runs

end GraphqlOrmBackup

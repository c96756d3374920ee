import GraphqlOrmBackup.ObjectWrites

/-!
# When the object store stays honest

A task writes first, compares afterwards and deletes what does not match.  A
task that is dropped between its write and its deletion strands a blob that
does not hash to its key.  `CanStrand` is the condition under which some
schedule does that.  Where it does not hold, the pool is *calm* until a task
writes a blob that is out of place, and from then on *doomed*: no task but that
one can fail, so that it comes to its deletion.
-/

namespace GraphqlOrmBackup

open Interaction

variable [Crates]

section Condition

variable (host : Host)

/-- The index can answer with bytes that hash to the reference's checksum. -/
def CanSucceed (object : BackupObjectRef) : Prop :=
  ∃ bytes, host.objects.loadObjectStream object (.ok (.ok bytes)) ∧
    sha256Hex bytes = object.sha256Hex

/-- The index can answer with an error, or with bytes of another checksum. -/
def CanFail (object : BackupObjectRef) : Prop :=
  ∃ source, host.objects.loadObjectStream object source ∧
    ∀ bytes, source = .ok (.ok bytes) → sha256Hex bytes ≠ object.sha256Hex

/-- The index can answer with bytes that are out of place under the object's key. -/
def CanMisplace (object : BackupObjectRef) : Prop :=
  ∃ bytes, host.objects.loadObjectStream object (.ok (.ok bytes)) ∧
    sha256Hex bytes ≠ lastSegment (objectContentKey object.sha256Hex)

/-- A reference that `object` has to share the pool with, or its blob would be
    in place already: it cannot succeed, or it stores the key itself. -/
def Rival (object other : BackupObjectRef) : Prop :=
  CanSucceed host other → objectContentKey other.sha256Hex = objectContentKey object.sha256Hex

open Classical in
/-- The task at `i` can be at its deletion, in a pool of `n`, while the one at
    `j` has not come to its end. -/
def Exposed (n : Nat) (objectRefs : List BackupObjectRef) (s : Store) (i j : Nat)
    (object : BackupObjectRef) : Prop :=
  objectRefs[i]? = some object ∧ CanMisplace host object ∧
    objectContentKey object.sha256Hex ∉ s ∧
    (objectRefs.take i).zipIdx.countP
      (fun (other, l) => decide (Rival host object other ∨ l = j)) < n

/-- Some schedule drops a task between its write and its deletion. -/
def CanStrand (n : Nat) (objectRefs : List BackupObjectRef) (s : Store) : Prop :=
  2 ≤ n ∧ ∃ i j object other, Exposed host n objectRefs s i j object ∧ j ≠ i ∧
    objectRefs[j]? = some other ∧ CanFail host other

variable {host}

/-- A checksum that is met has no slash, so it is the last segment of its key. -/
theorem lastSegment_of_met {object : BackupObjectRef} {bytes : Bytes}
    (hsha : sha256Hex bytes = object.sha256Hex) :
    lastSegment (objectContentKey object.sha256Hex) = object.sha256Hex := by
  apply lastSegment_objectContentKey
  rw [← hsha]
  exact slash_notMem_sha256Hex bytes

theorem mismatch_of_misplaced {object : BackupObjectRef} {bytes : Bytes}
    (hmis : sha256Hex bytes ≠ lastSegment (objectContentKey object.sha256Hex)) :
    sha256Hex bytes ≠ object.sha256Hex :=
  fun hsha => hmis (hsha.trans (lastSegment_of_met hsha).symm)

theorem canFail_of_mismatch {object : BackupObjectRef} {bytes : Bytes}
    (hload : host.objects.loadObjectStream object (.ok (.ok bytes)))
    (hsha : sha256Hex bytes ≠ object.sha256Hex) : CanFail host object :=
  ⟨_, hload, fun bytes' hbytes => by cases hbytes; exact hsha⟩

theorem canFail_of_notLoaded {object : BackupObjectRef} {e : BackupError}
    (hload : host.objects.loadObjectStream object (.error e)) : CanFail host object :=
  ⟨_, hload, fun bytes hbytes => by cases hbytes⟩

theorem canFail_of_broken {object : BackupObjectRef} {e : BackupError}
    (hload : host.objects.loadObjectStream object (.ok (.error e))) : CanFail host object :=
  ⟨_, hload, fun bytes hbytes => by cases hbytes⟩

end Condition

/-! ## Lists of tasks -/

section Flight

omit [Crates]

variable {flight : List ObjectFlight} {task : ObjectFlight} {stage' : ObjectStage} {i : Nat}

/-- Marked positions that all occur in `js` are at most as many as `js`. -/
theorem countP_zipIdx_take_le {α : Type} {p : α × Nat → Bool} {l : List α} {i : Nat}
    {js : List Nat}
    (h : ∀ (j : Nat) (a : α), j < i → l[j]? = some a → p (a, j) = true → j ∈ js) :
    (l.take i).zipIdx.countP p ≤ js.length := by
  rw [List.countP_eq_length_filter, ← List.length_map (f := Prod.snd)]
  refine (List.subperm_of_subset ?_ ?_).length_le
  · apply List.Nodup.sublist (List.filter_sublist.map _)
    rw [List.zipIdx_map_snd]
    exact List.nodup_range'
  · intro j hj
    rcases List.mem_map.mp hj with ⟨⟨a, j⟩, hmem, rfl⟩
    rcases List.mem_filter.mp hmem with ⟨hmem, hp⟩
    rw [List.mem_zipIdx_iff_getElem?, List.getElem?_take] at hmem
    split at hmem
    · exact h j a ‹_› hmem hp
    · cases hmem

theorem getElem?_set_of_task (htask : flight[i]? = some task) (k : Nat) (t : ObjectFlight) :
    (flight.set i t)[k]? = if i = k then some t else flight[k]? := by
  have hlt : i < flight.length := (List.getElem?_eq_some_iff.mp htask).1
  rw [List.getElem?_set]
  simp only [hlt, if_true]

theorem map_index_set (htask : flight[i]? = some task) :
    (flight.set i { task with stage := stage' }).map (·.index) = flight.map (·.index) := by
  refine List.ext_getElem? fun k => ?_
  rw [List.getElem?_map, List.getElem?_map, getElem?_set_of_task htask]
  split
  · next h => rw [← h, htask]; rfl
  · rfl

theorem index_ne_of_ne (hnodup : (flight.map (·.index)).Nodup) (htask : flight[i]? = some task)
    {k : Nat} {t : ObjectFlight} (ht : flight[k]? = some t) (hne : k ≠ i) :
    t.index ≠ task.index := by
  intro heq
  refine hne ((List.getElem?_inj ?_ hnodup).mp ?_)
  · rw [List.length_map]
    exact (List.getElem?_eq_some_iff.mp ht).1
  · rw [List.getElem?_map, List.getElem?_map, ht, htask, Option.map_some, Option.map_some, heq]

/-- A task in flight is the one that moved, or another one. -/
theorem mem_set_iff (hnodup : (flight.map (·.index)).Nodup) (htask : flight[i]? = some task)
    {t : ObjectFlight} : t ∈ flight.set i { task with stage := stage' } ↔
      t = { task with stage := stage' } ∨ (t ∈ flight ∧ t.index ≠ task.index) := by
  rw [List.mem_iff_getElem?]
  constructor
  · intro h
    rcases h with ⟨k, hk⟩
    rw [getElem?_set_of_task htask] at hk
    split at hk
    · exact Or.inl (Option.some.inj hk).symm
    · exact Or.inr ⟨List.mem_of_getElem? hk, index_ne_of_ne hnodup htask hk (Ne.symm ‹_›)⟩
  · intro h
    rcases h with rfl | ⟨hmem, hne⟩
    · exact ⟨i, by rw [getElem?_set_of_task htask, if_pos rfl]⟩
    · rcases List.mem_iff_getElem?.mp hmem with ⟨k, hk⟩
      refine ⟨k, ?_⟩
      rw [getElem?_set_of_task htask, if_neg, hk]
      rintro rfl
      rw [htask] at hk
      exact hne (congrArg ObjectFlight.index (Option.some.inj hk).symm)

theorem mem_eraseIdx_iff (hnodup : (flight.map (·.index)).Nodup) (htask : flight[i]? = some task)
    {t : ObjectFlight} : t ∈ flight.eraseIdx i ↔ t ∈ flight ∧ t.index ≠ task.index := by
  rw [List.mem_eraseIdx_iff_getElem?]
  constructor
  · intro h
    rcases h with ⟨k, hne, hk⟩
    exact ⟨List.mem_of_getElem? hk, index_ne_of_ne hnodup htask hk hne⟩
  · intro h
    rcases h with ⟨hmem, hne⟩
    rcases List.mem_iff_getElem?.mp hmem with ⟨k, hk⟩
    refine ⟨k, ?_, hk⟩
    rintro rfl
    rw [htask] at hk
    exact hne (congrArg ObjectFlight.index (Option.some.inj hk).symm)

end Flight

/-! ## The invariant of the pool -/

/-- The task has found its key in place, or has put it there for good. -/
def ObjectStage.HoldsKey : ObjectStage → Prop
  | .recheck => True
  | .done (.ok _) => True
  | _ => False

section Invariant

variable (host : Host) (n : Nat) (objectRefs : List BackupObjectRef) (s₀ : Store)

/-- What is known of a task by its stage. -/
def StageFact (object : BackupObjectRef) : ObjectStage → Prop
  | .put source => host.objects.loadObjectStream object (.ok source)
  | .discard _ => CanFail host object
  | .done (.ok _) => CanSucceed host object
  | .done (.error _) => CanFail host object
  | _ => True

/-- The bookkeeping of the pool. -/
structure Tracked (pool : ObjectPool) : Prop where
  mem : ∀ task ∈ pool.flight, objectRefs[task.index]? = some task.object ∧
    task.index < pool.admitted
  nodup : (pool.flight.map (·.index)).Nodup
  room : pool.flight.length ≤ n
  stage : ∀ task ∈ pool.flight, StageFact host task.object task.stage

/-- Every blob is in place: what was stored is stored, and a reference that was
    left behind or holds its key has it in the store. -/
structure Calm (pool : ObjectPool) (w : World) : Prop where
  honest : HonestObjects w.store
  kept : ∀ key ∈ s₀, key ∈ w.store
  discard : ∀ task ∈ pool.flight, ∀ actual, task.stage = .discard actual → task.key ∉ s₀ ∧
    lastSegment task.key ≠ task.object.sha256Hex
  left : ∀ l object, l < pool.admitted → objectRefs[l]? = some object →
    l ∉ pool.flight.map (·.index) → CanSucceed host object
  present : ∀ l object, l < pool.admitted → objectRefs[l]? = some object →
    CanSucceed host object → (∀ task ∈ pool.flight, task.index = l → task.stage.HoldsKey) →
    objectContentKey object.sha256Hex ∈ w.store

/-- The task has put a blob out of place, and no other task can fail. -/
structure Doomed (task : ObjectFlight) (pool : ObjectPool) (w : World) : Prop where
  mem : task ∈ pool.flight
  stage : (∃ actual, task.stage = .discard actual) ∨ ∃ e, task.stage = .done (.error e)
  others : ∀ t ∈ pool.flight, t.index ≠ task.index → ¬ CanFail host t.object
  later : 2 ≤ n → ∀ j other, pool.admitted ≤ j → objectRefs[j]? = some other →
    ¬ CanFail host other
  honest : ∀ key, InObjectStore key →
    (key = task.key → ∃ e, task.stage = .done (.error e)) → HonestAt w.store key

/-- The invariant. -/
def Guarded (pool : ObjectPool) (w : World) : Prop :=
  Tracked host n objectRefs pool ∧
    (Calm host objectRefs s₀ pool w ∨ ∃ task, Doomed host n objectRefs task pool w)

variable {host n objectRefs s₀} {w w' : World} {pool pool' : ObjectPool} {admitted i : Nat}
  {flight : List ObjectFlight} {collected : List (Nat × ObjectBackupEntry)} {task : ObjectFlight}
  {object : BackupObjectRef} {stage' : ObjectStage}

theorem stageFact_stageAfterPut {index : Nat} {bytes : Bytes}
    (hload : host.objects.loadObjectStream object (.ok (.ok bytes))) :
    StageFact host object (stageAfterPut index object bytes) := by
  unfold stageAfterPut
  split
  · exact ⟨bytes, hload, ‹_›⟩
  · exact canFail_of_mismatch hload ‹_›

theorem stageFact_stageAfterRecheck {index : Nat} {source : StorageByteStream}
    (hload : host.objects.loadObjectStream object (.ok source)) :
    StageFact host object (stageAfterRecheck index object source) := by
  cases source with
  | error e => exact canFail_of_broken hload
  | ok bytes =>
    simp only [stageAfterRecheck]
    split
    · exact ⟨bytes, hload, ‹_›⟩
    · exact canFail_of_mismatch hload ‹_›

theorem StageStep.stageFact {index : Nat} {stage : ObjectStage}
    (hmove : StageStep host index object w stage w' stage') (h : StageFact host object stage) :
    StageFact host object stage' := by
  cases hmove with
  | loaded hload => exact hload
  | notLoaded hload => exact canFail_of_notLoaded hload
  | written => exact stageFact_stageAfterPut h
  | broken => exact canFail_of_broken h
  | «exists» => trivial
  | rechecked hload => exact stageFact_stageAfterRecheck hload
  | notRechecked hload => exact canFail_of_notLoaded hload
  | discarded => exact h

/-! ### Bookkeeping -/

theorem Tracked.step
    (hstep : ObjectPoolStep (StageStep host) objectRefs n (w, pool) (w', pool'))
    (h : Tracked host n objectRefs pool) : Tracked host n objectRefs pool' := by
  cases hstep with
  | @enter _ admitted flight collected object hobject hroom =>
    refine ⟨?_, ?_, ?_, ?_⟩
    · intro t ht
      rcases List.mem_append.mp ht with ht | ht
      · exact ⟨(h.mem t ht).1, Nat.lt_succ_of_lt (h.mem t ht).2⟩
      · rw [List.mem_singleton.mp ht]
        exact ⟨hobject, Nat.lt_succ_self _⟩
    · rw [List.map_append, List.map_singleton]
      apply h.nodup.append (List.nodup_singleton _)
      intro l hl hl'
      rcases List.mem_map.mp hl with ⟨t, ht, rfl⟩
      exact Nat.ne_of_lt (h.mem t ht).2 (List.mem_singleton.mp hl')
    · rw [List.length_append]
      exact hroom
    · intro t ht
      rcases List.mem_append.mp ht with ht | ht
      · exact h.stage t ht
      · rw [List.mem_singleton.mp ht]
        trivial
  | @move _ _ admitted i flight collected task stage' htask hmove =>
    have hmem := List.mem_of_getElem? htask
    refine ⟨?_, ?_, ?_, ?_⟩
    · intro t ht
      rcases (mem_set_iff h.nodup htask).mp ht with rfl | ⟨ht, _⟩
      · exact h.mem task hmem
      · exact h.mem t ht
    · rw [map_index_set htask]
      exact h.nodup
    · rw [List.length_set]
      exact h.room
    · intro t ht
      rcases (mem_set_iff h.nodup htask).mp ht with rfl | ⟨ht, _⟩
      · exact hmove.stageFact (h.stage task hmem)
      · exact h.stage t ht
  | @collect _ admitted i index flight collected object entry htask =>
    have hsub : List.Sublist (flight.eraseIdx i) flight := List.eraseIdx_sublist _ _
    exact ⟨fun t ht => h.mem t (hsub.subset ht), h.nodup.sublist (hsub.map _),
      hsub.length_le.trans h.room, fun t ht => h.stage t (hsub.subset ht)⟩

/-- The tasks in flight are known by their indices. -/
theorem Tracked.eq_of_index {t : ObjectFlight} (h : Tracked host n objectRefs pool)
    (ht : t ∈ pool.flight) (htask : task ∈ pool.flight) (hindex : t.index = task.index) : t = task :=
  (List.inj_on_of_nodup_map h.nodup) ht htask hindex

theorem Tracked.two_le {t : ObjectFlight} (h : Tracked host n objectRefs pool)
    (ht : t ∈ pool.flight) (htask : task ∈ pool.flight) (hne : t.index ≠ task.index) : 2 ≤ n := by
  have hsub : [t.index, task.index] ⊆ pool.flight.map (·.index) := by
    intro l hl
    rcases List.mem_pair.mp hl with rfl | rfl
    · exact List.mem_map_of_mem ht
    · exact List.mem_map_of_mem htask
  have hlen := (List.subperm_of_subset (by simpa using hne) hsub).length_le
  rw [List.length_map] at hlen
  exact hlen.trans h.room

/-! ### A calm pool -/

theorem Calm.enter (h : Calm host objectRefs s₀ ⟨admitted, flight, collected⟩ w) :
    Calm host objectRefs s₀
      ⟨admitted + 1, flight ++ [⟨admitted, object, .load⟩], collected⟩ w := by
  refine ⟨h.honest, h.kept, ?_, ?_, ?_⟩
  · intro t ht actual hactual
    rcases List.mem_append.mp ht with ht | ht
    · exact h.discard t ht actual hactual
    · rw [List.mem_singleton.mp ht] at hactual
      cases hactual
  · intro l other hl hother hgone
    rw [List.map_append, List.mem_append, not_or] at hgone
    have hne : l ≠ admitted := fun heq => hgone.2 (List.mem_singleton.mpr heq)
    exact h.left l other (Nat.lt_of_le_of_ne (Nat.le_of_lt_succ hl) hne) hother hgone.1
  · intro l other hl hother hsucc hholds
    have hne : l ≠ admitted := by
      rintro rfl
      exact hholds _ (List.mem_append_right _ (List.mem_singleton.mpr rfl)) rfl
    apply h.present l other (Nat.lt_of_le_of_ne (Nat.le_of_lt_succ hl) hne) hother hsucc
    exact fun t ht => hholds t (List.mem_append_left _ ht)

theorem Calm.collect {entry : Nat × ObjectBackupEntry}
    (htracked : Tracked host n objectRefs ⟨admitted, flight, collected⟩)
    (h : Calm host objectRefs s₀ ⟨admitted, flight, collected⟩ w)
    (htask : flight[i]? = some task) (hdone : task.stage = .done (.ok entry)) :
    Calm host objectRefs s₀ ⟨admitted, flight.eraseIdx i, collected ++ [entry]⟩ w := by
  have hmem := List.mem_of_getElem? htask
  have herase : ∀ t, t ∈ flight.eraseIdx i ↔ t ∈ flight ∧ t.index ≠ task.index :=
    fun t => mem_eraseIdx_iff htracked.nodup htask
  have hfact := htracked.stage task hmem
  rw [hdone] at hfact
  refine ⟨h.honest, h.kept, fun t ht => h.discard t ((herase t).mp ht).1, ?_, ?_⟩
  · intro l other hl hother hgone
    by_cases hidx : l = task.index
    · obtain rfl : task.object = other :=
        Option.some.inj ((htracked.mem task hmem).1.symm.trans (hidx ▸ hother))
      exact hfact
    · refine h.left l other hl hother fun hin => hgone ?_
      rcases List.mem_map.mp hin with ⟨t, ht, rfl⟩
      exact List.mem_map_of_mem ((herase t).mpr ⟨ht, hidx⟩)
  · intro l other hl hother hsucc hholds
    refine h.present l other hl hother hsucc fun t ht htl => ?_
    by_cases hidx : t.index = task.index
    · obtain rfl : t = task := htracked.eq_of_index ht hmem hidx
      rw [hdone]
      trivial
    · exact hholds t ((herase t).mpr ⟨ht, hidx⟩) htl

/-- The conditions under which a move of one task leaves the pool calm. -/
theorem Calm.set (htracked : Tracked host n objectRefs ⟨admitted, flight, collected⟩)
    (h : Calm host objectRefs s₀ ⟨admitted, flight, collected⟩ w)
    (htask : flight[i]? = some task) (hhonest : HonestObjects w'.store)
    (hkept : ∀ key ∈ s₀, key ∈ w'.store)
    (hdiscard : ∀ actual, stage' = .discard actual → task.key ∉ s₀ ∧
      lastSegment task.key ≠ task.object.sha256Hex)
    (hpresent : ∀ object, CanSucceed host object →
      objectContentKey object.sha256Hex ∈ w.store → objectContentKey object.sha256Hex ∈ w'.store)
    (hput : stage'.HoldsKey → ¬ task.stage.HoldsKey → task.key ∈ w'.store) :
    Calm host objectRefs s₀
      ⟨admitted, flight.set i { task with stage := stage' }, collected⟩ w' := by
  have hmem := List.mem_of_getElem? htask
  have hset : ∀ t, t ∈ flight.set i { task with stage := stage' } ↔
      t = { task with stage := stage' } ∨ (t ∈ flight ∧ t.index ≠ task.index) :=
    fun t => mem_set_iff htracked.nodup htask
  refine ⟨hhonest, hkept, ?_, ?_, ?_⟩
  · intro t ht
    rcases (hset t).mp ht with rfl | ⟨ht, _⟩
    · exact hdiscard
    · exact h.discard t ht
  · rw [map_index_set htask]
    exact h.left
  · intro l object hl hobject hsucc hholds
    by_cases hidx : l = task.index
    · obtain rfl : task.object = object :=
        Option.some.inj ((htracked.mem task hmem).1.symm.trans (hidx ▸ hobject))
      by_cases hold : task.stage.HoldsKey
      · refine hpresent _ hsucc (h.present l _ hl hobject hsucc fun t ht htl => ?_)
        obtain rfl : t = task := htracked.eq_of_index ht hmem (htl.trans hidx)
        exact hold
      · exact hput (hholds _ ((hset _).mpr (Or.inl rfl)) hidx.symm) hold
    · refine hpresent _ hsucc (h.present l _ hl hobject hsucc fun t ht htl => ?_)
      exact hholds t ((hset t).mpr (Or.inr ⟨ht, fun hi => hidx (htl.symm.trans hi)⟩)) htl

/-- A move that leaves the store alone. -/
theorem Calm.quiet (htracked : Tracked host n objectRefs ⟨admitted, flight, collected⟩)
    (h : Calm host objectRefs s₀ ⟨admitted, flight, collected⟩ w)
    (htask : flight[i]? = some task) (hdiscard : ∀ actual, stage' ≠ .discard actual)
    (hput : stage'.HoldsKey → ¬ task.stage.HoldsKey → task.key ∈ w.store) :
    Calm host objectRefs s₀
      ⟨admitted, flight.set i { task with stage := stage' }, collected⟩ w :=
  h.set htracked htask h.honest h.kept (fun actual heq => absurd heq (hdiscard actual))
    (fun _ _ hkey => hkey) hput

theorem honestAt_putBlob {s : Store} {key key' : String} {bytes : Bytes}
    (h : key' ≠ key → HonestAt s key')
    (hsha : key' = key → sha256Hex bytes = lastSegment key) :
    HonestAt (s.putBlob key bytes) key' := by
  intro body hbody
  by_cases hsame : key' = key
  · subst hsame
    rw [Store.lookup_putBlob_self] at hbody
    rw [← Option.some.inj hbody]
    exact hsha rfl
  · rw [Store.lookup_putBlob_of_ne _ _ hsame] at hbody
    exact h hsame body hbody

theorem honestAt_deleteBlob {s : Store} {key key' : String} (h : key' ≠ key → HonestAt s key') :
    HonestAt (s.deleteBlob key) key' := by
  intro body hbody
  by_cases hsame : key' = key
  · rw [hsame, Store.lookup_deleteBlob, if_pos rfl] at hbody
    cases hbody
  · rw [Store.lookup_deleteBlob_of_ne _ hsame] at hbody
    exact h hsame body hbody

/-- Bytes that are written in place. -/
theorem Calm.written {bytes : Bytes}
    (htracked : Tracked host n objectRefs ⟨admitted, flight, collected⟩)
    (h : Calm host objectRefs s₀ ⟨admitted, flight, collected⟩ w)
    (htask : flight[i]? = some task) (hfree : task.key ∉ w.store)
    (hplace : sha256Hex bytes = lastSegment task.key) :
    Calm host objectRefs s₀
      ⟨admitted, flight.set i { task with stage := stageAfterPut task.index task.object bytes },
        collected⟩
      (w.withStore (w.store.putBlob task.key bytes)) := by
  have hgrow : ∀ key ∈ w.store, key ∈ w.store.putBlob task.key bytes :=
    fun key hkey => (AList.mem_insert _).mpr (Or.inr hkey)
  refine h.set htracked htask ?_ (fun key hkey => hgrow key (h.kept key hkey)) ?_
    (fun _ _ hkey => hgrow _ hkey) (fun _ _ => (AList.mem_insert _).mpr (Or.inl rfl))
  · exact fun key hkey => honestAt_putBlob (fun _ => h.honest key hkey) fun _ => hplace
  · intro actual hactual
    refine ⟨fun hs => hfree (h.kept _ hs), fun hsha => ?_⟩
    rw [stageAfterPut, if_pos (hplace.trans hsha)] at hactual
    cases hactual

/-- The blob that is deleted is not one that a reference relies on. -/
theorem Calm.discarded {actual : String}
    (htracked : Tracked host n objectRefs ⟨admitted, flight, collected⟩)
    (h : Calm host objectRefs s₀ ⟨admitted, flight, collected⟩ w)
    (htask : flight[i]? = some task) (hdiscard : task.stage = .discard actual) :
    Calm host objectRefs s₀
      ⟨admitted,
        flight.set i { task with stage := .done (.error (objectMismatch task.object actual)) },
        collected⟩
      (w.withStore (w.store.deleteBlob task.key)) := by
  obtain ⟨hfree, hsegment⟩ := h.discard task (List.mem_of_getElem? htask) actual hdiscard
  have hstay : ∀ key ∈ w.store, key ≠ task.key → key ∈ w.store.deleteBlob task.key :=
    fun key hkey hne => AList.mem_erase.mpr ⟨hne, hkey⟩
  refine h.set htracked htask ?_ (fun key hkey => hstay key (h.kept key hkey) ?_)
    (fun actual' heq => by cases heq) ?_ (fun hholds => hholds.elim)
  · exact fun key hkey => honestAt_deleteBlob fun _ => h.honest key hkey
  · rintro rfl
    exact hfree hkey
  · rintro object ⟨bytes, _, hsha⟩ hkey
    refine hstay _ hkey fun hsame => hsegment ?_
    rw [← hsame, lastSegment_of_met hsha]
    exact objectContentKey_injective hsame

/-- In a calm pool the rivals that were admitted before a task which finds its
    key free are still in flight. -/
theorem Calm.exposed (htracked : Tracked host n objectRefs pool)
    (h : Calm host objectRefs s₀ pool w) (htask : task ∈ pool.flight)
    (hfree : task.key ∉ w.store) (hmis : CanMisplace host task.object) {j : Nat}
    (hj : j ∈ pool.flight.map (·.index) ∨ pool.admitted ≤ j) :
    Exposed host n objectRefs s₀ task.index j task.object := by
  classical
  obtain ⟨hobject, hlt⟩ := htracked.mem task htask
  have hindex : task.index ∈ pool.flight.map (·.index) := List.mem_map_of_mem htask
  refine ⟨hobject, hmis, fun hs => hfree (h.kept _ hs), ?_⟩
  have hcount : (objectRefs.take task.index).zipIdx.countP
      (fun (other, l) => decide (Rival host task.object other ∨ l = j)) ≤
      ((pool.flight.map (·.index)).erase task.index).length := by
    refine countP_zipIdx_take_le fun l other hl hother hrival => ?_
    apply (List.mem_erase_of_ne (by omega)).mpr
    rcases of_decide_eq_true hrival with hrival | rfl
    · by_contra hgone
      have hsucc := h.left l other (by omega) hother hgone
      have hsame : objectContentKey other.sha256Hex = task.key := hrival hsucc
      refine hfree (hsame ▸ h.present l other (by omega) hother hsucc ?_)
      rintro t ht rfl
      exact absurd (List.mem_map_of_mem ht) hgone
    · exact hj.resolve_right (by omega)
  have hpos : 0 < (pool.flight.map (·.index)).length := List.length_pos_of_mem hindex
  rw [List.length_erase_of_mem hindex] at hcount
  have hroom := htracked.room
  rw [List.length_map] at hcount hpos
  omega

/-! ### A doomed pool -/

/-- Where no schedule strands a blob, a task that writes out of place dooms the
    pool. -/
theorem Calm.doom {bytes : Bytes} (hnot : ¬ CanStrand host n objectRefs s₀)
    (htracked : Tracked host n objectRefs ⟨admitted, flight, collected⟩)
    (h : Calm host objectRefs s₀ ⟨admitted, flight, collected⟩ w)
    (htask : flight[i]? = some task) (hfree : task.key ∉ w.store)
    (hload : host.objects.loadObjectStream task.object (.ok (.ok bytes)))
    (hmis : sha256Hex bytes ≠ lastSegment task.key) :
    Doomed host n objectRefs { task with stage := .discard (sha256Hex bytes) }
      ⟨admitted, flight.set i { task with stage := .discard (sha256Hex bytes) }, collected⟩
      (w.withStore (w.store.putBlob task.key bytes)) := by
  have hmem := List.mem_of_getElem? htask
  have hset : ∀ t, t ∈ flight.set i { task with stage := .discard (sha256Hex bytes) } ↔
      t = { task with stage := .discard (sha256Hex bytes) } ∨
        (t ∈ flight ∧ t.index ≠ task.index) :=
    fun t => mem_set_iff htracked.nodup htask
  refine ⟨(hset _).mpr (Or.inl rfl), Or.inl ⟨_, rfl⟩, ?_, ?_, ?_⟩
  · intro t ht hne hfail
    obtain ⟨ht, _⟩ := ((hset t).mp ht).resolve_left fun heq => hne (by rw [heq])
    refine hnot ⟨htracked.two_le ht hmem hne, task.index, t.index, task.object, t.object, ?_, hne,
      (htracked.mem t ht).1, hfail⟩
    exact h.exposed htracked hmem hfree ⟨bytes, hload, hmis⟩ (Or.inl (List.mem_map_of_mem ht))
  · intro hn j other hj hother hfail
    have hlt := (htracked.mem task hmem).2
    refine hnot ⟨hn, task.index, j, task.object, other, ?_, ?_, hother, hfail⟩
    · exact h.exposed htracked hmem hfree ⟨bytes, hload, hmis⟩ (Or.inr hj)
    · exact Nat.ne_of_gt (Nat.lt_of_lt_of_le hlt hj)
  · intro key hkey hdone
    refine honestAt_putBlob (fun _ => h.honest key hkey) fun hsame => ?_
    obtain ⟨e, he⟩ := hdone hsame
    cases he

/-- A task that cannot fail puts no blob out of place. -/
theorem StageStep.honestAt {index : Nat} {stage : ObjectStage} {key : String}
    (hmove : StageStep host index object w stage w' stage') (hfact : StageFact host object stage)
    (hnot : ¬ CanFail host object) (h : HonestAt w.store key) : HonestAt w'.store key := by
  cases hmove with
  | @written bytes hfree =>
    refine honestAt_putBlob (fun _ => h) fun _ => ?_
    by_contra hmis
    exact hnot (canFail_of_mismatch hfact (mismatch_of_misplaced hmis))
  | discarded => exact absurd hfact hnot
  | loaded => exact h
  | notLoaded => exact h
  | broken => exact h
  | «exists» => exact h
  | rechecked => exact h
  | notRechecked => exact h

theorem Doomed.move (htracked : Tracked host n objectRefs ⟨admitted, flight, collected⟩)
    {doomed : ObjectFlight} (h : Doomed host n objectRefs doomed ⟨admitted, flight, collected⟩ w)
    (htask : flight[i]? = some task)
    (hmove : StageStep host task.index task.object w task.stage w' stage') :
    ∃ doomed, Doomed host n objectRefs doomed
      ⟨admitted, flight.set i { task with stage := stage' }, collected⟩ w' := by
  have hmem := List.mem_of_getElem? htask
  have hset : ∀ t, t ∈ flight.set i { task with stage := stage' } ↔
      t = { task with stage := stage' } ∨ (t ∈ flight ∧ t.index ≠ task.index) :=
    fun t => mem_set_iff htracked.nodup htask
  by_cases hidx : task.index = doomed.index
  · obtain rfl : task = doomed := htracked.eq_of_index hmem h.mem hidx
    rcases task with ⟨index, object, stage⟩
    refine ⟨⟨index, object, stage'⟩, (hset _).mpr (Or.inl rfl), ?_, ?_, h.later, ?_⟩
    · cases hmove with
      | discarded => exact Or.inr ⟨_, rfl⟩
      | _ => exact absurd h.stage (by simp)
    · intro t ht hne
      obtain ⟨ht, _⟩ := ((hset t).mp ht).resolve_left fun heq => hne (by rw [heq])
      exact h.others t ht hne
    · intro key hkey _
      cases hmove with
      | discarded =>
        exact honestAt_deleteBlob fun hne => h.honest key hkey fun heq => absurd heq hne
      | _ => exact absurd h.stage (by simp)
  · refine ⟨doomed, (hset _).mpr (Or.inr ⟨h.mem, Ne.symm hidx⟩), h.stage, ?_, h.later, ?_⟩
    · intro t ht hne
      rcases (hset t).mp ht with rfl | ⟨ht, _⟩
      · exact h.others task hmem hidx
      · exact h.others t ht hne
    · intro key hkey hdone
      exact hmove.honestAt (htracked.stage task hmem) (h.others task hmem hidx)
        (h.honest key hkey hdone)

theorem Doomed.enter {doomed : ObjectFlight}
    (h : Doomed host n objectRefs doomed ⟨admitted, flight, collected⟩ w)
    (hobject : objectRefs[admitted]? = some object) (hroom : flight.length < n) :
    Doomed host n objectRefs doomed
      ⟨admitted + 1, flight ++ [⟨admitted, object, .load⟩], collected⟩ w := by
  have hpos : 0 < flight.length := List.length_pos_of_mem h.mem
  refine ⟨List.mem_append_left _ h.mem, h.stage, ?_, ?_, h.honest⟩
  · intro t ht hne
    rcases List.mem_append.mp ht with ht | ht
    · exact h.others t ht hne
    · rw [List.mem_singleton.mp ht]
      exact h.later (by omega) admitted object (Nat.le_refl _) hobject
  · exact fun hn j other hj => h.later hn j other (Nat.le_of_succ_le hj)

theorem Doomed.collect (htracked : Tracked host n objectRefs ⟨admitted, flight, collected⟩)
    {doomed : ObjectFlight} (h : Doomed host n objectRefs doomed ⟨admitted, flight, collected⟩ w)
    {entry : Nat × ObjectBackupEntry} (htask : flight[i]? = some task)
    (hdone : task.stage = .done (.ok entry)) :
    Doomed host n objectRefs doomed
      ⟨admitted, flight.eraseIdx i, collected ++ [entry]⟩ w := by
  have herase : ∀ t, t ∈ flight.eraseIdx i ↔ t ∈ flight ∧ t.index ≠ task.index :=
    fun t => mem_eraseIdx_iff htracked.nodup htask
  refine ⟨(herase _).mpr ⟨h.mem, fun hidx => ?_⟩, h.stage,
    fun t ht => h.others t ((herase t).mp ht).1, h.later, h.honest⟩
  obtain rfl : doomed = task := htracked.eq_of_index h.mem (List.mem_of_getElem? htask) hidx
  rcases h.stage with ⟨actual, hstage⟩ | ⟨e, hstage⟩ <;> rw [hdone] at hstage <;> cases hstage

/-! ### Steps and runs -/

theorem Guarded.move (hnot : ¬ CanStrand host n objectRefs s₀)
    (htracked : Tracked host n objectRefs ⟨admitted, flight, collected⟩)
    (h : Calm host objectRefs s₀ ⟨admitted, flight, collected⟩ w)
    (htask : flight[i]? = some task)
    (hmove : StageStep host task.index task.object w task.stage w' stage') :
    Calm host objectRefs s₀
        ⟨admitted, flight.set i { task with stage := stage' }, collected⟩ w' ∨
      ∃ doomed, Doomed host n objectRefs doomed
        ⟨admitted, flight.set i { task with stage := stage' }, collected⟩ w' := by
  have hfact := htracked.stage task (List.mem_of_getElem? htask)
  rcases task with ⟨index, object, stage⟩
  simp only at hmove hfact
  cases hmove with
  | loaded => exact Or.inl (h.quiet htracked htask (fun _ heq => by cases heq) fun hh => hh.elim)
  | notLoaded => exact Or.inl (h.quiet htracked htask (fun _ heq => by cases heq) fun hh => hh.elim)
  | @written bytes hlookup =>
    have hfree : objectContentKey object.sha256Hex ∉ w.store := AList.lookup_eq_none.mp hlookup
    by_cases hplace : sha256Hex bytes = lastSegment (objectContentKey object.sha256Hex)
    · exact Or.inl (h.written htracked htask hfree hplace)
    · rw [stageAfterPut, if_neg (mismatch_of_misplaced hplace)]
      exact Or.inr ⟨_, h.doom hnot htracked htask hfree hfact hplace⟩
  | broken => exact Or.inl (h.quiet htracked htask (fun _ heq => by cases heq) fun hh => hh.elim)
  | «exists» hmem =>
    exact Or.inl (h.quiet htracked htask (fun _ heq => by cases heq) fun _ _ => hmem)
  | @rechecked source hload =>
    refine Or.inl (h.quiet htracked htask ?_ fun _ hold => (hold trivial).elim)
    intro actual heq
    cases source with
    | error e => cases heq
    | ok bytes =>
      simp only [stageAfterRecheck] at heq
      split at heq <;> cases heq
  | notRechecked =>
    exact Or.inl (h.quiet htracked htask (fun _ heq => by cases heq) fun hh => hh.elim)
  | discarded => exact Or.inl (h.discarded htracked htask rfl)

/-- **Step lemma.** -/
theorem Guarded.step (hnot : ¬ CanStrand host n objectRefs s₀)
    (hstep : ObjectPoolStep (StageStep host) objectRefs n (w, pool) (w', pool'))
    (h : Guarded host n objectRefs s₀ pool w) : Guarded host n objectRefs s₀ pool' w' := by
  rcases h with ⟨htracked, hcase⟩
  refine ⟨htracked.step hstep, ?_⟩
  cases hstep with
  | enter hobject hroom =>
    rcases hcase with hcalm | ⟨doomed, hdoomed⟩
    · exact Or.inl hcalm.enter
    · exact Or.inr ⟨doomed, hdoomed.enter hobject hroom⟩
  | move htask hmove =>
    rcases hcase with hcalm | ⟨doomed, hdoomed⟩
    · exact Guarded.move hnot htracked hcalm htask hmove
    · exact Or.inr (hdoomed.move htracked htask hmove)
  | collect htask =>
    rcases hcase with hcalm | ⟨doomed, hdoomed⟩
    · exact Or.inl (hcalm.collect htracked htask rfl)
    · exact Or.inr ⟨doomed, hdoomed.collect htracked htask rfl⟩

theorem Guarded.start (hhonest : HonestObjects w.store) :
    Guarded host n objectRefs w.store ⟨0, [], []⟩ w := by
  refine ⟨⟨?_, List.nodup_nil, Nat.zero_le _, ?_⟩, Or.inl ⟨hhonest, fun _ hkey => hkey, ?_, ?_, ?_⟩⟩
  · exact fun _ ht => absurd ht List.not_mem_nil
  · exact fun _ ht => absurd ht List.not_mem_nil
  · exact fun _ ht => absurd ht List.not_mem_nil
  · exact fun _ _ hl => absurd hl (Nat.not_lt_zero _)
  · exact fun _ _ hl => absurd hl (Nat.not_lt_zero _)

/-- With nothing in flight the pool is calm. -/
theorem Guarded.honest_of_ok (h : Guarded host n objectRefs s₀ ⟨admitted, [], collected⟩ w) :
    HonestObjects w.store := by
  rcases h.2 with hcalm | ⟨_, hdoomed⟩
  · exact hcalm.honest
  · exact absurd hdoomed.mem List.not_mem_nil

/-- A task that has failed is the doomed one, after its deletion. -/
theorem Guarded.honest_of_error {e : BackupError} (h : Guarded host n objectRefs s₀ pool w)
    (htask : task ∈ pool.flight) (hfailed : task.stage = .done (.error e)) :
    HonestObjects w.store := by
  rcases h with ⟨htracked, hcalm | ⟨doomed, hdoomed⟩⟩
  · exact hcalm.honest
  · have hfact := htracked.stage task htask
    rw [hfailed] at hfact
    have hidx : task.index = doomed.index := by_contra fun hne => hdoomed.others task htask hne hfact
    obtain rfl : task = doomed := htracked.eq_of_index htask hdoomed.mem hidx
    exact fun key hkey => hdoomed.honest key hkey fun _ => ⟨e, hfailed⟩

end Invariant

theorem movesOf_stageStep (host : Host) : MovesOf host.Answers (StageStep host) :=
  fun _ _ _ _ _ _ _ _ hprog hcall => stage_step hprog hcall

/-- **Run lemma.**  Where no schedule can strand a blob, the object store is
    honest whenever `write_object_entries` returns. -/
theorem wpE_writeObjectEntries {host : Host} {objectRefs : List BackupObjectRef}
    {objectConcurrency : Nat} {w : World} (hhonest : HonestObjects w.store)
    (hnot : ¬ CanStrand host (max objectConcurrency 1) objectRefs w.store) (sched : List Poll) :
    wpE host.Answers (fun _ => True) (writeObjectEntries sched objectRefs objectConcurrency)
      (fun _ w' => HonestObjects w'.store) (fun _ w' => HonestObjects w'.store) w := by
  have hpool : wpE host.Answers (fun _ => True)
      (tryCollect (max objectConcurrency 1) sched (objectTasks objectRefs))
      (fun _ w' => HonestObjects w'.store) (fun _ w' => HonestObjects w'.store) w := by
    refine wp_objectPool (J := Guarded host (max objectConcurrency 1) objectRefs w.store)
      (movesOf_stageStep host) (by omega) (fun _ _ _ _ hstep h => h.step hnot hstep)
      (fun _ _ _ => trivial) (fun _ _ _ _ h => h.honest_of_ok) ?_ sched (Guarded.start hhonest)
    intro pool w' i task e h htask hfailed
    exact h.honest_of_error (List.mem_of_getElem? htask) hfailed
  exact wpE.seq hpool fun _ _ _ h => ⟨trivial, h⟩

end GraphqlOrmBackup

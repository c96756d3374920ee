import GraphqlOrmBackup.Environment
import GraphqlOrmBackup.ObjectHonesty

/-!
# A schedule that strands a blob

Where `CanStrand` holds, some schedule drops a task between its write and its
deletion.  The run admits the references up to the exposed one, keeps those that
have to stay before their first load, lets the exposed task write, and then runs
the other tasks until one of them fails.
-/

namespace GraphqlOrmBackup

open Interaction Relation

section Codec

variable [Crates]

section Stages

variable {host : Host} {index : Nat} {object : BackupObjectRef} {w w' : World}
  {stage stage' : ObjectStage}

/-- Every step of a stage is a call of its program. -/
theorem StageStep.reaches (h : StageStep host index object w stage w' stage') :
    Reaches host.Answers w (stage.prog index object) w' (stage'.prog index object) := by
  cases h with
  | @loaded source h => exact Reaches.head (r := .ok source) ⟨h, rfl⟩ (Reaches.refl _ _)
  | @notLoaded e h => exact Reaches.head (r := .error e) ⟨h, rfl⟩ (Reaches.refl _ _)
  | @written bytes h =>
    rw [prog_stageAfterPut]
    refine Reaches.head (r := .ok true) ⟨_, ?_, rfl⟩ (Reaches.refl _ _)
    unfold PutsIfAbsent
    rw [h]
    exact ⟨rfl, rfl⟩
  | @broken e =>
    refine Reaches.head (r := .error e) ⟨w.store, ?_, rfl⟩ (Reaches.refl _ _)
    unfold PutsIfAbsent
    cases w.store.lookup (objectContentKey object.sha256Hex) with
    | none => exact ⟨rfl, rfl⟩
    | some body => exact ⟨Or.inr rfl, rfl⟩
  | @«exists» source h =>
    refine Reaches.head (r := .ok false) ⟨w.store, ?_, rfl⟩ (Reaches.refl _ _)
    obtain ⟨body, hbody⟩ := Store.exists_lookup h
    unfold PutsIfAbsent
    cases source with
    | error e =>
      rw [hbody]
      exact ⟨Or.inl rfl, rfl⟩
    | ok bytes =>
      rw [hbody]
      exact ⟨rfl, rfl⟩
  | @rechecked source h =>
    cases source with
    | error e => exact Reaches.head (r := .ok (.error e)) ⟨h, rfl⟩ (Reaches.refl _ _)
    | ok bytes =>
      rw [prog_stageAfterRecheck]
      exact Reaches.head (r := .ok (.ok bytes)) ⟨h, rfl⟩ (Reaches.refl _ _)
  | @notRechecked e h => exact Reaches.head (r := .error e) ⟨h, rfl⟩ (Reaches.refl _ _)
  | discarded => exact Reaches.head (r := .ok ()) ⟨rfl, rfl⟩ (Reaches.refl _ _)

/-- The task changes at most its own key, and that only if it was free. -/
structure KeepsOthers (key : String) (w w' : World) : Prop where
  others : ∀ key', key' ≠ key → w'.store.lookup key' = w.store.lookup key'
  stored : key ∈ w.store → w' = w

omit [Crates] in
theorem KeepsOthers.refl (key : String) (w : World) : KeepsOthers key w w :=
  ⟨fun _ _ => rfl, fun _ => rfl⟩

omit [Crates] in
/-- What is stored stays, under every key. -/
theorem KeepsOthers.lookup {key key' : String} {body : Bytes} (h : KeepsOthers key w w')
    (hbody : w.store.lookup key' = some body) : w'.store.lookup key' = some body := by
  by_cases hsame : key' = key
  · subst hsame
    rw [h.stored (Store.mem_of_lookup hbody)]
    exact hbody
  · rw [h.others key' hsame, hbody]

variable (index w)

theorem reaches_ok (h : CanSucceed host object) :
    ∃ w', Reaches host.Answers w (ObjectStage.load.prog index object) w'
        ((ObjectStage.done (.ok (index, objectBackupEntry object))).prog index object) ∧
      KeepsOthers (objectContentKey object.sha256Hex) w w' := by
  rcases h with ⟨bytes, hload, hsha⟩
  have hstart : StageStep host index object w .load w (.put (.ok bytes)) := .loaded hload
  by_cases hmem : objectContentKey object.sha256Hex ∈ w.store
  · have hput : StageStep host index object w (.put (.ok bytes)) w .recheck := .exists hmem
    have hend : StageStep host index object w .recheck w _ := .rechecked hload
    simp only [stageAfterRecheck, if_pos hsha] at hend
    exact ⟨w, (hstart.reaches.trans hput.reaches).trans hend.reaches, KeepsOthers.refl _ _⟩
  · have hput : StageStep host index object w (.put (.ok bytes)) _ _ :=
      .written (AList.lookup_eq_none.mpr hmem)
    rw [stageAfterPut, if_pos hsha] at hput
    exact ⟨_, hstart.reaches.trans hput.reaches, fun key' hne => Store.lookup_putBlob_of_ne _ _ hne,
      fun hstored => absurd hstored hmem⟩

variable {w} in
/-- A task with bytes of another checksum, up to its deletion. -/
theorem reaches_discard {bytes : Bytes}
    (hload : host.objects.loadObjectStream object (.ok (.ok bytes)))
    (hsha : sha256Hex bytes ≠ object.sha256Hex)
    (hfree : objectContentKey object.sha256Hex ∉ w.store) :
    Reaches host.Answers w (ObjectStage.load.prog index object)
      (w.withStore (w.store.putBlob (objectContentKey object.sha256Hex) bytes))
      ((ObjectStage.discard (sha256Hex bytes)).prog index object) := by
  have hstart : StageStep host index object w .load w (.put (.ok bytes)) := .loaded hload
  have hput : StageStep host index object w (.put (.ok bytes)) _ _ :=
    .written (AList.lookup_eq_none.mpr hfree)
  rw [stageAfterPut, if_neg hsha] at hput
  exact hstart.reaches.trans hput.reaches

theorem reaches_error (h : CanFail host object) :
    ∃ w' e, Reaches host.Answers w (ObjectStage.load.prog index object) w'
        ((ObjectStage.done (.error e)).prog index object) ∧
      KeepsOthers (objectContentKey object.sha256Hex) w w' := by
  rcases h with ⟨source, hload, hbad⟩
  cases source with
  | error e => exact ⟨w, e, (StageStep.notLoaded hload).reaches, KeepsOthers.refl _ _⟩
  | ok source =>
    have hstart : StageStep host index object w .load w (.put source) := .loaded hload
    cases source with
    | error e =>
      exact ⟨w, e, hstart.reaches.trans StageStep.broken.reaches, KeepsOthers.refl _ _⟩
    | ok bytes =>
      have hsha := hbad bytes rfl
      by_cases hmem : objectContentKey object.sha256Hex ∈ w.store
      · have hput : StageStep host index object w (.put (.ok bytes)) w .recheck := .exists hmem
        have hend : StageStep host index object w .recheck w _ := .rechecked hload
        simp only [stageAfterRecheck, if_neg hsha] at hend
        exact ⟨w, _, (hstart.reaches.trans hput.reaches).trans hend.reaches, KeepsOthers.refl _ _⟩
      · refine ⟨_, _, (reaches_discard index hload hsha hmem).trans StageStep.discarded.reaches,
          fun key' hne => ?_, fun hstored => absurd hstored hmem⟩
        rw [World.withStore_store, World.withStore_store, Store.lookup_deleteBlob_of_ne _ hne,
          Store.lookup_putBlob_of_ne _ _ hne]

end Stages

/-! ## Runs of the pool -/

section Runs

variable {host : Host} {objectRefs : List BackupObjectRef} {n : Nat} {w w' : World}
  {admitted i k index : Nat} {flight : List ObjectFlight}
  {collected : List (Nat × ObjectBackupEntry)} {object : BackupObjectRef}

/-- The pool can go from one state to another. -/
def Goes (host : Host) (objectRefs : List BackupObjectRef) (n : Nat)
    (start stop : World × ObjectPool) : Prop :=
  ReflTransGen (PoolStep host.Answers n) (start.1, start.2.pool objectRefs)
    (stop.1, stop.2.pool objectRefs)

theorem Goes.trans {a b c : World × ObjectPool} (h : Goes host objectRefs n a b)
    (h' : Goes host objectRefs n b c) : Goes host objectRefs n a c := ReflTransGen.trans h h'

theorem Goes.enter (hobject : objectRefs[admitted]? = some object) (hroom : flight.length < n) :
    Goes host objectRefs n (w, ⟨admitted, flight, collected⟩)
      (w, ⟨admitted + 1, flight ++ [⟨admitted, object, .load⟩], collected⟩) := by
  apply ReflTransGen.single
  simp only [ObjectPool.pool, objectTasks_drop hobject, List.map_append, List.map_singleton,
    ObjectFlight.prog, ObjectStage.prog]
  exact PoolStep.enter (by rwa [List.length_map])

/-- A task in flight runs from one stage to another. -/
theorem Goes.run {task : ObjectFlight} {stage' : ObjectStage} (htask : flight[i]? = some task)
    (hrun : Reaches host.Answers w task.prog w' (stage'.prog task.index task.object)) :
    Goes host objectRefs n (w, ⟨admitted, flight, collected⟩)
      (w', ⟨admitted, flight.set i { task with stage := stage' }, collected⟩) := by
  simp only [Goes, ObjectPool.pool, List.map_set, ObjectFlight.prog]
  exact hrun.poolSteps (by rw [List.getElem?_map, htask]; rfl)

theorem Goes.collect {entry : Nat × ObjectBackupEntry}
    (htask : flight[i]? = some ⟨index, object, .done (.ok entry)⟩) :
    Goes host objectRefs n (w, ⟨admitted, flight, collected⟩)
      (w, ⟨admitted, flight.eraseIdx i, collected ++ [entry]⟩) := by
  apply ReflTransGen.single
  simp only [ObjectPool.pool, ← List.eraseIdx_map]
  exact PoolStep.collect (by rw [List.getElem?_map, htask]; rfl)

/-- A task that can succeed runs to its end and leaves the pool. -/
theorem Goes.finish (admitted : Nat) (collected : List (Nat × ObjectBackupEntry)) (w : World)
    (htask : flight[i]? = some ⟨index, object, .load⟩) (h : CanSucceed host object) :
    ∃ w' collected', Goes host objectRefs n (w, ⟨admitted, flight, collected⟩)
        (w', ⟨admitted, flight.eraseIdx i, collected'⟩) ∧
      KeepsOthers (objectContentKey object.sha256Hex) w w' := by
  obtain ⟨w', hrun, hkeeps⟩ := reaches_ok index w h
  have hlt : i < flight.length := (List.getElem?_eq_some_iff.mp htask).1
  have hdone : (flight.set i ⟨index, object, .done (.ok (index, objectBackupEntry object))⟩)[i]? =
      some ⟨index, object, .done (.ok (index, objectBackupEntry object))⟩ := by
    rw [List.getElem?_set, if_pos rfl, if_pos hlt]
  refine ⟨w', collected ++ [(index, objectBackupEntry object)],
    (Goes.run htask hrun).trans ?_, hkeeps⟩
  rw [← List.eraseIdx_set_eq (a := ⟨index, object, .done (.ok (index, objectBackupEntry object))⟩)]
  exact Goes.collect hdone

/-- The pool can come to a failed task while the blob at the key stays. -/
def GoesWrong (host : Host) (objectRefs : List BackupObjectRef) (n : Nat) (key : String)
    (body : Bytes) (start : World × ObjectPool) : Prop :=
  ∃ (w' : World) (pool' : ObjectPool) (i : Nat) (task : ObjectFlight) (e : BackupError),
    Goes host objectRefs n start (w', pool') ∧ pool'.flight[i]? = some task ∧
      task.stage = .done (.error e) ∧ w'.store.lookup key = some body

variable {key : String} {body : Bytes}

theorem GoesWrong.head {start mid : World × ObjectPool} (hgoes : Goes host objectRefs n start mid)
    (h : GoesWrong host objectRefs n key body mid) :
    GoesWrong host objectRefs n key body start := by
  rcases h with ⟨w', pool', i, task, e, hrest, hfound⟩
  exact ⟨w', pool', i, task, e, hgoes.trans hrest, hfound⟩

theorem GoesWrong.fail (htask : flight[i]? = some ⟨index, object, .load⟩)
    (hbody : w.store.lookup key = some body) (h : CanFail host object) :
    GoesWrong host objectRefs n key body (w, ⟨admitted, flight, collected⟩) := by
  obtain ⟨w', e, hrun, hkeeps⟩ := reaches_error index w h
  have hlt : i < flight.length := (List.getElem?_eq_some_iff.mp htask).1
  refine ⟨w', _, i, ⟨index, object, .done (.error e)⟩, e, Goes.run htask hrun, ?_, rfl,
    hkeeps.lookup hbody⟩
  rw [List.getElem?_set, if_pos rfl, if_pos hlt]

/-! ### Up to the exposed reference -/

/-- The references before `k` that stay in flight, before their first load. -/
def stillWaiting (objectRefs : List BackupObjectRef) (keep : BackupObjectRef × Nat → Bool)
    (k : Nat) : List ObjectFlight :=
  ((objectRefs.take k).zipIdx.filter keep).map fun (other, l) => ⟨l, other, .load⟩

omit [Crates] in
theorem stillWaiting_succ {keep : BackupObjectRef × Nat → Bool}
    (hobject : objectRefs[k]? = some object) :
    stillWaiting objectRefs keep (k + 1) =
      stillWaiting objectRefs keep k ++ if keep (object, k) then [⟨k, object, .load⟩] else [] := by
  have hlen : (objectRefs.take k).length = k := by
    have hlt := (List.getElem?_eq_some_iff.mp hobject).1
    rw [List.length_take]
    omega
  rw [stillWaiting, List.take_add_one, hobject, Option.toList_some, List.zipIdx_append, hlen,
    List.filter_append, List.map_append, stillWaiting]
  congr 1
  by_cases hkeep : keep (object, k) <;> simp [hkeep]

omit [Crates] in
theorem length_stillWaiting (keep : BackupObjectRef × Nat → Bool) (k : Nat) :
    (stillWaiting objectRefs keep k).length = (objectRefs.take k).zipIdx.countP keep := by
  rw [stillWaiting, List.length_map, List.countP_eq_length_filter]

omit [Crates] in
theorem mem_stillWaiting {keep : BackupObjectRef × Nat → Bool} {task : ObjectFlight} :
    task ∈ stillWaiting objectRefs keep k ↔ ∃ l other, l < k ∧ objectRefs[l]? = some other ∧
      keep (other, l) = true ∧ task = ⟨l, other, .load⟩ := by
  rw [stillWaiting, List.mem_map]
  constructor
  · intro h
    rcases h with ⟨⟨other, l⟩, hmem, rfl⟩
    rcases List.mem_filter.mp hmem with ⟨hmem, hkeep⟩
    rw [List.mem_zipIdx_iff_getElem?, List.getElem?_take] at hmem
    split at hmem
    · exact ⟨l, other, ‹_›, hmem, hkeep, rfl⟩
    · cases hmem
  · intro h
    rcases h with ⟨l, other, hlt, hother, hkeep, rfl⟩
    refine ⟨(other, l), List.mem_filter.mpr ⟨?_, hkeep⟩, rfl⟩
    rw [List.mem_zipIdx_iff_getElem?, List.getElem?_take, if_pos hlt]
    exact hother

/-- Those that need not stay run to their end. -/
theorem Goes.upTo {keep : BackupObjectRef × Nat → Bool} (hfree : key ∉ w.store)
    (hkeep : ∀ (l : Nat) (other : BackupObjectRef), objectRefs[l]? = some other →
      keep (other, l) = false → CanSucceed host other ∧ objectContentKey other.sha256Hex ≠ key) :
    ∀ k, k ≤ objectRefs.length → (stillWaiting objectRefs keep k).length < n →
      ∃ w' collected, Goes host objectRefs n (w, ⟨0, [], []⟩)
        (w', ⟨k, stillWaiting objectRefs keep k, collected⟩) ∧ key ∉ w'.store := by
  intro k hk hroom
  induction k with
  | zero => exact ⟨w, [], ReflTransGen.refl, hfree⟩
  | succ k ih =>
    obtain ⟨object, hobject⟩ : ∃ object, objectRefs[k]? = some object :=
      ⟨objectRefs[k], List.getElem?_eq_getElem hk⟩
    rw [stillWaiting_succ hobject] at hroom ⊢
    rw [List.length_append] at hroom
    obtain ⟨w₁, collected, hgoes, hfree₁⟩ := ih (Nat.le_of_succ_le hk) (by omega)
    have henter := hgoes.trans (Goes.enter hobject (by omega))
    by_cases hkept : keep (object, k) = true
    · rw [if_pos hkept]
      exact ⟨w₁, collected, henter, hfree₁⟩
    · obtain ⟨hsucc, hne⟩ := hkeep k object hobject (Bool.eq_false_iff.mpr hkept)
      have hlast : (stillWaiting objectRefs keep k ++ [⟨k, object, .load⟩])[
          (stillWaiting objectRefs keep k).length]? = some ⟨k, object, .load⟩ := by simp
      obtain ⟨w₂, collected₂, hfinish, hkeeps⟩ :=
        Goes.finish (n := n) (k + 1) collected w₁ hlast hsucc
      rw [List.eraseIdx_append_of_length_le (Nat.le_refl _), Nat.sub_self, List.eraseIdx_cons_zero]
        at hfinish
      rw [if_neg hkept]
      refine ⟨w₂, collected₂, henter.trans hfinish, ?_⟩
      exact fun hmem => hfree₁ ((Store.mem_congr (hkeeps.others key (Ne.symm hne))).mp hmem)

/-! ### After the exposed reference has written -/

theorem canSucceed_of_not_canFail (hloads : ∃ source, host.objects.loadObjectStream object source)
    (hnot : ¬ CanFail host object) : CanSucceed host object := by
  rcases hloads with ⟨source, hload⟩
  by_contra hsucc
  refine hnot ⟨source, hload, ?_⟩
  rintro bytes rfl hsha
  exact hsucc ⟨bytes, hload, hsha⟩

/-- The tasks that stayed run one after the other, in front of the exposed one. -/
theorem GoesWrong.drain (waiting : List ObjectFlight) (exposed : ObjectFlight)
    (hload : ∀ task ∈ waiting, task.stage = .load ∧
      ∃ source, host.objects.loadObjectStream task.object source)
    (hrest : (∀ task ∈ waiting, ¬ CanFail host task.object) → ∀ w collected,
      w.store.lookup key = some body →
        GoesWrong host objectRefs n key body (w, ⟨admitted, [exposed], collected⟩))
    (hbody : w.store.lookup key = some body) :
    GoesWrong host objectRefs n key body (w, ⟨admitted, waiting ++ [exposed], collected⟩) := by
  induction waiting generalizing w collected with
  | nil => exact hrest (fun _ ht => absurd ht List.not_mem_nil) w collected hbody
  | cons task waiting ih =>
    obtain ⟨hstage, hloads⟩ := hload task List.mem_cons_self
    rcases task with ⟨index, object, stage⟩
    obtain rfl : stage = .load := hstage
    have htask : ((⟨index, object, .load⟩ : ObjectFlight) :: waiting ++ [exposed])[0]? =
        some ⟨index, object, .load⟩ := rfl
    by_cases hfail : CanFail host object
    · exact GoesWrong.fail htask hbody hfail
    · obtain ⟨w', collected', hfinish, hkeeps⟩ :=
        Goes.finish (n := n) admitted collected w htask (canSucceed_of_not_canFail hloads hfail)
      refine GoesWrong.head hfinish (ih (fun t ht => hload t (List.mem_cons_of_mem _ ht)) ?_
        (hkeeps.lookup hbody))
      exact fun hnone => hrest (List.forall_mem_cons.mpr ⟨hfail, hnone⟩)

/-- The references after the exposed one run one after the other, up to one that
    can fail. -/
theorem GoesWrong.scan (hloads : ∀ object ∈ objectRefs, ∃ source,
      host.objects.loadObjectStream object source) (hn : 2 ≤ n) (exposed : ObjectFlight)
    {j : Nat} {other : BackupObjectRef} (hother : objectRefs[j]? = some other)
    (hfail : CanFail host other) :
    ∀ (d k : Nat), k + d = j → ∀ w collected, w.store.lookup key = some body →
      GoesWrong host objectRefs n key body (w, ⟨k, [exposed], collected⟩) := by
  have hlt : j < objectRefs.length := (List.getElem?_eq_some_iff.mp hother).1
  intro d
  induction d with
  | zero =>
    rintro k rfl w collected hbody
    exact GoesWrong.head (Goes.enter hother hn) (GoesWrong.fail (i := 1) rfl hbody hfail)
  | succ d ih =>
    intro k hk w collected hbody
    obtain ⟨object, hobject⟩ : ∃ object, objectRefs[k]? = some object :=
      ⟨_, List.getElem?_eq_getElem (by omega)⟩
    have htask : ([exposed] ++ [(⟨k, object, .load⟩ : ObjectFlight)])[1]? =
        some ⟨k, object, .load⟩ := rfl
    apply GoesWrong.head (Goes.enter hobject hn)
    by_cases hfail' : CanFail host object
    · exact GoesWrong.fail htask hbody hfail'
    · obtain ⟨w', collected', hfinish, hkeeps⟩ := Goes.finish (n := n) (k + 1) collected w htask
        (canSucceed_of_not_canFail (hloads object (List.mem_of_getElem? hobject)) hfail')
      exact GoesWrong.head hfinish (ih (k + 1) (by omega) w' collected' (hkeeps.lookup hbody))

/-- **The stranding run.** -/
theorem CanStrand.goesWrong (hloads : ∀ object ∈ objectRefs, ∃ source,
      host.objects.loadObjectStream object source) (h : CanStrand host n objectRefs w.store) :
    ∃ key body, InObjectStore key ∧ sha256Hex body ≠ lastSegment key ∧
      GoesWrong host objectRefs n key body (w, ⟨0, [], []⟩) := by
  classical
  obtain ⟨hn, i, j, object, other, ⟨hobject, ⟨bytes, hload, hmis⟩, hfree, hroom⟩, hne, hother,
    hfail⟩ := h
  refine ⟨objectContentKey object.sha256Hex, bytes, inObjectStore_objectContentKey _, hmis, ?_⟩
  have hlt : i < objectRefs.length := (List.getElem?_eq_some_iff.mp hobject).1
  let keep : BackupObjectRef × Nat → Bool := fun p => decide (Rival host object p.1 ∨ p.2 = j)
  have hkept : (stillWaiting objectRefs keep i).length < n := by
    rw [length_stillWaiting]
    exact hroom
  have hleave : ∀ (l : Nat) (other : BackupObjectRef), objectRefs[l]? = some other →
      keep (other, l) = false → CanSucceed host other ∧
        objectContentKey other.sha256Hex ≠ objectContentKey object.sha256Hex := by
    intro l other _ hkeep
    exact Classical.not_imp.mp (not_or.mp (of_decide_eq_false hkeep)).1
  obtain ⟨w₁, collected, hup, hfree₁⟩ := Goes.upTo hfree hleave i (Nat.le_of_lt hlt) hkept
  -- the exposed task comes to its deletion
  have hlast : (stillWaiting objectRefs keep i ++ [⟨i, object, .load⟩])[
      (stillWaiting objectRefs keep i).length]? = some ⟨i, object, .load⟩ := by simp
  have hrun := (hup.trans (Goes.enter hobject hkept)).trans
    (Goes.run hlast (reaches_discard i hload (mismatch_of_misplaced hmis) hfree₁))
  rw [List.set_append_right _ _ (Nat.le_refl _), Nat.sub_self, List.set_cons_zero] at hrun
  refine GoesWrong.head hrun (GoesWrong.drain _ _ ?_ ?_ (Store.lookup_putBlob_self _ _ _))
  · intro task ht
    rcases mem_stillWaiting.mp ht with ⟨l, other, _, hother, _, rfl⟩
    exact ⟨rfl, hloads other (List.mem_of_getElem? hother)⟩
  · intro hnone w collected hbody
    rcases Nat.lt_or_gt_of_ne hne with hbefore | hafter
    · refine absurd hfail (hnone ⟨j, other, .load⟩ (mem_stillWaiting.mpr ?_))
      exact ⟨j, other, hbefore, hother, decide_eq_true (Or.inr rfl), rfl⟩
    · exact GoesWrong.scan hloads hn _ hother hfail (j - (i + 1)) (i + 1) (by omega) w collected hbody

/-- A failed task ends the pool, whatever else is in flight. -/
theorem GoesWrong.returns (h : GoesWrong host objectRefs n key body (w, ⟨0, [], []⟩)) :
    ∃ sched e w', Returns host.Answers w (tryCollect n sched (objectTasks objectRefs)).run
      (.error e) w' ∧ w'.store.lookup key = some body := by
  rcases h with ⟨w', pool', i, task, e, hgoes, htask, hstage, hbody⟩
  have hfailed : (pool'.pool objectRefs).inflight[i]? = some (.ret (.error e)) := by
    rw [ObjectPool.pool, List.getElem?_map, htask, Option.map_some, ObjectFlight.prog, hstage]
    rfl
  obtain ⟨sched, hsched⟩ := exists_sched hgoes hfailed
  exact ⟨sched, e, w', hsched, hbody⟩

end Runs

section

variable {host : Host} {objectRefs : List BackupObjectRef} {objectConcurrency : Nat} {w : World}

theorem CanStrand.returns (hloads : ∀ object ∈ objectRefs, ∃ source,
      host.objects.loadObjectStream object source)
    (h : CanStrand host (max objectConcurrency 1) objectRefs w.store) :
    ∃ sched e w', Returns host.Answers w
      (writeObjectEntries sched objectRefs objectConcurrency).run (.error e) w' ∧
        ¬ HonestObjects w'.store := by
  obtain ⟨key, body, hkey, hmis, hwrong⟩ := h.goesWrong hloads
  obtain ⟨sched, e, w', hret, hbody⟩ := hwrong.returns
  refine ⟨sched, e, w', Returns.bind hret (Reaches.refl _ _), fun hhonest => ?_⟩
  exact hmis (hhonest key hkey body hbody)

/-- **The object store stays honest exactly where no blob can be stranded.** -/
theorem object_store_stays_honest_iff (hhonest : HonestObjects w.store)
    (hloads : ∀ object ∈ objectRefs, ∃ source, host.objects.loadObjectStream object source) :
    (∀ sched r w', Returns host.Answers w
        (writeObjectEntries sched objectRefs objectConcurrency).run r w' →
          HonestObjects w'.store) ↔
      ¬ CanStrand host (max objectConcurrency 1) objectRefs w.store := by
  constructor
  · intro hall h
    obtain ⟨sched, e, w', hret, hdis⟩ := h.returns hloads
    exact hdis (hall sched _ w' hret)
  · intro hnot sched r w' hret
    have hpost := hret.post (wpE_writeObjectEntries hhonest hnot sched)
    cases r with
    | ok entries => exact hpost
    | error e => exact hpost

end

end Codec

section WrongBytes

open Reference

def declaredObject (byte : UInt8) : BackupObjectRef where
  objectId := uuid byte
  storageKey := "objects/original.txt"
  sha256Hex := sha256Hex [byte]
  sizeBytes := 1
  mimeType := none

/-- Two objects whose sources have changed since they were listed. -/
def changedObjects : List BackupObjectRef := [declaredObject 1, declaredObject 2]

def changedApplication : Host := application [] [] changedObjects fun _ => .ok (.ok [0])

theorem loads_changedApplication : ∀ object ∈ changedObjects,
    ∃ source, changedApplication.objects.loadObjectStream object source :=
  fun _ _ => ⟨_, rfl⟩

theorem canStrand_changedObjects :
    CanStrand changedApplication (max 2 1) changedObjects emptyWorld.store := by
  have hfirst : sha256Hex [0] ≠ (declaredObject 1).sha256Hex := by decide +kernel
  have hsecond : sha256Hex [0] ≠ (declaredObject 2).sha256Hex := by decide +kernel
  refine ⟨by decide, 0, 1, declaredObject 1, declaredObject 2, ⟨rfl, ⟨[0], rfl, ?_⟩, ?_, ?_⟩,
    by decide, rfl, .ok (.ok [0]), rfl, ?_⟩
  · have hslash : '/' ∉ (declaredObject 1).sha256Hex.toList := slash_notMem_sha256Hex _
    rw [lastSegment_objectContentKey hslash]
    exact hfirst
  · exact AList.notMem_empty _
  · simp
  · rintro _ ⟨⟩
    exact hsecond

theorem object_store_stays_honest_iff_changedObjects :
    ¬ ∀ sched r w', Returns changedApplication.Answers emptyWorld
      (writeObjectEntries sched changedObjects 2).run r w' → HonestObjects w'.store := by
  intro hall
  exact (object_store_stays_honest_iff honestObjects_empty loads_changedApplication).mp hall
    canStrand_changedObjects

/-- A failed write of objects leaves a blob that does not hash to its key. -/
theorem failed_write_strands_blob : HonestObjects emptyWorld.store ∧
    ∃ sched e w', Returns changedApplication.Answers emptyWorld
      (writeObjectEntries sched changedObjects 2).run (.error e) w' ∧ ¬ HonestObjects w'.store :=
  ⟨honestObjects_empty, canStrand_changedObjects.returns loads_changedApplication⟩

end WrongBytes

end GraphqlOrmBackup

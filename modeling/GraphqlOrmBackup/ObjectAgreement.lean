import GraphqlOrmBackup.Environment
import GraphqlOrmBackup.ObjectEntries
import Mathlib.Data.List.Perm.Basic

/-!
# Concurrent and sequential object writes

When the source of every reference has fixed contents and no call fails,
`write_object_entries` succeeds exactly when all contents have their declared
checksums, and then its outcome is the one of writing the objects one after the
other, whatever the schedule.
-/

namespace GraphqlOrmBackup

open Interaction

/-- The application with an index that serves fixed contents. -/
def Host.serving (host : Host) (content : BackupObjectRef → Bytes) : Host :=
  { host with objects := { host.objects with
      loadObjectStream := fun object r => r = .ok (.ok (content object)) } }

variable [Crates]

section Contents

variable (content : BackupObjectRef → Bytes)

/-- The contents of the reference have the declared checksum. -/
def Matches (object : BackupObjectRef) : Prop := sha256Hex (content object) = object.sha256Hex

/-- Two of the contents differ and have one checksum. -/
def Collides (objectRefs : List BackupObjectRef) : Prop :=
  ∃ object ∈ objectRefs, ∃ object' ∈ objectRefs, content object ≠ content object' ∧
    sha256Hex (content object) = sha256Hex (content object')

/-- `s'` is `s` and one blob for every checksum that is new: the contents of a
    reference that declares it. -/
structure AddsOnePerChecksum (objectRefs : List BackupObjectRef) (s s' : Store) : Prop where
  kept : ∀ key ∈ s, s'.lookup key = s.lookup key
  mem_iff : ∀ key, key ∈ s' ↔
    key ∈ s ∨ ∃ object ∈ objectRefs, key = objectContentKey object.sha256Hex
  added : ∀ key ∉ s, ∀ body, s'.lookup key = some body → ∃ object ∈ objectRefs,
    key = objectContentKey object.sha256Hex ∧ body = content object ∧ Matches content object

/-! ## One after the other -/

omit [Crates] in
def storeObject (s : Store) (object : BackupObjectRef) : Store :=
  if objectContentKey object.sha256Hex ∈ s then s
  else s.putBlob (objectContentKey object.sha256Hex) (content object)

end Contents

/-- The tasks of `write_object_entries`, each begun when the one before it has
    returned. -/
def writeObjectsOneByOne (objectRefs : List BackupObjectRef) : BackupM (List ObjectBackupEntry) :=
  objectRefs.zipIdx.mapM' fun (object, index) => do
    let entry ← objectTask index object
    pure entry.2

section OneByOne

variable {host : Host} {content : BackupObjectRef → Bytes} {w : World}
  {objectRefs : List BackupObjectRef}

omit [Crates] in
theorem wpE_loadObjectStream {E : BackupError → World → Prop} (object : BackupObjectRef) :
    wpE (host.serving content).Answers (fun _ => True) (loadObjectStream object)
      (fun source w' => .ok (content object) = source ∧ w' = w) E w := by
  apply wpE_call trivial
  rintro r w' ⟨rfl, rfl⟩
  exact ⟨trivial, rfl, rfl⟩

/-- The checksum of the contents decides. -/
theorem wpE_hashObjectSource {α : Type} {object : BackupObjectRef} {mismatch matched : BackupM α}
    {P : α → World → Prop} {E : BackupError → World → Prop}
    (hmismatch : ¬ Matches content object →
      wpE (host.serving content).Answers (fun _ => True) mismatch P E w)
    (hmatched : Matches content object →
      wpE (host.serving content).Answers (fun _ => True) matched P E w) :
    wpE (host.serving content).Answers (fun _ => True)
      (Fallible.ofExcept (hashObjectSource (.ok (content object))) >>= fun actual =>
        if actual ≠ object.sha256Hex then mismatch else matched) P E w := by
  refine wpE.seq (P := fun actual w' => sha256Hex (content object) = actual ∧ w' = w)
    (wpE_ofExcept.mpr ⟨trivial, rfl, rfl⟩) ?_
  rintro _ w - ⟨rfl, rfl⟩
  split
  · exact hmismatch ‹_›
  · exact hmatched (not_not.mp ‹_›)

/-- One task by itself. -/
theorem wpE_objectTask (index : Nat) (object : BackupObjectRef) :
    wpE (host.serving content).Answers (fun _ => True) (objectTask index object)
      (fun entry w' => entry = (index, objectBackupEntry object) ∧ Matches content object ∧
        w'.store = storeObject content w.store object)
      (fun _ _ => ¬ Matches content object) w := by
  apply wpE.seq (wpE_loadObjectStream object)
  rintro _ w - ⟨rfl, rfl⟩
  refine wpE.seq (P := fun written w' => (written = true ↔
      objectContentKey object.sha256Hex ∉ w.store) ∧
      w'.store = storeObject content w.store object) (wpE_call trivial ?_) ?_
  · rintro r w' ⟨s', hputs, rfl⟩
    unfold PutsIfAbsent at hputs
    unfold storeObject
    cases hlookup : w.store.lookup (objectContentKey object.sha256Hex) with
    | none =>
      have hfree := AList.lookup_eq_none.mp hlookup
      rw [hlookup] at hputs
      rcases hputs with ⟨rfl, rfl⟩
      exact ⟨trivial, by simp [hfree], (if_neg hfree).symm⟩
    | some body =>
      have hmem : objectContentKey object.sha256Hex ∈ w.store :=
        Store.mem_of_lookup hlookup
      rw [hlookup] at hputs
      rcases hputs with ⟨rfl, rfl⟩
      exact ⟨trivial, by simp [hmem], (if_pos hmem).symm⟩
  rintro written w₁ - ⟨-, hstore⟩
  split
  · refine wpE_hashObjectSource (fun hnot => ?_) fun hmatch => ⟨trivial, rfl, hmatch, hstore⟩
    refine wpE.seq (P := fun _ _ => True) (wpE_call trivial ?_) fun _ _ _ _ => ⟨trivial, hnot⟩
    rintro r w' ⟨rfl, -⟩
    exact ⟨trivial, trivial⟩
  · apply wpE.seq (wpE_loadObjectStream object)
    rintro _ w₁ - ⟨rfl, rfl⟩
    exact wpE_hashObjectSource (fun hnot => ⟨trivial, hnot⟩)
      fun hmatch => ⟨trivial, rfl, hmatch, hstore⟩

/-- **One after the other.** -/
theorem wpE_writeObjectsOneByOne :
    wpE (host.serving content).Answers (fun _ => True) (writeObjectsOneByOne objectRefs)
      (fun entries w' => entries = objectRefs.map objectBackupEntry ∧
        (∀ object ∈ objectRefs, Matches content object) ∧
        w'.store = objectRefs.foldl (storeObject content) w.store)
      (fun _ _ => ∃ object ∈ objectRefs, ¬ Matches content object) w := by
  unfold writeObjectsOneByOne
  generalize 0 = start
  induction objectRefs generalizing w start with
  | nil => exact ⟨trivial, rfl, by simp, rfl⟩
  | cons object objectRefs ih =>
    rw [List.zipIdx_cons, List.mapM'_cons]
    refine wpE.seq (P := fun entry w₁ => entry = objectBackupEntry object ∧
      Matches content object ∧ w₁.store = storeObject content w.store object) ?_ ?_
    · apply wpE.seq ((wpE_objectTask start object).mono (fun _ _ _ h => h) fun _ _ _ hnot =>
        ⟨object, List.mem_cons_self, hnot⟩)
      rintro _ w₁ - ⟨rfl, hmatch, hstore⟩
      exact ⟨trivial, rfl, hmatch, hstore⟩
    rintro _ w₁ - ⟨rfl, hmatch, hstore⟩
    refine wpE.seq ((ih (w := w₁) (start + 1)).mono (fun _ _ _ h => h) ?_) ?_
    · rintro e w' - ⟨other, hother, hnot⟩
      exact ⟨other, List.mem_cons_of_mem _ hother, hnot⟩
    rintro _ w' - ⟨rfl, hall, hrest⟩
    rw [hstore] at hrest
    exact ⟨trivial, rfl, List.forall_mem_cons.mpr ⟨hmatch, hall⟩, hrest⟩

/-! ### What is added -/

theorem AddsOnePerChecksum.refl (s : Store) : AddsOnePerChecksum content [] s s where
  kept _ _ := rfl
  mem_iff key := by simp
  added key hkey body hbody := by
    rw [AList.lookup_eq_none.mpr hkey] at hbody
    contradiction

theorem AddsOnePerChecksum.append {objectRefs' : List BackupObjectRef} {s s₁ s' : Store}
    (h : AddsOnePerChecksum content objectRefs s s₁)
    (h' : AddsOnePerChecksum content objectRefs' s₁ s') :
    AddsOnePerChecksum content (objectRefs ++ objectRefs') s s' where
  kept key hkey := (h'.kept key ((h.mem_iff key).mpr (Or.inl hkey))).trans (h.kept key hkey)
  mem_iff key := by
    rw [h'.mem_iff, h.mem_iff, or_assoc]
    simp only [List.mem_append, or_and_right, exists_or]
  added key hkey body hbody := by
    by_cases hmid : key ∈ s₁
    · rw [h'.kept key hmid] at hbody
      obtain ⟨object, hobject, hadded⟩ := h.added key hkey body hbody
      exact ⟨object, List.mem_append_left _ hobject, hadded⟩
    · obtain ⟨object, hobject, hadded⟩ := h'.added key hmid body hbody
      exact ⟨object, List.mem_append_right _ hobject, hadded⟩

theorem addsOnePerChecksum_storeObject {object : BackupObjectRef}
    (hmatch : Matches content object) (s : Store) :
    AddsOnePerChecksum content [object] s (storeObject content s object) := by
  unfold storeObject
  split
  · next hmem =>
    constructor
    · exact fun _ _ => rfl
    · intro key
      simp only [List.mem_singleton, exists_eq_left]
      exact ⟨Or.inl, fun h => h.elim id fun heq => heq ▸ hmem⟩
    · intro key hkey body hbody
      rw [AList.lookup_eq_none.mpr hkey] at hbody
      contradiction
  · next hfree =>
    constructor
    · intro key hkey
      rw [Store.lookup_putBlob_of_ne]
      rintro rfl
      exact hfree hkey
    · intro key
      simp only [Store.putBlob, AList.mem_insert, List.mem_singleton, exists_eq_left]
      exact or_comm
    · intro key hkey body hbody
      by_cases heq : key = objectContentKey object.sha256Hex
      · rw [heq, Store.lookup_putBlob_self] at hbody
        exact ⟨object, List.mem_cons_self, heq, (Option.some.inj hbody).symm, hmatch⟩
      · rw [Store.lookup_putBlob_of_ne _ _ heq, AList.lookup_eq_none.mpr hkey] at hbody
        contradiction

theorem addsOnePerChecksum_foldl (hall : ∀ object ∈ objectRefs, Matches content object) (s : Store) :
    AddsOnePerChecksum content objectRefs s (objectRefs.foldl (storeObject content) s) := by
  induction objectRefs generalizing s with
  | nil => exact AddsOnePerChecksum.refl s
  | cons object objectRefs ih =>
    rw [List.forall_mem_cons] at hall
    exact (addsOnePerChecksum_storeObject hall.1 s).append (ih hall.2 _)

/-- What is added is determined, unless contents collide. -/
theorem AddsOnePerChecksum.agree {s s₁ s₂ : Store} (h₁ : AddsOnePerChecksum content objectRefs s s₁)
    (h₂ : AddsOnePerChecksum content objectRefs s s₂) (hcollides : ¬ Collides content objectRefs) :
    ∀ key, s₁.lookup key = s₂.lookup key := by
  intro key
  by_cases hkey : key ∈ s
  · rw [h₁.kept key hkey, h₂.kept key hkey]
  have hmem : key ∈ s₁ ↔ key ∈ s₂ := (h₁.mem_iff key).trans (h₂.mem_iff key).symm
  cases hbody₁ : s₁.lookup key with
  | none =>
    rw [AList.lookup_eq_none] at hbody₁
    exact (AList.lookup_eq_none.mpr fun h => hbody₁ (hmem.mpr h)).symm
  | some body₁ =>
    obtain ⟨body₂, hbody₂⟩ := Store.exists_lookup (hmem.mp (Store.mem_of_lookup hbody₁))
    obtain ⟨object, hobject, heq, rfl, hmatch⟩ := h₁.added key hkey body₁ hbody₁
    obtain ⟨object', hobject', heq', rfl, hmatch'⟩ := h₂.added key hkey _ hbody₂
    have hsha : object.sha256Hex = object'.sha256Hex :=
      objectContentKey_injective (heq.symm.trans heq')
    rw [hbody₂]
    refine congrArg some (by_contra fun hne => hcollides ?_)
    exact ⟨object, hobject, object', hobject', hne, hmatch.trans (hsha.trans hmatch'.symm)⟩

end OneByOne

/-! ## The pool -/

section Pool

variable (content : BackupObjectRef → Bytes)

/-- What is known of a task by its stage. -/
def ContentFact (index : Nat) (object : BackupObjectRef) : ObjectStage → Prop
  | .put source => source = .ok (content object)
  | .discard _ => ¬ Matches content object
  | .done (.ok entry) => entry = (index, objectBackupEntry object) ∧ Matches content object
  | .done (.error _) => ¬ Matches content object
  | _ => True

/-- The store of a pool in which no task has failed: what has been added are
    contents of references, and a task past its write has its key in place. -/
structure Settled (objectRefs : List BackupObjectRef) (s : Store) (pool : ObjectPool) (s' : Store) :
    Prop where
  added : ∀ key ∉ s, ∀ body, s'.lookup key = some body → ∃ object ∈ objectRefs,
    key = objectContentKey object.sha256Hex ∧ body = content object ∧ Matches content object
  holds : ∀ task ∈ pool.flight, task.stage.HoldsKey → task.key ∈ s'
  collected : ∀ entry ∈ pool.collected, entry.2.contentKey ∈ s'

/-- The invariant of the pool. -/
structure Agreeing (objectRefs : List BackupObjectRef) (w : World) (pool : ObjectPool)
    (w' : World) : Prop where
  adds : AddsObjects w w'
  discard : ∀ task ∈ pool.flight, ∀ actual, task.stage = .discard actual → task.key ∉ w.store
  tasks : ∀ task ∈ pool.flight, objectRefs[task.index]? = some task.object ∧
    ContentFact content task.index task.object task.stage
  entries : ∀ entry ∈ pool.collected, ∃ object, objectRefs[entry.1]? = some object ∧
    entry.2 = objectBackupEntry object ∧ Matches content object
  indices : (pool.flight.map (·.index) ++ pool.collected.map Prod.fst).Perm
    (List.range pool.admitted)
  settled : (∃ task ∈ pool.flight, task.stage.Fails) ∨
    Settled content objectRefs w.store pool w'.store

variable {content} {host : Host} {w w₁ w' : World} {objectRefs : List BackupObjectRef}
  {pool pool' : ObjectPool} {index n : Nat} {object : BackupObjectRef} {stage stage' : ObjectStage}

theorem contentFact_of_checksum {bytes : Bytes} (hbytes : bytes = content object)
    (hstage : stage' = stageAfterPut index object bytes ∨
      stage' = stageAfterRecheck index object (.ok bytes)) :
    ContentFact content index object stage' := by
  subst hbytes
  by_cases hmatch : sha256Hex (content object) = object.sha256Hex
  · rcases hstage with rfl | rfl <;> simp only [stageAfterPut, stageAfterRecheck, if_pos hmatch]
    · exact ⟨rfl, hmatch⟩
    · exact ⟨rfl, hmatch⟩
  · rcases hstage with rfl | rfl <;> simp only [stageAfterPut, stageAfterRecheck, if_neg hmatch]
    · exact hmatch
    · exact hmatch

theorem StageStep.contentFact
    (hmove : StageStep (host.serving content) index object w₁ stage w' stage')
    (h : ContentFact content index object stage) : ContentFact content index object stage' := by
  cases hmove with
  | loaded hload => exact Except.ok.inj hload
  | notLoaded hload => cases hload
  | written => exact contentFact_of_checksum (Except.ok.inj h) (Or.inl rfl)
  | broken => cases h
  | «exists» => trivial
  | rechecked hload =>
    cases Except.ok.inj hload
    exact contentFact_of_checksum rfl (Or.inr rfl)
  | notRechecked hload => cases hload
  | discarded => exact h

/-- A move that does not fail keeps the store settled. -/
theorem Settled.move {admitted i : Nat} {flight : List ObjectFlight}
    {collected : List (Nat × ObjectBackupEntry)} {task : ObjectFlight} {s : Store}
    (h : Settled content objectRefs s ⟨admitted, flight, collected⟩ w₁.store)
    (htask : flight[i]? = some task) (hobject : task.object ∈ objectRefs)
    (hfact : ContentFact content task.index task.object task.stage)
    (hmove : StageStep (host.serving content) task.index task.object w₁ task.stage w' stage')
    (hfails : ¬ stage'.Fails) :
    Settled content objectRefs s ⟨admitted, flight.set i { task with stage := stage' }, collected⟩
      w'.store := by
  have hmem := List.mem_of_getElem? htask
  -- the tasks that hold their keys after the move, in a store that has lost none
  have hholds : (∀ key ∈ w₁.store, key ∈ w'.store) → (stage'.HoldsKey → task.key ∈ w'.store) →
      ∀ t ∈ flight.set i { task with stage := stage' }, t.stage.HoldsKey → t.key ∈ w'.store := by
    intro hkeep hkey t ht hstage
    rcases List.mem_or_eq_of_mem_set ht with ht | rfl
    · exact hkeep _ (h.holds t ht hstage)
    · exact hkey hstage
  have hsame : w' = w₁ → (stage'.HoldsKey → task.key ∈ w₁.store) →
      Settled content objectRefs s ⟨admitted, flight.set i { task with stage := stage' }, collected⟩
        w'.store := by
    rintro rfl hkey
    exact ⟨h.added, hholds (fun _ h => h) hkey, h.collected⟩
  rcases task with ⟨index, object, stage⟩
  cases hmove with
  | loaded => exact hsame rfl False.elim
  | notLoaded => exact absurd trivial hfails
  | broken => exact absurd trivial hfails
  | notRechecked => exact absurd trivial hfails
  | discarded => exact absurd trivial hfails
  | «exists» hkey => exact hsame rfl fun _ => hkey
  | rechecked => exact hsame rfl fun _ => h.holds _ hmem trivial
  | @written bytes hfree =>
    obtain rfl : bytes = content object := Except.ok.inj hfact
    have hmatch : Matches content object := by
      by_contra hnot
      have hne : sha256Hex (content object) ≠ object.sha256Hex := hnot
      rw [stageAfterPut, if_neg hne] at hfails
      exact hfails trivial
    have hkeep : ∀ key ∈ w₁.store, key ∈ (w₁.withStore
        (w₁.store.putBlob (objectContentKey object.sha256Hex) (content object))).store :=
      fun key hkey => (AList.mem_insert _).mpr (Or.inr hkey)
    refine ⟨?_, hholds hkeep fun _ => (AList.mem_insert _).mpr (Or.inl rfl),
      fun entry hentry => hkeep _ (h.collected entry hentry)⟩
    intro key hkey body hbody
    by_cases heq : key = objectContentKey object.sha256Hex
    · rw [heq, World.withStore_store, Store.lookup_putBlob_self] at hbody
      exact ⟨object, hobject, heq, (Option.some.inj hbody).symm, hmatch⟩
    · rw [World.withStore_store, Store.lookup_putBlob_of_ne _ _ heq] at hbody
      exact h.added key hkey body hbody

theorem Agreeing.start (w : World) : Agreeing content objectRefs w ⟨0, [], []⟩ w where
  adds := AddsObjects.refl w
  discard := by simp
  tasks := by simp
  entries := by simp
  indices := List.Perm.refl _
  settled := by
    refine Or.inr ⟨?_, by simp, by simp⟩
    intro key hkey body hbody
    rw [AList.lookup_eq_none.mpr hkey] at hbody
    contradiction

theorem Agreeing.enter {admitted : Nat} {flight : List ObjectFlight}
    {collected : List (Nat × ObjectBackupEntry)}
    (h : Agreeing content objectRefs w ⟨admitted, flight, collected⟩ w₁)
    (hobject : objectRefs[admitted]? = some object) :
    Agreeing content objectRefs w ⟨admitted + 1, flight ++ [⟨admitted, object, .load⟩], collected⟩
      w₁ := by
  refine ⟨h.adds, ?_, ?_, h.entries, ?_, ?_⟩
  · intro t ht actual hactual
    rcases List.mem_append.mp ht with ht | ht
    · exact h.discard t ht actual hactual
    · rw [List.mem_singleton.mp ht] at hactual
      cases hactual
  · intro t ht
    rcases List.mem_append.mp ht with ht | ht
    · exact h.tasks t ht
    · rw [List.mem_singleton.mp ht]
      exact ⟨hobject, trivial⟩
  · rw [List.map_append, List.map_singleton, List.range_succ, List.append_assoc]
    exact (List.perm_append_comm.append_left _).trans
      ((List.append_assoc _ _ _).symm ▸ h.indices.append_right [admitted])
  · rcases h.settled with ⟨t, ht, hfails⟩ | hsettled
    · exact Or.inl ⟨t, List.mem_append_left _ ht, hfails⟩
    · refine Or.inr ⟨hsettled.added, fun t ht hstage => ?_, hsettled.collected⟩
      rcases List.mem_append.mp ht with ht | ht
      · exact hsettled.holds t ht hstage
      · rw [List.mem_singleton.mp ht] at hstage
        exact hstage.elim

theorem Agreeing.move {admitted i : Nat} {flight : List ObjectFlight}
    {collected : List (Nat × ObjectBackupEntry)} {task : ObjectFlight}
    (h : Agreeing content objectRefs w ⟨admitted, flight, collected⟩ w₁)
    (htask : flight[i]? = some task)
    (hmove : StageStep (host.serving content) task.index task.object w₁ task.stage w' stage') :
    Agreeing content objectRefs w ⟨admitted, flight.set i { task with stage := stage' }, collected⟩
      w' := by
  have hmem := List.mem_of_getElem? htask
  have hlt : i < flight.length := (List.getElem?_eq_some_iff.mp htask).1
  obtain ⟨hadds, hdiscard⟩ := hmove.addsObjects h.adds (h.discard task hmem)
  obtain ⟨hobject, hfact⟩ := h.tasks task hmem
  refine ⟨hadds, ?_, ?_, h.entries, ?_, ?_⟩
  · intro t ht
    rcases List.mem_or_eq_of_mem_set ht with ht | rfl
    · exact h.discard t ht
    · exact hdiscard
  · intro t ht
    rcases List.mem_or_eq_of_mem_set ht with ht | rfl
    · exact h.tasks t ht
    · exact ⟨hobject, hmove.contentFact hfact⟩
  · rw [map_index_set htask]
    exact h.indices
  · by_cases hfails : stage'.Fails
    · exact Or.inl ⟨_, List.mem_set hlt _, hfails⟩
    · rcases h.settled with hex | hsettled
      · exact Or.inl (fails_set htask hmove.fails hex)
      · exact Or.inr (hsettled.move htask (List.mem_of_getElem? hobject) hfact hmove hfails)

theorem Agreeing.collect {admitted i : Nat} {flight : List ObjectFlight}
    {collected : List (Nat × ObjectBackupEntry)} {entry : Nat × ObjectBackupEntry}
    (h : Agreeing content objectRefs w ⟨admitted, flight, collected⟩ w₁)
    (htask : flight[i]? = some ⟨index, object, .done (.ok entry)⟩) :
    Agreeing content objectRefs w ⟨admitted, flight.eraseIdx i, collected ++ [entry]⟩ w₁ := by
  have hsub : List.Sublist (flight.eraseIdx i) flight := List.eraseIdx_sublist _ _
  have hmem := List.mem_of_getElem? htask
  obtain ⟨hobject, hentry, hmatch⟩ : objectRefs[index]? = some object ∧
      entry = (index, objectBackupEntry object) ∧ Matches content object := h.tasks _ hmem
  subst hentry
  refine ⟨h.adds, fun t ht => h.discard t (hsub.subset ht), fun t ht => h.tasks t (hsub.subset ht),
    ?_, ?_, ?_⟩
  · intro entry hentry
    rcases List.mem_append.mp hentry with hentry | hentry
    · exact h.entries entry hentry
    · rw [List.mem_singleton.mp hentry]
      exact ⟨object, hobject, rfl, hmatch⟩
  · refine List.Perm.trans ?_ h.indices
    rcases List.getElem?_eq_some_iff.mp htask with ⟨hlt, heq⟩
    have hflight := (List.getElem_cons_eraseIdx_perm hlt).map (·.index)
    rw [heq, List.map_cons] at hflight
    rw [List.map_append, List.map_singleton]
    refine List.Perm.trans ?_ (hflight.append_right _)
    rw [List.cons_append, ← List.append_assoc]
    exact List.perm_append_singleton _ _
  · rcases h.settled with ⟨t, ht, hfails⟩ | hsettled
    · refine Or.inl ⟨t, ?_, hfails⟩
      rcases List.mem_iff_getElem?.mp ht with ⟨k, hk⟩
      refine List.mem_eraseIdx_iff_getElem?.mpr ⟨k, ?_, hk⟩
      rintro rfl
      rw [htask] at hk
      rw [← Option.some.inj hk] at hfails
      exact hfails
    · refine Or.inr ⟨hsettled.added, fun t ht => hsettled.holds t (hsub.subset ht), ?_⟩
      have hkey : ObjectFlight.key ⟨index, object, .done (.ok (index, objectBackupEntry object))⟩ ∈
          w₁.store := hsettled.holds _ hmem trivial
      intro entry hentry
      rcases List.mem_append.mp hentry with hentry | hentry
      · exact hsettled.collected entry hentry
      · rw [List.mem_singleton.mp hentry]
        exact hkey

theorem Agreeing.poolStep (h : Agreeing content objectRefs w pool w₁)
    (hstep : ObjectPoolStep (StageStep (host.serving content)) objectRefs n (w₁, pool) (w', pool')) :
    Agreeing content objectRefs w pool' w' := by
  cases hstep with
  | enter hobject _ => exact h.enter hobject
  | move htask hmove => exact h.move htask hmove
  | collect htask => exact h.collect htask

/-! ### The order of the entries -/

omit [Crates] in
/-- Sorted by index, indices that are `0, 1, …` in some order are in this order. -/
theorem map_fst_mergeSort {collected : List (Nat × ObjectBackupEntry)} {count : Nat}
    (h : (collected.map Prod.fst).Perm (List.range count)) :
    (collected.mergeSort fun left right => left.1 ≤ right.1).map Prod.fst = List.range count := by
  have hsorted : ((collected.mergeSort fun left right => left.1 ≤ right.1).map Prod.fst).Pairwise
      (· ≤ ·) := by
    rw [List.pairwise_map]
    apply List.Pairwise.imp _ (List.pairwise_mergeSort _ _ collected)
    · intro left right hle
      exact of_decide_eq_true hle
    · intro a b c
      simpa using Nat.le_trans
    · intro a b
      simpa using Nat.le_total a.1 b.1
  have hrange : (List.range count).Pairwise (· ≤ ·) := List.pairwise_lt_range.imp Nat.le_of_lt
  have hperm := ((List.mergeSort_perm collected fun left right => left.1 ≤ right.1).map
    Prod.fst).trans h
  exact hperm.eq_of_pairwise (fun _ _ _ _ => Nat.le_antisymm) hsorted hrange

theorem Agreeing.length_le_of_all {admitted : Nat} {collected : List (Nat × ObjectBackupEntry)}
    (h : Agreeing content objectRefs w ⟨admitted, [], collected⟩ w')
    (hall : objectRefs.length ≤ admitted) : admitted = objectRefs.length := by
  have hindices : (collected.map Prod.fst).Perm (List.range admitted) := h.indices
  apply Nat.le_antisymm _ hall
  by_contra hlt
  obtain ⟨entry, hentry, hidx⟩ := List.mem_map.mp
    (hindices.mem_iff.mpr (List.mem_range.mpr (Nat.lt_of_not_le hlt)))
  obtain ⟨object, hobject, -⟩ := h.entries entry hentry
  rw [hidx, List.getElem?_eq_none (Nat.le_refl _)] at hobject
  contradiction

/-- **Listing order.**  When the pool has finished, the sorted results are the
    entries of the references, one by one. -/
theorem Agreeing.map_snd_mergeSort {admitted : Nat} {collected : List (Nat × ObjectBackupEntry)}
    (h : Agreeing content objectRefs w ⟨admitted, [], collected⟩ w')
    (hall : objectRefs.length ≤ admitted) :
    (collected.mergeSort fun left right => left.1 ≤ right.1).map Prod.snd =
      objectRefs.map objectBackupEntry := by
  have hindices := h.indices
  rw [h.length_le_of_all hall] at hindices
  have hfst := map_fst_mergeSort hindices
  generalize hsorted : (collected.mergeSort fun left right => left.1 ≤ right.1) = sorted at hfst
  have hlength : sorted.length = objectRefs.length := by
    simpa using congrArg List.length hfst
  apply List.ext_getElem
  · simp [hlength]
  · intro i hi hi'
    rw [List.getElem_map, List.getElem_map]
    have hlt : i < sorted.length := by simpa using hi
    have hmem : sorted[i] ∈ collected := by
      apply List.mem_mergeSort.mp
      rw [hsorted]
      exact List.getElem_mem hlt
    obtain ⟨object, hobject, hentry, -⟩ := h.entries _ hmem
    have hidx : sorted[i].1 = i := by
      have hget := List.getElem_of_eq hfst (by simpa using hlt : i < (sorted.map Prod.fst).length)
      simpa using hget
    rw [hidx, List.getElem?_eq_getElem (by simpa using hi')] at hobject
    rw [hentry, Option.some.inj hobject]

/-! ### What is added -/

/-- When the pool has finished, every reference has an entry. -/
theorem Agreeing.exists_entry {admitted : Nat} {collected : List (Nat × ObjectBackupEntry)}
    (h : Agreeing content objectRefs w ⟨admitted, [], collected⟩ w')
    (hall : objectRefs.length ≤ admitted) (hobject : object ∈ objectRefs) :
    ∃ entry ∈ collected, entry.2 = objectBackupEntry object ∧ Matches content object := by
  have hindices : (collected.map Prod.fst).Perm (List.range admitted) := h.indices
  rcases List.mem_iff_getElem.mp hobject with ⟨i, hi, hget⟩
  obtain ⟨entry, hentry, hidx⟩ := List.mem_map.mp
    (hindices.mem_iff.mpr (List.mem_range.mpr (Nat.lt_of_lt_of_le hi hall)))
  obtain ⟨other, hother, hvalue, hmatch⟩ := h.entries entry hentry
  rw [hidx, List.getElem?_eq_getElem hi, hget] at hother
  obtain rfl := Option.some.inj hother
  exact ⟨entry, hentry, hvalue, hmatch⟩

theorem Agreeing.addsOnePerChecksum {admitted : Nat}
    {collected : List (Nat × ObjectBackupEntry)}
    (h : Agreeing content objectRefs w ⟨admitted, [], collected⟩ w')
    (hall : objectRefs.length ≤ admitted) :
    AddsOnePerChecksum content objectRefs w.store w'.store := by
  have hsettled : Settled content objectRefs w.store ⟨admitted, [], collected⟩ w'.store := by
    rcases h.settled with ⟨t, ht, -⟩ | hsettled
    · exact absurd ht List.not_mem_nil
    · exact hsettled
  constructor
  · intro key hkey
    exact h.adds.lookup key (Or.inl hkey)
  · intro key
    constructor
    · intro hkey
      by_cases hold : key ∈ w.store
      · exact Or.inl hold
      · obtain ⟨body, hbody⟩ := Store.exists_lookup hkey
        obtain ⟨object, hobject, heq, -⟩ := hsettled.added key hold body hbody
        exact Or.inr ⟨object, hobject, heq⟩
    · intro hkey
      rcases hkey with hkey | ⟨object, hobject, rfl⟩
      · exact h.adds.mem hkey
      · obtain ⟨entry, hentry, hvalue, -⟩ := h.exists_entry hall hobject
        have hkey := hsettled.collected entry hentry
        rw [hvalue] at hkey
        exact hkey
  · exact hsettled.added

/-- **Run lemma.**  A run that succeeds has one entry per reference, in listing
    order; a run that fails has met contents with another checksum. -/
theorem wpE_writeObjectEntries_serving (sched : List Poll) (objectConcurrency : Nat) :
    wpE (host.serving content).Answers (fun _ => True)
      (writeObjectEntries sched objectRefs objectConcurrency)
      (fun entries w' => entries = objectRefs.map objectBackupEntry ∧
        (∀ object ∈ objectRefs, Matches content object) ∧
        AddsOnePerChecksum content objectRefs w.store w'.store)
      (fun _ _ => ∃ object ∈ objectRefs, ¬ Matches content object) w := by
  have hpool : wpE (host.serving content).Answers (fun _ => True)
      (tryCollect (max objectConcurrency 1) sched (objectTasks objectRefs))
      (fun entries w' => ∃ admitted, objectRefs.length ≤ admitted ∧
        Agreeing content objectRefs w ⟨admitted, [], entries⟩ w')
      (fun _ _ => ∃ object ∈ objectRefs, ¬ Matches content object) w := by
    apply wp_objectPool (J := Agreeing content objectRefs w) (movesOf_stageStep _) (by omega)
      (fun _ _ _ _ hstep h => h.poolStep hstep) (fun _ _ _ => trivial) _ _ sched
      (Agreeing.start w)
    · intro admitted collected w' hall h
      exact ⟨admitted, hall, h⟩
    · intro pool w' i task e h htask hfailed
      have hmem := List.mem_of_getElem? htask
      obtain ⟨hobject, hfact⟩ := h.tasks task hmem
      rw [hfailed] at hfact
      exact ⟨task.object, List.mem_of_getElem? hobject, hfact⟩
  apply wpE.seq hpool
  intro entries w' _ ⟨admitted, hall, h⟩
  have hmatches : ∀ object ∈ objectRefs, Matches content object := by
    intro object hobject
    obtain ⟨_, _, _, hmatch⟩ := h.exists_entry hall hobject
    exact hmatch
  exact ⟨trivial, h.map_snd_mergeSort hall, hmatches, h.addsOnePerChecksum hall⟩

end Pool

/-! ## Agreement -/

/-- **Concurrent writes agree with sequential writes.**  Under every schedule and
    any bound `write_object_entries` returns.  It succeeds exactly when the contents
    of every reference have the declared checksum.  Then its entries are those of the
    references in listing order, the store is the given one and one blob for each
    new checksum, and so it is after every run that writes the objects one after
    the other: the two stores agree under all keys, unless two of the contents
    are a collision. -/
theorem concurrent_object_writes_agree (host : Host) (content : BackupObjectRef → Bytes)
    (sched : List Poll) (objectRefs : List BackupObjectRef) (objectConcurrency : Nat) (w : World) :
    (∃ result w', Returns (host.serving content).Answers w
      (writeObjectEntries sched objectRefs objectConcurrency).run result w') ∧
    ∀ result w', Returns (host.serving content).Answers w
        (writeObjectEntries sched objectRefs objectConcurrency).run result w' →
      (result.isOk ↔ ∀ object ∈ objectRefs, Matches content object) ∧
      ∀ entries, result = .ok entries →
        entries = objectRefs.map objectBackupEntry ∧
        AddsOnePerChecksum content objectRefs w.store w'.store ∧
        ∀ result₁ w₁, Returns (host.serving content).Answers w
            (writeObjectsOneByOne objectRefs).run result₁ w₁ →
          result₁ = .ok entries ∧ AddsOnePerChecksum content objectRefs w.store w₁.store ∧
            ((∀ key, w'.store.lookup key = w₁.store.lookup key) ∨
              Collides content objectRefs) := by
  constructor
  · have hload : ∀ object, (host.serving content).objects.loadObjectStream object
        (.ok (.ok (content object))) := fun _ => rfl
    exact ⟨_, _, Host.returns_run hload _ w⟩
  intro result w' hret
  have hrun := hret.post (wpE_writeObjectEntries_serving sched objectConcurrency)
  cases result with
  | error e =>
    rcases hrun with ⟨object, hobject, hnot⟩
    constructor
    · constructor
      · intro hok
        contradiction
      · intro hall
        exact absurd (hall object hobject) hnot
    · intro entries heq
      contradiction
  | ok entries =>
    rcases hrun with ⟨rfl, hall, hadds⟩
    refine ⟨iff_of_true rfl hall, ?_⟩
    rintro _ ⟨⟩
    refine ⟨rfl, hadds, ?_⟩
    intro result₁ w₁ hret₁
    have hrun₁ := hret₁.post wpE_writeObjectsOneByOne
    cases result₁ with
    | error e =>
      rcases hrun₁ with ⟨object, hobject, hnot⟩
      exact absurd (hall object hobject) hnot
    | ok entries₁ =>
      rcases hrun₁ with ⟨rfl, -, hstore⟩
      have hadds₁ : AddsOnePerChecksum content objectRefs w.store w₁.store := by
        rw [hstore]
        exact addsOnePerChecksum_foldl hall _
      refine ⟨rfl, hadds₁, ?_⟩
      by_cases hcollides : Collides content objectRefs
      · exact Or.inr hcollides
      · exact Or.inl (hadds.agree hadds₁ hcollides)

end GraphqlOrmBackup

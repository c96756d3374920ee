import GraphqlOrmBackup.Keys
import GraphqlOrmBackup.Repository
import GraphqlOrmBackup.Text

/-!
# The repository lock

`lock.rs`: the advisory writer lock, a blob that holds the time at which it was
written, and the way in which every writer wraps its work in it.
-/

namespace GraphqlOrmBackup

open Interaction

structure RepositoryLockOptions where
  staleAfterSeconds : Int
  isI64 : IsI64 staleAfterSeconds

def DEFAULT_LOCK_STALE_AFTER_SECONDS : Int := 3600

def RepositoryLockOptions.default : RepositoryLockOptions where
  staleAfterSeconds := DEFAULT_LOCK_STALE_AFTER_SECONDS
  isI64 := by decide

structure RepositoryLock where
  key : String
deriving DecidableEq

/-- `value.parse::<i64>()`. -/
def parseI64 (value : List Char) : Option Int := do
  let n ← Text.intOfDigits? value
  if -2 ^ 63 ≤ n ∧ n < 2 ^ 63 then some n else none

def saturatingSub (left right : Int) : Int :=
  max (-2 ^ 63) (min (left - right) (2 ^ 63 - 1))

/-- The body of a lock blob: the time in decimal. -/
def lockBody (now : Int) : Bytes := Text.utf8 (Text.decimal now)

/-- The time in a lock blob; a blob that holds none counts as written `now`. -/
def lockedAt (now : Int) (existing : Bytes) : Int :=
  ((Text.fromUtf8? existing).bind parseI64).getD now

def IsFresh (options : RepositoryLockOptions) (now : Int) (existing : Bytes) : Prop :=
  saturatingSub now (lockedAt now existing) ≤ options.staleAfterSeconds

instance (options : RepositoryLockOptions) (now : Int) (existing : Bytes) :
    Decidable (IsFresh options now existing) :=
  inferInstanceAs (Decidable (_ ≤ _))

def repositoryLocked : BackupM α := throw (.repositoryLocked repositoryLockKey)

/-- The end of `acquire`, reached when the lock in place is stale. -/
def RepositoryLock.takeOver (now : Int) : BackupM RepositoryLock := do
  deleteBlob repositoryLockKey
  let written ← putBlobIfAbsent repositoryLockKey (lockBody now)
  if written then pure ⟨repositoryLockKey⟩ else repositoryLocked

/-- `acquire` after it has read the clock. -/
def RepositoryLock.acquireAt (options : RepositoryLockOptions) (now : Int) :
    BackupM RepositoryLock := do
  let written ← putBlobIfAbsent repositoryLockKey (lockBody now)
  if written then
    pure ⟨repositoryLockKey⟩
  else
    let existing ← read fun s => s.getBlob repositoryLockKey
    if IsFresh options now existing then repositoryLocked else takeOver now

def RepositoryLock.acquire (options : RepositoryLockOptions) : BackupM RepositoryLock := do
  let now ← call .unixSeconds
  acquireAt options now

def RepositoryLock.release (lock : RepositoryLock) : BackupM Unit := deleteBlob lock.key

/-- `release_lock`. -/
def releaseLock (lock : RepositoryLock) (result : Except BackupError α) : BackupM α := do
  let releaseResult ← lock.release.attempt
  Fallible.ofExcept <| match result, releaseResult with
    | .ok value, .ok () => .ok value
    | .error err, _ => .error err
    | .ok _, .error err => .error err

/-- A writer's work under the lock. -/
def withLock (options : RepositoryLockOptions) (inner : BackupM α) : BackupM α := do
  let lock ← RepositoryLock.acquire options
  let result ← inner.attempt
  releaseLock lock result

/-! ## The time in a lock blob -/

theorem parseI64_decimal {now : Int} (h : IsI64 now) : parseI64 (Text.decimal now) = some now := by
  rw [parseI64, Text.intOfDigits?_decimal]
  exact if_pos h

@[simp] theorem lockedAt_lockBody {now : Int} (written : Int) (h : IsI64 written) :
    lockedAt now (lockBody written) = written := by
  simp [lockedAt, lockBody, parseI64_decimal h]

/-- A lock that is not fresh was written more than `staleAfterSeconds` ago. -/
theorem lt_of_not_IsFresh {options : RepositoryLockOptions} {now written : Int}
    (hwritten : IsI64 written) (h : ¬ IsFresh options now (lockBody written)) :
    written + options.staleAfterSeconds < now := by
  have hoptions := options.isI64
  rw [IsFresh, lockedAt_lockBody written hwritten, saturatingSub] at h
  unfold IsI64 at hoptions
  omega

/-! ## The lock around a writer's work -/

/-- The worlds differ in nothing but the lock blob. -/
def SameButLock (w w' : World) : Prop :=
  (∀ key, key ≠ repositoryLockKey → w'.store.lookup key = w.store.lookup key) ∧
    w'.puts = w.puts ∧ w'.restored = w.restored

/-- The assertion does not depend on the lock blob. -/
def LockFree (I : World → Prop) : Prop := ∀ w w', SameButLock w w' → I w → I w'

theorem SameButLock.refl (w : World) : SameButLock w w := ⟨fun _ _ => rfl, rfl, rfl⟩

theorem SameButLock.symm {w w' : World} (h : SameButLock w w') : SameButLock w' w :=
  ⟨fun key hkey => (h.1 key hkey).symm, h.2.1.symm, h.2.2.symm⟩

theorem SameButLock.trans {w w' w'' : World} (h : SameButLock w w') (h' : SameButLock w' w'') :
    SameButLock w w'' :=
  ⟨fun key hkey => (h'.1 key hkey).trans (h.1 key hkey), h'.2.1.trans h.2.1,
    h'.2.2.trans h.2.2⟩

theorem SameButLock.mem_iff {w w' : World} (h : SameButLock w w') {key : String}
    (hlock : key ≠ repositoryLockKey) : key ∈ w'.store ↔ key ∈ w.store :=
  Store.mem_congr (h.1 key hlock)

theorem lockFree_sameButLock (w : World) : LockFree (SameButLock w) := fun _ _ h h' =>
  SameButLock.trans h' h

theorem sameButLock_deleteBlob (w : World) :
    SameButLock w (w.withStore (w.store.deleteBlob repositoryLockKey)) :=
  ⟨fun _ hkey => Store.lookup_deleteBlob_of_ne _ hkey, rfl, rfl⟩

theorem sameButLock_putsIfAbsent {w : World} {s' : Store} {body : StorageByteStream}
    {r : Except BackupError Bool} (h : PutsIfAbsent repositoryLockKey body w.store r s') :
    SameButLock w (w.withStore s') := by
  refine ⟨fun key hkey => ?_, rfl, rfl⟩
  change s'.lookup key = w.store.lookup key
  unfold PutsIfAbsent at h
  split at h
  · rw [h.2, Store.lookup_putBlob_of_ne _ _ hkey]
  · rw [h.2]
  · rw [h.2]
  · rw [h.2]

section Rules

variable {host : Host} {I : World → Prop} {w : World} {options : RepositoryLockOptions}

theorem wpE_putBlobIfAbsent_lock {J : World → Prop} (hJ : LockFree J) (h : J w) (body : Bytes) :
    wpE host.MayFail J (putBlobIfAbsent repositoryLockKey body) (fun _ => J) (fun _ => J) w := by
  apply wpE_call_mayFail h (fun _ _ h => h)
  rintro r _ ⟨s', hput, rfl⟩
  have hJ' : J (w.withStore s') := hJ w _ (sameButLock_putsIfAbsent hput) h
  cases r with
  | ok written => exact ⟨hJ', hJ'⟩
  | error e => exact ⟨hJ', hJ'⟩

theorem wpE_deleteBlob_lock {J : World → Prop} (hJ : LockFree J) (h : J w) :
    wpE host.MayFail J (deleteBlob repositoryLockKey) (fun _ => J) (fun _ => J) w := by
  have hJ' := hJ _ _ (sameButLock_deleteBlob w) h
  exact wpE_deleteBlob h (fun _ _ h => h) hJ' hJ'

theorem wpE_takeOver {J : World → Prop} (hJ : LockFree J) (h : J w) (now : Int) :
    wpE host.MayFail J (RepositoryLock.takeOver now)
      (fun lock w => lock.key = repositoryLockKey ∧ J w) (fun _ => J) w := by
  refine wpE.seq (wpE_deleteBlob_lock hJ h) fun _ w₁ h₁ _ => ?_
  refine wpE.seq (wpE_putBlobIfAbsent_lock hJ h₁ _) fun written w₂ h₂ _ => ?_
  cases written with
  | true => exact ⟨h₂, rfl, h₂⟩
  | false => exact ⟨h₂, h₂⟩

/-- Acquiring the lock, with or without success, touches nothing but its blob. -/
theorem wpE_acquire {J : World → Prop} (hJ : LockFree J) (h : J w) :
    wpE host.MayFail J (RepositoryLock.acquire options)
      (fun lock w => lock.key = repositoryLockKey ∧ J w) (fun _ => J) w := by
  have hclock : wpE host.MayFail J (call .unixSeconds) (fun _ => J) (fun _ => J) w := by
    apply wpE_call_mayFail h (fun _ _ h => h)
    rintro r w' ⟨⟨now, _, rfl⟩, rfl⟩
    exact ⟨h, h⟩
  refine wpE.seq hclock fun now w₁ h₁ _ => ?_
  refine wpE.seq (wpE_putBlobIfAbsent_lock hJ h₁ _) fun written w₂ h₂ _ => ?_
  cases written with
  | true => exact ⟨h₂, rfl, h₂⟩
  | false =>
    apply wpE.seq (P := fun _ => J) (wpE_read h₂ (fun _ _ h => h) fun _ _ => h₂)
    intro existing w₃ h₃ _
    by_cases hfresh : IsFresh options now existing
    · rw [if_pos hfresh]
      exact ⟨h₃, h₃⟩
    · rw [if_neg hfresh]
      exact wpE_takeOver hJ h₃ now

/-- **Work under the lock.**  What the work does from any world that differs from
    the first in the lock blob only, it does under the lock. -/
theorem wpE_withLock {P : α → World → Prop} {inner : BackupM α} (hI : LockFree I)
    (hP : ∀ a, LockFree (P a)) (h : I w)
    (hinner : ∀ w', SameButLock w w' → wpE host.MayFail I inner P (fun _ _ => True) w') :
    wpE host.MayFail I (withLock options inner) P (fun _ _ => True) w := by
  have hacquire : wpE host.MayFail I (RepositoryLock.acquire options)
      (fun lock w' => lock.key = repositoryLockKey ∧ SameButLock w w') (fun _ _ => True) w :=
    wp.mono (wpE_acquire (lockFree_sameButLock w) (SameButLock.refl w))
      (fun w' h' => hI w w' h' h) fun r _ _ hr => by
        cases r with
        | ok lock => exact hr
        | error e => exact trivial
  refine wpE.seq hacquire fun lock w₁ _ ⟨hkey, h₁⟩ => ?_
  refine wpE.seq (wpE_attempt (P := fun r => outcome P (fun _ _ => True) r) (hinner w₁ h₁))
    fun result w₂ h₂ hresult => ?_
  -- the outcome of the work survives the deletion of the lock blob
  have hfree : LockFree fun w => I w ∧ outcome P (fun _ _ => True) result w := by
    rintro w w' hsame ⟨h, hr⟩
    refine ⟨hI w w' hsame h, ?_⟩
    cases result with
    | ok a => exact hP a w w' hsame hr
    | error e => exact trivial
  have hrelease : wpE host.MayFail I lock.release.attempt
      (fun _ w => outcome P (fun _ _ => True) result w) (fun _ _ => True) w₂ := by
    rw [RepositoryLock.release, hkey]
    refine wpE_attempt (wp.mono (wpE_deleteBlob_lock hfree ⟨h₂, hresult⟩) (fun _ h => h.1) ?_)
    intro r w' _ hr
    cases r with
    | ok a => exact hr.2
    | error e => exact hr.2
  refine wpE.seq hrelease fun releaseResult w₃ h₃ hresult' => ?_
  rw [wpE_ofExcept]
  refine ⟨h₃, ?_⟩
  cases result with
  | error e => exact trivial
  | ok a =>
    cases releaseResult with
    | ok _ => exact hresult'
    | error e => exact trivial

/-- A writer that succeeds has removed its lock. -/
theorem wpE_withLock_unlocked (inner : BackupM α) :
    wpE host.MayFail (fun _ => True) (withLock options inner)
      (fun _ w' => w'.store.lookup repositoryLockKey = none) (fun _ _ => True) w := by
  apply wpE.seq (wpE_acquire (J := fun _ => True) (fun _ _ _ _ => trivial) trivial)
  intro lock w₁ _ hlock
  have hwork : wpE host.MayFail (fun _ => True) inner.attempt (fun _ _ => True)
      (fun _ _ => True) w₁ := by
    apply wpE_attempt
    refine wp.mono (wp_true _ _ w₁) (fun _ h => h) fun r _ _ _ => ?_
    cases r <;> trivial
  apply wpE.seq hwork
  intro result w₂ _ _
  refine wpE.seq (P := fun r w' => r = .ok () → w'.store.lookup repositoryLockKey = none) ?_ ?_
  · rw [RepositoryLock.release, hlock.1]
    refine wpE_attempt (wpE_deleteBlob trivial (fun _ _ _ => nofun) trivial fun _ => ?_)
    exact Store.lookup_deleteBlob_self _ _
  · intro released w₃ _ hreleased
    rw [wpE_ofExcept]
    refine ⟨trivial, ?_⟩
    cases result with
    | error e => trivial
    | ok a =>
      cases released with
      | ok _ => exact hreleased rfl
      | error e => trivial

/-! ## A lock that nobody holds -/

theorem wpE_acquire_free (hfree : w.store.lookup repositoryLockKey = none) :
    wpE host.Answers (fun _ => True) (RepositoryLock.acquire options)
      (fun lock w' => lock.key = repositoryLockKey ∧ SameButLock w w') (fun _ _ => False) w := by
  refine wpE.seq (P := fun _ w' => w' = w) (wpE_call trivial ?_) ?_
  · intro r w' hclock
    rcases hclock with ⟨⟨now, -, rfl⟩, rfl⟩
    exact ⟨trivial, rfl⟩
  · rintro now w' - rfl
    refine wpE.seq (P := fun written w₁ => written = true ∧ SameButLock w' w₁)
      (wpE_call trivial ?_) ?_
    · intro r w₁ hput
      rcases hput with ⟨s', hput, rfl⟩
      have hsame := sameButLock_putsIfAbsent hput
      unfold PutsIfAbsent at hput
      rw [hfree] at hput
      rw [hput.1]
      exact ⟨trivial, rfl, hsame⟩
    · intro written w₁ _ hwritten
      rw [hwritten.1]
      exact ⟨trivial, rfl, hwritten.2⟩

/-- Work that changes nothing, under a lock that nobody holds. -/
theorem wpE_withLock_unchanged {P : α → Prop} {inner : BackupM α}
    (hfree : w.store.lookup repositoryLockKey = none)
    (hinner : ∀ w', SameButLock w w' → wpE host.Answers (fun _ => True) inner
      (fun a w'' => P a ∧ w'' = w') (fun _ _ => False) w') :
    wpE host.Answers (fun _ => True) (withLock options inner)
      (fun a w' => P a ∧ ∀ key, w'.store.lookup key = w.store.lookup key)
      (fun _ _ => False) w := by
  apply wpE.seq (wpE_acquire_free hfree)
  intro lock w₁ _ hlock
  rcases hlock with ⟨hkey, hsame⟩
  refine wpE.seq (P := fun r w' => (∃ a, r = .ok a ∧ P a) ∧ w' = w₁) ?_ ?_
  · refine wpE_attempt ((hinner w₁ hsame).mono (fun a w' _ h => ?_) fun _ _ _ h => h.elim)
    exact ⟨⟨a, rfl, h.1⟩, h.2⟩
  · rintro result w₁ _ ⟨⟨a, rfl, ha⟩, rfl⟩
    refine wpE.seq (P := fun r w' => r = .ok () ∧
      w' = w₁.withStore (w₁.store.deleteBlob repositoryLockKey)) ?_ ?_
    · rw [RepositoryLock.release, hkey]
      apply wpE_attempt (wpE_call trivial _)
      intro r w' hdelete
      rcases hdelete with ⟨rfl, rfl⟩
      exact ⟨trivial, rfl, rfl⟩
    · rintro released w₂ _ ⟨rfl, rfl⟩
      refine wpE_ofExcept.mpr ⟨trivial, ha, fun key => ?_⟩
      by_cases hlock : key = repositoryLockKey
      · rw [hlock, hfree]
        exact Store.lookup_deleteBlob_self _ _
      · exact (Store.lookup_deleteBlob_of_ne _ hlock).trans (hsame.1 key hlock)

end Rules

end GraphqlOrmBackup

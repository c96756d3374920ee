import GraphqlOrmBackup.Lock
import Mathlib.Logic.Function.Basic

/-!
# Clients of the repository lock

Any number of clients that acquire and release the lock of one repository.
A step performs one call of one client; all clients read the same clock.  For
the sake of statements the system keeps track of who wrote the lock blob in
place, which the program itself does not know.
-/

namespace GraphqlOrmBackup

open Interaction

/-- Where a client stands. -/
inductive Phase where
  | idle
  | acquiring (rest : Prog Call.Response (Except BackupError RepositoryLock))
  | releasing (rest : Prog Call.Response (Except BackupError Unit))

/-- `acquire` has returned a lock and `release` has not yet run. -/
def Phase.Holds : Phase → Prop
  | .acquiring (.ret (.ok _)) => True
  | .releasing (.call _ _) => True
  | _ => False

/-- Nothing is left to run, and no lock to release. -/
def Phase.Done : Phase → Prop
  | .idle => True
  | .acquiring (.ret (.error _)) => True
  | .releasing (.ret _) => True
  | _ => False

/-- A client: the number of times it has called `acquire`, the time at which it
    last read the clock, and its phase. -/
structure Client where
  attempts : Nat
  stamp : Int
  phase : Phase

variable {K : Type}

/-- The clients of one repository.  `owner` is the client and the `acquire` that
    wrote the lock blob in place, if one of them did. -/
structure System (K : Type) where
  world : World
  clock : Int
  owner : Option (K × Nat)
  clients : K → Client

def System.lockBlob (s : System K) : Option Bytes := s.world.store.lookup repositoryLockKey

/-- The calls of the clients, under the clock they share. -/
def SharedClock (host : Host) (clock : Int) :
    (c : Call) → World → c.Response → World → Prop
  | .unixSeconds, w, r, w' => r = .ok clock ∧ w' = w
  | c, w, r, w' => host.MayFail c w r w'

/-- The time of the last look at the clock, after the call. -/
def stampAfter (clock stamp : Int) : Call → Int
  | .unixSeconds => clock
  | _ => stamp

/-- The owner of the lock blob after a call of the client. -/
def ownerAfter (writer : K × Nat) (owner : Option (K × Nat)) (before after : Option Bytes) :
    Option (K × Nat) :=
  match before, after with
  | _, none => none
  | none, some _ => some writer
  | some _, some _ => owner

inductive Action (K : Type) where
  | tick
  | start (k : K)
  | call (k : K)
  | release (k : K)

section

variable [DecidableEq K] (host : Host) (options : RepositoryLockOptions)

def System.set (s : System K) (k : K) (client : Client) : System K :=
  { s with clients := Function.update s.clients k client }

/-- The system after a call of one client. -/
def System.afterCall (s : System K) (k : K) (c : Call) (w : World) (phase : Phase) : System K where
  world := w
  clock := s.clock
  owner := ownerAfter (k, (s.clients k).attempts) s.owner s.lockBlob
    (w.store.lookup repositoryLockKey)
  clients := Function.update s.clients k
    { s.clients k with stamp := stampAfter s.clock (s.clients k).stamp c, phase }

inductive SystemStep : System K → Action K → System K → Prop where
  | tick {s : System K} {now : Int} (hle : s.clock ≤ now) (hnow : IsI64 now) :
      SystemStep s .tick { s with clock := now }
  | start {s : System K} {k : K} (hdone : (s.clients k).phase.Done) :
      SystemStep s (.start k) (s.set k ⟨(s.clients k).attempts + 1, s.clock,
        .acquiring (RepositoryLock.acquire options).run⟩)
  | acquire {s : System K} {k : K} {c : Call}
      {next : c.Response → Prog Call.Response (Except BackupError RepositoryLock)}
      {r : c.Response} {w : World} (hphase : (s.clients k).phase = .acquiring (.call c next))
      (hcall : SharedClock host s.clock c s.world r w) :
      SystemStep s (.call k) (s.afterCall k c w (.acquiring (next r)))
  | startRelease {s : System K} {k : K} {lock : RepositoryLock}
      (hphase : (s.clients k).phase = .acquiring (.ret (.ok lock))) :
      SystemStep s (.release k)
        (s.set k { s.clients k with phase := .releasing lock.release.run })
  | release {s : System K} {k : K} {c : Call}
      {next : c.Response → Prog Call.Response (Except BackupError Unit)}
      {r : c.Response} {w : World} (hphase : (s.clients k).phase = .releasing (.call c next))
      (hcall : SharedClock host s.clock c s.world r w) :
      SystemStep s (.call k) (s.afterCall k c w (.releasing (next r)))

/-- `SystemRun host options allowed s s'`: a run from `s` to `s'`, each step of
    which is taken in a state that allows it. -/
def SystemRun (allowed : System K → Action K → Prop) : System K → System K → Prop :=
  Relation.ReflTransGen fun s s' => ∃ a, SystemStep host options s a s' ∧ allowed s a

/-- No client has begun; the lock blob is whatever earlier clients have left. -/
structure System.Initial (s : System K) : Prop where
  clock : IsI64 s.clock
  idle : ∀ k, (s.clients k).phase = .idle

/-- The next call of the client is the deletion by which it takes the lock over. -/
def System.TakesOver (s : System K) (k : K) : Prop :=
  ∃ key next, (s.clients k).phase = .acquiring (.call (.deleteBlob key) next)

end

/-! ## What a call of `acquire` does -/

abbrev AcquireProg := Prog Call.Response (Except BackupError RepositoryLock)

/-- The calls of `acquire`, and its end. -/
inductive AcquireStage where
  | clock
  | put (now : Int)
  | inspect (now : Int)
  | delete (now : Int)
  | putAgain (now : Int)
  | done (result : Except BackupError RepositoryLock)

def AcquireStage.prog (options : RepositoryLockOptions) : AcquireStage → AcquireProg
  | .clock => (RepositoryLock.acquire options).run
  | .put now => (RepositoryLock.acquireAt options now).run
  | .inspect now => (do
      let existing ← read fun s => s.getBlob repositoryLockKey
      if IsFresh options now existing then repositoryLocked
      else RepositoryLock.takeOver now : BackupM RepositoryLock).run
  | .delete now => (RepositoryLock.takeOver now).run
  | .putAgain now => (do
      let written ← putBlobIfAbsent repositoryLockKey (lockBody now)
      if written then pure ⟨repositoryLockKey⟩ else repositoryLocked :
        BackupM RepositoryLock).run
  | .done result => .ret result

/-- The moves of one client, as seen from the lock blob. -/
inductive AcquireMove (options : RepositoryLockOptions) (clock : Int) :
    AcquireStage → Option Bytes → AcquireStage → Option Bytes → Prop where
  | readClock {b : Option Bytes} : AcquireMove options clock .clock b (.put clock) b
  | written {stage : AcquireStage} {now : Int} {result : Except BackupError RepositoryLock}
      (hstage : stage = .put now ∨ stage = .putAgain now)
      (hresult : ∀ lock, result = .ok lock → lock.key = repositoryLockKey) :
      AcquireMove options clock stage none (.done result) (some (lockBody now))
  | occupied {now : Int} {existing : Bytes} :
      AcquireMove options clock (.put now) (some existing) (.inspect now) (some existing)
  | stale {now : Int} {existing : Bytes} (hstale : ¬ IsFresh options now existing) :
      AcquireMove options clock (.inspect now) (some existing) (.delete now) (some existing)
  | deleted {now : Int} {b : Option Bytes} {stage : AcquireStage}
      (hstage : stage = .putAgain now ∨ ∃ e, stage = .done (.error e)) :
      AcquireMove options clock (.delete now) b stage none
  | failed {stage : AcquireStage} {b : Option Bytes} (e : BackupError) :
      AcquireMove options clock stage b (.done (.error e)) b

section

variable {host : Host} {options : RepositoryLockOptions} {clock : Int}

theorem lookup_lock_putsIfAbsent {s s' : Store} {body : Bytes} {r : Except BackupError Bool}
    (h : PutsIfAbsent repositoryLockKey (.ok body) s r s') :
    (s.lookup repositoryLockKey = none ∧ r = .ok true ∧
      s'.lookup repositoryLockKey = some body) ∨
    (∃ existing, s.lookup repositoryLockKey = some existing ∧ r = .ok false ∧ s' = s) := by
  unfold PutsIfAbsent at h
  cases hlookup : s.lookup repositoryLockKey with
  | none =>
    rw [hlookup] at h
    exact Or.inl ⟨rfl, h.1, by rw [h.2, Store.lookup_putBlob_self]⟩
  | some existing =>
    rw [hlookup] at h
    exact Or.inr ⟨existing, rfl, h.1, h.2⟩

/-- A conditional write of the lock, as seen from the lock blob. -/
theorem sharedClock_putBlobIfAbsent {now : Int} {w w' : World}
    {r : Except BackupError Bool}
    (h : SharedClock host clock (.putBlobStreamIfAbsent repositoryLockKey (.ok (lockBody now)))
      w r w') :
    (w.store.lookup repositoryLockKey = none ∧ (r = .ok true ∨ ∃ e, r = .error e) ∧
      w'.store.lookup repositoryLockKey = some (lockBody now)) ∨
    (∃ existing, w.store.lookup repositoryLockKey = some existing ∧ r = .ok false ∧
      w'.store.lookup repositoryLockKey = some existing) ∨
    (∃ e, r = .error e ∧
      w'.store.lookup repositoryLockKey = w.store.lookup repositoryLockKey) := by
  rcases h with ⟨s', hput, rfl⟩ | ⟨e, rfl, rfl | ⟨r', s', hput, rfl⟩⟩
  · rcases lookup_lock_putsIfAbsent hput with ⟨hfree, hr, hput'⟩ | ⟨existing, hlookup, rfl, rfl⟩
    · exact Or.inl ⟨hfree, Or.inl hr, hput'⟩
    · exact Or.inr (Or.inl ⟨existing, hlookup, rfl, hlookup⟩)
  · exact Or.inr (Or.inr ⟨e, rfl, rfl⟩)
  · rcases lookup_lock_putsIfAbsent hput with ⟨hfree, _, hput'⟩ | ⟨existing, hlookup, _, rfl⟩
    · exact Or.inl ⟨hfree, Or.inr ⟨e, rfl⟩, hput'⟩
    · exact Or.inr (Or.inr ⟨e, rfl, rfl⟩)

theorem sharedClock_deleteBlob {w w' : World} {r : Except BackupError Unit}
    (h : SharedClock host clock (.deleteBlob repositoryLockKey) w r w') :
    w'.store.lookup repositoryLockKey = none ∨
    (∃ e, r = .error e ∧ w' = w) := by
  rcases h with ⟨_, rfl⟩ | ⟨e, rfl, rfl | ⟨r', _, rfl⟩⟩
  · exact Or.inl (by simp [Store.lookup_deleteBlob])
  · exact Or.inr ⟨e, rfl, rfl⟩
  · exact Or.inl (by simp [Store.lookup_deleteBlob])

/-- The look at the lock in place. -/
theorem inspect_step (options : RepositoryLockOptions) (clock now : Int) (s : Store) :
    ∃ stage, (do
      let existing ← Fallible.ofExcept (s.getBlob repositoryLockKey)
      if IsFresh options now existing then repositoryLocked
      else RepositoryLock.takeOver now : BackupM RepositoryLock).run = stage.prog options ∧
      AcquireMove options clock (.inspect now) (s.lookup repositoryLockKey) stage
        (s.lookup repositoryLockKey) := by
  cases hlookup : s.lookup repositoryLockKey with
  | none =>
    have hget : s.getBlob repositoryLockKey = .error (.missingBlob repositoryLockKey) := by
      rw [Store.getBlob, hlookup]
    rw [hget]
    exact ⟨.done (.error _), rfl, .failed _⟩
  | some existing =>
    rw [Store.getBlob_eq_ok.mpr hlookup]
    by_cases hfresh : IsFresh options now existing
    · refine ⟨.done (.error (.repositoryLocked repositoryLockKey)), ?_, .failed _⟩
      exact congrArg ExceptT.run (if_pos hfresh)
    · exact ⟨.delete now, congrArg ExceptT.run (if_neg hfresh), .stale hfresh⟩

/-- **Step inversion.**  A client at a call of `acquire` moves to a stage again. -/
theorem acquire_step {stage : AcquireStage} {c : Call} {next : c.Response → AcquireProg}
    {r : c.Response} {w w' : World} (hprog : stage.prog options = .call c next)
    (h : SharedClock host clock c w r w') :
    ∃ stage', next r = stage'.prog options ∧
      AcquireMove options clock stage (w.store.lookup repositoryLockKey) stage'
        (w'.store.lookup repositoryLockKey) := by
  cases stage with
  | clock =>
    cases hprog
    rcases h with ⟨rfl, rfl⟩
    exact ⟨.put clock, rfl, .readClock⟩
  | put now =>
    cases hprog
    rcases sharedClock_putBlobIfAbsent h with ⟨hfree, hr, hput⟩ | ⟨existing, hlookup, rfl, hput⟩ |
      ⟨e, rfl, hput⟩
    · rw [hfree, hput]
      rcases hr with rfl | ⟨e, rfl⟩
      · exact ⟨.done (.ok ⟨repositoryLockKey⟩), rfl, .written (Or.inl rfl) (by rintro _ ⟨⟩; rfl)⟩
      · exact ⟨.done (.error e), rfl, .written (Or.inl rfl) (by simp)⟩
    · rw [hlookup, hput]
      exact ⟨.inspect now, rfl, .occupied⟩
    · rw [hput]
      exact ⟨.done (.error e), rfl, .failed e⟩
  | inspect now =>
    cases hprog
    rcases h with ⟨rfl, rfl⟩ | ⟨e, rfl, rfl | ⟨r', _, rfl⟩⟩
    · obtain ⟨stage, hstage, hmove⟩ := inspect_step options clock now w'.store
      exact ⟨stage, hstage, hmove⟩
    · exact ⟨.done (.error e), rfl, .failed e⟩
    · exact ⟨.done (.error e), rfl, .failed e⟩
  | delete now =>
    cases hprog
    rcases sharedClock_deleteBlob h with hdeleted | ⟨e, rfl, rfl⟩
    · rw [hdeleted]
      rcases r with e | _
      · exact ⟨.done (.error e), rfl, .deleted (Or.inr ⟨e, rfl⟩)⟩
      · exact ⟨.putAgain now, rfl, .deleted (Or.inl rfl)⟩
    · exact ⟨.done (.error e), rfl, .failed e⟩
  | putAgain now =>
    cases hprog
    rcases sharedClock_putBlobIfAbsent h with ⟨hfree, hr, hput⟩ | ⟨existing, hlookup, rfl, hput⟩ |
      ⟨e, rfl, hput⟩
    · rw [hfree, hput]
      rcases hr with rfl | ⟨e, rfl⟩
      · exact ⟨.done (.ok ⟨repositoryLockKey⟩), rfl, .written (Or.inr rfl) (by rintro _ ⟨⟩; rfl)⟩
      · exact ⟨.done (.error e), rfl, .written (Or.inr rfl) (by simp)⟩
    · rw [hlookup, hput]
      exact ⟨.done (.error (.repositoryLocked repositoryLockKey)), rfl, .failed _⟩
    · rw [hput]
      exact ⟨.done (.error e), rfl, .failed e⟩
  | done result => cases hprog

end

/-! ## One client alone -/

section

variable [DecidableEq K] {host : Host} {options : RepositoryLockOptions} {s : System K} {k : K}

theorem SystemRun.mono_allowed {allowed allowed' : System K → Action K → Prop} {s s' : System K}
    (h : SystemRun host options allowed s s') (hmono : ∀ s a, allowed s a → allowed' s a) :
    SystemRun host options allowed' s s' := by
  induction h with
  | refl => exact .refl
  | tail _ hstep ih =>
    rcases hstep with ⟨a, hstep, ha⟩
    exact ih.tail ⟨a, hstep, hmono _ a ha⟩

/-- The clock stands still. -/
def Untimed (_ : System K) (a : Action K) : Prop := a ≠ .tick

/-- A client at a stage of `acquire`. -/
def Client.at (options : RepositoryLockOptions) (attempts : Nat) (stamp : Int)
    (stage : AcquireStage) : Client :=
  ⟨attempts, stamp, .acquiring (stage.prog options)⟩

/-- The system after a client has moved to a stage of its `acquire`. -/
def System.moved (options : RepositoryLockOptions) (s : System K) (k : K) (attempts : Nat)
    (stage : AcquireStage) (w : World) : System K where
  world := w
  clock := s.clock
  owner := ownerAfter (k, attempts) s.owner s.lockBlob (w.store.lookup repositoryLockKey)
  clients := Function.update s.clients k (.at options attempts s.clock stage)

@[simp] theorem System.moved_self (attempts : Nat) (stage : AcquireStage) (w : World) :
    (s.moved options k attempts stage w).clients k = .at options attempts s.clock stage :=
  Function.update_self _ _ _

@[simp] theorem System.set_self (client : Client) : (s.set k client).clients k = client :=
  Function.update_self _ _ _

theorem step_moved {attempts : Nat} (stage stage' : AcquireStage) {c : Call}
    {next : c.Response → AcquireProg} {r : c.Response} {w : World}
    (hclient : s.clients k = .at options attempts s.clock stage)
    (hprog : stage.prog options = .call c next) (hnext : next r = stage'.prog options)
    (hcall : SharedClock host s.clock c s.world r w) :
    SystemStep host options s (.call k) (s.moved options k attempts stage' w) := by
  have hstamp : stampAfter s.clock s.clock c = s.clock := by cases c <;> rfl
  have hphase : (s.clients k).phase = .acquiring (.call c next) := by
    rw [hclient, Client.at, hprog]
  have hafter : s.afterCall k c w (.acquiring (next r)) = s.moved options k attempts stage' w := by
    simp only [System.afterCall, System.moved, hclient, Client.at, hnext, hstamp]
  exact hafter ▸ .acquire hphase hcall

/-- Looking at the clock or at the lock moves the client only. -/
theorem step_look {attempts : Nat} (stage stage' : AcquireStage) {existing : Bytes} {c : Call}
    {next : c.Response → AcquireProg} {r : c.Response}
    (hprog : stage.prog options = .call c next) (hnext : next r = stage'.prog options)
    (hblob : s.lockBlob = some existing) (hcall : SharedClock host s.clock c s.world r s.world) :
    SystemStep host options (s.set k (.at options attempts s.clock stage)) (.call k)
      (s.set k (.at options attempts s.clock stage')) := by
  have hclient : (s.set k (.at options attempts s.clock stage)).clients k =
      .at options attempts s.clock stage := System.set_self _
  have howner : ownerAfter (k, attempts) s.owner s.lockBlob s.lockBlob = s.owner := by
    rw [hblob]
    rfl
  have hmoved : (s.set k (.at options attempts s.clock stage)).moved options k attempts stage'
      s.world = s.set k (.at options attempts s.clock stage') := by
    simp only [System.moved, System.set, Function.update_idem]
    exact congrArg (fun owner => System.mk s.world s.clock owner _) howner
  exact hmoved ▸ step_moved stage stage' hclient hprog hnext hcall

/-- The clock stands still, and nobody takes the lock over. -/
def Quiet (s : System K) (a : Action K) : Prop := a ≠ .tick ∧ ∀ k, a = .call k → ¬ s.TakesOver k

omit [DecidableEq K] in
theorem not_takesOver {attempts : Nat} {stamp : Int} {stage : AcquireStage} {c : Call}
    {next : c.Response → AcquireProg}
    (hclient : s.clients k = .at options attempts stamp stage)
    (hprog : stage.prog options = .call c next) (hc : ∀ key, c ≠ .deleteBlob key) :
    Quiet s (.call k) := by
  refine ⟨nofun, ?_⟩
  rintro _ ⟨⟩ ⟨key, next', hphase⟩
  rw [hclient, Client.at, hprog] at hphase
  cases hphase
  exact hc key rfl

/-- A client that finds a lock in place goes on to look at it. -/
theorem run_findLock {existing : Bytes} (hdone : (s.clients k).phase.Done)
    (hblob : s.lockBlob = some existing) :
    SystemRun host options Quiet s (s.set k
      (.at options ((s.clients k).attempts + 1) s.clock (.inspect s.clock))) := by
  have hput : PutsIfAbsent repositoryLockKey (.ok (lockBody s.clock)) s.world.store
      (.ok false) s.world.store := by
    have hlookup : s.world.store.lookup repositoryLockKey = some existing := hblob
    unfold PutsIfAbsent
    rw [hlookup]
    exact ⟨rfl, rfl⟩
  have hclock : SharedClock host s.clock .unixSeconds s.world (.ok s.clock) s.world := ⟨rfl, rfl⟩
  have hwrite : SharedClock host s.clock (.putBlobStreamIfAbsent repositoryLockKey
      (.ok (lockBody s.clock))) s.world (.ok false) s.world := Or.inl ⟨_, hput, rfl⟩
  have hclient : ∀ stage, (s.set k (.at options ((s.clients k).attempts + 1) s.clock
      stage)).clients k = .at options ((s.clients k).attempts + 1) s.clock stage :=
    fun _ => System.set_self _
  refine .head ⟨.start k, .start hdone, nofun, nofun⟩ ?_
  refine .head ⟨.call k, step_look .clock (.put s.clock) rfl rfl hblob hclock,
    not_takesOver (hclient .clock) rfl nofun⟩ ?_
  exact .single ⟨.call k, step_look _ (.inspect s.clock) rfl rfl hblob hwrite,
    not_takesOver (hclient (.put s.clock)) rfl nofun⟩

variable (host) in
/-- A client that looks at the lock in place moves on by its age. -/
theorem step_inspect {attempts : Nat} {existing : Bytes}
    (hclient : s.clients k = .at options attempts s.clock (.inspect s.clock))
    (hblob : s.lockBlob = some existing) (stage : AcquireStage)
    (hstage : (if IsFresh options s.clock existing then repositoryLocked
      else RepositoryLock.takeOver s.clock : BackupM RepositoryLock).run = stage.prog options) :
    SystemStep host options s (.call k) (s.moved options k attempts stage s.world) := by
  have hview : SharedClock host s.clock .view s.world (.ok s.world.store) s.world :=
    Or.inl ⟨rfl, rfl⟩
  refine step_moved (c := .view) (r := .ok s.world.store) _ stage hclient rfl ?_ hview
  change (Fallible.ofExcept (s.world.store.getBlob repositoryLockKey) >>= fun existing =>
    if IsFresh options s.clock existing then repositoryLocked
    else RepositoryLock.takeOver s.clock : BackupM RepositoryLock).run = _
  rw [Store.getBlob_eq_ok.mpr hblob]
  exact hstage

/-- A client that finds a stale lock goes on to delete it. -/
theorem run_findStale {existing : Bytes} (hdone : (s.clients k).phase.Done)
    (hblob : s.lockBlob = some existing) (hstale : ¬ IsFresh options s.clock existing) :
    SystemRun host options Quiet s (s.set k
      (.at options ((s.clients k).attempts + 1) s.clock (.delete s.clock))) := by
  have hclient : (s.set k (.at options ((s.clients k).attempts + 1) s.clock
      (.inspect s.clock))).clients k =
      .at options ((s.clients k).attempts + 1) s.clock (.inspect s.clock) := System.set_self _
  have hstep := step_inspect host hclient hblob (.delete s.clock)
    (congrArg ExceptT.run (if_neg hstale))
  have hmoved : (s.set k (.at options ((s.clients k).attempts + 1) s.clock
      (.inspect s.clock))).moved options k ((s.clients k).attempts + 1) (.delete s.clock) s.world =
      s.set k (.at options ((s.clients k).attempts + 1) s.clock (.delete s.clock)) := by
    have howner : ownerAfter (k, (s.clients k).attempts + 1) s.owner s.lockBlob s.lockBlob =
        s.owner := by
      rw [hblob]
      rfl
    simp only [System.moved, System.set, Function.update_idem]
    exact congrArg (fun owner => System.mk s.world s.clock owner _) howner
  exact (run_findLock hdone hblob).tail ⟨.call k, hmoved ▸ hstep,
    not_takesOver (c := .view) hclient rfl nofun⟩

/-- The system when the client has deleted the lock to take it over. -/
def System.deleted (options : RepositoryLockOptions) (s : System K) (k : K) (attempts : Nat) :
    System K :=
  s.moved options k attempts (.putAgain s.clock)
    (s.world.withStore (s.world.store.deleteBlob repositoryLockKey))

/-- The system when the client has just taken the lock over. -/
def System.takenOver (options : RepositoryLockOptions) (s : System K) (k : K) (attempts : Nat) :
    System K where
  world := s.world.withStore ((s.world.store.deleteBlob repositoryLockKey).putBlob
    repositoryLockKey (lockBody s.clock))
  clock := s.clock
  owner := some (k, attempts)
  clients := Function.update s.clients k
    (.at options attempts s.clock (.done (.ok ⟨repositoryLockKey⟩)))

/-- The two calls of a takeover. -/
theorem steps_takeOver {attempts : Nat}
    (hclient : s.clients k = .at options attempts s.clock (.delete s.clock)) :
    SystemStep host options s (.call k) (s.deleted options k attempts) ∧
      SystemStep host options (s.deleted options k attempts) (.call k)
        (s.takenOver options k attempts) := by
  have hdelete : SharedClock host s.clock (.deleteBlob repositoryLockKey) s.world (.ok ())
      (s.world.withStore (s.world.store.deleteBlob repositoryLockKey)) := Or.inl ⟨rfl, rfl⟩
  have hfree : (s.world.store.deleteBlob repositoryLockKey).lookup repositoryLockKey = none := by
    rw [Store.lookup_deleteBlob, if_pos rfl]
  have hput : SharedClock host s.clock (.putBlobStreamIfAbsent repositoryLockKey
      (.ok (lockBody s.clock)))
      (s.world.withStore (s.world.store.deleteBlob repositoryLockKey)) (.ok true)
      (s.takenOver options k attempts).world := by
    refine Or.inl ⟨_, ?_, rfl⟩
    unfold PutsIfAbsent
    rw [World.withStore_store, hfree]
    exact ⟨rfl, rfl⟩
  have hclient' : (s.deleted options k attempts).clients k =
      .at options attempts s.clock (.putAgain s.clock) := System.moved_self _ _ _
  have hlast : (s.deleted options k attempts).moved options k attempts
      (.done (.ok ⟨repositoryLockKey⟩)) (s.takenOver options k attempts).world =
      s.takenOver options k attempts := by
    simp [System.deleted, System.moved, System.takenOver, System.lockBlob, hfree, ownerAfter]
  refine ⟨step_moved _ (.putAgain s.clock) hclient rfl rfl hdelete, ?_⟩
  rw [← hlast]
  exact step_moved _ _ hclient' rfl rfl hput

/-- A client that is about to delete the lock takes it over. -/
theorem run_takeOver {attempts : Nat}
    (hclient : s.clients k = .at options attempts s.clock (.delete s.clock)) :
    SystemRun host options Untimed s (s.takenOver options k attempts) :=
  .head ⟨.call k, (steps_takeOver hclient).1, nofun⟩
    (.single ⟨.call k, (steps_takeOver hclient).2, nofun⟩)

variable (host options) in
/-- Alone, a client that finds a stale lock takes it over. -/
theorem exists_run_takeOver {existing : Bytes} (hdone : (s.clients k).phase.Done)
    (hblob : s.lockBlob = some existing) (hstale : ¬ IsFresh options s.clock existing) :
    ∃ s', SystemRun host options Untimed s s' ∧ s'.clock = s.clock ∧
      s'.lockBlob = some (lockBody s.clock) ∧
      s'.owner = some (k, (s.clients k).attempts + 1) ∧
      s'.clients = Function.update s.clients k (.at options ((s.clients k).attempts + 1) s.clock
        (.done (.ok ⟨repositoryLockKey⟩))) := by
  have hfind : SystemRun host options Untimed s _ :=
    SystemRun.mono_allowed (run_findStale hdone hblob hstale) fun _ _ h => h.1
  refine ⟨_, hfind.trans (run_takeOver ?_), rfl,
    Store.lookup_putBlob_self _ _ _, rfl, ?_⟩
  · exact System.set_self _
  · simp [System.takenOver, System.set]

variable (host options) in
/-- A release removes the lock blob in place, whoever wrote it. -/
theorem exists_steps_release
    (hphase : (s.clients k).phase = .acquiring (.ret (.ok ⟨repositoryLockKey⟩))) :
    ∃ s₁ next s₂, SystemStep host options s (.release k) s₁ ∧
      (s₁.clients k).phase = .releasing (.call (.deleteBlob repositoryLockKey) next) ∧
      s₁.owner = s.owner ∧ SystemStep host options s₁ (.call k) s₂ ∧ s₂.lockBlob = none ∧
      ∀ j, j ≠ k → s₁.clients j = s.clients j ∧ s₂.clients j = s.clients j := by
  have hstart : SystemStep host options s (.release k) _ := .startRelease hphase
  have hreleasing : ((s.set k { s.clients k with
      phase := .releasing (RepositoryLock.release ⟨repositoryLockKey⟩).run }).clients k).phase =
      .releasing (.call (.deleteBlob repositoryLockKey) Prog.ret) := by
    simp only [System.set, Function.update_self]
    rfl
  have hdelete : SharedClock host s.clock (.deleteBlob repositoryLockKey) s.world (.ok ())
      (s.world.withStore (s.world.store.deleteBlob repositoryLockKey)) := Or.inl ⟨rfl, rfl⟩
  refine ⟨_, _, _, hstart, hreleasing, rfl, .release hreleasing hdelete, ?_, fun j hj => ?_⟩
  · exact (Store.lookup_deleteBlob _ _ _).trans (if_pos rfl)
  · simp [System.afterCall, System.set, hj]

end

end GraphqlOrmBackup

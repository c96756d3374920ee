import GraphqlOrmBackup.Database
import GraphqlOrmBackup.Keys
import GraphqlOrmBackup.Interaction.Fallible
import Mathlib.Data.List.Forall2
import Mathlib.Data.List.AList
import Mathlib.Algebra.Group.Int.Defs

/-!
# Repositories and calls

The repository as a finite map from keys to blobs, and the calls by which the
program acts on its surroundings: the repository (`repository.rs`), the clock,
and the application.

Functions that only read the repository are functions of its contents; a phase
of such reads in an operation is one call `view`.  Every other access is a call
of its own, so an operation can be stopped between any two of them.
`Host.Answers` is the behaviour of the calls when all goes well, and
`Host.MayFail` adds that a call may fail, with or without having taken effect.
-/

namespace GraphqlOrmBackup

open Interaction

abbrev Store := AList fun _ : String => Bytes

namespace Store

def getBlob (s : Store) (key : String) : Except BackupError Bytes :=
  match s.lookup key with
  | some body => .ok body
  | none => .error (.missingBlob key)

def putBlob (s : Store) (key : String) (body : Bytes) : Store := s.insert key body

def deleteBlob (s : Store) (key : String) : Store := s.erase key

theorem lookup_putBlob (s : Store) (key key' : String) (body : Bytes) :
    (s.putBlob key body).lookup key' = if key' = key then some body else s.lookup key' := by
  unfold putBlob
  split
  · subst key'
    exact AList.lookup_insert s
  · exact AList.lookup_insert_ne ‹_›

theorem lookup_deleteBlob (s : Store) (key key' : String) :
    (s.deleteBlob key).lookup key' = if key' = key then none else s.lookup key' := by
  unfold deleteBlob
  split
  · subst key'
    exact AList.lookup_erase _ s
  · exact AList.lookup_erase_ne ‹_›

@[simp] theorem lookup_putBlob_self (s : Store) (key : String) (body : Bytes) :
    (s.putBlob key body).lookup key = some body := by
  rw [lookup_putBlob, if_pos rfl]

theorem lookup_putBlob_of_ne (s : Store) {key key' : String} (body : Bytes) (h : key' ≠ key) :
    (s.putBlob key body).lookup key' = s.lookup key' := by
  rw [lookup_putBlob, if_neg h]

theorem lookup_deleteBlob_self (s : Store) (key : String) :
    (s.deleteBlob key).lookup key = none := by
  rw [lookup_deleteBlob, if_pos rfl]

theorem lookup_deleteBlob_of_ne (s : Store) {key key' : String} (h : key' ≠ key) :
    (s.deleteBlob key).lookup key' = s.lookup key' := by
  rw [lookup_deleteBlob, if_neg h]

theorem mem_of_lookup {s : Store} {key : String} {body : Bytes} (h : s.lookup key = some body) :
    key ∈ s :=
  AList.lookup_isSome.mp (Option.isSome_iff_exists.mpr ⟨body, h⟩)

theorem exists_lookup {s : Store} {key : String} (h : key ∈ s) : ∃ body, s.lookup key = some body :=
  Option.isSome_iff_exists.mp (AList.lookup_isSome.mpr h)

theorem mem_congr {s s' : Store} {key : String} (h : s'.lookup key = s.lookup key) :
    key ∈ s' ↔ key ∈ s := by
  rw [← AList.lookup_isSome, h, AList.lookup_isSome]

theorem getBlob_eq_ok {s : Store} {key : String} {body : Bytes} :
    s.getBlob key = .ok body ↔ s.lookup key = some body := by
  unfold getBlob
  cases s.lookup key <;> simp

end Store

/-- The keys `list_blobs` may return: exactly the stored keys that start with
    the prefix, in any order. -/
def Lists (s : Store) (pfx : String) (keys : List String) : Prop :=
  keys.Nodup ∧ ∀ key, key ∈ keys ↔ key ∈ s ∧ startsWith key pfx = true

inductive Call where
  | view
  | listBlobs (pfx : String)
  | putBlob (key : String) (body : Bytes)
  | putBlobStreamIfAbsent (key : String) (body : StorageByteStream)
  | deleteBlob (key : String)
  | unixSeconds
  | schemaSnapshot
  | restoreTargetIsEmpty
  | exportFull
  | exportIncremental (parentSnapshotId : Uuid)
  | restore (request : RestoreCall)
  | listObjectsForFullBackup
  | listObjectsForIncrementalBackup (sinceSnapshotId : Uuid)
  | loadObjectStream (object : BackupObjectRef)

def Call.Result : Call → Type
  | .view => Store
  | .listBlobs _ => List String
  | .putBlob _ _ => Unit
  | .putBlobStreamIfAbsent _ _ => Bool
  | .deleteBlob _ => Unit
  | .unixSeconds => Int
  | .schemaSnapshot => GraphqlOrmBackupSchema
  | .restoreTargetIsEmpty => Bool
  | .exportFull => List BackupTableExport
  | .exportIncremental _ => List BackupChangeExport
  | .restore _ => Unit
  | .listObjectsForFullBackup => List BackupObjectRef
  | .listObjectsForIncrementalBackup _ => List BackupObjectRef
  | .loadObjectStream _ => StorageByteStream

def Call.Response (c : Call) : Type := Except BackupError c.Result

/-- The program's own monad. -/
abbrev BackupM (α : Type) := Fallible Call.Response BackupError α

def call (c : Call) : BackupM c.Result := ExceptT.mk (Prog.perform c)

/-- A phase of the program that only reads the repository. -/
def read (f : Store → Except BackupError α) : BackupM α := do
  let s ← call .view
  Fallible.ofExcept (f s)

def listBlobs (pfx : String) : BackupM (List String) := call (.listBlobs pfx)

def putBlob (key : String) (body : Bytes) : BackupM Unit := call (.putBlob key body)

def putBlobStreamIfAbsent (key : String) (body : StorageByteStream) : BackupM Bool :=
  call (.putBlobStreamIfAbsent key body)

def putBlobIfAbsent (key : String) (body : Bytes) : BackupM Bool :=
  putBlobStreamIfAbsent key (.ok body)

def deleteBlob (key : String) : BackupM Unit := call (.deleteBlob key)

/-- The range of `i64`. -/
def IsI64 (n : Int) : Prop := -2 ^ 63 ≤ n ∧ n < 2 ^ 63

instance (n : Int) : Decidable (IsI64 n) := inferInstanceAs (Decidable (_ ∧ _))

/-- The repository, the keys of the unconditional writes so far, and the calls
    the restore target has received. -/
structure World where
  store : Store
  puts : List String
  restored : List RestoreCall

/-- The world with another repository. -/
def World.withStore (w : World) (s : Store) : World := { w with store := s }

/-- The world after an unconditional write. -/
def World.put (w : World) (key : String) (body : Bytes) : World :=
  { w with store := w.store.putBlob key body, puts := w.puts ++ [key] }

@[simp] theorem World.withStore_store (w : World) (s : Store) : (w.withStore s).store = s := rfl

@[simp] theorem World.put_store (w : World) (key : String) (body : Bytes) :
    (w.put key body).store = w.store.putBlob key body := rfl

@[simp] theorem World.put_puts (w : World) (key : String) (body : Bytes) :
    (w.put key body).puts = w.puts ++ [key] := rfl

/-- The conditional write of a stream.  When the key exists the stream need not
    be read; when it does not, a stream that breaks off writes nothing. -/
def PutsIfAbsent (key : String) (body : StorageByteStream) (s : Store)
    (r : Except BackupError Bool) (s' : Store) : Prop :=
  match s.lookup key, body with
  | none, .ok bytes => r = .ok true ∧ s' = s.putBlob key bytes
  | none, .error e => r = .error e ∧ s' = s
  | some _, .ok _ => r = .ok false ∧ s' = s
  | some _, .error e => (r = .ok false ∨ r = .error e) ∧ s' = s

/-- `host.Answers c w r w'`: in `w` the call `c` can be answered by `r`, and
    leaves `w'`. -/
def Host.Answers (host : Host) : (c : Call) → World → c.Response → World → Prop
  | .view, w, r, w' => r = .ok w.store ∧ w' = w
  | .listBlobs pfx, w, r, w' => (∃ keys, r = .ok keys ∧ Lists w.store pfx keys) ∧ w' = w
  | .putBlob key body, w, r, w' => r = .ok () ∧ w' = w.put key body
  | .putBlobStreamIfAbsent key body, w, r, w' =>
      ∃ s', PutsIfAbsent key body w.store r s' ∧ w' = w.withStore s'
  | .deleteBlob key, w, r, w' => r = .ok () ∧ w' = w.withStore (w.store.deleteBlob key)
  | .unixSeconds, w, r, w' => (∃ now, IsI64 now ∧ r = .ok now) ∧ w' = w
  | .schemaSnapshot, w, r, w' => r = host.database.schemaSnapshot ∧ w' = w
  | .restoreTargetIsEmpty, w, r, w' => r = host.database.restoreTargetIsEmpty ∧ w' = w
  | .exportFull, w, r, w' => r = host.database.exportFull ∧ w' = w
  | .exportIncremental parent, w, r, w' => r = host.database.exportIncremental parent ∧ w' = w
  | .restore request, w, r, w' =>
      r = host.database.restore (w.restored ++ [request]) ∧
        w' = { w with restored := w.restored ++ [request] }
  | .listObjectsForFullBackup, w, r, w' => r = host.objects.listObjectsForFullBackup ∧ w' = w
  | .listObjectsForIncrementalBackup since, w, r, w' =>
      r = host.objects.listObjectsForIncrementalBackup since ∧ w' = w
  | .loadObjectStream object, w, r, w' => host.objects.loadObjectStream object r ∧ w' = w

/-- A call may also fail, before or after it has taken effect. -/
def Host.MayFail (host : Host) (c : Call) (w : World) (r : c.Response) (w' : World) : Prop :=
  host.Answers c w r w' ∨
    ∃ e, r = .error e ∧ (w' = w ∨ ∃ r', host.Answers c w r' w')

theorem Host.Answers.mayFail {host : Host} {c : Call} {w w' : World} {r : c.Response}
    (h : host.Answers c w r w') : host.MayFail c w r w' := Or.inl h

theorem returns_mayFail {host : Host} {w w' : World} {p : Prog Call.Response α} {a : α}
    (h : Returns host.Answers w p a w') : Returns host.MayFail w p a w' :=
  Reaches.weaken (fun _ _ _ _ hans => hans.mayFail) h

/-! ## Rules for the calls -/

theorem wpE_answers {host : Host} {I : World → Prop} {x : BackupM α} {P : α → World → Prop}
    {E : BackupError → World → Prop} {w : World} (h : wpE host.MayFail I x P E w) :
    wpE host.Answers I x P E w :=
  wp.weaken (fun _ _ _ _ hans => hans.mayFail) h

section Rules

variable {host : Host} {I : World → Prop} {w : World} {E : BackupError → World → Prop}

theorem wpE_call {H : (c : Call) → World → c.Response → World → Prop} {c : Call}
    {P : c.Result → World → Prop} (hI : I w)
    (h : ∀ r w', H c w r w' → I w' ∧ outcome P E r w') : wpE H I (call c) P E w :=
  ⟨hI, fun r w' hcall => h r w' hcall⟩

/-- A call that is answered in one way leads there, or fails before or after. -/
theorem wpE_call_mayFail {c : Call} {P : c.Result → World → Prop} (hI : I w)
    (hE : ∀ e w, I w → E e w)
    (h : ∀ r w', host.Answers c w r w' → I w' ∧ outcome P E r w') :
    wpE host.MayFail I (call c) P E w := by
  apply wpE_call hI
  rintro r w' (hans | ⟨e, rfl, rfl | ⟨r', hans⟩⟩)
  · exact h r w' hans
  · exact ⟨hI, hE e _ hI⟩
  · exact ⟨(h r' w' hans).1, hE e w' (h r' w' hans).1⟩

theorem wpE_read {f : Store → Except BackupError α} {P : α → World → Prop} (hI : I w)
    (hE : ∀ e w, I w → E e w) (h : ∀ a, f w.store = .ok a → P a w) :
    wpE host.MayFail I (read f) P E w := by
  refine wpE.seq (P := fun s w' => s = w.store ∧ w' = w) (wpE_call_mayFail hI hE ?_) ?_
  · rintro r w' ⟨rfl, rfl⟩
    exact ⟨hI, rfl, rfl⟩
  · rintro s w' _ ⟨rfl, rfl⟩
    rw [wpE_ofExcept]
    refine ⟨hI, ?_⟩
    cases hf : f w'.store with
    | error e => exact hE e _ hI
    | ok a => exact h a hf

theorem wpE_read_answers {f : Store → Except BackupError α} {P : α → World → Prop} (hI : I w)
    (h : outcome P E (f w.store) w) : wpE host.Answers I (read f) P E w := by
  refine wpE.seq (P := fun s w' => s = w.store ∧ w' = w) (wpE_call hI ?_) ?_
  · rintro r w' ⟨rfl, rfl⟩
    exact ⟨hI, rfl, rfl⟩
  · rintro s w' _ ⟨rfl, rfl⟩
    exact wpE_ofExcept.mpr ⟨hI, h⟩

/-- A phase of reads, one for each item. -/
theorem wpE_mapM'_read {f : Store → α → Except BackupError β} (l : List α) :
    wpE host.MayFail (· = w) (l.mapM' fun a => read fun s => f s a)
      (fun bs _ => List.Forall₂ (fun a b => f w.store a = .ok b) l bs) (fun _ _ => True) w := by
  induction l with
  | nil => exact ⟨rfl, List.Forall₂.nil⟩
  | cons a l ih =>
    rw [List.mapM'_cons]
    refine wpE.seq (P := fun b _ => f w.store a = .ok b)
      (wpE_read rfl (fun _ _ _ => trivial) fun b hb => hb) ?_
    rintro b w' rfl hb
    apply wpE.seq ih
    rintro bs w' rfl hbs
    exact ⟨rfl, List.Forall₂.cons hb hbs⟩

/-- A phase of reads that all succeed. -/
theorem wpE_mapM'_read_answers {f : Store → α → Except BackupError β} {l : List α} {bs : List β}
    (h : List.Forall₂ (fun a b => f w.store a = .ok b) l bs) :
    wpE host.Answers (fun _ => True) (l.mapM' fun a => read fun s => f s a)
      (fun bs' w' => bs' = bs ∧ w' = w) (fun _ _ => False) w := by
  induction h with
  | nil => exact ⟨trivial, rfl, rfl⟩
  | @cons a b l bs hread _ ih =>
    rw [List.mapM'_cons]
    refine wpE.seq (P := fun b' w' => b' = b ∧ w' = w) (wpE_read_answers trivial ?_) ?_
    · rw [hread]
      exact ⟨rfl, rfl⟩
    · rintro b' w' _ ⟨rfl, rfl⟩
      apply wpE.seq ih
      rintro bs' w' _ ⟨rfl, rfl⟩
      exact ⟨trivial, rfl, rfl⟩

theorem wpE_listBlobs_answers {pfx : String} :
    wpE host.Answers (fun _ => True) (listBlobs pfx)
      (fun keys w' => Lists w.store pfx keys ∧ w' = w) (fun _ _ => False) w := by
  apply wpE_call trivial
  intro r w' hlist
  rcases hlist with ⟨⟨keys, rfl, hkeys⟩, rfl⟩
  exact ⟨trivial, hkeys, rfl⟩

theorem wpE_listBlobs {pfx : String} {P : List String → World → Prop} (hI : I w)
    (hE : ∀ e w, I w → E e w) (h : ∀ keys, Lists w.store pfx keys → P keys w) :
    wpE host.MayFail I (listBlobs pfx) P E w := by
  apply wpE_call_mayFail hI hE
  rintro r w' ⟨⟨keys, rfl, hkeys⟩, rfl⟩
  exact ⟨hI, h keys hkeys⟩

theorem wpE_putBlob {key : String} {body : Bytes} {P : Unit → World → Prop} (hI : I w)
    (hE : ∀ e w, I w → E e w) (hI' : I (w.put key body)) (h : P () (w.put key body)) :
    wpE host.MayFail I (putBlob key body) P E w := by
  apply wpE_call_mayFail hI hE
  rintro r w' ⟨rfl, rfl⟩
  exact ⟨hI', h⟩

theorem wpE_deleteBlob {key : String} {P : Unit → World → Prop} (hI : I w)
    (hE : ∀ e w, I w → E e w) (hI' : I (w.withStore (w.store.deleteBlob key)))
    (h : P () (w.withStore (w.store.deleteBlob key))) :
    wpE host.MayFail I (deleteBlob key) P E w := by
  apply wpE_call_mayFail hI hE
  rintro r w' ⟨rfl, rfl⟩
  exact ⟨hI', h⟩

end Rules

end GraphqlOrmBackup

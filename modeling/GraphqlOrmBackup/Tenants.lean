import GraphqlOrmBackup.PrefixedRepository
import GraphqlOrmBackup.Renaming
import GraphqlOrmBackup.Serialization

/-!
# Tenants of one blob store

Repositories under different prefixes of one blob store, each with any number of
clients, whose calls interleave across all repositories.  A tenant cannot tell
that there are others: its clients run as they can run on a repository of their
own.  Two prefixes may start alike, as `a` and `ab` do, for no operation lists
with the empty prefix.
-/

namespace GraphqlOrmBackup

open Interaction BlobStoreBackupRepository

/-! ## What lies under a prefix -/

/-- The keys under the prefix, without it. -/
def underPrefix (pfx : String) : String ≃. String where
  toFun key := (GraphqlOrmBackup.stripPrefix (pfx ++ "/").toList key.toList).map String.ofList
  invFun key := some (pfx ++ "/" ++ key)
  inv key key' := by
    rw [Option.map_eq_some_iff, Option.some.injEq]
    constructor
    · rintro rfl
      exact ⟨key'.toList, stripPrefix_eq_some.mpr String.toList_append, String.ofList_toList⟩
    · rintro ⟨rest, hrest, rfl⟩
      rw [← String.toList_inj, String.toList_append, String.toList_ofList]
      exact (stripPrefix_eq_some.mp hrest).symm

/-- What a blob store holds under the prefix. -/
def Store.under (s : Store) (pfx : String) : Store := Renaming.rename (underPrefix pfx) s

/-- No key lies under both. -/
def Separate (pfx pfx' : String) : Prop :=
  startsWith (pfx ++ "/") (pfx' ++ "/") = false ∧ startsWith (pfx' ++ "/") (pfx ++ "/") = false

section Keys

variable {pfx pfx' key : String} {s : Store}

theorem underPrefix_append (pfx key : String) : underPrefix pfx (pfx ++ "/" ++ key) = some key :=
  (underPrefix pfx).eq_some_iff.mp rfl

theorem underPrefix_of_outside (h : startsWith key (pfx ++ "/") = false) :
    underPrefix pfx key = none := by
  refine Option.eq_none_iff_forall_ne_some.mpr fun rest hrest => ?_
  have hkey : pfx ++ "/" ++ rest = key := Option.some.inj ((underPrefix pfx).eq_some_iff.mpr hrest)
  rw [← hkey, startsWith_append_slash] at h
  contradiction

theorem corresponds_under (pfx : String) (s : Store) : Corresponds pfx s (s.under pfx) :=
  fun key => Renaming.lookup_rename (underPrefix_append pfx key)

theorem Separate.symm (h : Separate pfx pfx') : Separate pfx' pfx := ⟨h.2, h.1⟩

theorem Separate.outside (h : Separate pfx pfx') (key : String) :
    startsWith (pfx ++ "/" ++ key) (pfx' ++ "/") = false := by
  refine Bool.eq_false_iff.mpr fun hstarts => ?_
  have hown := startsWith_append_slash pfx key
  rw [startsWith_iff] at hstarts hown
  rcases List.prefix_or_prefix_of_prefix hstarts hown with hle | hle
  · exact absurd (startsWith_iff.mpr hle) (Bool.eq_false_iff.mp h.1)
  · exact absurd (startsWith_iff.mpr hle) (Bool.eq_false_iff.mp h.2)

end Keys

/-! ## Calls under a prefix -/

/-- The world of a repository that lies under the prefix. -/
def World.under (w : World) (pfx : String) : World := w.withStore (w.store.under pfx)

/-- `Host.Answers` where the repository is `BlobStoreBackupRepository::with_prefix`:
    the store of the world is the blob store, with everything else that it holds.
    The keys of the unconditional writes are those of the repository.  Reads that
    find their blobs find them in the view; reads that miss one report its key in
    the blob store, so that they are a view that fails (`Fleet.NamesKeys`). -/
def Host.AnswersUnder (host : Host) (pfx : String) :
    (c : Call) → World → c.Response → World → Prop
  | .view, w, r, w' => r = .ok (w.store.under pfx) ∧ w' = w
  | .listBlobs rest, w, r, w' => ∃ (keys : List String) (s' : Store), r = .ok keys ∧
      (withPrefix pfx).Answers (.listBlobs rest) w.store keys s' ∧ w' = w.withStore s'
  | .putBlob key body, w, r, w' => ∃ s', r = .ok () ∧
      (withPrefix pfx).Answers (.putBlob key body) w.store () s' ∧
      w' = { w with store := s', puts := w.puts ++ [key] }
  | .putBlobStreamIfAbsent key body, w, r, w' => ∃ s',
      PutsIfAbsent ((withPrefix pfx).applyPrefix key) body w.store r s' ∧ w' = w.withStore s'
  | .deleteBlob key, w, r, w' => ∃ s', r = .ok () ∧
      (withPrefix pfx).Answers (.deleteBlob key) w.store () s' ∧ w' = w.withStore s'
  | c, w, r, w' => host.Answers c w r w'

/-- A call may also fail, before or after it has taken effect. -/
def Host.MayFailUnder (host : Host) (pfx : String) (c : Call) (w : World) (r : c.Response)
    (w' : World) : Prop :=
  host.AnswersUnder pfx c w r w' ∨
    ∃ e, r = .error e ∧ (w' = w ∨ ∃ r', host.AnswersUnder pfx c w r' w')

/-- The calls of the clients of one tenant, under the clock they share. -/
def SharedClockUnder (pfx : String) (host : Host) (clock : Int) :
    (c : Call) → World → c.Response → World → Prop
  | .unixSeconds, w, r, w' => r = .ok clock ∧ w' = w
  | c, w, r, w' => host.MayFailUnder pfx c w r w'

/-- The call does not list all keys. -/
def Call.ListsBelow (c : Call) : Prop := c ≠ .listBlobs ""

/-- What a call under the prefix can make of a blob store. -/
inductive ChangesUnder (pfx : String) (s : Store) : Store → Prop where
  | none : ChangesUnder pfx s s
  | put (key : String) (body : Bytes) : ChangesUnder pfx s (s.putBlob (pfx ++ "/" ++ key) body)
  | delete (key : String) : ChangesUnder pfx s (s.deleteBlob (pfx ++ "/" ++ key))

section Calls

variable {host : Host} {pfx pfx' key : String} {clock : Int} {w w' : World} {c : Call}
  {r : c.Response} {s s' : Store}

theorem PutsIfAbsent.under {body : StorageByteStream} {r : Except BackupError Bool}
    (h : PutsIfAbsent (pfx ++ "/" ++ key) body s r s') :
    PutsIfAbsent key body (s.under pfx) r (s'.under pfx) := by
  have hput : ∀ bytes, (s.putBlob (pfx ++ "/" ++ key) bytes).under pfx =
      (s.under pfx).putBlob key bytes := Renaming.rename_insert (underPrefix_append pfx key)
  unfold PutsIfAbsent at h ⊢
  rw [corresponds_under pfx s key]
  split at h
  · obtain ⟨rfl, rfl⟩ := h
    exact ⟨rfl, hput _⟩
  all_goals
    obtain ⟨hr, rfl⟩ := h
    exact ⟨hr, rfl⟩

/-- **One call** under the prefix is one of a repository of its own. -/
theorem Host.AnswersUnder.own (hc : c.ListsBelow) (h : host.AnswersUnder pfx c w r w') :
    host.Answers c (w.under pfx) r (w'.under pfx) := by
  cases c with
  | view =>
    obtain ⟨rfl, rfl⟩ := h
    exact ⟨rfl, rfl⟩
  | listBlobs rest =>
    obtain ⟨keys, s', rfl, hlist, rfl⟩ := h
    have hcalls : RepositoryCall.listBlobs rest = .listBlobs "" → NoNeighbour pfx w.store := by
      rintro ⟨⟩
      exact absurd rfl hc
    obtain ⟨_, ⟨own, hown, rfl⟩, _⟩ := hlist.asOwn (corresponds_under pfx w.store) hcalls
    obtain ⟨_, rfl⟩ := hlist
    exact ⟨⟨_, rfl, (List.map_id' own).symm ▸ hown⟩, rfl⟩
  | putBlob key body =>
    obtain ⟨s', rfl, rfl, rfl⟩ := h
    refine ⟨rfl, ?_⟩
    exact congrArg (fun s => { w with store := s, puts := w.puts ++ [key] })
      (Renaming.rename_insert (underPrefix_append pfx key) body)
  | putBlobStreamIfAbsent key body =>
    obtain ⟨s', hputs, rfl⟩ := h
    exact ⟨_, hputs.under, rfl⟩
  | deleteBlob key =>
    obtain ⟨s', rfl, rfl, rfl⟩ := h
    exact ⟨rfl, congrArg w.withStore (Renaming.rename_erase (underPrefix_append pfx key))⟩
  | unixSeconds =>
    obtain ⟨hr, rfl⟩ := h
    exact ⟨hr, rfl⟩
  | restore request =>
    obtain ⟨hr, rfl⟩ := h
    exact ⟨hr, rfl⟩
  | _ =>
    obtain ⟨hr, rfl⟩ := h
    exact ⟨hr, rfl⟩

theorem SharedClockUnder.own (hc : c.ListsBelow) (h : SharedClockUnder pfx host clock c w r w') :
    SharedClock host clock c (w.under pfx) r (w'.under pfx) := by
  have hfails : host.MayFailUnder pfx c w r w' → host.MayFail c (w.under pfx) r (w'.under pfx) := by
    rintro (hans | ⟨e, rfl, rfl | ⟨r', hans⟩⟩)
    · exact Or.inl (hans.own hc)
    · exact Or.inr ⟨e, rfl, Or.inl rfl⟩
    · exact Or.inr ⟨e, rfl, Or.inr ⟨r', hans.own hc⟩⟩
  cases c with
  | unixSeconds =>
    obtain ⟨rfl, rfl⟩ := h
    exact ⟨rfl, rfl⟩
  | _ => exact hfails h

theorem PutsIfAbsent.changesUnder {body : StorageByteStream} {r : Except BackupError Bool}
    (h : PutsIfAbsent (pfx ++ "/" ++ key) body s r s') : ChangesUnder pfx s s' := by
  unfold PutsIfAbsent at h
  split at h
  · obtain ⟨-, rfl⟩ := h
    exact .put key _
  all_goals
    obtain ⟨-, rfl⟩ := h
    exact .none

theorem Host.AnswersUnder.changesUnder (h : host.AnswersUnder pfx c w r w') :
    ChangesUnder pfx w.store w'.store := by
  cases c with
  | listBlobs rest =>
    obtain ⟨keys, s', -, ⟨-, rfl⟩, rfl⟩ := h
    exact .none
  | putBlob key body =>
    obtain ⟨s', -, rfl, rfl⟩ := h
    exact .put key body
  | putBlobStreamIfAbsent key body =>
    obtain ⟨s', hputs, rfl⟩ := h
    exact hputs.changesUnder
  | deleteBlob key =>
    obtain ⟨s', -, rfl, rfl⟩ := h
    exact .delete key
  | _ =>
    obtain ⟨-, rfl⟩ := h
    exact .none

theorem SharedClockUnder.changesUnder (h : SharedClockUnder pfx host clock c w r w') :
    ChangesUnder pfx w.store w'.store := by
  have hfails : host.MayFailUnder pfx c w r w' → ChangesUnder pfx w.store w'.store := by
    rintro (hans | ⟨e, -, rfl | ⟨r', hans⟩⟩)
    · exact hans.changesUnder
    · exact .none
    · exact hans.changesUnder
  cases c with
  | unixSeconds =>
    obtain ⟨-, rfl⟩ := h
    exact .none
  | _ => exact hfails h

/-- Nothing changes under a separate prefix. -/
theorem ChangesUnder.under_eq (hseparate : Separate pfx pfx') (h : ChangesUnder pfx s s') :
    s'.under pfx' = s.under pfx' := by
  cases h with
  | none => rfl
  | put key body =>
    exact Renaming.rename_insert_of_none (underPrefix_of_outside (hseparate.outside key)) body
  | delete key =>
    exact Renaming.rename_erase_of_none (underPrefix_of_outside (hseparate.outside key))

theorem ChangesUnder.sameOutside (h : ChangesUnder pfx s s') : SameOutside pfx s s' := by
  intro key hkey
  cases h with
  | none => rfl
  | put key' body => exact Store.lookup_putBlob_of_ne _ _ (ne_of_outside hkey)
  | delete key' => exact Store.lookup_deleteBlob_of_ne _ (ne_of_outside hkey)

end Calls

/-! ## The programs of the clients -/

/-- The program does not list all keys. -/
abbrev ListsBelow {α : Type} (p : Prog Call.Response α) : Prop :=
  p.Within (fun _ _ => True) Call.ListsBelow fun _ => True

section Programs

variable [Crates]

omit [Crates] in
theorem admitsWorks_listsBelow : AdmitsWorks (fun _ _ => True) Call.ListsBelow where
  asks c hc := by
    cases c with
    | listBlobs rest =>
      rintro ⟨⟩
      exact hc rfl
    | _ => nofun
  put _ _ _ _ := nofun
  object _ _ _ := nofun
  discard _ := nofun
  deleteSnapshot _ _ _ _ _ := nofun
  deleteObjects _ _ _ _ := nofun

theorem listsBelow_work (operation : Operation) : ListsBelow operation.work.run :=
  Prog.Within.mono (admitsWorks_listsBelow.work operation) fun _ _ => trivial

omit [Crates] in
theorem listsBelow_acquire (options : RepositoryLockOptions) :
    ListsBelow (RepositoryLock.acquire options).run := by
  have hwrite : ∀ now, Keeps (fun _ _ => True) Call.ListsBelow
      (putBlobIfAbsent repositoryLockKey (lockBody now)) := by
    intro now
    exact (keeps_call (c := .putBlobStreamIfAbsent _ _) nofun).mono fun _ _ => trivial
  have hlocked : Keeps (fun _ _ => True) Call.ListsBelow
      (repositoryLocked : BackupM RepositoryLock) := Fallible.within_throw
  have htake : ∀ now, Keeps (fun _ _ => True) Call.ListsBelow (RepositoryLock.takeOver now) := by
    intro now
    refine Fallible.within_bind (keeps_call (c := .deleteBlob _) nofun) fun _ _ => ?_
    refine Fallible.within_bind (hwrite now) fun written _ => ?_
    split
    · exact keeps_done _
    · exact hlocked
  have hacquire : Keeps (fun _ _ => True) Call.ListsBelow (RepositoryLock.acquire options) := by
    refine Fallible.within_bind (keeps_call (c := .unixSeconds) nofun) fun now _ => ?_
    refine Fallible.within_bind (hwrite now) fun written _ => ?_
    split
    · exact keeps_done _
    refine Fallible.within_bind (admitsWorks_listsBelow.read _) fun existing _ => ?_
    split
    · exact hlocked
    · exact htake now
  exact Prog.Within.mono hacquire fun _ _ => trivial

/-- What is left of the client's program does not list all keys. -/
def WriterPhase.ListsBelow : WriterPhase → Prop
  | .acquiring _ rest => GraphqlOrmBackup.ListsBelow rest
  | .working _ _ rest => GraphqlOrmBackup.ListsBelow rest
  | .releasing _ _ rest => GraphqlOrmBackup.ListsBelow rest
  | _ => True

end Programs

/-! ## Clients of one tenant -/

section Fleets

variable [Crates] {K : Type} [DecidableEq K]

/-- The reads have missed a blob in the view, and what comes of this is not what
    comes of the error that names its key in the blob store. -/
def NamesOwnKey {α : Type} (pfx : String) (view : Store)
    (next : Call.view.Response → Prog Call.Response α) (rest : Prog Call.Response α) : Prop :=
  ∃ key, rest = next (.ok view) ∧ next (.ok view) = next (.error (.missingBlob key)) ∧
    rest ≠ next (.error (.missingBlob (pfx ++ "/" ++ key)))

omit [Crates] in
/-- A phase of reads names a key of the view if it misses the blob there. -/
theorem namesOwnKey_read_iff {α : Type} {f : Store → Except BackupError α} {pfx : String}
    {view : Store} {next : Call.view.Response → Prog Call.Response (Except BackupError α)}
    {rest : Prog Call.Response (Except BackupError α)}
    (hread : (GraphqlOrmBackup.read f).run = .call .view next) :
    NamesOwnKey pfx view next rest ↔
      ∃ key, f view = .error (.missingBlob key) ∧ rest = .ret (.error (.missingBlob key)) := by
  have hok : next (.ok view) = .ret (f view) := by
    cases hread
    rfl
  have herror : ∀ e, next (.error e) = .ret (.error e) := by
    cases hread
    exact fun _ => rfl
  constructor
  · rintro ⟨key, rfl, hmiss, -⟩
    rw [hok, herror, Prog.ret.injEq] at hmiss
    exact ⟨key, hmiss, by rw [hok, hmiss]⟩
  · rintro ⟨key, hmiss, rfl⟩
    refine ⟨key, by rw [hok, hmiss], by rw [hok, hmiss, herror], ?_⟩
    rw [herror, ne_eq, Prog.ret.injEq, Except.error.injEq, BackupError.missingBlob.injEq]
    intro hkey
    have hlength := congrArg String.length hkey
    rw [String.length_append, String.length_append] at hlength
    have hslash : "/".length = 1 := rfl
    omega

/-- The step does not report a missing blob by its key in the view. -/
def Fleet.NamesKeys (f : Fleet K) (pfx : String) (a : FleetAction K) (f' : Fleet K) : Prop :=
  ∀ k, a = .call k →
    (∀ job next rest, f.phases k = .acquiring job (.call .view next) →
      f'.phases k = .acquiring job rest → ¬ NamesOwnKey pfx (f.world.store.under pfx) next rest) ∧
    ∀ job lock next rest, f.phases k = .working job lock (.call .view next) →
      f'.phases k = .working job lock rest →
      ¬ NamesOwnKey pfx (f.world.store.under pfx) next rest

/-- The clients on what lies under the prefix. -/
def Fleet.under (f : Fleet K) (pfx : String) : Fleet K := { f with world := f.world.under pfx }

omit [Crates] in
theorem listsBelow_update {f : Fleet K} {k : K} {phase : WriterPhase}
    (h : ∀ k, (f.phases k).ListsBelow) (hphase : phase.ListsBelow) (k' : K) :
    (Function.update f.phases k phase k').ListsBelow := by
  by_cases hk : k' = k
  · rw [hk, Function.update_self]
    exact hphase
  · rw [Function.update_of_ne hk]
    exact h k'

/-- **Step lemma.**  A step under the prefix is one in a repository of its own. -/
theorem FleetStep.own {pfx : String} {f f' : Fleet K} {a : FleetAction K}
    (h : FleetStep (SharedClockUnder pfx) f a f') (hlists : ∀ k, (f.phases k).ListsBelow) :
    FleetStep SharedClock (f.under pfx) a (f'.under pfx) ∧ ∀ k, (f'.phases k).ListsBelow := by
  cases h with
  | tick hle hnow => exact ⟨.tick hle hnow, hlists⟩
  | start hdone => exact ⟨.start hdone, listsBelow_update hlists (listsBelow_acquire _)⟩
  | @acquire k job c next r w hphase hcall =>
    have hprog : (WriterPhase.acquiring job (.call c next)).ListsBelow := hphase ▸ hlists k
    exact ⟨.acquire hphase (hcall.own hprog.1), listsBelow_update hlists (hprog.2 r trivial)⟩
  | enter hphase => exact ⟨.enter hphase, listsBelow_update hlists (listsBelow_work _)⟩
  | @work k job lock c next r w hphase hcall =>
    have hprog : (WriterPhase.working job lock (.call c next)).ListsBelow := hphase ▸ hlists k
    exact ⟨.work hphase (hcall.own hprog.1), listsBelow_update hlists (hprog.2 r trivial)⟩
  | leave hphase =>
    refine ⟨.leave hphase, listsBelow_update hlists ?_⟩
    exact ⟨nofun, fun _ _ => trivial⟩
  | @release k job result c next r w hphase hcall =>
    have hprog : (WriterPhase.releasing job result (.call c next)).ListsBelow := hphase ▸ hlists k
    exact ⟨.release hphase (hcall.own hprog.1), listsBelow_update hlists (hprog.2 r trivial)⟩
  | stop => exact ⟨.stop, listsBelow_update hlists trivial⟩

theorem FleetStep.changesUnder {pfx : String} {f f' : Fleet K} {a : FleetAction K}
    (h : FleetStep (SharedClockUnder pfx) f a f') :
    ChangesUnder pfx f.world.store f'.world.store := by
  cases h with
  | acquire hphase hcall => exact hcall.changesUnder
  | work hphase hcall => exact hcall.changesUnder
  | release hphase hcall => exact hcall.changesUnder
  | _ => exact .none

end Fleets

/-! ## The tenants -/

/-- One blob store, and the clients of each tenant; the store of their worlds is the
    blob store. -/
structure Tenancy (T K : Type) where
  blobs : Store
  fleets : T → Fleet K

section Tenancy

variable [Crates] {T K : Type} [DecidableEq T] [DecidableEq K] (prefixes : T → String)

def Tenancy.fleet (s : Tenancy T K) (t : T) : Fleet K :=
  { s.fleets t with world := (s.fleets t).world.withStore s.blobs }

/-- The clients of a tenant on what is its own. -/
def Tenancy.own (s : Tenancy T K) (t : T) : Fleet K := (s.fleet t).under (prefixes t)

/-- The tenants after a step of the clients of one. -/
def Tenancy.afterStep (s : Tenancy T K) (t : T) (fleet : Fleet K) : Tenancy T K where
  blobs := fleet.world.store
  fleets := Function.update s.fleets t fleet

/-- A step of one client of the tenant `t`. -/
def TenancyStep (s : Tenancy T K) (t : T) (a : FleetAction K) (s' : Tenancy T K) : Prop :=
  ∃ fleet, FleetStep (SharedClockUnder (prefixes t)) (s.fleet t) a fleet ∧
    (s.fleet t).NamesKeys (prefixes t) a fleet ∧ s' = s.afterStep t fleet

/-- A run of all clients of all tenants in which the steps of the tenant `t` keep to
    a rule, as they are in what is its own. -/
def TenancyRun (t : T) (rule : Fleet K → FleetAction K → Prop) :
    Tenancy T K → Tenancy T K → Prop :=
  Relation.ReflTransGen fun s s' => ∃ t' a, TenancyStep prefixes s t' a s' ∧
    (t' = t → rule (s.own prefixes t) a)

variable {prefixes} {s s' s₀ : Tenancy T K} {t t' : T} {a : FleetAction K}
  {rule : Fleet K → FleetAction K → Prop}

theorem own_of_step (h : TenancyStep prefixes s t a s')
    (hlists : ∀ k, ((s.fleets t).phases k).ListsBelow) :
    FleetStep SharedClock (s.own prefixes t) a (s'.own prefixes t) ∧
      ∀ k, ((s'.fleets t).phases k).ListsBelow := by
  obtain ⟨fleet, hstep, -, rfl⟩ := h
  have hfleets : (s.afterStep t fleet).fleets t = fleet := Function.update_self ..
  have hfleet : (s.afterStep t fleet).fleet t = fleet := by
    rw [Tenancy.fleet, hfleets]
    rfl
  rw [Tenancy.own, Tenancy.own, hfleet, hfleets]
  exact hstep.own hlists

/-- A step of another tenant changes nothing for this one. -/
theorem own_of_otherStep (h : TenancyStep prefixes s t' a s') (hne : t ≠ t')
    (hseparate : Separate (prefixes t') (prefixes t)) :
    s'.own prefixes t = s.own prefixes t ∧ s'.fleets t = s.fleets t := by
  obtain ⟨fleet, hstep, -, rfl⟩ := h
  have hfleets : (s.afterStep t' fleet).fleets t = s.fleets t := Function.update_of_ne hne ..
  have hsame : (s.afterStep t' fleet).blobs.under (prefixes t) = s.blobs.under (prefixes t) :=
    hstep.changesUnder.under_eq hseparate
  refine ⟨?_, hfleets⟩
  simp only [Tenancy.own, Tenancy.fleet, Fleet.under, World.under, World.withStore, hfleets, hsame]

end Tenancy

/-! ## A tenant beside its neighbour -/

section Neighbours

open Reference

/-- The second prefix starts with the first. -/
def neighbours : Bool → String
  | false => "a"
  | true => "ab"

theorem separate_neighbours : ∀ t t', t ≠ t' → Separate (neighbours t) (neighbours t') := by
  have hseparate : Separate "a" "ab" := ⟨by decide, by decide⟩
  intro t t' hne
  cases t with
  | false =>
    cases t' with
    | false => exact absurd rfl hne
    | true => exact hseparate
  | true =>
    cases t' with
    | false => exact hseparate.symm
    | true => exact absurd rfl hne

/-- Each has one client. -/
def idleTenants : Tenancy Bool Unit := ⟨tenants, fun _ => ⟨emptyWorld, 10000, fun _ => .idle⟩⟩

/-- The client of the second has come to `rest` in taking its lock. -/
def lockingTenants (w : World) (rest : AcquireProg) : Tenancy Bool Unit :=
  idleTenants.afterStep true ⟨w, 10000, fun _ => .acquiring (deletionJob 3) rest⟩

def tenantsWorld : World := emptyWorld.withStore tenants

/-- The world of the second when it has its lock. -/
def lockedWorld : World :=
  tenantsWorld.withStore (tenants.putBlob ("ab" ++ "/" ++ repositoryLockKey) (lockBody 10000))

theorem update_onlyClient (phase phase' : WriterPhase) :
    Function.update (fun _ : Unit => phase) () phase' = fun _ => phase' :=
  funext fun _ => Function.update_self ..

theorem afterStep_lockingTenants (w w' : World) (rest rest' : AcquireProg) :
    (lockingTenants w rest).afterStep true
      (((lockingTenants w rest).fleet true).afterCall () w' (.acquiring (deletionJob 3) rest')) =
      lockingTenants w' rest' := by
  simp only [Tenancy.afterStep, Fleet.afterCall, Tenancy.fleet, lockingTenants,
    Function.update_idem, Function.update_self, update_onlyClient]

theorem tenancyRun_call {w w' : World} {c : Call} {next : c.Response → AcquireProg} {r : c.Response}
    (hcall : SharedClockUnder "ab" (deletionJob 3).host 10000 c w r w')
    (hview : c ≠ .view) (hc : ∀ key, c ≠ .deleteBlob key) :
    TenancyRun neighbours true Fleet.Spares (lockingTenants w (.call c next))
      (lockingTenants w' (next r)) := by
  have hphases : ∀ k, ((lockingTenants w (.call c next)).fleet true).phases k =
      .acquiring (deletionJob 3) (.call c next) := fun _ => rfl
  refine .single ⟨true, .call (), ⟨_, .acquire rfl hcall, fun k _ => ⟨?_, ?_⟩,
    (afterStep_lockingTenants ..).symm⟩, ?_⟩
  · intro job next' rest hphase
    rw [hphases] at hphase
    cases hphase
    exact absurd rfl hview
  · intro job lock next' rest hphase
    rw [hphases] at hphase
    cases hphase
  · rintro - ⟨job, key, next', hphase⟩
    cases hphase
    exact absurd rfl (hc key)

theorem tenancyRun_lockedWorld : TenancyRun neighbours true Fleet.Spares idleTenants
    (lockingTenants lockedWorld (.ret (.ok ⟨repositoryLockKey⟩))) := by
  have hstart : TenancyStep neighbours idleTenants true (.start ())
      (lockingTenants tenantsWorld (RepositoryLock.acquire .default).run) := by
    refine ⟨(idleTenants.fleet true).set () (.acquiring (deletionJob 3)
      (RepositoryLock.acquire .default).run), .start trivial, fun _ => nofun, ?_⟩
    simp only [lockingTenants, Fleet.set, Tenancy.fleet, idleTenants, update_onlyClient]
    rfl
  have hclock : SharedClockUnder "ab" (deletionJob 3).host 10000 .unixSeconds tenantsWorld
      (.ok (10000 : Int)) tenantsWorld := ⟨rfl, rfl⟩
  have hput : SharedClockUnder "ab" (deletionJob 3).host 10000 (.putBlobStreamIfAbsent
      repositoryLockKey (.ok (lockBody 10000))) tenantsWorld (.ok true) lockedWorld := by
    have hfree : tenants.lookup ("ab" ++ "/" ++ repositoryLockKey) = none := by decide
    refine Or.inl ⟨_, ?_, rfl⟩
    unfold PutsIfAbsent
    exact hfree ▸ ⟨rfl, rfl⟩
  have hread : TenancyRun neighbours true Fleet.Spares
      (lockingTenants tenantsWorld (RepositoryLock.acquire .default).run)
      (lockingTenants tenantsWorld (RepositoryLock.acquireAt .default 10000).run) :=
    tenancyRun_call hclock (by rintro ⟨⟩) (by rintro _ ⟨⟩)
  have hwritten : TenancyRun neighbours true Fleet.Spares
      (lockingTenants tenantsWorld (RepositoryLock.acquireAt .default 10000).run)
      (lockingTenants lockedWorld (.ret (.ok ⟨repositoryLockKey⟩))) :=
    tenancyRun_call hput (by rintro ⟨⟩) (by rintro _ ⟨⟩)
  exact .head ⟨true, .start (), hstart, fun _ => trivial⟩ (hread.trans hwritten)

end Neighbours

end GraphqlOrmBackup

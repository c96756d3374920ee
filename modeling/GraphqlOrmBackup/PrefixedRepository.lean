import GraphqlOrmBackup.Prune

/-!
# Repositories under a prefix

`BlobStoreBackupRepository` of `repository.rs`: a repository over a blob store,
by itself or under a prefix that it puts before every key.  Under a prefix it
behaves as a repository of its own, except that a listing with the empty prefix
also meets the keys of neighbours whose prefix starts with its own, and that the
error for a missing blob names the key in the blob store.
-/

namespace GraphqlOrmBackup

/-- A call of the trait `BackupRepository`. -/
inductive RepositoryCall where
  | putBlob (key : String) (body : Bytes)
  | putBlobIfAbsent (key : String) (body : Bytes)
  | getBlob (key : String)
  | blobExists (key : String)
  | listBlobs (pfx : String)
  | deleteBlob (key : String)

def RepositoryCall.Result : RepositoryCall → Type
  | .putBlob _ _ => Unit
  | .putBlobIfAbsent _ _ => Bool
  | .getBlob _ => Except BackupError Bytes
  | .blobExists _ => Bool
  | .listBlobs _ => List String
  | .deleteBlob _ => Unit

structure BlobStoreBackupRepository where
  pfx : Option String

namespace BlobStoreBackupRepository

def new : BlobStoreBackupRepository := ⟨none⟩

def withPrefix (pfx : String) : BlobStoreBackupRepository := ⟨some pfx⟩

def applyPrefix (repository : BlobStoreBackupRepository) (key : String) : String :=
  match repository.pfx with
  | some pfx => pfx ++ "/" ++ key
  | none => key

def applyPrefixToList (repository : BlobStoreBackupRepository) (pfx : String) : String :=
  match repository.pfx, pfx.isEmpty with
  | some repositoryPrefix, true => repositoryPrefix
  | some repositoryPrefix, false => repositoryPrefix ++ "/" ++ pfx
  | none, _ => pfx

@[simp] theorem applyPrefix_withPrefix (pfx key : String) :
    (withPrefix pfx).applyPrefix key = pfx ++ "/" ++ key := rfl

@[simp] theorem applyPrefix_new (key : String) : new.applyPrefix key = key := rfl

@[simp] theorem applyPrefixToList_withPrefix_empty (pfx : String) :
    (withPrefix pfx).applyPrefixToList "" = pfx := rfl

@[simp] theorem applyPrefixToList_new (rest : String) : new.applyPrefixToList rest = rest := rfl

theorem applyPrefixToList_withPrefix {pfx rest : String} (hrest : rest ≠ "") :
    (withPrefix pfx).applyPrefixToList rest = pfx ++ "/" ++ rest := by
  have hempty : rest.isEmpty = false := by simp [hrest]
  simp only [applyPrefixToList, withPrefix, hempty]

/-- A key without the prefix and its slash; the key itself when it has none. -/
def stripPrefix (repository : BlobStoreBackupRepository) (key : String) : String :=
  match repository.pfx with
  | none => key
  | some pfx => ((GraphqlOrmBackup.stripPrefix pfx.toList key.toList).bind
      (GraphqlOrmBackup.stripPrefix ['/'])).elim key String.ofList

/-- `repository.Answers c s r s'`: over the blob store `s` the call can return
    `r`, and leaves `s'`. -/
def Answers (repository : BlobStoreBackupRepository) :
    (c : RepositoryCall) → Store → c.Result → Store → Prop
  | .putBlob key body, s, _, s' => s' = s.putBlob (repository.applyPrefix key) body
  | .putBlobIfAbsent key body, s, written, s' =>
      repository.applyPrefix key ∈ s ∧ written = false ∧ s' = s ∨
      repository.applyPrefix key ∉ s ∧ written = true ∧
        s' = s.putBlob (repository.applyPrefix key) body
  | .getBlob key, s, r, s' => r = s.getBlob (repository.applyPrefix key) ∧ s' = s
  | .blobExists key, s, found, s' => (found = true ↔ repository.applyPrefix key ∈ s) ∧ s' = s
  | .listBlobs pfx, s, listed, s' =>
      (∃ keys, Lists s (repository.applyPrefixToList pfx) keys ∧
        listed = keys.map repository.stripPrefix) ∧ s' = s
  | .deleteBlob key, s, _, s' => s' = s.deleteBlob (repository.applyPrefix key)

end BlobStoreBackupRepository

open BlobStoreBackupRepository

/-! ## Runs -/

/-- A call with its result, and the blob store before it. -/
structure RepositoryStep where
  before : Store
  call : RepositoryCall
  result : call.Result

/-- The steps lead from `s` to `s'`. -/
inductive RepositoryRun (repository : BlobStoreBackupRepository) :
    Store → List RepositoryStep → Store → Prop where
  | nil (s : Store) : RepositoryRun repository s [] s
  | cons {s s₁ s' : Store} {c : RepositoryCall} {r : c.Result} {steps : List RepositoryStep}
      (hcall : repository.Answers c s r s₁) (hrest : RepositoryRun repository s₁ steps s') :
      RepositoryRun repository s (⟨s, c, r⟩ :: steps) s'

/-- The calls with their results, without the stores. -/
def observe (steps : List RepositoryStep) : List (Σ c : RepositoryCall, c.Result) :=
  steps.map fun step => ⟨step.call, step.result⟩

/-- An error as a repository without the prefix reports it. -/
def ownError (pfx : String) : BackupError → BackupError
  | .missingBlob key => .missingBlob ((withPrefix pfx).stripPrefix key)
  | e => e

/-- A result in which an error names the key without the prefix. -/
def RepositoryCall.ownResult (pfx : String) : (c : RepositoryCall) → c.Result → c.Result
  | .getBlob _, r => r.mapError (ownError pfx)
  | _, r => r

/-- What is observed when errors name the keys without the prefix. -/
def observeOwn (pfx : String) (steps : List RepositoryStep) :
    List (Σ c : RepositoryCall, c.Result) :=
  steps.map fun step => ⟨step.call, step.call.ownResult pfx step.result⟩

/-- `t` holds what `s` holds under the prefix. -/
def Corresponds (pfx : String) (s t : Store) : Prop :=
  ∀ key, t.lookup key = s.lookup (pfx ++ "/" ++ key)

/-- The stores agree outside the prefix. -/
def SameOutside (pfx : String) (s s' : Store) : Prop :=
  ∀ key, startsWith key (pfx ++ "/") = false → s'.lookup key = s.lookup key

/-- A repository without a prefix that holds what is held under it makes these
    observations and holds the same afterwards, and nothing outside has changed. -/
def ShowsAsOwn (pfx : String) (s : Store) (observed : List (Σ c : RepositoryCall, c.Result))
    (s' : Store) : Prop :=
  SameOutside pfx s s' ∧ ∀ t, Corresponds pfx s t → ∃ steps' t',
    RepositoryRun BlobStoreBackupRepository.new t steps' t' ∧ observe steps' = observed ∧
      Corresponds pfx s' t'

/-- A run under the prefix is one of a repository of its own: it returns the same
    results. -/
def BehavesAsOwn (pfx : String) (s : Store) (steps : List RepositoryStep) (s' : Store) : Prop :=
  ShowsAsOwn pfx s (observe steps) s'

/-- The same up to the keys that errors name. -/
def BehavesAsOwnUpToKeys (pfx : String) (s : Store) (steps : List RepositoryStep) (s' : Store) :
    Prop :=
  ShowsAsOwn pfx s (observeOwn pfx steps) s'

/-- No stored key outside the prefix starts with the prefix. -/
def NoNeighbour (pfx : String) (s : Store) : Prop :=
  ∀ key ∈ s, startsWith key pfx = true → startsWith key (pfx ++ "/") = true

/-- Whenever the run lists with the empty prefix, there is no neighbour. -/
def ListsWithoutNeighbour (pfx : String) (steps : List RepositoryStep) : Prop :=
  ∀ step ∈ steps, step.call = .listBlobs "" → NoNeighbour pfx step.before

/-- Every blob that the run reads is there. -/
def FindsBlobs (pfx : String) (steps : List RepositoryStep) : Prop :=
  ∀ step ∈ steps, ∀ key, step.call = .getBlob key → pfx ++ "/" ++ key ∈ step.before

/-! ## Keys under a prefix -/

section Keys

variable {pfx key : String}

theorem toList_append_slash (pfx key : String) :
    (pfx ++ "/" ++ key).toList = pfx.toList ++ ('/' :: key.toList) := by
  simp [String.toList_append]

theorem stripPrefix_append_slash (pfx key : String) :
    (withPrefix pfx).stripPrefix (pfx ++ "/" ++ key) = key := by
  have hslash : GraphqlOrmBackup.stripPrefix ['/'] ('/' :: key.toList) = some key.toList :=
    GraphqlOrmBackup.stripPrefix_append ['/'] key.toList
  simp only [BlobStoreBackupRepository.stripPrefix, withPrefix]
  rw [toList_append_slash, GraphqlOrmBackup.stripPrefix_append, Option.bind_some, hslash,
    Option.elim_some, String.ofList_toList]

theorem append_slash_injective (pfx : String) :
    Function.Injective fun key : String => pfx ++ "/" ++ key := by
  intro left right heq
  have hstrip := congrArg (withPrefix pfx).stripPrefix heq
  rwa [stripPrefix_append_slash, stripPrefix_append_slash] at hstrip

theorem startsWith_append_slash (pfx key : String) :
    startsWith (pfx ++ "/" ++ key) (pfx ++ "/") = true := by
  rw [startsWith_iff, String.toList_append (s := pfx ++ "/")]
  exact List.prefix_append _ _

/-- The keys under the prefix. -/
theorem exists_of_startsWith_slash (h : startsWith key (pfx ++ "/") = true) :
    ∃ rest, key = pfx ++ "/" ++ rest := by
  rw [startsWith_iff] at h
  rcases h with ⟨rest, hrest⟩
  refine ⟨String.ofList rest, String.toList_inj.mp ?_⟩
  rw [String.toList_append, String.toList_ofList, hrest]

theorem startsWith_append_iff {rest : String} :
    startsWith (pfx ++ "/" ++ key) (pfx ++ "/" ++ rest) = true ↔ startsWith key rest = true := by
  simp only [startsWith_iff, String.toList_append, List.prefix_append_right_inj]

theorem startsWith_of_startsWith_slash (h : startsWith key (pfx ++ "/") = true) :
    startsWith key pfx = true := by
  rw [startsWith_iff] at h ⊢
  rw [String.toList_append] at h
  exact (List.prefix_append _ _).trans h

/-- A key that has the prefix without the slash is not stripped. -/
theorem stripPrefix_of_neighbour (hslash : startsWith key (pfx ++ "/") = false) :
    (withPrefix pfx).stripPrefix key = key := by
  simp only [BlobStoreBackupRepository.stripPrefix, withPrefix]
  cases hrest : (GraphqlOrmBackup.stripPrefix pfx.toList key.toList).bind
      (GraphqlOrmBackup.stripPrefix ['/']) with
  | none => rfl
  | some rest =>
    rcases Option.bind_eq_some_iff.mp hrest with ⟨tail, htail, hstrip⟩
    have hkey : key.toList = pfx.toList ++ tail := GraphqlOrmBackup.stripPrefix_eq_some.mp htail
    have hsep : tail = ['/'] ++ rest := GraphqlOrmBackup.stripPrefix_eq_some.mp hstrip
    have hstarts : startsWith key (pfx ++ "/") = true := by
      rw [startsWith_iff, hkey, hsep, String.toList_append, ← List.append_assoc]
      exact List.prefix_append _ _
    rw [hslash] at hstarts
    contradiction

end Keys

/-! ## One call -/

section Calls

variable {pfx : String} {s s₁ t t₁ : Store} {c : RepositoryCall} {r : c.Result}

theorem Corresponds.mem_iff (h : Corresponds pfx s t) (key : String) :
    key ∈ t ↔ pfx ++ "/" ++ key ∈ s := by
  rw [← AList.lookup_isSome, ← AList.lookup_isSome, h key]

theorem Corresponds.putBlob (h : Corresponds pfx s t) (key : String) (body : Bytes) :
    Corresponds pfx (s.putBlob (pfx ++ "/" ++ key) body) (t.putBlob key body) := by
  intro key'
  rw [Store.lookup_putBlob, Store.lookup_putBlob, h key']
  simp only [(append_slash_injective pfx).eq_iff]

theorem Corresponds.deleteBlob (h : Corresponds pfx s t) (key : String) :
    Corresponds pfx (s.deleteBlob (pfx ++ "/" ++ key)) (t.deleteBlob key) := by
  intro key'
  rw [Store.lookup_deleteBlob, Store.lookup_deleteBlob, h key']
  simp only [(append_slash_injective pfx).eq_iff]

/-- What is under the prefix, as a store of its own. -/
theorem exists_corresponds (pfx : String) (s : Store) : ∃ t, Corresponds pfx s t := by
  induction s using AList.insertRec with
  | H0 => exact ⟨∅, fun key => by simp⟩
  | IH key body s hnew ih =>
    rcases ih with ⟨t, ht⟩
    by_cases hunder : startsWith key (pfx ++ "/") = true
    · obtain ⟨rest, rfl⟩ := exists_of_startsWith_slash hunder
      exact ⟨t.putBlob rest body, ht.putBlob rest body⟩
    · refine ⟨t, fun key' => ?_⟩
      have hne : pfx ++ "/" ++ key' ≠ key := by
        rintro rfl
        exact hunder (startsWith_append_slash pfx key')
      rw [ht key', AList.lookup_insert_ne hne]

theorem SameOutside.refl (pfx : String) (s : Store) : SameOutside pfx s s := fun _ _ => rfl

theorem SameOutside.trans {s₂ : Store} (h : SameOutside pfx s s₁) (h' : SameOutside pfx s₁ s₂) :
    SameOutside pfx s s₂ := fun key hkey => (h' key hkey).trans (h key hkey)

theorem ne_of_outside {key key' : String} (hkey : startsWith key (pfx ++ "/") = false) :
    key ≠ pfx ++ "/" ++ key' := by
  rintro rfl
  rw [startsWith_append_slash] at hkey
  contradiction

/-- A call touches no key outside the prefix. -/
theorem BlobStoreBackupRepository.Answers.sameOutside (h : (withPrefix pfx).Answers c s r s₁) :
    SameOutside pfx s s₁ := by
  intro key hkey
  cases c with
  | putBlob key' body =>
    simp only [Answers, applyPrefix_withPrefix] at h
    rw [h, Store.lookup_putBlob_of_ne _ _ (ne_of_outside hkey)]
  | putBlobIfAbsent key' body =>
    simp only [Answers, applyPrefix_withPrefix] at h
    rcases h with ⟨-, -, h⟩ | ⟨-, -, h⟩
    · rw [h]
    · rw [h, Store.lookup_putBlob_of_ne _ _ (ne_of_outside hkey)]
  | getBlob key' => rw [h.2]
  | blobExists key' => rw [h.2]
  | listBlobs rest => rw [h.2]
  | deleteBlob key' =>
    simp only [Answers, applyPrefix_withPrefix] at h
    rw [h, Store.lookup_deleteBlob_of_ne _ (ne_of_outside hkey)]

/-- The correspondence is preserved by every call. -/
theorem BlobStoreBackupRepository.Answers.corresponds (ht : Corresponds pfx s t)
    (h : (withPrefix pfx).Answers c s r s₁) (hown : new.Answers c t (c.ownResult pfx r) t₁) :
    Corresponds pfx s₁ t₁ := by
  cases c with
  | putBlob key body =>
    simp only [Answers, applyPrefix_withPrefix, applyPrefix_new] at h hown
    rw [h, hown]
    exact ht.putBlob key body
  | putBlobIfAbsent key body =>
    simp only [Answers, applyPrefix_withPrefix, applyPrefix_new, ht.mem_iff] at h hown
    rcases h with ⟨hmem, -, h⟩ | ⟨hmem, -, h⟩ <;> rcases hown with ⟨hmem', -, hown⟩ | ⟨hmem', -, hown⟩
    · rw [h, hown]
      exact ht
    · exact absurd hmem hmem'
    · exact absurd hmem' hmem
    · rw [h, hown]
      exact ht.putBlob key body
  | getBlob key =>
    rw [h.2, hown.2]
    exact ht
  | blobExists key =>
    rw [h.2, hown.2]
    exact ht
  | listBlobs rest =>
    rw [h.2, hown.2]
    exact ht
  | deleteBlob key =>
    simp only [Answers, applyPrefix_withPrefix, applyPrefix_new] at h hown
    rw [h, hown]
    exact ht.deleteBlob key

/-- Stripping a listing gives what the store under the prefix lists. -/
theorem lists_map_stripPrefix {rest : String} {keys : List String} (ht : Corresponds pfx s t)
    {listPrefix : String} (hkeys : Lists s listPrefix keys)
    (hunder : ∀ key ∈ s, startsWith key listPrefix = true → startsWith key (pfx ++ "/") = true)
    (hlist : ∀ key, startsWith (pfx ++ "/" ++ key) listPrefix = startsWith key rest) :
    Lists t rest (keys.map (withPrefix pfx).stripPrefix) := by
  have hstripped : ∀ key ∈ keys, ∃ rest, key = pfx ++ "/" ++ rest := fun key hkey =>
    exists_of_startsWith_slash (hunder key ((hkeys.2 key).mp hkey).1 ((hkeys.2 key).mp hkey).2)
  constructor
  · refine (List.nodup_map_iff_inj_on hkeys.1).mpr fun left hleft right hright heq => ?_
    obtain ⟨left', rfl⟩ := hstripped left hleft
    obtain ⟨right', rfl⟩ := hstripped right hright
    rw [stripPrefix_append_slash, stripPrefix_append_slash] at heq
    rw [heq]
  · intro key
    rw [List.mem_map, ht.mem_iff, ← hlist]
    constructor
    · intro h
      rcases h with ⟨stored, hstored, rfl⟩
      obtain ⟨rest', rfl⟩ := hstripped stored hstored
      rw [stripPrefix_append_slash]
      exact (hkeys.2 _).mp hstored
    · intro hkey
      exact ⟨_, (hkeys.2 _).mpr hkey, stripPrefix_append_slash pfx key⟩

theorem startsWith_empty (key : String) : startsWith key "" = true := by
  rw [startsWith_iff]
  exact List.nil_prefix

/-- A missing blob is reported under its key in the blob store. -/
theorem Corresponds.getBlob (h : Corresponds pfx s t) (key : String) :
    t.getBlob key = (s.getBlob (pfx ++ "/" ++ key)).mapError (ownError pfx) := by
  rw [Store.getBlob, Store.getBlob, h key]
  cases s.lookup (pfx ++ "/" ++ key) with
  | some body => rfl
  | none =>
    simp only [Except.mapError, ownError]
    rw [stripPrefix_append_slash]

/-- A blob that is there is read alike. -/
theorem ownResult_of_mem {key : String} (hmem : pfx ++ "/" ++ key ∈ s) :
    (s.getBlob (pfx ++ "/" ++ key)).mapError (ownError pfx) = s.getBlob (pfx ++ "/" ++ key) := by
  obtain ⟨body, hbody⟩ := Store.exists_lookup hmem
  rw [Store.getBlob_eq_ok.mpr hbody]
  rfl

theorem ne_append_slash (pfx key : String) : key ≠ pfx ++ "/" ++ key := by
  intro heq
  have hlength := congrArg (fun key : String => key.toList.length) heq
  simp only [toList_append_slash, List.length_append, List.length_cons] at hlength
  omega

/-- A blob that is read as a repository of its own reads it is there. -/
theorem mem_of_getBlob (h : Corresponds pfx s t) {key : String}
    (hread : t.getBlob key = s.getBlob (pfx ++ "/" ++ key)) : pfx ++ "/" ++ key ∈ s := by
  rw [Store.getBlob, Store.getBlob, h key] at hread
  cases hlookup : s.lookup (pfx ++ "/" ++ key) with
  | some body => exact Store.mem_of_lookup hlookup
  | none =>
    simp only [hlookup, Except.error.injEq, BackupError.missingBlob.injEq] at hread
    exact absurd hread (ne_append_slash pfx key)

/-- **One call.** A call under the prefix returns what a repository of its own
    returns, up to the keys in errors, unless it lists with the empty prefix beside
    a neighbour. -/
theorem BlobStoreBackupRepository.Answers.asOwn (ht : Corresponds pfx s t)
    (h : (withPrefix pfx).Answers c s r s₁) (hneighbour : c = .listBlobs "" → NoNeighbour pfx s) :
    ∃ t₁, new.Answers c t (c.ownResult pfx r) t₁ := by
  cases c with
  | putBlob key body => exact ⟨_, rfl⟩
  | putBlobIfAbsent key body =>
    simp only [Answers, applyPrefix_withPrefix, applyPrefix_new, ht.mem_iff] at h ⊢
    rcases h with ⟨hmem, hr, -⟩ | ⟨hmem, hr, -⟩
    · exact ⟨t, .inl ⟨hmem, hr, rfl⟩⟩
    · exact ⟨_, .inr ⟨hmem, hr, rfl⟩⟩
  | getBlob key =>
    rw [h.1]
    exact ⟨t, (ht.getBlob key).symm, rfl⟩
  | blobExists key => exact ⟨t, h.1.trans (ht.mem_iff key).symm, rfl⟩
  | listBlobs rest =>
    rcases h with ⟨⟨keys, hkeys, hr⟩, -⟩
    refine ⟨t, ⟨keys.map (withPrefix pfx).stripPrefix, ?_, hr.trans (List.map_id' _).symm⟩, rfl⟩
    by_cases hrest : rest = ""
    · subst hrest
      rw [applyPrefixToList_withPrefix_empty] at hkeys
      refine lists_map_stripPrefix ht hkeys (hneighbour rfl) fun key => ?_
      rw [applyPrefixToList_new, startsWith_empty]
      exact startsWith_of_startsWith_slash (startsWith_append_slash pfx key)
    · rw [applyPrefixToList_withPrefix hrest] at hkeys
      refine lists_map_stripPrefix ht hkeys (fun key _ hkey => ?_) fun key => ?_
      · rw [startsWith_iff] at hkey ⊢
        rw [String.toList_append] at hkey
        exact (List.prefix_append _ _).trans hkey
      · exact Bool.eq_iff_iff.mpr startsWith_append_iff
  | deleteBlob key => exact ⟨_, rfl⟩

/-- A neighbour's key is listed as it is stored, so the listing is not one of the
    store under the prefix. -/
theorem noNeighbour_of_listBlobs {listed : List String} (ht : Corresponds pfx s t)
    (h : (withPrefix pfx).Answers (.listBlobs "") s listed s₁)
    (hown : new.Answers (.listBlobs "") t listed t₁) : NoNeighbour pfx s := by
  rcases h with ⟨⟨keys, hkeys, hlisted⟩, -⟩
  rcases hown with ⟨⟨ownKeys, hown, hownListed⟩, -⟩
  have hsame : keys.map (withPrefix pfx).stripPrefix = ownKeys :=
    hlisted.symm.trans (hownListed.trans (List.map_id' _))
  intro key hkey hstarts
  by_contra hslash
  have hslash : startsWith key (pfx ++ "/") = false := Bool.eq_false_iff.mpr hslash
  have hkeyListed : key ∈ keys := (hkeys.2 key).mpr ⟨hkey, hstarts⟩
  have hown' : key ∈ ownKeys :=
    hsame ▸ List.mem_map.mpr ⟨key, hkeyListed, stripPrefix_of_neighbour hslash⟩
  -- so the own store holds the key, and the stripped listing has it twice
  have hunder : pfx ++ "/" ++ key ∈ keys := (hkeys.2 _).mpr
    ⟨(ht.mem_iff key).mp ((hown.2 key).mp hown').1,
      startsWith_of_startsWith_slash (startsWith_append_slash pfx key)⟩
  have hnodup : (keys.map (withPrefix pfx).stripPrefix).Nodup := hsame ▸ hown.1
  have heq := (List.nodup_map_iff_inj_on hkeys.1).mp hnodup key hkeyListed _ hunder
    ((stripPrefix_of_neighbour hslash).trans (stripPrefix_append_slash pfx key).symm)
  exact ne_of_outside hslash heq

end Calls

/-! ## Runs under a prefix -/

section Runs

variable {pfx : String} {s s' t t' : Store} {steps steps' : List RepositoryStep}

theorem RepositoryRun.sameOutside (h : RepositoryRun (withPrefix pfx) s steps s') :
    SameOutside pfx s s' := by
  induction h with
  | nil s => exact SameOutside.refl pfx s
  | cons hcall _ ih => exact hcall.sameOutside.trans ih

/-- Without neighbours in the listings a run under the prefix is one of a
    repository of its own. -/
theorem RepositoryRun.asOwn (h : RepositoryRun (withPrefix pfx) s steps s')
    (ht : Corresponds pfx s t) (hlists : ListsWithoutNeighbour pfx steps) :
    ∃ steps' t', RepositoryRun new t steps' t' ∧ observe steps' = observeOwn pfx steps ∧
      Corresponds pfx s' t' := by
  induction h generalizing t with
  | nil s => exact ⟨[], t, .nil t, rfl, ht⟩
  | @cons s s₁ s' c r steps hcall _ ih =>
    rcases List.forall_mem_cons.mp hlists with ⟨hhead, htail⟩
    obtain ⟨t₁, hown⟩ := hcall.asOwn ht hhead
    obtain ⟨steps', t', hrun, hobserve, ht'⟩ := ih (hcall.corresponds ht hown) htail
    refine ⟨⟨t, c, c.ownResult pfx r⟩ :: steps', t', .cons hown hrun, ?_, ht'⟩
    simp only [observe, observeOwn, List.map_cons] at hobserve ⊢
    rw [hobserve]

/-- A run that returns what a repository of its own returns has met no neighbour
    in its listings. -/
theorem RepositoryRun.listsWithoutNeighbour (h : RepositoryRun (withPrefix pfx) s steps s')
    (ht : Corresponds pfx s t) (hown : RepositoryRun new t steps' t')
    (hobserve : observe steps' = observeOwn pfx steps) : ListsWithoutNeighbour pfx steps := by
  induction h generalizing t steps' with
  | nil s => exact fun step hstep => absurd hstep List.not_mem_nil
  | @cons s s₁ s' c r steps hcall _ ih =>
    cases hown with
    | nil t => simp [observe, observeOwn] at hobserve
    | @cons _ t₁ _ c' r' steps' hcall' hrest =>
      simp only [observe, observeOwn, List.map_cons, List.cons.injEq, Sigma.mk.injEq] at hobserve
      rcases hobserve with ⟨⟨rfl, hr⟩, hobserve⟩
      cases eq_of_heq hr
      refine List.forall_mem_cons.mpr ⟨?_, ih (hcall.corresponds ht hcall') hrest hobserve⟩
      rintro rfl
      exact noNeighbour_of_listBlobs ht hcall hcall'

/-- Where every blob is there, no error names a key. -/
theorem RepositoryRun.observeOwn_eq (h : RepositoryRun (withPrefix pfx) s steps s')
    (hfinds : FindsBlobs pfx steps) : observeOwn pfx steps = observe steps := by
  induction h with
  | nil s => rfl
  | @cons s s₁ s' c r steps hcall _ ih =>
    rcases List.forall_mem_cons.mp hfinds with ⟨hhead, htail⟩
    have hresult : c.ownResult pfx r = r := by
      cases c with
      | getBlob key =>
        rw [hcall.1]
        exact ownResult_of_mem (hhead key rfl)
      | _ => rfl
    simp only [observe, observeOwn, List.map_cons] at ih ⊢
    rw [hresult, ih htail]

/-- A run that returns what a repository of its own returns has found every blob. -/
theorem RepositoryRun.findsBlobs (h : RepositoryRun (withPrefix pfx) s steps s')
    (ht : Corresponds pfx s t) (hown : RepositoryRun new t steps' t')
    (hobserve : observe steps' = observe steps) : FindsBlobs pfx steps := by
  induction h generalizing t steps' with
  | nil s => exact fun step hstep => absurd hstep List.not_mem_nil
  | @cons s s₁ s' c r steps hcall _ ih =>
    cases hown with
    | nil t => simp [observe] at hobserve
    | @cons _ t₁ _ c' r' steps' hcall' hrest =>
      simp only [observe, List.map_cons, List.cons.injEq, Sigma.mk.injEq] at hobserve
      rcases hobserve with ⟨⟨rfl, hr⟩, hobserve⟩
      cases eq_of_heq hr
      have hmem : ∀ key, c' = .getBlob key → pfx ++ "/" ++ key ∈ s := by
        rintro key rfl
        exact mem_of_getBlob ht (hcall'.1.symm.trans hcall.1)
      have hresult : c'.ownResult pfx r' = r' := by
        cases c' with
        | getBlob key =>
          rw [hcall.1]
          exact ownResult_of_mem (hmem key rfl)
        | _ => rfl
      exact List.forall_mem_cons.mpr
        ⟨hmem, ih (hcall.corresponds ht (hresult.symm ▸ hcall')) hrest hobserve⟩

/-- **A prefixed repository.** Up to the keys that errors name, a run under a
    prefix is one of a repository of its own exactly when no listing with the
    empty prefix meets a neighbour: a stored key that starts with the prefix and
    is not under it.  Its results are the same exactly when besides every blob
    that is read is there. -/
theorem prefixed_repository_behaves_as_own_iff (pfx : String) (s s' : Store)
    (steps : List RepositoryStep) (hrun : RepositoryRun (withPrefix pfx) s steps s') :
    (BehavesAsOwn pfx s steps s' ↔ ListsWithoutNeighbour pfx steps ∧ FindsBlobs pfx steps) ∧
    (BehavesAsOwnUpToKeys pfx s steps s' ↔ ListsWithoutNeighbour pfx steps) := by
  obtain ⟨t, ht⟩ := exists_corresponds pfx s
  have hshows : ListsWithoutNeighbour pfx steps →
      ShowsAsOwn pfx s (observeOwn pfx steps) s' := fun hlists =>
    ⟨hrun.sameOutside, fun t ht => hrun.asOwn ht hlists⟩
  constructor
  · constructor
    · rintro ⟨-, hown⟩
      obtain ⟨steps', t', hrun', hobserve, -⟩ := hown t ht
      have hfinds := hrun.findsBlobs ht hrun' hobserve
      exact ⟨hrun.listsWithoutNeighbour ht hrun' (hobserve.trans (hrun.observeOwn_eq hfinds).symm),
        hfinds⟩
    · rintro ⟨hlists, hfinds⟩
      rw [BehavesAsOwn, ← hrun.observeOwn_eq hfinds]
      exact hshows hlists
  · constructor
    · rintro ⟨-, hown⟩
      obtain ⟨steps', t', hrun', hobserve, -⟩ := hown t ht
      exact hrun.listsWithoutNeighbour ht hrun' hobserve
    · exact hshows

/-- Two tenants of one blob store, with the prefixes `a` and `ab`. -/
def tenants : Store := (Store.putBlob ∅ "ab/y" []).putBlob "a/x" []

/-- The first tenant lists all its keys. -/
def listsTenants : RepositoryStep := ⟨tenants, .listBlobs "", ["x", "ab/y"]⟩

theorem run_listsTenants : RepositoryRun (withPrefix "a") tenants [listsTenants] tenants := by
  refine .cons ⟨⟨["a/x", "ab/y"], ⟨by decide, fun key => ?_⟩, ?_⟩, rfl⟩ (.nil _)
  · have hkeys : key ∈ tenants ↔ key = "a/x" ∨ key = "ab/y" := by
      rw [tenants, Store.putBlob, Store.putBlob, AList.mem_insert, AList.mem_insert]
      simp [AList.notMem_empty]
    rw [hkeys, List.mem_cons, List.mem_singleton]
    constructor
    · intro h
      rcases h with rfl | rfl
      · exact ⟨.inl rfl, by decide⟩
      · exact ⟨.inr rfl, by decide⟩
    · exact fun h => h.1
  · change ["x", "ab/y"] = (["a/x", "ab/y"].map (withPrefix "a").stripPrefix : List String)
    decide

theorem neighbour_of_tenants : ¬ ListsWithoutNeighbour "a" [listsTenants] := by
  intro h
  have hneighbour := h listsTenants List.mem_cons_self rfl "ab/y" (by decide) (by decide)
  exact absurd hneighbour (by decide)

/-- It reads a blob, and another one that is missing. -/
def findsTenants : RepositoryStep := ⟨tenants, .getBlob "x", .ok []⟩

def missesTenants : RepositoryStep := ⟨tenants, .getBlob "z", .error (.missingBlob "a/z")⟩

theorem run_missesTenants :
    RepositoryRun (withPrefix "a") tenants [findsTenants, missesTenants] tenants :=
  .cons ⟨rfl, rfl⟩ (.cons ⟨rfl, rfl⟩ (.nil _))

theorem prefixed_repository_behaves_as_own_iff_tenants :
    BehavesAsOwn "a" tenants [findsTenants] tenants ∧
    (¬ BehavesAsOwn "a" tenants [findsTenants, missesTenants] tenants ∧
      BehavesAsOwnUpToKeys "a" tenants [findsTenants, missesTenants] tenants) ∧
    ¬ BehavesAsOwnUpToKeys "a" tenants [listsTenants] tenants := by
  have hfinds : RepositoryRun (withPrefix "a") tenants [findsTenants] tenants :=
    .cons ⟨rfl, rfl⟩ (.nil _)
  obtain ⟨hfound, -⟩ := prefixed_repository_behaves_as_own_iff "a" tenants tenants _ hfinds
  obtain ⟨hmissed, hmissed'⟩ :=
    prefixed_repository_behaves_as_own_iff "a" tenants tenants _ run_missesTenants
  obtain ⟨-, hlisted⟩ := prefixed_repository_behaves_as_own_iff "a" tenants tenants _ run_listsTenants
  refine ⟨hfound.mpr ⟨by simp [ListsWithoutNeighbour, findsTenants], ?_⟩, ⟨fun h => ?_, hmissed'.mpr ?_⟩,
    fun h => neighbour_of_tenants (hlisted.mp h)⟩
  · rintro step hstep key hcall
    obtain rfl := List.mem_singleton.mp hstep
    cases hcall
    decide
  · exact absurd ((hmissed.mp h).2 missesTenants (by simp) "z" rfl) (by decide)
  · simp [ListsWithoutNeighbour, findsTenants, missesTenants]

/-- The first tenant is shown the second one's key. -/
theorem listing_shows_neighbour :
    RepositoryRun (withPrefix "a") tenants [listsTenants] tenants ∧
      ¬ BehavesAsOwn "a" tenants [listsTenants] tenants := by
  refine ⟨run_listsTenants, fun h => neighbour_of_tenants ?_⟩
  obtain ⟨t, ht⟩ := exists_corresponds "a" tenants
  obtain ⟨steps', t', hrun, hobserve, -⟩ := h.2 t ht
  exact run_listsTenants.listsWithoutNeighbour ht hrun hobserve

end Runs

end GraphqlOrmBackup

import EventFs.Protocol.AffectedSets
import EventFs.Protocol.PlannedFacts
import EventFs.Transport.OwnWrites
import EventFs.Fuse.FileContents
import EventFs.Fuse.StalePaths
import EventFs.Fuse.WriteGate

/-!
# Cached values

The read cache keeps what has been read at a path. A change drops the entries of every path
that shows its value, whichever of them it was made through, and so what is left in the
cache is what the storage holds.
-/

namespace EventFs.Fuse

open Library Protocol Transport Program

variable {α β : Type}

/-! ## Paths of values -/

section Paths

variable {path : MountPath} {parsed : JetStreamPath} {fact : StorageFact}

/-- The value at a path, if the path is one of a value. -/
def factOf (path : MountPath) : Option StorageFact :=
  (parsePath path).toOption.bind StorageFact.fromJetstreamPath

theorem factOf_eq (hParsed : parsePath path = .ok parsed) :
    factOf path = StorageFact.fromJetstreamPath parsed := by
  rw [factOf, hParsed]
  rfl

theorem parse_of_parsePath (h : parsePath path = .ok parsed) :
    JetStreamPath.parse path.asStr = .ok parsed := by
  rw [parsePath] at h
  split at h
  · next found hFound => rw [hFound, ← Except.ok.inj h]
  · cases h

/-- The path is one of a key or an object, or an alias of one. -/
structure HoldsValue (path : MountPath) (fact : StorageFact) : Prop where
  isFact : factOf path = some fact
  isValue : ∀ stream subject, fact ≠ .streamSubject stream subject

theorem isValue_of_fact (hFact : StorageFact.fromJetstreamPath parsed = some fact)
    (hValue : ∀ stream subject, fact ≠ .streamSubject stream subject) : parsed.isValue = true := by
  cases parsed with
  | kvKey | object | task | agentRecord | semanticRecord => rfl
  | streamSubject | eventLog =>
      cases hFact
      exact absurd rfl (hValue _ _)
  | agentMailbox agent area =>
      cases area with
      | inbox | outbox =>
          cases hFact
          exact absurd rfl (hValue _ _)
      | tasks | memory => cases hFact
  | _ => cases hFact

theorem HoldsValue.parses (h : HoldsValue path fact) :
    ∃ parsed, parsePath path = .ok parsed ∧ parsed.isValue = true ∧
      StorageFact.fromJetstreamPath parsed = some fact := by
  obtain ⟨hFact, hValue⟩ := h
  cases hParsed : parsePath path with
  | error errno =>
      rw [factOf, hParsed] at hFact
      cases hFact
  | ok parsed =>
      rw [factOf_eq hParsed] at hFact
      exact ⟨parsed, rfl, isValue_of_fact hFact hValue, hFact⟩

theorem HoldsValue.shows (h : HoldsValue path fact) : Shows path.components fact := by
  obtain ⟨parsed, hParsed, hValue, hFact⟩ := h.parses
  obtain ⟨shown, hShown, hShows⟩ := shows_of_parse (parse_of_parsePath hParsed) hValue
  rw [hFact] at hShown
  rwa [Option.some.inj hShown]

end Paths

/-! ## Caches -/

section Caches

variable {store : MemoryStorage} {first second third before after : LocalCache}

/-- What is cached of values is what the storage holds. -/
def Coherent (store : MemoryStorage) (cache : LocalCache) : Prop :=
  ∀ ⦃path fact entry⦄, HoldsValue path fact → cache.entries[path.asStr]? = some entry →
    store.value fact = some entry.bytes

/-- What is cached of values was cached before, or is what the storage holds. -/
def Rereads (store : MemoryStorage) (before after : LocalCache) : Prop :=
  ∀ ⦃path fact entry⦄, HoldsValue path fact → after.entries[path.asStr]? = some entry →
    before.entries[path.asStr]? = some entry ∨ store.value fact = some entry.bytes

theorem Rereads.refl (store : MemoryStorage) (cache : LocalCache) : Rereads store cache cache :=
  fun _ _ _ _ h => Or.inl h

theorem Rereads.trans (hFirst : Rereads store first second) (hSecond : Rereads store second third) :
    Rereads store first third := by
  intro path fact entry hPath hCached
  rcases hSecond hPath hCached with hEarlier | hStored
  · exact hFirst hPath hEarlier
  · exact Or.inr hStored

theorem Coherent.rereads (h : Coherent store before) (hRereads : Rereads store before after) :
    Coherent store after := by
  intro path fact entry hPath hCached
  exact (hRereads hPath hCached).elim (h hPath) id

theorem rereads_applyInvalidation (store : MemoryStorage) (cache : LocalCache)
    (plan : InvalidationPlan) : Rereads store cache (cache.applyInvalidation plan) := by
  intro path fact entry _ hCached
  rw [LocalCache.getElem?_applyInvalidation] at hCached
  split at hCached
  · cases hCached
  · exact Or.inl hCached

/-- What is cached at a path, if it is the path of a value, is what is stored. -/
structure StoredEntry (store : MemoryStorage) (path : MountPath) (entry : CacheEntry) : Prop where
  named : entry.path = path.asStr
  bytes : ∀ fact, HoldsValue path fact → store.value fact = some entry.bytes

theorem rereads_insert {path : MountPath} {entry : CacheEntry} (h : StoredEntry store path entry)
    (cache : LocalCache) : Rereads store cache (cache.insert entry) := by
  intro other fact found hPath hCached
  rw [LocalCache.insert, h.named, Std.ExtTreeMap.getElem?_insert] at hCached
  split at hCached
  · next hSame =>
    obtain rfl : path = other := MountPath.ext (Std.compare_eq_iff_eq.mp hSame)
    cases hCached
    exact Or.inr (h.bytes fact hPath)
  · exact Or.inl hCached

theorem coherent_of_empty {cache : LocalCache} (h : ∀ key : Str, cache.entries[key]? = none) :
    Coherent store cache := by
  intro path fact entry _ hCached
  rw [h] at hCached
  cases hCached

theorem entries_gap (cache : LocalCache) (key : Str) :
    (cache.applyInvalidation .gap).entries[key]? = none := Std.ExtTreeMap.getElem?_empty

end Caches

/-! ## Local changes -/

section Local

variable {store : MemoryStorage} {path shown : MountPath} {fact : StorageFact}

/-- A change made through one path of a value drops what is cached at each of its paths. -/
theorem dropped_of_local (hFact : factOf path = some fact) (hShown : HoldsValue shown fact)
    (mount : Mount) :
    (mount.invalidateAfterLocalMutation path).cache.entries[shown.asStr]? = none := by
  obtain ⟨parsed, hParsed⟩ : ∃ parsed, parsePath path = .ok parsed := by
    cases hParsed : parsePath path with
    | ok parsed => exact ⟨parsed, rfl⟩
    | error errno =>
        rw [factOf, hParsed] at hFact
        cases hFact
  rw [factOf_eq hParsed] at hFact
  have hParse := parse_of_parsePath hParsed
  obtain ⟨visible, hVisible, hMem⟩ := visible_of_shows hShown.shows
  obtain ⟨paths, hPaths⟩ := invalidationPaths_ok hVisible
  obtain ⟨own, hOwn, -, hSame⟩ := (invalidationPathsForMountPath_same hParse hFact).2 paths hPaths
  have hPlan : InvalidationPlan.forLocalMutation path = .ok (.fromAffectedPaths own) :=
    except_bind_eq_ok.mpr ⟨parsed, hParse, except_bind_eq_ok.mpr ⟨own, hOwn, rfl⟩⟩
  obtain ⟨affected, hAffected, rfl⟩ :=
    List.mem_map.mp ((hSame shown).mpr (mem_invalidationPaths hVisible hPaths hMem))
  have hMatches : ∃ action ∈ InvalidationPlan.forAffectedPath affected.path affected.reason,
      pathMatchesAction affected.path action = true := LocalCache.pathMatchesAction_self
  obtain ⟨action, hAction, hMatch⟩ := hMatches
  simp only [Mount.invalidateAfterLocalMutation, hPlan]
  rw [Mount.cache_applyInvalidationPlan]
  exact LocalCache.applyInvalidation_of_mem
    ⟨action, InvalidationPlan.mem_fromAffectedPaths.mpr ⟨affected, hAffected, hAction⟩,
      Or.inr hMatch⟩

theorem rereads_local (store : MemoryStorage) (mount : Mount) (path : MountPath) :
    Rereads store mount.cache (mount.invalidateAfterLocalMutation path).cache := by
  unfold Mount.invalidateAfterLocalMutation
  split <;>
    · rw [Mount.cache_applyInvalidationPlan]
      exact rereads_applyInvalidation store mount.cache _

/-- After a change of one value the cache is coherent again once the change has been
invalidated. -/
theorem coherent_local {mount : Mount} (hFact : factOf path = some fact)
    (hOthers : ∀ ⦃shown other entry⦄, HoldsValue shown other → other ≠ fact →
      mount.cache.entries[shown.asStr]? = some entry → store.value other = some entry.bytes) :
    Coherent store (mount.invalidateAfterLocalMutation path).cache := by
  intro shown other entry hShown hCached
  by_cases hSame : other = fact
  · subst hSame
    rw [dropped_of_local hFact hShown] at hCached
    cases hCached
  · rcases rereads_local store mount path hShown hCached with hEarlier | hStored
    · exact hOthers hShown hSame hEarlier
    · exact hStored

end Local

/-! ## Looking at the storage -/

section Looking

variable [Serde] {store : MemoryStorage} {R : Mount → Mount → Prop}

/-- A storage call is answered with what the storage has to say, or it fails. -/
inductive Truthful (store : MemoryStorage) : (c : IoCall) → io.Reply c → Prop
  | told (call : StorageCall) : Truthful store (.store call) (MemoryStorage.handle store call).1
  | failed (call : StorageCall) (err : TransportError) : Truthful store (.store call) (.error err)

/-- Calls that look at this storage. -/
def looksAt (store : MemoryStorage) : Access io where
  issue := Observing
  answer := Truthful store

theorem observes_looksAt : Observes (looksAt store) := fun _ h => h

/-- The cache has only gained what is stored. -/
def Rereading (R : Mount → Mount → Prop) (store : MemoryStorage) (mount mount' : Mount) : Prop :=
  R mount mount' ∧ Rereads store mount.cache mount'.cache

omit [Serde] in
instance [Std.Refl R] : Std.Refl (Rereading R store) := ⟨fun mount => ⟨refl_of R mount, .refl _ _⟩⟩

omit [Serde] in
instance [IsTrans Mount R] : IsTrans Mount (Rereading R store) where
  trans _ _ _ hFirst hSecond := ⟨trans_of R hFirst.1 hSecond.1, hFirst.2.trans hSecond.2⟩

/-- A look whose answer is used. -/
theorem keeps_told [Std.Refl R] {call : StorageCall} {f : call.Value → Runtime α}
    (hObserves : StorageCall.observes call = true)
    (h : ∀ value, (MemoryStorage.handle store call).1 = .ok value →
      Keeps (looksAt store) R (f value).run) :
    Keeps (looksAt store) R (requestIo call >>= f).run := by
  intro mount
  refine ⟨hObserves, fun reply hReply => ?_⟩
  cases hReply with
  | failed err => exact refl_of R mount
  | told =>
      cases hTold : (MemoryStorage.handle store call).1 with
      | error err => exact refl_of R mount
      | ok value => exact h value hTold mount

omit [Serde] in
theorem keeps_cacheAndReturn {A : Access io} (hCaches : ∀ m m', OnlyCaches m m' →
    Rereads store m.cache m'.cache → R m m') {path : MountPath} (origin : CacheOrigin)
    {bytes : Bytes} (h : ∀ fact, HoldsValue path fact → store.value fact = some bytes)
    [Std.Refl R] [IsTrans Mount R] :
    Keeps A R (cacheAndReturn path origin bytes).run :=
  .andThen (.liftM (.modify fun mount => hCaches _ _ rfl (rereads_insert ⟨rfl, h⟩ mount.cache)))
    fun _ => .pure _

variable [Rendering]

/-- Code that looks at a storage caches of values only what is stored. -/
theorem looking_looksAt [Std.Refl R] [IsTrans Mount R] (hCaches : ∀ m m', OnlyCaches m m' →
    Rereads store m.cache m'.cache → R m m') : Looking (looksAt store) R where
  observe := observes_looksAt
  stale mount path := hCaches _ _ rfl (.refl _ _)
  watch := by
    intro mount
    refine ⟨rfl, fun reply hReply => ?_⟩
    cases hReply with
    | told => exact refl_of R mount
    | failed err =>
        refine hCaches _ _ (onlyCaches_applyWatchEvent mount .gap) ?_
        intro path fact entry _ hCached
        have hCache : (mount.applyWatchEvent .gap).cache = mount.cache.applyInvalidation .gap :=
          Mount.cache_applyInvalidationPlan mount .gap
        rw [hCache, entries_gap] at hCached
        cases hCached
  read := by
    intro path parsed action hParsed hPlan
    have hPlanned : planRead parsed = .ok action := by
      rw [planOrErrno] at hPlan
      split at hPlan
      · next found hFound =>
        cases hPlan
        exact hFound
      · cases hPlan
    have hFact (fact : StorageFact) (h : HoldsValue path fact) : action.fact = some fact :=
      planRead_fact hPlanned ((factOf_eq hParsed).symm.trans h.isFact)
    have hInsert (origin : CacheOrigin) {bytes : Bytes}
        (h : ∀ fact, action.fact = some fact →
          (∀ stream subject, fact ≠ .streamSubject stream subject) →
          store.value fact = some bytes) :
        Keeps (looksAt store) R (cacheAndReturn path origin bytes).run :=
      keeps_cacheAndReturn hCaches origin fun fact hHolds =>
        h fact (hFact fact hHolds) hHolds.isValue
    unfold readAction
    split
    · next bucket key =>
      refine keeps_told rfl fun entry hEntry => ?_
      cases entry with
      | none => exact .throw _
      | some entry =>
          refine hInsert _ ?_
          rintro fact ⟨⟩ -
          have hStored : store.kv[(bucket, key)]? = some entry := Except.ok.inj hEntry
          simp [MemoryStorage.value, hStored]
    · refine keeps_told rfl fun entry _ => ?_
      cases entry with
      | none => exact .throw _
      | some entry => exact hInsert _ fun fact h => by cases h
    · refine keeps_told rfl fun message _ => ?_
      cases Rendering.streamMessageBytes message with
      | error err => exact .throw _
      | ok bytes => exact hInsert _ fun fact h => by cases h
    · next bucket object =>
      refine keeps_told rfl fun version hVersion => ?_
      cases version with
      | none => exact .throw _
      | some version =>
          refine hInsert _ ?_
          rintro fact ⟨⟩ -
          have hStored : store.objects[(bucket, object)]? = some version := Except.ok.inj hVersion
          simp [MemoryStorage.value, hStored]
    · exact .andThen (.liftM .get) fun _ => .pure _
    · next target =>
      cases target with
      | stream stream subject =>
          refine .andThen (observes_looksAt.readMaterialized _) fun bytes => hInsert _ ?_
          rintro fact ⟨⟩ hValue
          exact absurd rfl (hValue _ _)
      | kv bucket key =>
          rw [readMaterialized, LawfulMonad.bind_assoc]
          refine keeps_told rfl fun entry hEntry => ?_
          cases entry with
          | none => exact .throw _
          | some entry =>
              have hStored : store.kv[(bucket, key)]? = some entry := Except.ok.inj hEntry
              have hValue : store.value (.kv bucket key) = some entry.bytes := by
                simp [MemoryStorage.value, hStored]
              refine hInsert (.materializedView path.asStr) ?_
              rintro fact ⟨⟩ -
              exact hValue
    · split
      · exact observes_looksAt.readStreamSubjectSnapshot _ _
      · exact .pure _
    · exact .throw _

theorem looking_rereading : Looking (looksAt store) (Rereading OnlyCaches store) :=
  looking_looksAt fun _ _ hOnly hRereads => ⟨hOnly, hRereads⟩

theorem handling_rereading : Handling (looksAt store) (Rereading SameReplay store) where
  toLooking := looking_looksAt fun _ _ hOnly hRereads => ⟨hOnly.sameReplay, hRereads⟩
  counters _ _ _ _ := ⟨rfl, .refl _ _⟩

end Looking

end EventFs.Fuse

import EventFs.Protocol.AffectedSets
import EventFs.Transport.ChangedFacts
import EventFs.Fuse.StoredKinds

/-!
# Invalidation covers what changes

A put, a delete or a publish changes one fact. Whatever `stat` then no longer reports in the
same way is a path of this fact or a directory above one, and so it is among the affected
paths.
-/

namespace EventFs.Fuse

open Library Protocol Transport Program

variable {before after : MemoryStorage} {fact : StorageFact}

/-! ## Keys and objects -/

/-- What is listed below a key, if its bucket exists. -/
def listedIn (bucketFound : Bool) (keys : List Str) (key : Str) :
    TransportResult (List DirectoryEntry) :=
  if bucketFound then .ok (immediateChildren keys key) else .error .notFound

/-- A directory of keys disappears only with a key below it. -/
theorem listedBelowKind_of_keys {stored found found' : Bool} {keys keys' : List Str} {key : Str}
    {kind : MountProjectionKind} (hPath : IsKeyPath key) (hFound : found = true → found' = true)
    (hKind : listedBelowKind stored (listedIn found keys key) = some kind) :
    listedBelowKind stored (listedIn found' keys' key) = some kind ∨
      ∃ below ∈ keys, below ∉ keys' ∧ KeyBelow key below := by
  cases stored with
  | true => exact Or.inl hKind
  | false =>
      cases found with
      | false => cases hKind
      | true =>
          obtain rfl := hFound rfl
          simp only [listedBelowKind, listedIn, Bool.false_eq_true, if_false, if_true,
            List.isEmpty_iff] at hKind ⊢
          split_ifs at hKind with hSome
          by_cases hNone : immediateChildren keys' key = []
          · obtain ⟨below, hMem, hGone, child, hChild⟩ := exists_gone_of_eq_nil hSome hNone
            exact Or.inr ⟨below, hMem, hGone, below_of_immediateChild hPath hChild⟩
          · rw [if_neg hNone]
            exact Or.inl hKind

theorem kvKind_eq (state : MemoryStorage) (bucket key : Str) :
    kvKind state bucket key = listedBelowKind (state.kv.contains (bucket, key))
      (listedIn (state.kvBuckets.contains bucket)
        (MemoryStorage.namesIn state.kv.keys bucket) key) := rfl

theorem objectKind_eq (state : MemoryStorage) (bucket name : Str) :
    objectKind state bucket name = listedBelowKind (state.objects.contains (bucket, name))
      (listedIn (state.objectBuckets.contains bucket)
        (MemoryStorage.namesIn state.objects.keys bucket) name) := rfl

theorem mem_kvNames {state : MemoryStorage} {bucket key : Str} :
    key ∈ MemoryStorage.namesIn state.kv.keys bucket ↔ (bucket, key) ∈ state.kv := by
  rw [mem_namesIn, Std.ExtTreeMap.mem_keys]

theorem mem_objectNames {state : MemoryStorage} {bucket name : Str} :
    name ∈ MemoryStorage.namesIn state.objects.keys bucket ↔ (bucket, name) ∈ state.objects := by
  rw [mem_namesIn, Std.ExtTreeMap.mem_keys]

/-- The kind of a key changes only with the key or a key below it. -/
theorem kvKind_of_changesOnly (h : ChangesOnly fact before after) {bucket key : Str}
    {kind : MountProjectionKind} (hPath : IsKeyPath key)
    (hKind : kvKind before bucket key = some kind) :
    kvKind after bucket key = some kind ∨ fact = .kv bucket key ∨
      ∃ below, KeyBelow key below ∧ fact = .kv bucket below := by
  by_cases hFact : fact = .kv bucket key
  · exact Or.inr (Or.inl hFact)
  · have hStored : after.kv.contains (bucket, key) = before.kv.contains (bucket, key) := by
      rw [Bool.eq_iff_iff, Std.ExtTreeMap.contains_iff_mem, Std.ExtTreeMap.contains_iff_mem]
      exact h.kv bucket key hFact
    rw [kvKind_eq] at hKind ⊢
    rw [hStored]
    rcases listedBelowKind_of_keys hPath (h.kvBuckets bucket) hKind with
      hSame | ⟨below, hMem, hGone, hBelow⟩
    · exact Or.inl hSame
    · refine Or.inr (Or.inr ⟨below, hBelow, ?_⟩)
      by_contra hOther
      rw [mem_kvNames] at hMem hGone
      exact hGone ((h.kv bucket below hOther).mpr hMem)

theorem objectKind_of_changesOnly (h : ChangesOnly fact before after) {bucket name : Str}
    {kind : MountProjectionKind} (hPath : IsKeyPath name)
    (hKind : objectKind before bucket name = some kind) :
    objectKind after bucket name = some kind ∨ fact = .object bucket name ∨
      ∃ below, KeyBelow name below ∧ fact = .object bucket below := by
  by_cases hFact : fact = .object bucket name
  · exact Or.inr (Or.inl hFact)
  · have hStored : after.objects.contains (bucket, name) =
        before.objects.contains (bucket, name) := by
      rw [Bool.eq_iff_iff, Std.ExtTreeMap.contains_iff_mem, Std.ExtTreeMap.contains_iff_mem]
      exact h.objects bucket name hFact
    rw [objectKind_eq] at hKind ⊢
    rw [hStored]
    rcases listedBelowKind_of_keys hPath (h.objectBuckets bucket) hKind with
      hSame | ⟨below, hMem, hGone, hBelow⟩
    · exact Or.inl hSame
    · refine Or.inr (Or.inr ⟨below, hBelow, ?_⟩)
      by_contra hOther
      rw [mem_objectNames] at hMem hGone
      exact hGone ((h.objects bucket below hOther).mpr hMem)

/-! ## What only grows -/

theorem existingKind_mono {found found' : Bool} {kind other : MountProjectionKind}
    (h : found = true → found' = true) (hKind : existingKind found kind = some other) :
    existingKind found' kind = some other := by
  cases found with
  | false => cases hKind
  | true =>
      rw [h rfl]
      exact hKind

theorem kvHistoryKind_of_changesOnly (h : ChangesOnly fact before after) {bucket key : Str}
    {kind : MountProjectionKind} (hPath : IsKeyPath key)
    (hKind : kvHistoryKind before bucket key = some kind) :
    kvHistoryKind after bucket key = some kind := by
  have hListed : ∀ state : MemoryStorage,
      listedBelowKind false (state.listKvHistoryPrefix bucket key) = listedBelowKind false
        (listedIn (state.kvBuckets.contains bucket)
          (MemoryStorage.namesIn state.kvHistory.keys bucket) key) := by
    intro state
    rw [MemoryStorage.listKvHistoryPrefix, listedIn, immediateHistoryChildren]
    cases state.kvBuckets.contains bucket with
    | false => rfl
    | true => simp [listedBelowKind]
  unfold kvHistoryKind at hKind ⊢
  rw [hListed] at hKind ⊢
  by_cases hAfter : (after.kvHistory.getD (bucket, key) []).isEmpty = true
  · have hBefore : (before.kvHistory.getD (bucket, key) []).isEmpty = true := by
      have hPrefix := h.history bucket key
      rw [List.isEmpty_iff.mp hAfter, List.prefix_nil] at hPrefix
      rw [hPrefix]
      rfl
    rw [if_pos hBefore] at hKind
    rw [if_pos hAfter]
    rcases listedBelowKind_of_keys hPath (h.kvBuckets bucket) hKind with
      hSame | ⟨below, hMem, hGone, -⟩
    · exact hSame
    · rw [mem_namesIn, Std.ExtTreeMap.mem_keys] at hMem hGone
      exact absurd (h.histories bucket below hMem) hGone
  · rw [if_neg hAfter]
    split_ifs at hKind with hBefore
    · simp only [listedBelowKind, Bool.false_eq_true, if_false] at hKind
      split at hKind
      · split_ifs at hKind
        exact hKind
      · cases hKind
    · exact hKind

/-! ## Every path -/

theorem isKeyPath_intercalate {names : List Str} (hne : names ≠ [])
    (hValid : MountPath.Valid names) : IsKeyPath (['/'].intercalate names) := by
  rw [IsKeyPath, MountPath.splitOn_intercalate_of_valid hValid hne]
  exact fun name hName => MountPath.ne_nil_of_valid (hValid name hName)

theorem isKeyPath_of_shows {path : MountPath} {bucket key : Str}
    (h : Shows path.components (.kv bucket key) ∨ Shows path.components (.object bucket key)) :
    IsKeyPath key := by
  have hValid := path.valid_components
  generalize path.components = parts at h hValid
  have hSub : ∀ {names : List Str}, (∀ name ∈ names, name ∈ parts) → MountPath.Valid names :=
    fun hNames name hName => hValid name (hNames name hName)
  rcases h with h | h
  · cases h with
    | kv bucket hne => exact isKeyPath_intercalate hne (hSub (by simp +contextual))
    | task hne => exact isKeyPath_intercalate hne (hSub (by simp +contextual))
    | semantic hne => exact isKeyPath_intercalate hne (hSub (by simp +contextual))
    | agent agent area hne =>
        exact isKeyPath_intercalate (List.cons_ne_nil _ _)
          (hSub fun name => List.mem_cons_of_mem _)
  · cases h with
    | object bucket hne => exact isKeyPath_intercalate hne (hSub (by simp +contextual))

/-- The fact that decides about a value path has changed, or one below it. -/
inductive Touches : StorageFact → StorageFact → Prop
  | same (fact : StorageFact) : Touches fact fact
  | kvBelow {bucket key below : Str} (h : KeyBelow key below) :
      Touches (.kv bucket below) (.kv bucket key)
  | objectBelow {bucket name below : Str} (h : KeyBelow name below) :
      Touches (.object bucket below) (.object bucket name)

/-- The path shows a fact that the change touches. -/
def TouchedAt (fact : StorageFact) (path : MountPath) : Prop :=
  ∃ shown, Shows path.components shown ∧ Touches fact shown

theorem kvKind_or_touched (h : ChangesOnly fact before after) {path : MountPath}
    {bucket key : Str} {kind : MountProjectionKind}
    (hShows : Shows path.components (.kv bucket key))
    (hKind : kvKind before bucket key = some kind) :
    kvKind after bucket key = some kind ∨ TouchedAt fact path := by
  rcases kvKind_of_changesOnly h (isKeyPath_of_shows (Or.inl hShows)) hKind with
    hSame | rfl | ⟨below, hBelow, rfl⟩
  · exact Or.inl hSame
  · exact Or.inr ⟨_, hShows, .same _⟩
  · exact Or.inr ⟨_, hShows, .kvBelow hBelow⟩

theorem storedKind_of_changesOnly [Rendering] (h : ChangesOnly fact before after) {path : MountPath}
    {parsed : JetStreamPath} {kind : MountProjectionKind}
    (hParse : JetStreamPath.parse path.asStr = .ok parsed)
    (hKind : storedKind before parsed = some kind) :
    storedKind after parsed = some kind ∨ TouchedAt fact path := by
  cases parsed with
  | kvBucket bucket => exact Or.inl (existingKind_mono (h.kvBuckets bucket) hKind)
  | kvHistoryRoot bucket => exact Or.inl (existingKind_mono (h.kvBuckets bucket) hKind)
  | objectBucket bucket => exact Or.inl (existingKind_mono (h.objectBuckets bucket) hKind)
  | streamRoot stream => exact Or.inl (existingKind_mono (h.streams stream) hKind)
  | streamMessages stream => exact Or.inl (existingKind_mono (h.streams stream) hKind)
  | streamSubjects stream => exact Or.inl (existingKind_mono (h.streams stream) hKind)
  | kvKey bucket key =>
      obtain ⟨shown, hFact, hShows⟩ := shows_of_parse hParse rfl
      cases hFact
      exact kvKind_or_touched h hShows hKind
  | agentRecord agent area name =>
      obtain ⟨shown, hFact, hShows⟩ := shows_of_parse hParse rfl
      cases hFact
      exact kvKind_or_touched h hShows hKind
  | semanticRecord area name =>
      obtain ⟨shown, hFact, hShows⟩ := shows_of_parse hParse rfl
      cases hFact
      exact kvKind_or_touched h hShows hKind
  | object bucket name =>
      obtain ⟨shown, hFact, hShows⟩ := shows_of_parse hParse rfl
      cases hFact
      rcases objectKind_of_changesOnly h (isKeyPath_of_shows (Or.inr hShows)) hKind with
        hSame | rfl | ⟨below, hBelow, rfl⟩
      · exact Or.inl hSame
      · exact Or.inr ⟨_, hShows, .same _⟩
      · exact Or.inr ⟨_, hShows, .objectBelow hBelow⟩
  | task ns task =>
      obtain ⟨shown, hFact, hShows⟩ := shows_of_parse hParse rfl
      cases hFact
      by_cases hSame : fact = .kv tasksBucket (ns ++ '/' :: task)
      · exact Or.inr ⟨_, hShows, hSame ▸ .same _⟩
      · refine Or.inl (existingKind_mono ?_ hKind)
        rw [Std.ExtTreeMap.contains_iff_mem, Std.ExtTreeMap.contains_iff_mem]
        exact (h.kv _ _ hSame).mpr
  | kvHistoryKey bucket key =>
      have hParses := parse_cases hParse
      have hValid := path.valid_components
      generalize path.components = parts at hParses hValid
      cases hParses with
      | kvHistoryKey hBucket hMarker hKey =>
          obtain ⟨hne, rfl⟩ := joinKvKey_eq_ok hKey
          have hPath := isKeyPath_intercalate hne fun part hPart =>
            hValid part (by simp [hPart])
          exact Or.inl (kvHistoryKind_of_changesOnly h hPath hKind)
  | kvRevision bucket key revision =>
      refine Or.inl (existingKind_mono ?_ hKind)
      rw [List.find?_isSome, List.find?_isSome]
      rintro ⟨entry, hMem, hSame⟩
      exact ⟨entry, (h.history bucket key).subset hMem, hSame⟩
  | streamMessage stream sequence =>
      left
      simp only [storedKind, messageKind] at hKind ⊢
      cases hMessage : before.streamMessage stream sequence with
      | error err =>
          rw [hMessage] at hKind
          cases hKind
      | ok message =>
          rw [streamMessage_stays (h.messages stream) hMessage, ← hMessage]
          exact hKind
  | streamSubject stream subject =>
      refine Or.inl (existingKind_mono ?_ hKind)
      have hPrefix : before.ofSubject stream subject.asStr <+:
          after.ofSubject stream subject.asStr :=
        (h.messages stream).filter _
      simp only [Bool.not_eq_true', List.isEmpty_eq_false_iff]
      intro hSome hNone
      rw [hNone, List.prefix_nil] at hPrefix
      exact hSome hPrefix
  | _ => exact Or.inl hKind

/-! ## The affected paths -/

/-- A path that is touched by the change of a fact that some path shows is affected. -/
theorem affected_of_touched {path : MountPath} (hTouched : TouchedAt fact path)
    (hValid : ∀ bucket key, fact = .kv bucket key ∨ fact = .object bucket key →
      MountPath.Valid (key.splitOn '/')) :
    ∃ paths, invalidationPaths fact = .ok paths ∧ path ∈ paths.map (·.path) := by
  obtain ⟨shown, hShows, hTouches⟩ := hTouched
  have hLength := hShows.two_le_length
  cases hTouches with
  | same =>
      rw [← List.append_nil path.components] at hShows
      exact affected_of_shows hShows hLength (by simp [MountPath.Valid])
  | @kvBelow bucket key below hBelow =>
      obtain ⟨rest, rfl⟩ := hBelow
      have hRest : MountPath.Valid (rest.splitOn '/') := by
        have hKey := hValid bucket _ (Or.inl rfl)
        rw [splitOn_slash] at hKey
        exact (MountPath.valid_append.mp hKey).2
      have hLong := hShows.kv_below (List.splitOn_ne_nil '/' rest)
      rw [List.intercalate_splitOn] at hLong
      exact affected_of_shows hLong hLength hRest
  | @objectBelow bucket name below hBelow =>
      obtain ⟨rest, rfl⟩ := hBelow
      have hRest : MountPath.Valid (rest.splitOn '/') := by
        have hKey := hValid bucket _ (Or.inr rfl)
        rw [splitOn_slash] at hKey
        exact (MountPath.valid_append.mp hKey).2
      have hLong := hShows.object_below (List.splitOn_ne_nil '/' rest)
      rw [List.intercalate_splitOn] at hLong
      exact affected_of_shows hLong hLength hRest

/-- A parsed path that names a key or an object has its components. -/
theorem valid_of_value {s : Str} {parsed : JetStreamPath}
    (hParse : JetStreamPath.parse s = .ok parsed)
    (hFact : StorageFact.fromJetstreamPath parsed = some fact) (bucket key : Str)
    (hKey : fact = .kv bucket key ∨ fact = .object bucket key) :
    MountPath.Valid (key.splitOn '/') := by
  have hValue : parsed.isValue = true := by
    cases parsed with
    | kvKey | object | task | agentRecord | semanticRecord => rfl
    | agentMailbox agent area =>
        rcases hKey with rfl | rfl <;>
          cases hSubject : agentSubject agent area <;>
          simp [StorageFact.fromJetstreamPath, MaterializedTarget.fromPath, hSubject,
            StorageFact.fromMaterializedTarget] at hFact
    | _ => rcases hKey with rfl | rfl <;> cases hFact
  obtain ⟨path, -, hPath, -⟩ := canonical_path_parses hParse
  obtain ⟨shown, hShown, hShows⟩ := shows_of_parse hPath hValue
  obtain rfl := Option.some.inj (hFact.symm.trans hShown)
  obtain ⟨visible, hVisible, -⟩ := visible_of_shows hShows
  rcases hKey with rfl | rfl
  · obtain ⟨native, hNative, -⟩ := except_bind_eq_ok.mp hVisible
    exact fun part hPart => (valid_of_pushStoragePath hNative).2 part (by simp [hPart])
  · exact fun part hPart => (valid_of_pushStoragePath hVisible).2 part (by simp [hPart])

/-- When one fact changes, whatever `stat` no longer reports in the same way is among the
affected paths of the fact; and these are the same, each once, whichever alias of the fact is
changed. -/
theorem invalidation_covers_change [Serde] [Rendering] {s : Str} {parsed : JetStreamPath}
    {call : StorageCall} (hParse : JetStreamPath.parse s = .ok parsed)
    (hFact : StorageFact.fromJetstreamPath parsed = some fact)
    (hCall : call.changedFact = some fact) :
    (∀ (before after : World MemoryStorage) (mount mount' : Mount) (path : MountPath)
      (kind : MountProjectionKind), Idle mount → Idle mount' →
        after.store = (MemoryStorage.handle before.store call).2 →
        statKind path mount before = some kind → statKind path mount' after ≠ some kind →
          ∃ paths, invalidationPaths fact = .ok paths ∧ path ∈ paths.map (·.path)) ∧
    (∀ err, invalidationPaths fact = .error err →
      invalidationPathsForMountPath parsed = .error err) ∧
    ∀ paths, invalidationPaths fact = .ok paths →
      ∃ own, invalidationPathsForMountPath parsed = .ok own ∧ (own.map (·.path)).Nodup ∧
        ∀ path : MountPath, path ∈ own.map (·.path) ↔ path ∈ paths.map (·.path) := by
  refine ⟨?_, invalidationPathsForMountPath_same hParse hFact⟩
  intro before after mount mount' path kind hIdle hIdle' hAfter hBefore hDiffers
  obtain ⟨shown, hShown⟩ := parses_of_statKind hBefore
  rw [statKind_eq hIdle hShown] at hBefore
  rw [statKind_eq hIdle' hShown, hAfter] at hDiffers
  have hTouched := (storedKind_of_changesOnly (.handle hCall) hShown hBefore).resolve_left hDiffers
  exact affected_of_touched hTouched (valid_of_value hParse hFact)

/-- A task is deleted through its alias. -/
theorem deleted_task_covered :
    let _ := MemoryStorage.nullSerde
    let _ := plainRendering
    (∀ (before after : World MemoryStorage) (mount mount' : Mount) (path : MountPath)
      (kind : MountProjectionKind), Idle mount → Idle mount' →
        after.store = (MemoryStorage.handle before.store
          (.kvDelete tasksBucket "build/t1.json".toList)).2 →
        statKind path mount before = some kind → statKind path mount' after ≠ some kind →
          ∃ paths, invalidationPaths (.kv tasksBucket "build/t1.json".toList) = .ok paths ∧
            path ∈ paths.map (·.path)) ∧
    (∀ err, invalidationPaths (.kv tasksBucket "build/t1.json".toList) = .error err →
      invalidationPathsForMountPath (.task "build".toList "t1.json".toList) = .error err) ∧
    ∀ paths, invalidationPaths (.kv tasksBucket "build/t1.json".toList) = .ok paths →
      ∃ own, invalidationPathsForMountPath (.task "build".toList "t1.json".toList) = .ok own ∧
        (own.map (·.path)).Nodup ∧
        ∀ path : MountPath, path ∈ own.map (·.path) ↔ path ∈ paths.map (·.path) := by
  let _ := MemoryStorage.nullSerde
  let _ := plainRendering
  have hParse : JetStreamPath.parse "/tasks/build/t1.json".toList =
      .ok (.task "build".toList "t1.json".toList) := by decide
  exact invalidation_covers_change hParse rfl rfl

end EventFs.Fuse

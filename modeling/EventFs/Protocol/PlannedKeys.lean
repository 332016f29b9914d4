import EventFs.Protocol.Plan
import EventFs.Protocol.RoundTrip

/-!
# Keys that a plan names

Every key or prefix of a bucket in a plan is one that the path stands for, and a path that
parses stands for no key that is reserved for markers.
-/

namespace EventFs.Protocol

open Library

/-! ## Reserved keys -/

/-- Texts before their first separators agree if the whole texts do. -/
theorem eq_of_append_separator {sep : Char → Bool} {x y u v : Str} {c d : Char}
    (hx : ∀ a ∈ x, sep a = false) (hy : ∀ a ∈ y, sep a = false) (hc : sep c = true)
    (hd : sep d = true) (h : x ++ c :: u = y ++ d :: v) : x = y := by
  induction x generalizing y with
  | nil =>
      cases y with
      | nil => rfl
      | cons b y =>
          simp only [List.nil_append, List.cons_append, List.cons.injEq] at h
          rw [hy c (h.1 ▸ List.mem_cons_self)] at hc
          cases hc
  | cons a x ih =>
      cases y with
      | nil =>
          simp only [List.nil_append, List.cons_append, List.cons.injEq] at h
          rw [hx d (h.1 ▸ List.mem_cons_self)] at hd
          cases hd
      | cons b y =>
          simp only [List.cons_append, List.cons.injEq] at h
          rw [h.1, ih (fun a hMem => hx a (List.mem_cons_of_mem _ hMem))
            (fun a hMem => hy a (List.mem_cons_of_mem _ hMem)) h.2]

theorem keyHasReservedPrefix_iff {key pre : Str} :
    keyHasReservedPrefix key pre = true ↔
      key = pre ∨ ∃ c rest, (c = '.' ∨ c = '/') ∧ key = pre ++ c :: rest := by
  rw [keyHasReservedPrefix, Bool.or_eq_true, beq_iff_eq]
  refine or_congr Iff.rfl ?_
  split
  · next tail hStrip =>
    rw [Text.stripPrefix_eq_some.mp hStrip]
    cases tail with
    | nil => simp [Text.startsWith]
    | cons c rest =>
        simp only [Text.startsWith, List.isPrefixOf, Bool.and_true, Bool.or_eq_true, beq_iff_eq,
          List.append_cancel_left_eq, List.cons.injEq]
        constructor
        · intro h
          exact ⟨c, rest, h.imp Eq.symm Eq.symm, rfl, rfl⟩
        · rintro ⟨c', rest', hSep, rfl, rfl⟩
          exact hSep.imp Eq.symm Eq.symm
  · next hStrip =>
    refine iff_of_false Bool.false_ne_true ?_
    rintro ⟨c, rest, -, hKey⟩
    exact Text.stripPrefix_eq_none.mp hStrip ⟨_, hKey.symm⟩

def isKeySeparator (c : Char) : Bool := c == '.' || c == '/'

/-- A name without separators decides whether the keys below it are reserved. -/
theorem keyHasReservedPrefix_below {name pre : Str} (rest : Str)
    (hName : ∀ c ∈ name, isKeySeparator c = false) (hPre : ∀ c ∈ pre, isKeySeparator c = false)
    (h : keyHasReservedPrefix (name ++ '/' :: rest) pre = true) :
    keyHasReservedPrefix name pre = true := by
  rw [keyHasReservedPrefix_iff] at h ⊢
  obtain hKey | ⟨c, tail, hSep, hKey⟩ := h
  · have hSlash := hPre '/' (hKey ▸ by simp)
    exact absurd hSlash (by decide)
  · refine Or.inl (eq_of_append_separator hName hPre (by decide) ?_ hKey)
    rcases hSep with rfl | rfl <;> decide

theorem isReservedKvKey_below {name : Str} (rest : Str)
    (hName : ∀ c ∈ name, isKeySeparator c = false) (h : isReservedKvKey name = false) :
    isReservedKvKey (name ++ '/' :: rest) = false := by
  rw [isReservedKvKey, Bool.or_eq_false_iff] at h ⊢
  have hBelow : ∀ {pre : Str}, (∀ c ∈ pre, isKeySeparator c = false) →
      keyHasReservedPrefix name pre = false →
        keyHasReservedPrefix (name ++ '/' :: rest) pre = false := by
    intro pre hPre hFree
    by_contra hReserved
    have hName := keyHasReservedPrefix_below rest hName hPre (by simpa using hReserved)
    rw [hFree] at hName
    cases hName
  exact ⟨hBelow (Text.forall_eq_false (by decide)) h.1,
    hBelow (Text.forall_eq_false (by decide)) h.2⟩

theorem validateKvKey_eq_ok {key : Str} :
    validateKvKey key = .ok () ↔
      (key ≠ [] ∧ Text.startsWith ['.'] key = false ∧ Text.endsWith ['.'] key = false) ∧
        isReservedKvKey key = false ∧ ∀ ch ∈ key, isKvKeyChar ch = true := by
  rw [validateKvKey]
  split_ifs with hShape hReserved hChars
  · refine iff_of_false (by simp) ?_
    rintro ⟨⟨hne, hStart, hEnd⟩, -⟩
    simp [List.isEmpty_iff, hne, hStart, hEnd] at hShape
  · exact iff_of_false (by simp) fun h => by simp [h.2.1] at hReserved
  · simp only [Bool.or_eq_true, List.isEmpty_iff, not_or, Bool.not_eq_true] at hShape
    refine iff_of_true rfl ⟨⟨hShape.1.1, hShape.1.2, hShape.2⟩, by simpa using hReserved, ?_⟩
    exact List.all_eq_true.mp hChars
  · exact iff_of_false (by simp) fun h => hChars (List.all_eq_true.mpr h.2.2)

theorem validateKvKey_of_joinKvKey {parts : List Str} {key : Str}
    (h : joinKvKey parts = .ok key) : validateKvKey key = .ok () := by
  obtain ⟨name, -, h⟩ := except_bind_eq_ok.mp h
  obtain ⟨⟨⟩, hKey, h⟩ := except_bind_eq_ok.mp h
  cases h
  exact hKey

theorem IsToken.not_separator {value : Str} (h : IsToken value) :
    ∀ c ∈ value, isKeySeparator c = false := by
  intro c hMem
  by_contra hSep
  rw [isKeySeparator, Bool.not_eq_false, Bool.or_eq_true, beq_iff_eq, beq_iff_eq] at hSep
  rcases hSep with rfl | rfl
  · exact h.not_mem (by decide) hMem
  · exact h.not_mem (by decide) hMem

/-! ## Keys of a path -/

namespace MaterializedTarget

def kvKeys : MaterializedTarget → List Str
  | .kv _ key => [key]
  | .stream _ _ => []

end MaterializedTarget

/-- The keys and prefixes of buckets that a path stands for. -/
def JetStreamPath.kvNames : JetStreamPath → List Str
  | .kvKey _ key | .kvHistoryKey _ key | .kvRevision _ key _ => [key]
  | .taskNamespace ns => [ns]
  | .task ns file => [ns ++ '/' :: file]
  | .agentDirectory agent area => [agent ++ '/' :: area.asStr]
  | .agentRecord agent area path => [agent ++ '/' :: area.asStr ++ '/' :: path]
  | .semanticArea area => [area.asStr]
  | .semanticRecord area path => [area.asStr ++ '/' :: path]
  | _ => []

def FileIntent.kvNames : FileIntent → List Str
  | .rename dst => dst.kvNames
  | _ => []

theorem semanticArea_free (area : SemanticArea) :
    (∀ c ∈ area.asStr, isKeySeparator c = false) ∧ isReservedKvKey area.asStr = false := by
  cases area <;> exact ⟨Text.forall_eq_false (by decide), by decide⟩

theorem Parses.kvNames_free {parts : List Str} {parsed : JetStreamPath}
    (h : Parses parts parsed) : ∀ name ∈ parsed.kvNames, isReservedKvKey name = false := by
  have hJoined : ∀ {parts : List Str} {key : Str}, joinKvKey parts = .ok key →
      ∀ name ∈ [key], isReservedKvKey name = false := by
    intro parts key hKey name hMem
    rw [List.mem_singleton.mp hMem]
    exact (validateKvKey_eq_ok.mp (validateKvKey_of_joinKvKey hKey)).2.1
  cases h with
  | kvKey _ _ hKey => exact hJoined hKey
  | kvHistoryKey _ _ hKey => exact hJoined hKey
  | kvRevision _ _ hKey => exact hJoined hKey
  | taskNamespace _ hReserved => simpa [JetStreamPath.kvNames] using hReserved
  | task hName hReserved _ =>
      simpa [JetStreamPath.kvNames] using isReservedKvKey_below _ hName.not_separator hReserved
  | agentDirectory hName hReserved _ =>
      simpa [JetStreamPath.kvNames] using isReservedKvKey_below _ hName.not_separator hReserved
  | agentRecord hName hReserved _ _ =>
      simpa [JetStreamPath.kvNames] using isReservedKvKey_below _ hName.not_separator hReserved
  | semanticArea area => simpa [JetStreamPath.kvNames] using (semanticArea_free area).2
  | semanticRecord area _ =>
      obtain ⟨hSep, hFree⟩ := semanticArea_free area
      simpa [JetStreamPath.kvNames] using isReservedKvKey_below _ hSep hFree
  | _ => simp [JetStreamPath.kvNames]

/-! ## Keys of an action -/

namespace JetStreamAction

/-- The keys of buckets that an action reads, writes or removes. -/
def kvKeys : JetStreamAction → List Str
  | .kvGet _ key | .kvPut _ key | .kvDelete _ key | .kvHistory _ key | .kvRevision _ key _ => [key]
  | .materializedGet target | .materializedPut target | .materializedDelete target =>
      target.kvKeys
  | .rename (.kv _ fromKey _ toKey) => [fromKey, toKey]
  | _ => []

/-- The prefixes of buckets under which an action lists or makes a directory. -/
def kvPrefixes : JetStreamAction → List Str
  | .ensureKvDirectory _ pre | .listKvPrefix _ pre | .listKvHistoryPrefix _ pre => [pre]
  | _ => []

/-- All names of an action are from the list, but for the empty prefix. -/
def NamesFrom (action : JetStreamAction) (names : List Str) : Prop :=
  (∀ key ∈ action.kvKeys, key ∈ names) ∧ ∀ pre ∈ action.kvPrefixes, pre ≠ [] → pre ∈ names

end JetStreamAction

theorem fromPath_kvKeys {path : JetStreamPath} {target : MaterializedTarget}
    (h : MaterializedTarget.fromPath path = some target) :
    ∀ key ∈ target.kvKeys, key ∈ path.kvNames := by
  unfold MaterializedTarget.fromPath at h
  split at h
  · cases h
    simp [MaterializedTarget.kvKeys]
  · cases h
    simp [MaterializedTarget.kvKeys, JetStreamPath.kvNames]
  · obtain ⟨subject, -, rfl⟩ := Option.map_eq_some_iff.mp h
    simp [MaterializedTarget.kvKeys]
  · cases h
    simp [MaterializedTarget.kvKeys, JetStreamPath.kvNames]
  · cases h
    simp [MaterializedTarget.kvKeys, JetStreamPath.kvNames]
  · cases h

section Plans

open JetStreamAction

variable {path : JetStreamPath} {action : JetStreamAction}

theorem planRead_names (h : planRead path = .ok action) : action.NamesFrom path.kvNames := by
  unfold planRead at h
  split at h
  case h_7 =>
    split at h
    · next target hTarget =>
      cases h
      exact ⟨fromPath_kvKeys hTarget, by simp [kvPrefixes]⟩
    · cases h
  all_goals
    cases h
    simp [NamesFrom, kvKeys, kvPrefixes, JetStreamPath.kvNames]

theorem planGetattr_names (h : planGetattr path = .ok action) :
    action.NamesFrom path.kvNames := by
  rw [planGetattr] at h
  split_ifs at h
  · cases h
    simp [NamesFrom, kvKeys, kvPrefixes]
  · exact planRead_names h

theorem planReaddir_names (h : planReaddir path = .ok action) :
    action.NamesFrom path.kvNames := by
  unfold planReaddir at h
  split at h
  all_goals
    cases h
    try simp [NamesFrom, kvKeys, kvPrefixes, JetStreamPath.kvNames]

theorem planWrite_names (h : planWrite path = .ok action) : action.NamesFrom path.kvNames := by
  unfold planWrite at h
  split at h
  case h_3 | h_4 =>
    split at h
    · cases h
      simp [NamesFrom, kvKeys, kvPrefixes]
    · cases h
  case h_12 => split_ifs at h
  all_goals
    cases h
    try simp [NamesFrom, kvKeys, kvPrefixes, JetStreamPath.kvNames, MaterializedTarget.kvKeys]

theorem planMkdir_names (h : planMkdir path = .ok action) : action.NamesFrom path.kvNames := by
  unfold planMkdir at h
  split at h
  all_goals
    cases h
    try simp [NamesFrom, kvKeys, kvPrefixes, JetStreamPath.kvNames]

theorem planUnlink_names (h : planUnlink path = .ok action) :
    action.NamesFrom path.kvNames := by
  unfold planUnlink at h
  split at h
  all_goals
    cases h
    try simp [NamesFrom, kvKeys, kvPrefixes, JetStreamPath.kvNames, MaterializedTarget.kvKeys]

/-- Renaming the values behind two paths names their two keys. -/
theorem materializedRename_names {dst : JetStreamPath}
    (h : (match MaterializedTarget.fromPath path, MaterializedTarget.fromPath dst with
      | some (.kv fromBucket fromKey), some (.kv toBucket toKey) =>
          if fromBucket ≠ toBucket then Except.error (crossDeviceRename path)
          else .ok (JetStreamAction.rename (.kv fromBucket fromKey toBucket toKey))
      | _, _ => .error (crossDeviceRename path)) = .ok action) :
    action.NamesFrom (path.kvNames ++ dst.kvNames) := by
  split at h
  · next hSrc hDst =>
    split_ifs at h
    cases h
    have hFrom := fromPath_kvKeys hSrc
    have hTo := fromPath_kvKeys hDst
    simp only [MaterializedTarget.kvKeys, List.mem_singleton, forall_eq] at hFrom hTo
    simp [NamesFrom, kvKeys, kvPrefixes, hFrom, hTo]
  · cases h

theorem planRename_names {dst : JetStreamPath} (h : planRename path dst = .ok action) :
    action.NamesFrom (path.kvNames ++ dst.kvNames) := by
  rw [planRename] at h
  split at h
  · split_ifs at h
    simp only at h
    split at h
    · split_ifs at h
      · cases h
        simp [NamesFrom, kvKeys, kvPrefixes, JetStreamPath.kvNames]
      · exact materializedRename_names h
    · split_ifs at h
      · cases h
        simp [NamesFrom, kvKeys, kvPrefixes]
      · exact materializedRename_names h
    · exact materializedRename_names h
  · cases h

/-- A plan names nothing of a bucket but what its paths stand for. -/
theorem planOperation_names {intent : FileIntent} (h : planOperation intent path = .ok action) :
    action.NamesFrom (path.kvNames ++ intent.kvNames) := by
  cases intent with
  | rename dst => exact planRename_names h
  | getAttr => simpa [FileIntent.kvNames] using planGetattr_names h
  | readDir => simpa [FileIntent.kvNames] using planReaddir_names h
  | read => simpa [FileIntent.kvNames] using planRead_names h
  | write | create => simpa [FileIntent.kvNames] using planWrite_names h
  | mkdir => simpa [FileIntent.kvNames] using planMkdir_names h
  | unlink => simpa [FileIntent.kvNames] using planUnlink_names h

end Plans

end EventFs.Protocol

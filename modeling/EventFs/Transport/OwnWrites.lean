import EventFs.Protocol.OwnPaths
import EventFs.Transport.Cache
import EventFs.Transport.Overlay

/-!
# A path and the writes made through it

A write made through a path that cannot reach the backend waits in the queue and shows at
the visible paths of its fact; the mount drops what it has cached for the paths the change
may affect. Both look the path up in lists derived from the fact.
-/

namespace EventFs.Transport

open Library Protocol

/-- The fact a queued operation writes. -/
def QueueOperation.fact : QueueOperation → StorageFact
  | .kvPut bucket key _ | .materializedPut bucket key _ => .kv bucket key
  | .kvRenameComplete _ _ _ toBucket toKey _ => .kv toBucket toKey
  | .objectPut bucket object _ => .object bucket object
  | .objectRenameComplete _ _ _ _ toBucket toObject _ => .object toBucket toObject
  | .publishJsonLines stream subject _ _ => .streamSubject stream subject

theorem visiblePaths_queueEntryPendingOverlay (entry : QueueEntry) :
    (queueEntryPendingOverlay entry).visiblePaths =
      storageFactVisiblePaths entry.operation.fact := by
  unfold queueEntryPendingOverlay
  cases entry.operation <;> rfl

namespace InvalidationPlan

theorem mem_push {plan : InvalidationPlan} {action other : InvalidationAction} :
    other ∈ plan.push action ↔ other ∈ plan ∨ other = action := by
  rw [push]
  split_ifs with hAny
  · obtain ⟨candidate, hMem, hSame⟩ := List.any_eq_true.mp hAny
    obtain rfl := eq_of_beq hSame
    exact ⟨Or.inl, fun h => h.elim id (fun hEq => hEq ▸ hMem)⟩
  · simp

theorem mem_extend {plan other : InvalidationPlan} {action : InvalidationAction} :
    action ∈ plan.extend other ↔ action ∈ plan ∨ action ∈ other := by
  rw [extend]
  induction other generalizing plan with
  | nil => simp
  | cons first rest ih => rw [List.foldl_cons, ih, mem_push, List.mem_cons, or_assoc]

/-- The plan for some paths has the actions of each of them. -/
theorem mem_fromAffectedPaths {paths : List AffectedPath} {action : InvalidationAction} :
    action ∈ fromAffectedPaths paths ↔
      ∃ affected ∈ paths, action ∈ forAffectedPath affected.path affected.reason := by
  have hFold : ∀ plan : InvalidationPlan, action ∈ paths.foldl (fun plan affected =>
      extend plan (forAffectedPath affected.path affected.reason)) plan ↔
        action ∈ plan ∨
          ∃ affected ∈ paths, action ∈ forAffectedPath affected.path affected.reason := by
    intro plan
    induction paths generalizing plan with
    | nil => simp
    | cons affected rest ih => rw [List.foldl_cons, ih, mem_extend]; simp [or_assoc]
  exact (hFold []).trans (by simp)

/-- The plan of a mutation covers its path if the path is among those of its fact. -/
theorem forLocalMutation_covers {path : MountPath} {parsed : JetStreamPath} {fact : StorageFact}
    {visible : List AffectedPath} (hParse : JetStreamPath.parse path.asStr = .ok parsed)
    (hFact : StorageFact.fromJetstreamPath parsed = some fact)
    (hVisible : visiblePaths fact = .ok visible) (hMem : path ∈ visible.map (·.path)) :
    ∃ plan, forLocalMutation path = .ok plan ∧
      ∃ action ∈ plan, pathMatchesAction path action = true := by
  obtain ⟨source, hSource, -⟩ := canonical_path_parses hParse
  obtain ⟨paths, hPaths⟩ := invalidationPaths_ok hVisible
  obtain ⟨reordered, hReordered, hKept⟩ := prioritizeSourcePath_ok paths source
  have hAffected : invalidationPathsForMountPath parsed = .ok reordered := by
    refine except_bind_eq_ok.mpr ⟨source, hSource, ?_⟩
    rw [hFact]
    exact except_bind_eq_ok.mpr ⟨paths, hPaths, hReordered⟩
  refine ⟨fromAffectedPaths reordered, ?_, ?_⟩
  · exact except_bind_eq_ok.mpr ⟨parsed, hParse, except_bind_eq_ok.mpr ⟨_, hAffected, rfl⟩⟩
  · obtain ⟨affected, hIn, rfl⟩ :=
      List.mem_map.mp (hKept path (mem_invalidationPaths hVisible hPaths hMem))
    obtain ⟨action, hAction, hMatches⟩ :
        ∃ action ∈ forAffectedPath affected.path affected.reason,
          pathMatchesAction affected.path action = true :=
      LocalCache.pathMatchesAction_self
    exact ⟨action, mem_fromAffectedPaths.mpr ⟨affected, hIn, hAction⟩, hMatches⟩

end InvalidationPlan

/-- A path sees the writes made through it: it is a visible path of its fact, so that a
queued write of the fact shows there and a local mutation invalidates it. -/
structure SeesOwnWrites (path : MountPath) (fact : StorageFact) : Prop where
  visible : ∃ paths, visiblePaths fact = .ok paths ∧ path ∈ paths.map (·.path)
  overlay : ∀ entry : QueueEntry, entry.operation.fact = fact →
    path ∈ (queueEntryPendingOverlay entry).visiblePaths
  plan : ∃ plan, InvalidationPlan.forLocalMutation path = .ok plan ∧
    ∃ action ∈ plan, pathMatchesAction path action = true

theorem seesOwnWrites_iff {path : MountPath} {parsed : JetStreamPath} {fact : StorageFact}
    (hParse : JetStreamPath.parse path.asStr = .ok parsed)
    (hFact : StorageFact.fromJetstreamPath parsed = some fact) :
    SeesOwnWrites path fact ↔ OwnSpelling path.components fact := by
  rw [← visible_at_itself_iff hParse hFact]
  refine ⟨fun h => h.visible, fun hVisible => ?_⟩
  obtain ⟨paths, hPaths, hMem⟩ := hVisible
  refine ⟨⟨paths, hPaths, hMem⟩, fun entry hEntry => ?_,
    InvalidationPlan.forLocalMutation_covers hParse hFact hPaths hMem⟩
  rw [visiblePaths_queueEntryPendingOverlay, hEntry, storageFactVisiblePaths, hPaths]
  exact hMem

/-- A plain file of a bucket. -/
def configFile : MountPath :=
  @MountPath.ofValid ["kv".toList, "config".toList, "app".toList] (by decide)

theorem configFile_sees : SeesOwnWrites configFile (.kv "config".toList "app".toList) := by
  have hParse : JetStreamPath.parse configFile.asStr =
      .ok (.kvKey "config".toList "app".toList) := by decide
  refine (seesOwnWrites_iff hParse rfl).mpr ⟨fun stream file hParts => ?_, fun _ _ hFact => ?_⟩
  · rw [configFile, MountPath.components_ofValid, List.cons.injEq] at hParts
    exact absurd hParts.1 (by decide)
  · cases hFact

/-- The subject `foo` under the name that the mount gives to subjects with odd characters. -/
def hexOfPlain : MountPath :=
  @MountPath.ofValid ["streams".toList, "ORDERS".toList, "subjects".toList,
    "__eventfs_subject_hex_666f6f.jsonl".toList] (by decide)

/-- The read path knows the file, the list of visible paths does not. -/
theorem hexOfPlain_unseen :
    hexOfPlain.asStr =
        "/streams/ORDERS/subjects/__eventfs_subject_hex_666f6f.jsonl".toList ∧
      ∃ parsed fact, JetStreamPath.parse hexOfPlain.asStr = .ok parsed ∧
        StorageFact.fromJetstreamPath parsed = some fact ∧
          ¬ (∃ paths, visiblePaths fact = .ok paths ∧ hexOfPlain ∈ paths.map (·.path)) ∧
            ¬ SeesOwnWrites hexOfPlain fact := by
  have hParse : JetStreamPath.parse hexOfPlain.asStr =
      .ok (.streamSubject "ORDERS".toList ⟨"foo".toList⟩) := by decide
  have hUnseen : ¬ OwnSpelling hexOfPlain.components
      (.streamSubject "ORDERS".toList "foo".toList) := by
    intro h
    have hFile := h.file _ _ (MountPath.components_ofValid _) "666f6f".toList (by decide)
    have hPlain := hFile.2 "foo".toList (by decide)
    exact absurd hPlain (by decide)
  rw [← visible_at_itself_iff hParse rfl] at hUnseen
  exact ⟨by decide, _, _, hParse, rfl, hUnseen, fun h => hUnseen h.visible⟩

end EventFs.Transport

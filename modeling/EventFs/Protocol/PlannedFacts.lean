import EventFs.Protocol.Plan

/-!
# Plans and storage facts

Reads and writes go to the storage through the planner, invalidation and the pending overlay
go through `StorageFact.fromJetstreamPath`. Both walk over all kinds of paths, and they name
the same value.
-/

namespace EventFs.Protocol

open Library

/-- The value an action reads, writes or deletes. -/
def JetStreamAction.fact : JetStreamAction → Option StorageFact
  | .kvGet bucket key | .kvPut bucket key | .kvDelete bucket key => some (.kv bucket key)
  | .publishJsonLines stream subject => some (.streamSubject stream subject)
  | .objectGet bucket object | .objectPut bucket object | .objectDelete bucket object =>
      some (.object bucket object)
  | .materializedGet target | .materializedPut target | .materializedDelete target =>
      some (.fromMaterializedTarget target)
  | _ => none

def RenamePlan.source : RenamePlan → StorageFact
  | .kv fromBucket fromKey _ _ => .kv fromBucket fromKey
  | .object fromBucket fromObject _ _ => .object fromBucket fromObject

def RenamePlan.target : RenamePlan → StorageFact
  | .kv _ _ toBucket toKey => .kv toBucket toKey
  | .object _ _ toBucket toObject => .object toBucket toObject

/-- The bucket or the stream a value is in. -/
def StorageFact.container : StorageFact → Str
  | .kv bucket _ | .object bucket _ => bucket
  | .streamSubject stream _ => stream

variable {path : JetStreamPath} {action : JetStreamAction}

theorem fact_of_target {target : MaterializedTarget}
    (h : MaterializedTarget.fromPath path = some target) :
    StorageFact.fromJetstreamPath path = some (.fromMaterializedTarget target) := by
  cases path with
  | kvKey _ _ => cases h
  | streamSubject _ _ => cases h
  | object _ _ => cases h
  | _ =>
      rw [StorageFact.fromJetstreamPath, h, Option.map_some]
      all_goals simp

/-- A read of a value reads the value of the path. -/
theorem planRead_fact {fact : StorageFact} (h : planRead path = .ok action)
    (hFact : StorageFact.fromJetstreamPath path = some fact) : action.fact = some fact := by
  cases path with
  | kvKey bucket key =>
      cases h
      exact hFact
  | streamSubject stream subject =>
      cases h
      exact hFact
  | object bucket object =>
      cases h
      exact hFact
  | kvRevision bucket key revision => cases hFact
  | streamMessage stream sequence => cases hFact
  | metadataFile file => cases hFact
  | _ =>
      simp only [planRead] at h
      split at h
      · next target hTarget =>
        cases h
        exact (fact_of_target hTarget).symm.trans hFact
      · cases h

/-- A write goes to the value of the path. -/
theorem planWrite_fact (h : planWrite path = .ok action) :
    ∃ fact, action.fact = some fact ∧ StorageFact.fromJetstreamPath path = some fact := by
  cases path with
  | kvKey | streamSubject | object | eventLog | task | semanticRecord =>
      cases h
      exact ⟨_, rfl, rfl⟩
  | agentMailbox agent area =>
      cases area with
      | inbox | outbox =>
          cases h
          exact ⟨_, rfl, rfl⟩
      | tasks | memory => cases h
  | agentRecord agent area path =>
      cases area with
      | inbox | outbox => cases h
      | tasks | memory =>
          cases h
          exact ⟨_, rfl, rfl⟩
  | _ => cases h

/-- A delete removes the value of the path. -/
theorem planUnlink_fact (h : planUnlink path = .ok action) :
    ∃ fact, action.fact = some fact ∧ StorageFact.fromJetstreamPath path = some fact := by
  cases path with
  | kvKey | object | task | agentRecord | semanticRecord =>
      cases h
      exact ⟨_, rfl, rfl⟩
  | _ => cases h

/-- Both ends of a rename plan are the values of its two paths. -/
theorem planRename_facts {src dst : JetStreamPath} (h : planRename src dst = .ok action) :
    ∃ plan, action = .rename plan ∧ StorageFact.fromJetstreamPath src = some plan.source ∧
      StorageFact.fromJetstreamPath dst = some plan.target ∧
      plan.source.container = plan.target.container ∧
      ∃ surface, renameSurface src = some surface ∧ renameSurface dst = some surface := by
  rw [planRename] at h
  cases hSrc : renameSurface src with
  | none => simp [hSrc] at h
  | some srcSurface =>
      cases hDst : renameSurface dst with
      | none => simp [hSrc, hDst] at h
      | some dstSurface =>
          simp only [hSrc, hDst] at h
          split_ifs at h with hSurface
          rw [ne_eq, not_not] at hSurface
          subst hSurface
          split at h
          · next fromBucket fromKey toBucket toKey =>
            split_ifs at h with hBucket
            · cases h
              exact ⟨_, rfl, rfl, rfl, hBucket, _, rfl, rfl⟩
            · cases h
          · next fromBucket fromObject toBucket toObject =>
            split_ifs at h with hBucket
            · cases h
              exact ⟨_, rfl, rfl, rfl, hBucket, _, rfl, rfl⟩
            · cases h
          · split at h
            · next fromBucket fromKey toBucket toKey hFrom hTo =>
              split_ifs at h with hBucket
              rw [not_not] at hBucket
              cases h
              exact ⟨_, rfl, fact_of_target hFrom, fact_of_target hTo, hBucket, _, rfl, rfl⟩
            · cases h

/-- What the planner does with the value of a path is done to the value that invalidation and
the pending overlay see at the path. -/
theorem plans_name_facts :
    (∀ intent path fact action, intent ∈ [FileIntent.read, .write, .create, .unlink] →
      StorageFact.fromJetstreamPath path = some fact → planOperation intent path = .ok action →
        action.fact = some fact) ∧
    (∀ intent path action, intent ∈ [FileIntent.write, .create, .unlink] →
      planOperation intent path = .ok action →
        ∃ fact, StorageFact.fromJetstreamPath path = some fact) ∧
    ∀ src dst action, planOperation (.rename dst) src = .ok action →
      ∃ plan, action = .rename plan ∧ StorageFact.fromJetstreamPath src = some plan.source ∧
        StorageFact.fromJetstreamPath dst = some plan.target ∧
        plan.source.container = plan.target.container ∧
        ∃ surface, renameSurface src = some surface ∧ renameSurface dst = some surface := by
  have hWritten {intent : FileIntent} {path : JetStreamPath} {action : JetStreamAction}
      (hIntent : intent ∈ [FileIntent.write, .create, .unlink])
      (h : planOperation intent path = .ok action) :
      ∃ fact, action.fact = some fact ∧ StorageFact.fromJetstreamPath path = some fact := by
    simp only [List.mem_cons, List.not_mem_nil, or_false] at hIntent
    rcases hIntent with rfl | rfl | rfl
    · exact planWrite_fact h
    · exact planWrite_fact h
    · exact planUnlink_fact h
  refine ⟨?_, ?_, fun _ _ _ => planRename_facts⟩
  · intro intent path fact action hIntent hFact h
    rcases List.mem_cons.mp hIntent with rfl | hIntent
    · exact planRead_fact h hFact
    · obtain ⟨found, hFound, hPath⟩ := hWritten hIntent h
      rw [hFound, ← hPath, hFact]
  · intro intent path action hIntent h
    obtain ⟨fact, -, hFact⟩ := hWritten hIntent h
    exact ⟨fact, hFact⟩

theorem renamed_task_facts : ∃ plan : RenamePlan,
    planOperation (.rename (.task "ns".toList "b.json".toList))
      (.task "ns".toList "a.json".toList) = .ok (.rename plan) ∧
    StorageFact.fromJetstreamPath (.task "ns".toList "a.json".toList) = some plan.source ∧
    StorageFact.fromJetstreamPath (.task "ns".toList "b.json".toList) = some plan.target := by
  have hPlan : planOperation (.rename (.task "ns".toList "b.json".toList))
      (.task "ns".toList "a.json".toList) = .ok (.rename (.kv tasksBucket "ns/a.json".toList
        tasksBucket "ns/b.json".toList)) := by decide
  obtain ⟨plan, hAction, hSource, hTarget, -⟩ := plans_name_facts.2.2 _ _ _ hPlan
  exact ⟨plan, hPlan.trans (congrArg Except.ok hAction), hSource, hTarget⟩

end EventFs.Protocol

import EventFs.Fuse.RenameRuns

/-!
# The life of a rename

After a rename has ended or been cut off, the mount may try the replay again, be lost and
be made again, any number of times and cut off anywhere, while other clients act.
-/

namespace EventFs.Fuse

open Library Protocol Transport Program

/-- A mount that some run on some backend has led to. -/
def Mount.Reached [Serde] [Rendering] (mount : Mount) : Prop :=
  ∃ (σ : Type) (backend : Behaviour storage σ) (store : σ) (session : Session σ),
    Relation.ReflTransGen (Session.Step (Atomic backend)) ⟨none, ⟨store, []⟩⟩ session ∧
      session.mount = some mount

theorem Mount.Reached.empty [Serde] [Rendering] {mount : Mount} (h : mount.Reached)
    (hOpen : mount.replay.gate.acceptingWrites = true) : mount.replay.queue.entries = [] := by
  obtain ⟨_, _, _, session, hReaches, hMount⟩ := h
  rcases ((Session.kept_of_reaches hReaches).mounted mount hMount).1 with hClear | hWaiting
  · exact hClear.entries
  · rw [hWaiting.gate] at hOpen
    cases hOpen

section Sessions

variable [Serde] {Own : Str → Prop} {captured : Captured} {idempotencyKey : Str}
  {before upTo : List Made} {file : List QueueEntry}

/-! ## After the rename -/

/-- What may happen after a rename. A replay or a mount that is cut off leaves no mount. -/
inductive Later (Own : Str → Prop) : Session (List Made) → Session (List Made) → Prop
  | other {mount : Option Mount} {world world' : World (List Made)} (h : Others Own world world') :
      Later Own ⟨mount, world⟩ ⟨mount, world'⟩
  | retry {mount : Mount} {world world' : World (List Made)} {outcome : Option (Unit × Mount)}
      (hRun : Run (Atomic shared) (Others Own) (replayQueue.run mount) world outcome world') :
      Later Own ⟨some mount, world⟩ ⟨outcome.map (·.2), world'⟩
  | lost (mount : Mount) (world : World (List Made)) : Later Own ⟨some mount, world⟩ ⟨none, world⟩
  | remount {world world' : World (List Made)} {capacity mountInstance : Nat} {mountName : Str}
      {outcome : Option (TransportResult Mount)}
      (hRun : Run (Atomic shared) (Others Own) (openMount capacity mountName mountInstance).run
        world outcome world') : Later Own ⟨none, world⟩ ⟨outcome.bind (·.toOption), world'⟩

/-- The completion and, if there is a mount, its queue. -/
structure Carried (Own : Str → Prop) (captured : Captured) (idempotencyKey : Str)
    (upTo : List Made) (session : Session (List Made)) : Prop where
  world : Completing Own captured idempotencyKey upTo session.world
  mount : ∀ mount, session.mount = some mount →
    Opened Own captured idempotencyKey upTo mount.replay.queue.entries session.world

omit [Serde] in
theorem carried_of_opened {mount : Mount} {world : World (List Made)}
    (h : Opened Own captured idempotencyKey upTo mount.replay.queue.entries world) :
    Carried Own captured idempotencyKey upTo ⟨some mount, world⟩ := by
  refine ⟨(rests_opened _).stop world h, ?_⟩
  rintro other ⟨⟩
  exact h

omit [Serde] in
theorem carried_of_lost {world : World (List Made)}
    (h : Completing Own captured idempotencyKey upTo world) :
    Carried Own captured idempotencyKey upTo ⟨none, world⟩ :=
  ⟨h, fun mount hMount => by cases hMount⟩

theorem safely_retry (hOwn : Own idempotencyKey)
    (hUnused : ∀ other ∈ upTo, ¬ other.call.Carries Own) (mount : Mount) :
    Safely Own (Completing Own captured idempotencyKey upTo)
      (Opened Own captured idempotencyKey upTo mount.replay.queue.entries) replayQueue mount
      fun _ mount' => Opened Own captured idempotencyKey upTo mount'.replay.queue.entries :=
  safely_replayQueue (triple_replayOpened hOwn hUnused _) fun queue => rests_opened queue

theorem triple_openMount (hOwn : Own idempotencyKey)
    (hUnused : ∀ other ∈ upTo, ¬ other.call.Carries Own) (capacity mountInstance : Nat)
    (mountName : Str) :
    Triple (Atomic shared) (Others Own) (Completing Own captured idempotencyKey upTo)
      (openMount capacity mountName mountInstance).run
      (OpenedAs Own captured idempotencyKey upTo fun mount : Mount => mount.replay.queue.entries)
      (Completing Own captured idempotencyKey upTo) := by
  refine Triple.bindExcept _ (triple_openCompletion capacity) (fun _ => rests_completing.stable)
    (fun _ _ h => h) (fun _ _ h => h) ?_
  intro queue
  have hNew : Triple (Atomic shared) (Others Own)
      (Opened Own captured idempotencyKey upTo queue.entries)
      (newMount queue mountName mountInstance)
      (fun mount => Opened Own captured idempotencyKey upTo mount.replay.queue.entries)
      (Completing Own captured idempotencyKey upTo) := by
    refine Triple.bind _ (safely_retry hOwn hUnused (Mount.new queue mountName mountInstance)) ?_
    exact fun result => .ret (rests_opened _).stable (fun _ h => h) (rests_opened _).stop
  refine Triple.bind _ hNew ?_
  exact fun mount => .ret (rests_opened _).stable (fun _ h => h) (rests_opened _).stop

theorem Carried.step (hOwn : Own idempotencyKey)
    (hUnused : ∀ other ∈ upTo, ¬ other.call.Carries Own) {session session' : Session (List Made)}
    (h : Carried Own captured idempotencyKey upTo session) (hStep : Later Own session session') :
    Carried Own captured idempotencyKey upTo session' := by
  cases hStep with
  | other hOther =>
      refine ⟨rests_completing.stable hOther h.world, ?_⟩
      exact fun mount hMount => (rests_opened _).stable hOther (h.mount mount hMount)
  | @retry mount _ _ outcome hRun =>
      have hEnd := safely_retry hOwn hUnused mount (h.mount mount rfl) hRun
      cases outcome with
      | none => exact carried_of_lost hEnd
      | some result => exact carried_of_opened hEnd
  | lost => exact carried_of_lost h.world
  | @remount _ _ capacity mountInstance mountName outcome hRun =>
      have hEnd := triple_openMount hOwn hUnused capacity mountInstance mountName h.world hRun
      rcases outcome with _ | err | mount
      · exact carried_of_lost hEnd
      · exact carried_of_lost hEnd
      · exact carried_of_opened hEnd

theorem Carried.steps (hOwn : Own idempotencyKey)
    (hUnused : ∀ other ∈ upTo, ¬ other.call.Carries Own) {session session' : Session (List Made)}
    (h : Carried Own captured idempotencyKey upTo session)
    (hSteps : Relation.ReflTransGen (Later Own) session session') :
    Carried Own captured idempotencyKey upTo session' := by
  induction hSteps with
  | refl => exact h
  | tail _ hStep ih => exact ih.step hOwn hUnused hStep

/-! ## Nothing queued -/

theorem stateOf_of_looks {call : StorageCall} (h : Looks Own ⟨true, call⟩) (made : List Made) :
    stateOf (made ++ [⟨true, call⟩]) = stateOf made := by
  rw [Looks, if_pos rfl] at h
  rw [stateOf_append, MemoryStorage.handle_reads h]

/-- Nothing has been queued. The mount has changed neither the backend nor the file, and what
it may have captured is where it was until another client takes it away. -/
structure NotQueued (Own : Str → Prop) (before : List Made) (file : List QueueEntry)
    (world : World (List Made)) : Prop where
  calls : Grown (Looks Own) before world.store
  backend : ∀ earlier call later, world.store = before ++ earlier ++ ⟨true, call⟩ :: later →
    stateOf (before ++ earlier ++ [⟨true, call⟩]) = stateOf (before ++ earlier)
  file : world.file = file
  source : ∀ (captured : Captured) (upTo since : List Made), before <+: upTo →
    world.store = upTo ++ since → captured.AtSource (stateOf upTo) →
      captured.AtSource (stateOf world.store) ∨
      ∃ earlier call later, since = earlier ++ ⟨false, call⟩ :: later ∧
        captured.AtSource (stateOf (upTo ++ earlier)) ∧
          ¬ captured.AtSource (stateOf (upTo ++ earlier ++ [⟨false, call⟩]))

theorem source_of_looks {since : List Made} (hSince : ∀ other ∈ since, Looks Own other)
    (hSource : captured.AtSource (stateOf upTo)) :
    captured.AtSource (stateOf (upTo ++ since)) ∨
      ∃ earlier call later, since = earlier ++ ⟨false, call⟩ :: later ∧
        captured.AtSource (stateOf (upTo ++ earlier)) ∧
          ¬ captured.AtSource (stateOf (upTo ++ earlier ++ [⟨false, call⟩])) := by
  induction since generalizing upTo with
  | nil => exact Or.inl (by rwa [List.append_nil])
  | cons other rest ih =>
      by_cases hNext : captured.AtSource (stateOf (upTo ++ [other]))
      · have hRest := ih (fun last hMem => hSince last (List.mem_cons_of_mem _ hMem)) hNext
        rw [List.append_assoc, List.singleton_append] at hRest
        refine hRest.imp_right ?_
        rintro ⟨earlier, call, later, rfl, hThere, hGone⟩
        refine ⟨other :: earlier, call, later, rfl, ?_, ?_⟩
        · rwa [List.append_assoc] at hThere
        · rwa [List.append_assoc upTo [other] earlier] at hGone
      · obtain ⟨own, call⟩ := other
        cases own with
        | true =>
            rw [stateOf_of_looks (hSince _ List.mem_cons_self)] at hNext
            exact absurd hSource hNext
        | false =>
            refine Or.inr ⟨[], call, rest, rfl, ?_, ?_⟩
            · rwa [List.append_nil]
            · rwa [List.append_nil]

theorem Unchanged.notQueued {world : World (List Made)} (h : Unchanged Own before file world) :
    NotQueued Own before file world where
  calls := h.calls
  backend earlier call later hStore := by
    obtain ⟨since, hSince, hLooks⟩ := h.calls
    refine stateOf_of_looks (hLooks _ ?_) _
    rw [hSince, List.append_assoc, List.append_cancel_left_eq] at hStore
    rw [hStore]
    exact List.mem_append_right _ List.mem_cons_self
  file := h.file
  source captured upTo since hBefore hStore hSource := by
    rw [hStore]
    obtain ⟨all, hAll, hLooks⟩ := h.calls
    obtain ⟨front, rfl⟩ := hBefore
    rw [hStore, List.append_assoc, List.append_cancel_left_eq] at hAll
    have hSince : ∀ other ∈ since, Looks Own other := by
      intro other hMem
      exact hLooks other (by rw [← hAll]; exact List.mem_append_right _ hMem)
    exact source_of_looks hSince hSource

/-! ## Every rename -/

/-- A rename that has queued nothing, whether it has ended or has been cut off. -/
structure NothingQueued (Own : Str → Prop) (before : List Made) (file : List QueueEntry)
    (mount : Mount) (fromPath toPath : MountPath) (outcome : Option (Except Errno Unit × Mount))
    (world : World (List Made)) : Prop where
  world : NotQueued Own before file world
  queue : ∀ result mount', outcome = some (result, mount') → mount'.replay = mount.replay
  same : ∀ mount', outcome = some (.ok (), mount') → fromPath = toPath

/-- A rename that has queued what it captured, and whatever happens after it. -/
def CompletionQueued (Own : Str → Prop) (before : List Made) (fromPath toPath : MountPath)
    (outcome : Option (Except Errno Unit × Mount)) (world : World (List Made)) : Prop :=
  (∀ errno mount', outcome ≠ some (.error errno, mount')) ∧
    ∃ captured idempotencyKey upTo, Plans fromPath toPath captured ∧
      Grown (Looks Own) before upTo ∧
        ∀ session, Relation.ReflTransGen (Later Own) ⟨outcome.map (·.2), world⟩ session →
          QueuedRename Own captured idempotencyKey upTo session.world

variable {fromPath toPath : MountPath} {outcome : Option (Except Errno Unit × Mount)}
  {world : World (List Made)}

theorem completionQueued_of_carried (hUnused : ∀ other ∈ before, ¬ other.call.Carries Own)
    (hOutcome : ∀ errno mount', outcome ≠ some (.error errno, mount'))
    (hPlans : Plans fromPath toPath captured) (hOwn : Own idempotencyKey)
    (hUpTo : Grown (Looks Own) before upTo) (hSource : captured.AtSource (stateOf upTo))
    (hCarried : Carried Own captured idempotencyKey upTo ⟨outcome.map (·.2), world⟩) :
    CompletionQueued Own before fromPath toPath outcome world := by
  refine ⟨hOutcome, captured, idempotencyKey, upTo, hPlans, hUpTo, ?_⟩
  intro session hSteps
  have hFresh := unused_of_looks hUnused hUpTo
  exact (hCarried.steps hOwn hFresh hSteps).world.queuedRename hOwn hFresh hSource

theorem rename_run (hUnused : ∀ other ∈ before, ¬ other.call.Carries Own) {mount : Mount}
    (hCut : outcome = none → Cut Own before file fromPath toPath world)
    (hRenamed : ∀ result mount', outcome = some (result, mount') →
      Renamed Own before file fromPath toPath mount result mount' world) :
    NothingQueued Own before file mount fromPath toPath outcome world ∨
      CompletionQueued Own before fromPath toPath outcome world := by
  rcases outcome with _ | ⟨result, mount'⟩
  · rcases hCut rfl with
      hUnchanged | ⟨captured, idempotencyKey, ⟨hPlans, hOwn⟩, upTo, hUpTo, h⟩
    · left
      refine ⟨hUnchanged.notQueued, ?_, ?_⟩
      · rintro _ _ ⟨⟩
      · rintro _ ⟨⟩
    · right
      refine completionQueued_of_carried hUnused ?_ hPlans hOwn hUpTo.1 hUpTo.2
        (carried_of_lost h)
      intro errno mount' hNone
      cases hNone
  · rcases hRenamed result mount' rfl with
      ⟨hQueue, hSame, hUnchanged⟩ | ⟨rfl, captured, idempotencyKey, ⟨hPlans, hOwn⟩, upTo, hUpTo, h⟩
    · left
      refine ⟨hUnchanged.notQueued, ?_, ?_⟩
      · rintro _ _ ⟨⟩
        exact hQueue
      · rintro _ ⟨⟩
        exact hSame rfl
    · right
      refine completionQueued_of_carried hUnused ?_ hPlans hOwn hUpTo.1 hUpTo.2
        (carried_of_opened h)
      intro errno mount'' hOk
      cases hOk

/-- The idempotency keys made from a seed. -/
def keysOf [Rendering] (seed idempotencyKey : Str) : Prop :=
  ∃ path material, idempotencyKey = Rendering.idempotencyKey path material seed

theorem rename_keeps_data [Rendering] {mount : Mount} (hReached : mount.Reached)
    (hUnused : ∀ other ∈ before,
      ¬ other.call.Carries (keysOf (mount.seedText mount.nextCommitId)))
    (flags : Nat)
    (hRun : Run (Atomic shared) (Others (keysOf (mount.seedText mount.nextCommitId)))
      ((executeRename fromPath toPath flags).run.run mount) ⟨before, file⟩ outcome world) :
    NothingQueued (keysOf (mount.seedText mount.nextCommitId)) before file mount fromPath toPath
        outcome world ∨
      CompletionQueued (keysOf (mount.seedText mount.nextCommitId)) before fromPath toPath
        outcome world := by
  have hKeys (material : Bytes) : keysOf (mount.seedText mount.nextCommitId)
      (Rendering.idempotencyKey toPath.asStr material (mount.seedText mount.nextCommitId)) :=
    ⟨_, material, rfl⟩
  have hEnd := safely_executeRename hUnused hKeys hReached.empty flags
    ⟨⟨[], (List.append_nil before).symm, fun _ h => by cases h⟩, rfl⟩ hRun
  refine rename_run hUnused ?_ ?_
  · rintro rfl
    exact hEnd
  · rintro result mount' rfl
    exact hEnd

end Sessions

/-! ## A rename that is interrupted -/

section Example

attribute [local instance] literalSerde plainRendering

theorem atomic_ownCall (world : World (List Made)) (c : IoCall) :
    Atomic shared world c (World.handle ownCall world c).1 (World.handle ownCall world c).2 :=
  atomic_handle (@Faulty.done _ _ ownCall _ _) world c

theorem reached_emptyMount : emptyMount.Reached := by
  have hOpened : eval (World.handle unavailable) (openMount 8 "events".toList 1).run ⟨(), []⟩ =
      (.ok emptyMount, ⟨(), []⟩) := rfl
  have hMount : Run (Atomic failedCall) Alone (openMount 8 "events".toList 1).run ⟨(), []⟩ _ _ :=
    run_eval atomic_unavailable _ _
  rw [hOpened] at hMount
  exact ⟨Unit, failedCall, (), ⟨some emptyMount, ⟨(), []⟩⟩, .single (.remount hMount), rfl⟩

def targetPath : MountPath := ⟨"/kv/b/y".toList, ["kv".toList, ['b'], ['y']], by decide, by decide⟩

/-- Another client has put `/kv/b/x`. -/
def putByOther : List Made := [⟨false, .kvPut ['b'] ['x'] [1]⟩]

def renameOutcome : (Except Errno Unit × Mount) × World (List Made) :=
  eval (World.handle ownCall) ((executeRename sourcePath targetPath 0).run.run emptyMount)
    ⟨putByOther, []⟩

theorem rename_of_other_value :
    CompletionQueued (keysOf (emptyMount.seedText 1)) putByOther sourcePath targetPath
      (some renameOutcome.1) renameOutcome.2 := by
  have hUnused : ∀ other ∈ putByOther,
      ¬ other.call.Carries (keysOf (emptyMount.seedText emptyMount.nextCommitId)) := by
    intro other hMem
    obtain rfl := List.mem_singleton.mp hMem
    rintro ⟨id, hId, -⟩
    cases hId
  have hRun : Run (Atomic shared) (Others (keysOf (emptyMount.seedText 1)))
      ((executeRename sourcePath targetPath 0).run.run emptyMount) ⟨putByOther, []⟩
      (some renameOutcome.1) renameOutcome.2 := run_eval atomic_ownCall _ _
  refine (rename_keeps_data reached_emptyMount hUnused 0 hRun).resolve_left ?_
  intro hNothing
  have hSame : sourcePath = targetPath := hNothing.same renameOutcome.1.2 rfl
  exact absurd hSame (by decide)

/-- What the rename captures. -/
def capturedByOther : Captured := .kv ['b'] ['x'] ⟨1, [1]⟩ ['b'] ['y']

/-- The calls of the rename before it queues anything. -/
def renameLooks : List Made :=
  [⟨true, .kvGet ['b'] ['x']⟩, ⟨true, .kvGet ['b'] ['x']⟩, ⟨true, .kvGet ['b'] ['y']⟩,
    ⟨true, .listKvPrefix ['b'] ['y']⟩]

/-- The value is captured and then deleted by another client, and the rename is cut off. -/
def interrupted : World (List Made) :=
  ⟨putByOther ++ renameLooks ++ [⟨false, .kvDelete ['b'] ['x']⟩], []⟩

theorem run_interrupted :
    Run (Atomic shared) (Others (keysOf (emptyMount.seedText 1)))
      ((executeRename sourcePath targetPath 0).run.run emptyMount) ⟨putByOther, []⟩ none
      interrupted := by
  refine run_stateAfter_env atomic_ownCall (n := 4) ?_
  have hLooked : stateAfter (World.handle ownCall) 4
      ((executeRename sourcePath targetPath 0).run.run emptyMount) ⟨putByOther, []⟩ =
        ⟨putByOther ++ renameLooks, []⟩ := rfl
  rw [hLooked]
  refine .call _ ?_
  rintro ⟨id, hId, -⟩
  cases hId

/-- The bytes are gone: not at the source, not in the queue, not put by the rename. -/
theorem interrupted_lost :
    (⟨true, .kvGet ['b'] ['x']⟩ : Made) ∈ interrupted.store ∧
      capturedByOther.AtSource (stateOf putByOther) ∧
        ¬ capturedByOther.AtSource (stateOf interrupted.store) ∧
          ∀ idempotencyKey, ¬ Waits capturedByOther idempotencyKey interrupted.file ∧
            ¬ PutMade capturedByOther idempotencyKey interrupted := by
  refine ⟨by decide, ?_, ?_, ?_⟩
  · rfl
  · intro h
    cases h
  · intro idempotencyKey
    constructor
    · rintro ⟨attempts, hFile⟩
      cases hFile
    · intro hPut
      simp [PutMade, interrupted, putByOther, renameLooks, Captured.put, capturedByOther] at hPut

/-! Revisions saturate, and then a later value has the same one. -/

def otherPut (bytes : Bytes) : Made := ⟨false, .kvPut ['b'] ['x'] bytes⟩

theorem entry_otherPut (made : List Made) (bytes : Bytes) :
    (stateOf (made ++ [otherPut bytes])).kv[(['b'], ['x'])]? =
      some ⟨saturatingSucc ((stateOf made).slot (.kv ['b'] ['x'])).number, bytes⟩ := by
  have hSlot := MemoryStorage.slot_putKv (stateOf made) ['b'] ['x'] bytes (.kv ['b'] ['x'])
  rw [if_pos rfl] at hSlot
  rw [otherPut, stateOf_append]
  exact congrArg MemoryStorage.Slot.entry hSlot

theorem number_otherPuts (n : Nat) :
    ((stateOf (List.replicate n (otherPut [1]))).slot (.kv ['b'] ['x'])).number =
      min n Transport.u64Max := by
  induction n with
  | zero => rfl
  | succ n ih =>
      rw [List.replicate_succ', otherPut, stateOf_append]
      show ((MemoryStorage.putKv _ ['b'] ['x'] [1]).2.slot _).number = _
      rw [MemoryStorage.slot_putKv, if_pos rfl, MemoryStorage.number_put, ← otherPut, ih]
      simp only [saturatingSucc]
      omega

/-- What a rename captures once there have been as many puts as there are revisions. -/
def lastCaptured : Captured := .kv ['b'] ['x'] ⟨Transport.u64Max, [1]⟩ ['b'] ['y']

theorem atSource_otherPuts {n : Nat} (hMany : Transport.u64Max ≤ n + 1) :
    lastCaptured.AtSource (stateOf (List.replicate (n + 1) (otherPut [1]))) := by
  have hLast : saturatingSucc (min n Transport.u64Max) = Transport.u64Max := by
    rw [saturatingSucc]
    omega
  rw [List.replicate_succ']
  refine (entry_otherPut _ _).trans ?_
  rw [number_otherPuts, hLast]

theorem entry_otherPuts {n : Nat} (hMany : Transport.u64Max ≤ n) :
    (stateOf (List.replicate n (otherPut [1]) ++ [otherPut [2]])).kv[(['b'], ['x'])]? =
      some ⟨Transport.u64Max, [2]⟩ := by
  have hLast : saturatingSucc (min n Transport.u64Max) = Transport.u64Max := by
    rw [saturatingSucc]
    omega
  rw [entry_otherPut, number_otherPuts, hLast]

/-- The completion deletes a value that was written after the captured one. -/
theorem later_value_deleted :
    lastCaptured.AtSource (stateOf (List.replicate (2 ^ 64) (otherPut [1]))) ∧
      (stateOf (List.replicate (2 ^ 64) (otherPut [1]) ++ [otherPut [2]])).kv[
        (['b'], ['x'])]? = some ⟨Transport.u64Max, [2]⟩ ∧
        (stateOf (List.replicate (2 ^ 64) (otherPut [1]) ++ [otherPut [2]] ++
          [⟨true, lastCaptured.delete⟩])).kv[(['b'], ['x'])]? = none := by
  obtain ⟨n, hCount, hMany⟩ : ∃ n, 2 ^ 64 = n + 1 ∧ Transport.u64Max ≤ n :=
    ⟨2 ^ 64 - 1, by norm_num, Nat.le_refl _⟩
  rw [hCount]
  have hCaptured := atSource_otherPuts (Nat.le_succ_of_le hMany)
  have hLater := entry_otherPuts (Nat.le_succ_of_le hMany)
  refine ⟨hCaptured, hLater, ?_⟩
  rw [stateOf_append, handle_delete hCaptured, if_pos]
  · exact Std.ExtTreeMap.getElem?_erase_self
  · simp only [lastCaptured, Captured.source, Captured.generation, MemoryStorage.slot,
      MemoryStorage.Slot.live, hLater]

theorem rename_loses_data :
    (∃ world, Run (Atomic shared) (Others (keysOf (emptyMount.seedText 1)))
      ((executeRename sourcePath targetPath 0).run.run emptyMount) ⟨putByOther, []⟩ none world ∧
        (⟨true, .kvGet ['b'] ['x']⟩ : Made) ∈ world.store ∧
          capturedByOther.AtSource (stateOf putByOther) ∧
            ¬ capturedByOther.AtSource (stateOf world.store) ∧
              ∀ idempotencyKey, ¬ Waits capturedByOther idempotencyKey world.file ∧
                ¬ PutMade capturedByOther idempotencyKey world) ∧
    ∃ upTo, lastCaptured.AtSource (stateOf upTo) ∧
      (stateOf (upTo ++ [otherPut [2]])).kv[(['b'], ['x'])]? = some ⟨Transport.u64Max, [2]⟩ ∧
        (stateOf (upTo ++ [otherPut [2]] ++ [⟨true, lastCaptured.delete⟩])).kv[
          (['b'], ['x'])]? = none :=
  ⟨⟨interrupted, run_interrupted, interrupted_lost⟩, _, later_value_deleted⟩

end Example

end EventFs.Fuse

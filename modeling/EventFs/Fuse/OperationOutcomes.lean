import EventFs.Protocol.RenameEnds
import EventFs.Fuse.CommitOutcomes

/-!
# What an operation leaves

Every operation has a change, which may be to keep the files as they are. One that succeeds
has made its change, once the queue is settled; one that fails has changed nothing at all,
if the storage does nothing without acknowledging it.
-/

namespace EventFs.Fuse

open Library Protocol Transport Program

variable {α β : Type}

/-! ## Keys and changes -/

section Changes

/-- What the key of a write is made from. -/
structure KeyMaterial where
  path : Str
  bytes : Bytes
  seed : Str

def KeyMaterial.key [Rendering] (material : KeyMaterial) : Str :=
  Rendering.idempotencyKey material.path material.bytes material.seed

/-- The payload of a file that is made. -/
def createdPayload (path : MountPath) : Bytes :=
  match (parsePath path).bind (planOrErrno .create) with
  | .ok action => createDefaultPayload action
  | .error _ => []

/-- What an operation may make a key from. -/
inductive Operation.Uses (start : Mount) (store : MemoryStorage) : Operation → KeyMaterial → Prop
  | commit {fh : Nat} {handle : Handle} (hHandle : start.handles[fh]? = some handle)
      (hUnsent : handle.Unsent) : Uses start store (.commit fh)
        ⟨handle.path.asStr, handleCommitBytes handle, handle.commitSeed⟩
  | release {fh : Nat} {handle : Handle} (hHandle : start.handles[fh]? = some handle)
      (hUnsent : handle.Unsent) : Uses start store (.release fh)
        ⟨handle.path.asStr, handleCommitBytes handle, handle.commitSeed⟩
  | truncatePath (path : MountPath) : Uses start store (.truncatePath path)
      ⟨path.asStr, [], start.seedText start.nextCommitId⟩
  | mknod (path : MountPath) (mode : Nat) : Uses start store (.mknod path mode)
      ⟨path.asStr, createdPayload path, start.seedText start.nextCommitId⟩
  | rename {fromPath toPath : MountPath} {flags : Nat} {captured : Captured}
      (hne : fromPath ≠ toPath) (hSource : captured.AtSource store)
      (hFrom : factOf fromPath = some (Captured.ends captured).1) :
      Uses start store (.rename fromPath toPath flags)
        ⟨toPath.asStr, renameCompletionKeyMaterial fromPath.asStr captured.generation
          captured.bytes, start.seedText start.nextCommitId⟩

/-- A handle is committed while it holds a change. -/
def Handle.change (handle : Handle) : FileChange :=
  if !handle.writable || !handle.dirty || handle.committed then .keep
  else writeChange handle.path (handleCommitBytes handle)

def moveChange (source target : Option StorageFact) : FileChange :=
  match source, target with
  | some source, some target => .move source target
  | _, _ => .keep

/-- What an operation that succeeds changes. -/
def Operation.change (start : Mount) : Operation → FileChange
  | .commit fh | .release fh => start.handles[fh]?.elim .keep Handle.change
  | .truncatePath path => writeChange path []
  | .mknod path _ => writeChange path (createdPayload path)
  | .unlink path => (factOf path).elim .keep .remove
  | .rename fromPath toPath _ =>
      if fromPath = toPath then .keep else moveChange (factOf fromPath) (factOf toPath)
  | _ => .keep

end Changes

/-! ## Outcomes -/

section Outcomes

variable [Serde] [Rendering] {Lossy : StorageCall → Prop} {K : Str → Prop}
  {origin world : World MemoryStorage} {start : Mount} {operation : Operation}

/-- The keys that have been used are among these, and those of the operation are not. -/
structure Fresh (K : Str → Prop) (origin : World MemoryStorage) (start : Mount)
    (operation : Operation) : Prop where
  settles : Settles (KeysIn K) (settled origin) origin
  overlaid : Overlaid (settled origin) origin.file
  new : ∀ material, operation.Uses start origin.store material → ¬ K material.key

/-- An operation uses no keys but its own, and those only where it may. -/
def UsesOnly (keyed : Prop) (K : Str → Prop) (origin : World MemoryStorage) (start : Mount)
    (operation : Operation) (K' : Str → Prop) : Prop :=
  ∀ key, K' key → K key ∨ keyed ∧ ∃ material, operation.Uses start origin.store material ∧
    key = material.key

/-- The operation has made its change. -/
def Done (keyed : Prop) (K : Str → Prop) (origin : World MemoryStorage) (start : Mount)
    (operation : Operation) (world : World MemoryStorage) : Prop :=
  Fresh K origin start operation → ∃ K', UsesOnly keyed K origin start operation K' ∧
    Makes K' (operation.change start) origin world

/-- The operation has made its change, under its key if it has one, and the mount agrees with
the world after it. -/
def Made (K : Str → Prop) (origin : World MemoryStorage) (start : Mount) (operation : Operation)
    (mount : Mount) (world : World MemoryStorage) : Prop :=
  Done True K origin start operation world ∧
    (Fresh K origin start operation → Agrees origin start → Agrees world mount)

/-- A failure has changed nothing, or a call has taken effect without being acknowledged. -/
def Spared (Lossy : StorageCall → Prop) (K : Str → Prop) (origin : World MemoryStorage)
    (start : Mount) (operation : Operation) (mount : Mount) (world : World MemoryStorage) : Prop :=
  (world = origin ∧ (Agrees origin start → Agrees origin mount)) ∨
    ∃ call, Lossy call ∧ Done (call.effectId ≠ none) K origin start operation world

/-- What an operation leaves. -/
def Outcome (Lossy : StorageCall → Prop) (K : Str → Prop) (origin : World MemoryStorage)
    (start : Mount) (operation : Operation) (result : Except Errno Unit) (mount : Mount)
    (world : World MemoryStorage) : Prop :=
  match result with
  | .ok _ => Made K origin start operation mount world
  | .error _ => Spared Lossy K origin start operation mount world

theorem done_same {keyed : Prop} (hKeep : operation.change start = .keep) :
    Done keyed K origin start operation origin := by
  intro hFresh
  refine ⟨K, fun key h => Or.inl h, _, hFresh.settles, hFresh.overlaid, ?_⟩
  rw [hKeep]
  rfl

theorem made_same (hKeep : operation.change start = .keep) {mount : Mount}
    (h : Untouched origin start mount world) : Made K origin start operation mount world := by
  obtain rfl := h.world
  exact ⟨done_same hKeep, fun _ => h.agrees⟩

omit [Serde] [Rendering] in
theorem Agrees.of_same {before : Mount} (hAgrees : Agrees origin start)
    (hReplay : before.replay = start.replay) (hCache : before.cache = start.cache) :
    Agrees origin before := by
  rw [Agrees, hReplay, hCache]
  exact hAgrees

/-- Nothing has changed since a mount that differs in its counters and handles at most. -/
theorem spared_of_untouched {before mount : Mount} (hReplay : before.replay = start.replay)
    (hCache : before.cache = start.cache) (h : Untouched origin before mount world) :
    Spared Lossy K origin start operation mount world := by
  refine Or.inl ⟨h.world, fun hAgrees => ?_⟩
  rw [← h.world]
  exact h.agrees (hAgrees.of_same hReplay hCache)

theorem spared_of_drawn {mount : Mount} (h : Untouched origin (start.draw true) mount world) :
    Spared Lossy K origin start operation mount world := by
  have hReplay : (start.draw true).replay = start.replay := rfl
  have hCache : (start.draw true).cache = start.cache := rfl
  exact spared_of_untouched hReplay hCache h

/-- A change without a key. -/
theorem done_unkeyed {keyed : Prop} {store : MemoryStorage}
    (hClear : Clear start.replay origin.file)
    (hApplied : ∀ id, store.applied id = true → origin.store.applied id = true)
    (hContents : contents store = (operation.change start).apply (contents origin.store)) :
    Done keyed K origin start operation { origin with store } := by
  intro hFresh
  refine ⟨K, fun key h => Or.inl h, store, ⟨?_, ?_, ?_, ?_⟩, hClear.file ▸ overlaid_nil _, ?_⟩
  · rw [settled, hClear.file]
    rfl
  · exact hFresh.settles.valid
  · exact hFresh.settles.preserves
  · exact fun id hId => hFresh.settles.kept id (hApplied id hId)
  · rw [hContents, settled, hClear.file]
    rfl

theorem done_of_committed {keyed : Prop} {material : KeyMaterial} {path : MountPath}
    (hKeyed : keyed) (hUses : operation.Uses start origin.store material)
    (hChange : operation.change start = writeChange path material.bytes)
    (h : Committed K material.key path material.bytes origin world) :
    Done keyed K origin start operation world := by
  intro hFresh
  refine ⟨WithKey K material.key, ?_, ?_⟩
  · exact fun key hKey => hKey.imp_right fun hSame => ⟨hKeyed, material, hUses, hSame⟩
  · rw [hChange]
    exact h hFresh.settles.kept (hFresh.new material hUses)

/-! ## Code of an operation -/

section Code

variable {E : Mount → World MemoryStorage → Prop} {Q : β → Mount → World MemoryStorage → Prop}

omit [Serde] [Rendering] in
theorem Yields.mono {Q Q' : β → Mount → World MemoryStorage → Prop}
    {E' : Mount → World MemoryStorage → Prop} {before : Mount}
    (hSame : ∀ mount world, Untouched origin before mount world → E' mount world)
    (hE : ∀ mount world, E mount world → E' mount world)
    (hQ : ∀ b mount world, Q b mount world → Q' b mount world) (result : Except Errno β)
    (mount : Mount) (world : World MemoryStorage)
    (h : Yields E origin before Q result mount world) :
    Yields E' origin start Q' result mount world := by
  cases result with
  | ok b => exact hQ b mount world h
  | error errno =>
      rcases h with hUntouched | hE'
      · exact Or.inr (hSame mount world hUntouched)
      · exact Or.inr (hE mount world hE')

omit [Rendering] in
/-- Drawing a seed changes nothing but the counter. -/
theorem yields_afterSeed {f : Str → Runtime β}
    (hSame : ∀ mount world, Untouched origin (start.draw true) mount world → E mount world)
    (hNext : Leads (Atomic (flaky Lossy)) (Untouched origin (start.draw true))
      (f (start.seedText start.nextCommitId)).run (Yields E origin (start.draw true) Q)) :
    Leads (Atomic (flaky Lossy)) (Untouched origin start)
      (liftM nextCommitSeed >>= f : Runtime β).run
      (Yields E origin start Q) := by
  refine .andThen (fun seed mount world => Untouched origin (start.draw true) mount world ∧
    seed = start.seedText start.nextCommitId) ?_ ?_
  · refine .liftM ?_
    intro mount world seed mount' world' hUntouched hRun
    obtain ⟨hResult, rfl⟩ := hRun.of_ret
    cases hResult
    obtain ⟨hHandles, hNext, hName, hInstance⟩ := hUntouched.handles
    refine ⟨⟨hUntouched.world, ⟨hHandles, ?_, hName, hInstance⟩, hUntouched.replay,
      hUntouched.cache⟩, ?_⟩
    · exact congrArg (fun id => min (id + 1) u64Max) hNext
    · rw [hName, hInstance, hNext]
      rfl
  · intro seed
    refine .assume ?_
    rintro rfl
    exact hNext.weaken (fun _ _ h => h) (Yields.mono hSame (fun _ _ h => h) fun _ _ _ h => h)

omit [Rendering] in
theorem yields_withHandle {fh : Nat} {f : Option Handle → Runtime β}
    (hNext : Leads (Atomic (flaky Lossy)) (Untouched origin start) (f start.handles[fh]?).run
      (Yields E origin start Q)) :
    Leads (Atomic (flaky Lossy)) (Untouched origin start)
      (liftM (getHandle fh) >>= f : Runtime β).run
      (Yields E origin start Q) := by
  refine .andThen (fun found mount world => Untouched origin start mount world ∧
    found = start.handles[fh]?) ?_ ?_
  · refine .liftM (.bind (fun found mount world => Untouched origin start mount world ∧
      found = mount) (.get fun mount world h => ⟨h, rfl⟩) ?_)
    intro found
    refine .pure ?_
    rintro mount world ⟨hUntouched, rfl⟩
    exact ⟨hUntouched, by rw [hUntouched.handles.handles]⟩
  · intro found
    refine .assume ?_
    rintro rfl
    exact hNext

end Code

/-! ## Writes -/

omit [Rendering] in
/-- Code that changes nothing. -/
theorem kept_after {p : RuntimeM α} {P : Mount → World MemoryStorage → Prop}
    (h : ∀ store, Keeps (looksAt store) Eq p) : Leads (Atomic (flaky Lossy)) P p fun _ => P := by
  intro mount world a mount' world' hP hRun
  have hSame : Leads (Atomic (flaky Lossy)) (fun before w => before = mount ∧ w = world) p
      fun _ after w => after = mount ∧ w = world := by
    refine leads_of_looks (h world.store) (fun _ _ hStart => by rw [hStart.2]) ?_
    rintro a before after w ⟨rfl, rfl⟩ rfl
    exact ⟨rfl, rfl⟩
  obtain ⟨rfl, rfl⟩ := hSame ⟨rfl, rfl⟩ hRun
  exact hP

theorem outcome_of_yields (result : Except Errno Unit) (mount : Mount) (world : World MemoryStorage)
    (h : Yields (Spared Lossy K origin start operation) origin start
      (fun _ => Made K origin start operation) result mount world) :
    Outcome Lossy K origin start operation result mount world := by
  cases result with
  | ok _ => exact h
  | error errno =>
      rcases h with hUntouched | hSpared
      · exact spared_of_untouched rfl rfl hUntouched
      · exact hSpared

section Writes

variable (hGuarded : Guarded start.replay origin.file)

include hGuarded

/-- A commit of an operation that uses this key. -/
theorem yields_commit {before : Mount} {path : MountPath} {bytes : Bytes} {seed : Str}
    (hReplay : before.replay = start.replay) (hCache : before.cache = start.cache)
    (hUses : operation.Uses start origin.store ⟨path.asStr, bytes, seed⟩)
    (hChange : operation.change start = writeChange path bytes) :
    Leads (Atomic (flaky Lossy)) (Untouched origin before)
      (commitMountPathWithSeed path bytes seed).run
      (Yields (Spared Lossy K origin start operation) origin before
        fun _ => Made K origin start operation) := by
  rw [← hReplay] at hGuarded
  refine (leads_commit (K := K) hGuarded path bytes seed).weaken (fun _ _ h => h)
    (Yields.mono ?_ ?_ ?_)
  · exact fun mount world h => spared_of_untouched hReplay hCache h
  · rintro mount world ⟨⟨call, hLossy, hKeyed⟩, h⟩
    exact Or.inr ⟨call, hLossy, done_of_committed hKeyed hUses hChange h⟩
  · rintro _ mount world ⟨hCommitted, hRefreshes⟩
    refine ⟨done_of_committed trivial hUses hChange hCommitted, fun hFresh hAgrees => ?_⟩
    exact hRefreshes hFresh.settles.kept (hFresh.new _ hUses) (hAgrees.of_same hReplay hCache)

theorem yields_commitHandle {fh : Nat}
    (hOperation : operation = .commit fh ∨ operation = .release fh) :
    Leads (Atomic (flaky Lossy)) (Untouched origin start) (commitHandle fh).run
      (Yields (Spared Lossy K origin start operation) origin start
        fun _ => Made K origin start operation) := by
  refine yields_withHandle ?_
  have hChange : operation.change start = start.handles[fh]?.elim .keep Handle.change := by
    rcases hOperation with rfl | rfl <;> rfl
  cases hFound : start.handles[fh]? with
  | none =>
      rw [hFound] at hChange
      exact .pure fun mount world h => made_same hChange h
  | some handle =>
      rw [hFound, Option.elim_some, Handle.change] at hChange
      refine .whenE (fun hClean => ?_) fun hGoes => ?_
      · rw [if_pos hClean] at hChange
        exact .pure fun mount world h => made_same hChange h
      · rw [if_neg hGoes] at hChange
        have hUnsent : handle.Unsent := by
          simp only [Bool.or_eq_true, Bool.not_eq_true', not_or, Bool.not_eq_false,
            Bool.not_eq_true] at hGoes
          exact ⟨hGoes.1.1, hGoes.1.2, hGoes.2⟩
        have hUses : operation.Uses start origin.store
            ⟨handle.path.asStr, handleCommitBytes handle, handle.commitSeed⟩ := by
          rcases hOperation with rfl | rfl
          · exact .commit hFound hUnsent
          · exact .release hFound hUnsent
        refine .andThen _ (yields_commit hGuarded rfl rfl hUses hChange) ?_
        intro _
        refine .andThen (fun _ => Made K origin start operation)
          (.liftM (kept_after fun _ => Handling.getHandle fh)) ?_
        intro current
        cases current with
        | none => exact .pure fun _ _ h => h
        | some current => exact .liftM (.modify fun _ _ h => h)

theorem yields_releaseHandle {fh : Nat} (hOperation : operation = .release fh) :
    Leads (Atomic (flaky Lossy)) (Untouched origin start) (releaseHandle fh).run
      (Outcome Lossy K origin start operation) := by
  have hCommit : Leads (Atomic (flaky Lossy)) (Untouched origin start) (commitHandle fh).run
      (Outcome Lossy K origin start operation) :=
    (yields_commitHandle hGuarded (Or.inr hOperation)).weaken (fun _ _ h => h) outcome_of_yields
  refine .andThen (Outcome Lossy K origin start operation) (.attempt hCommit) ?_
  intro result
  have hRemoved (mount : Mount) (world : World MemoryStorage)
      (h : Outcome Lossy K origin start operation result mount world) :
      Outcome Lossy K origin start operation result
        { mount with handles := mount.handles.erase fh } world := by
    cases result <;> exact h
  refine .andThen (fun _ => Outcome Lossy K origin start operation result)
    (.liftM (.modify hRemoved)) ?_
  exact fun _ => .liftErrno fun _ _ h => h

theorem yields_truncatePath {path : MountPath} (hOperation : operation = .truncatePath path) :
    Leads (Atomic (flaky Lossy)) (Untouched origin start) (truncatePath path).run
      (Yields (Spared Lossy K origin start operation) origin start
        fun _ => Made K origin start operation) := by
  subst hOperation
  refine yields_after (.andThen (Looking.writeMode path) fun _ => .whenE (.throw _) (.pure _))
    fun _ => ?_
  refine yields_afterSeed (fun _ _ h => spared_of_drawn h) ?_
  exact yields_commit hGuarded rfl rfl (.truncatePath path) rfl

end Writes

/-! ## Making and removing -/

/-- The call has been made, and nothing else has changed. -/
def Called (call : StorageCall) (origin : World MemoryStorage) (start mount : Mount)
    (world : World MemoryStorage) : Prop :=
  Untouched origin start mount origin ∧
    world = { origin with store := (MemoryStorage.handle origin.store call).2 }

theorem done_of_called {keyed : Prop} {call : StorageCall} (hClear : Clear start.replay origin.file)
    (hPlain : call.effectId = none)
    (hContents : contents (MemoryStorage.handle origin.store call).2 =
      (operation.change start).apply (contents origin.store)) :
    Done keyed K origin start operation
      { origin with store := (MemoryStorage.handle origin.store call).2 } := by
  refine done_unkeyed hClear (fun id hId => ?_) hContents
  rwa [MemoryStorage.applied_of_plain hPlain] at hId

/-- A call that changes the storage, or fails and does not. -/
theorem yields_requestIo {call : StorageCall} (hClear : Clear start.replay origin.file)
    (hPlain : call.effectId = none)
    (hContents : contents (MemoryStorage.handle origin.store call).2 =
      (operation.change start).apply (contents origin.store))
    (hFails : ∀ err, (MemoryStorage.handle origin.store call).1 = .error err →
      (MemoryStorage.handle origin.store call).2 = origin.store) :
    Leads (Atomic (flaky Lossy)) (Untouched origin start) (requestIo call).run
      (Yields (Spared Lossy K origin start operation) origin start
        fun _ => Called call origin start) := by
  refine .andThen (fun reply mount world => Yields (Spared Lossy K origin start operation) origin
    start (fun _ => Called call origin start) (reply.mapError ioError) mount world)
    (.liftM (.request ?_)) ?_
  · intro mount world reply world' hUntouched hCall
    obtain rfl := hUntouched.world
    cases hCall with
    | store hStep =>
        rcases hStep.inv with ⟨rfl, rfl⟩ | ⟨⟨err, rfl⟩, rfl | ⟨hLossy, rfl⟩⟩
        · cases hReply : (MemoryStorage.handle world.store call).1 with
          | ok value => exact ⟨hUntouched, rfl⟩
          | error err =>
              rw [hFails err hReply]
              exact Or.inl hUntouched
        · exact Or.inl hUntouched
        · exact Or.inr (Or.inr ⟨call, hLossy, done_of_called hClear hPlain hContents⟩)
  · intro reply
    cases reply with
    | ok value => exact .pure fun _ _ h => h
    | error err => exact .throw fun _ _ h => h

/-- Code that only looks, of an operation that keeps the files. -/
theorem yields_looking {p : Runtime α} (hKeep : operation.change start = .keep)
    (h : Keeps (looksAt origin.store) (Rereading OnlyCaches origin.store) p.run) :
    Leads (Atomic (flaky Lossy)) (Untouched origin start) p.run
      (Yields (Spared Lossy K origin start operation) origin start
        fun _ => Made K origin start operation) := by
  refine (untouched_of_looks h).weaken (fun _ _ h => h) ?_
  intro result mount world hUntouched
  cases result with
  | ok a => exact made_same hKeep hUntouched
  | error errno => exact Or.inl hUntouched

omit [Serde] [Rendering] in
theorem contents_ensureStream (state : MemoryStorage) (stream : Str) :
    contents (state.ensureStream stream).2 = contents state := by
  have hMessages (other : Str) :
      (state.ensureStream stream).2.messages other = state.messages other := by
    simp only [MemoryStorage.messages, MemoryStorage.ensureStream,
      Std.ExtTreeMap.getD_insertIfNew]
    split
    · next h =>
      rw [Std.ExtTreeMap.getD_eq_fallback]
      rw [← Std.compare_eq_iff_eq.mp h.1]
      exact h.2
    · rfl
  funext fact
  cases fact with
  | kv bucket key => rfl
  | object bucket name => rfl
  | streamSubject other subject =>
      rw [contents, contents, MemoryStorage.ofSubject, hMessages]
      rfl

omit [Serde] [Rendering] in
theorem coherent_of_contents {store store' : MemoryStorage} {cache : LocalCache}
    (h : Coherent store cache) (hContents : contents store' = contents store) :
    Coherent store' cache := by
  intro path fact entry hHolds hCached
  rw [← contents_of_isValue hHolds.isValue, hContents, contents_of_isValue hHolds.isValue]
  exact h hHolds hCached

section Making

variable (hGuarded : Guarded start.replay origin.file)

include hGuarded

theorem yields_executeMkdir {path : MountPath} (hKeep : operation.change start = .keep) :
    Leads (Atomic (flaky Lossy)) (Untouched origin start) (executeMkdir path).run
      (Yields (Spared Lossy K origin start operation) origin start
        fun _ => Made K origin start operation) := by
  refine yields_pastGate hGuarded fun hClear => ?_
  refine yields_afterErrno fun parsed _ => yields_afterErrno fun action _ => ?_
  have hSynthetic (kind : DynamicPathKind) : Keeps (looksAt origin.store)
      (Rereading OnlyCaches origin.store) (ensureSyntheticDirectory kind).run := by
    cases kind with
    | file => exact .throw _
    | missing => exact .throw _
    | directory => exact .pure _
  have hCall {call : StorageCall} (hPlain : call.effectId = none)
      (hContents : contents (MemoryStorage.handle origin.store call).2 = contents origin.store)
      (hOk : ∃ value, (MemoryStorage.handle origin.store call).1 = .ok value) :
      Leads (Atomic (flaky Lossy)) (Untouched origin start) (requestIo call).run
        (Yields (Spared Lossy K origin start operation) origin start
          fun _ => Made K origin start operation) := by
    have hChange : contents (MemoryStorage.handle origin.store call).2 =
        (operation.change start).apply (contents origin.store) := by
      rw [hKeep]
      exact hContents
    refine (yields_requestIo hClear hPlain hChange ?_).weaken (fun _ _ h => h)
      (Yields.mono (fun _ _ h => spared_of_untouched rfl rfl h) (fun _ _ h => h) ?_)
    · intro err hErr
      obtain ⟨value, hValue⟩ := hOk
      rw [hErr] at hValue
      cases hValue
    · rintro _ mount world ⟨hUntouched, rfl⟩
      refine ⟨done_of_called hClear hPlain hChange, fun _ hAgrees => ?_⟩
      have hBefore := hUntouched.agrees hAgrees
      exact ⟨hBefore.1, coherent_of_contents hBefore.2 hContents⟩
  split
  · exact hCall rfl rfl ⟨_, rfl⟩
  · exact yields_looking hKeep
      (.andThen (observes_looksAt.classifyKvDynamicPath _ _) hSynthetic)
  · exact hCall rfl (contents_ensureStream _ _) ⟨_, rfl⟩
  · exact hCall rfl rfl ⟨_, rfl⟩
  · exact yields_looking hKeep
      (.andThen (observes_looksAt.classifyObjectDynamicPath _ _) hSynthetic)
  · exact yields_looking hKeep (.pure _)
  · exact yields_throw

omit hGuarded in
/-- The file has been removed, and the cache forgets it. -/
theorem yields_unlinked {path : MountPath} {fact : StorageFact} {call : StorageCall}
    (hClear : Clear start.replay origin.file) (hFact : factOf path = some fact)
    (hPlain : call.effectId = none)
    (hContents : contents (MemoryStorage.handle origin.store call).2 =
      (FileChange.remove fact).apply (contents origin.store))
    (hFails : ∀ err, (MemoryStorage.handle origin.store call).1 = .error err →
      (MemoryStorage.handle origin.store call).2 = origin.store) :
    Leads (Atomic (flaky Lossy)) (Untouched origin start)
      (requestIo call >>= fun _ =>
        modify fun mount => mount.invalidateAfterLocalUnlink path : Runtime Unit).run
      (Yields (Spared Lossy K origin start (.unlink path)) origin start
        fun _ => Made K origin start (.unlink path)) := by
  have hChange : contents (MemoryStorage.handle origin.store call).2 =
      ((Operation.unlink path).change start).apply (contents origin.store) := by
    rw [Operation.change, hFact]
    exact hContents
  refine .andThen _ (yields_requestIo hClear hPlain hChange hFails) fun _ => .liftM (.modify ?_)
  rintro mount world ⟨hUntouched, rfl⟩
  refine ⟨done_of_called hClear hPlain hChange, fun _ hAgrees => ?_⟩
  have hBefore := hUntouched.agrees hAgrees
  constructor
  · have hReplay : (mount.invalidateAfterLocalUnlink path).replay = mount.replay :=
      sameReplay_invalidateAfterLocalMutation mount path
    rw [hReplay]
    exact hBefore.1
  · refine coherent_of_change hBefore.2 (.refl _ _) hFact fun other hOther => ?_
    rw [hContents]
    exact Function.update_of_ne hOther _ _

theorem yields_executeUnlink {path : MountPath} (hOperation : operation = .unlink path) :
    Leads (Atomic (flaky Lossy)) (Untouched origin start) (executeUnlink path).run
      (Yields (Spared Lossy K origin start operation) origin start
        fun _ => Made K origin start operation) := by
  subst hOperation
  refine yields_pastGate hGuarded fun hClear => ?_
  refine yields_afterErrno fun parsed hParsed => yields_afterErrno fun action hPlan => ?_
  have hFact : factOf path = action.fact := by
    rw [planOrErrno] at hPlan
    split at hPlan
    · next found hFound =>
      cases hPlan
      obtain ⟨fact, hFact, hPath⟩ := planUnlink_fact hFound
      rw [factOf_eq hParsed, hPath, hFact]
    · cases hPlan
  have hKv (bucket key : Str) (err : TransportError)
      (hErr : (MemoryStorage.handle origin.store (.kvDelete bucket key)).1 = .error err) :
      (MemoryStorage.handle origin.store (.kvDelete bucket key)).2 = origin.store := by
    simp only [MemoryStorage.handle, MemoryStorage.kvDelete] at hErr ⊢
    split at hErr <;> simp_all
  have hObject (bucket object : Str) (err : TransportError)
      (hErr : (MemoryStorage.handle origin.store (.objectDelete bucket object)).1 = .error err) :
      (MemoryStorage.handle origin.store (.objectDelete bucket object)).2 = origin.store := by
    simp only [MemoryStorage.handle, MemoryStorage.objectDelete] at hErr ⊢
    split at hErr <;> simp_all
  split
  · exact yields_unlinked hClear hFact rfl (contents_kvDelete _ _ _) (hKv _ _)
  · exact yields_unlinked hClear hFact rfl (contents_kvDelete _ _ _) (hKv _ _)
  · exact yields_unlinked hClear hFact rfl (contents_objectDelete _ _ _) (hObject _ _)
  · exact .andThen (fun _ _ _ => False) yields_throw fun _ => .absurd fun _ _ h => h
  · exact .andThen (fun _ _ _ => False) yields_throw fun _ => .absurd fun _ _ h => h

omit [Serde] [Rendering] hGuarded in
theorem Logs.payload_of_createTarget {mount mount' : Mount} {log : Log io} {path : MountPath}
    {payload : Bytes} (h : Logs (createTarget path).run mount log (.ok payload) mount') :
    payload = createdPayload path := by
  obtain ⟨_, _, _, _, rfl, -, hParse⟩ := h.of_liftM_andThen
  rcases hParse.of_liftErrno_andThen with ⟨errno, -, hError, -⟩ | ⟨parsed, hParsed, hPlan⟩
  · cases hError
  rcases hPlan.of_liftErrno_andThen with ⟨errno, -, hError, -⟩ | ⟨action, hAction, hKind⟩
  · cases hError
  have hPayload : createdPayload path = createDefaultPayload action := by
    simp only [createdPayload, hParsed, Except.bind, hAction]
  rw [hPayload]
  split at hKind
  · obtain ⟨-, hError, -⟩ := hKind.of_throw
    cases hError
  rcases hKind.of_andThen with ⟨errno, hError, -⟩ | ⟨_, _, kind, _, rfl, -, hEnd⟩
  · cases hError
  cases kind with
  | missing => exact (Except.ok.inj hEnd.of_pure.2.1)
  | file => cases hEnd.of_throw.2.1
  | directory => cases hEnd.of_throw.2.1

theorem yields_executeMknod {path : MountPath} {mode : Nat}
    (hOperation : operation = .mknod path mode) :
    Leads (Atomic (flaky Lossy)) (Untouched origin start) (executeMknod path mode).run
      (Yields (Spared Lossy K origin start operation) origin start
        fun _ => Made K origin start operation) := by
  subst hOperation
  refine yields_pastGate hGuarded fun hClear => ?_
  refine .whenE (fun _ => yields_throw) fun _ => ?_
  refine .andThen (fun payload mount world => Untouched origin start mount world ∧
    payload = createdPayload path) ?_ fun payload => .assume ?_
  · intro mount world result mount' world' hUntouched hRun
    have hEnd := untouched_of_looks (looking_rereading.createTarget path) hUntouched hRun
    cases result with
    | ok payload =>
        obtain ⟨log, hLog⟩ := Answers.of_run hRun
        exact ⟨hEnd, Logs.payload_of_createTarget hLog⟩
    | error errno => exact Or.inl hEnd
  · rintro rfl
    refine yields_afterSeed (fun _ _ h => spared_of_drawn h) ?_
    refine .andThen _ (yields_commit hGuarded rfl rfl (.mknod path mode) rfl) ?_
    exact fun _ => .pure fun _ _ h => h

end Making

/-! ## Renaming -/

section Renaming

omit [Rendering] in
/-- A look that is answered tells what the storage holds. -/
theorem yields_look {E : Mount → World MemoryStorage → Prop} {call : StorageCall}
    (hReads : call.reads = true) :
    Leads (Atomic (flaky Lossy)) (Untouched origin start) (requestIo call).run
      (Yields E origin start fun value mount world => Untouched origin start mount world ∧
        (MemoryStorage.handle origin.store call).1 = .ok value) := by
  refine .andThen (fun reply mount world => Untouched origin start mount world ∧
    ∀ value, reply = .ok value → (MemoryStorage.handle origin.store call).1 = .ok value)
    (.liftM (.request ?_)) ?_
  · intro mount world reply world' hUntouched hCall
    obtain rfl := hUntouched.world
    cases hCall with
    | store hStep =>
        have hSame := MemoryStorage.handle_reads hReads world.store
        rcases hStep.inv with ⟨rfl, rfl⟩ | ⟨⟨err, rfl⟩, rfl | ⟨-, rfl⟩⟩
        · rw [hSame]
          exact ⟨hUntouched, fun value h => h⟩
        · exact ⟨hUntouched, fun value h => by cases h⟩
        · rw [hSame]
          exact ⟨hUntouched, fun value h => by cases h⟩
  · intro reply
    cases reply with
    | ok value => exact .pure fun mount world h => ⟨h.1, h.2 value rfl⟩
    | error err => exact .throw fun mount world h => Or.inl h.1

omit [Rendering] in
/-- The source of a rename is there when it is read. -/
theorem yields_renameSource {E : Mount → World MemoryStorage → Prop} {call : StorageCall}
    {classify : Runtime DynamicPathKind} {ofKind : DynamicPathKind → Runtime α}
    {ofValue : call.Value → Runtime α} {Q : α → Mount → World MemoryStorage → Prop}
    (hClassify : Keeps (looksAt origin.store) (Rereading OnlyCaches origin.store) classify.run)
    (hReads : call.reads = true)
    (hMissing : ofKind .missing = throw .notFound)
    (hDirectory : ofKind .directory = throw .isDirectory)
    (hFile : ofKind .file = requestIo call >>= ofValue)
    (hValue : ∀ value, (MemoryStorage.handle origin.store call).1 = .ok value →
      Leads (Atomic (flaky Lossy)) (Untouched origin start) (ofValue value).run
        (Yields E origin start Q)) :
    Leads (Atomic (flaky Lossy)) (Untouched origin start) (classify >>= ofKind).run
      (Yields E origin start Q) := by
  refine yields_after hClassify fun kind => ?_
  cases kind with
  | missing =>
      rw [hMissing]
      exact yields_throw
  | directory =>
      rw [hDirectory]
      exact yields_throw
  | file =>
      rw [hFile]
      refine .andThen _ (yields_look hReads) fun value => ?_
      exact .assume (hValue value)

def renameKeyMaterial (fromPath toPath : MountPath) (captured : Captured) (seed : Str) :
    KeyMaterial :=
  ⟨toPath.asStr, renameCompletionKeyMaterial fromPath.asStr captured.generation
    captured.bytes, seed⟩

/-- What a rename has put into the queue. -/
def RenameWaits (fromPath toPath : MountPath) (plan : RenamePlan) (origin : World MemoryStorage)
    (start mount : Mount) (world : World MemoryStorage) : Prop :=
  ∃ captured : Captured, captured.AtSource origin.store ∧
    Captured.ends captured = (plan.source, plan.target) ∧
    WaitsAlone ⟨(renameKeyMaterial fromPath toPath captured
        (start.seedText start.nextCommitId)).key, captured.operation, 0, false⟩ origin start mount
      world

theorem yields_queueCompletion {E : Mount → World MemoryStorage → Prop}
    {fromPath toPath : MountPath}
    {generation : Nat} {bytes : Bytes} {seed : Str} {operation : FailedWriteOperation}
    {captured : Captured} (hClear : Clear start.replay origin.file)
    (hGeneration : captured.generation = generation) (hBytes : captured.bytes = bytes)
    (hOperation : ∀ key, durableEntryFromFailedWrite ⟨key, operation⟩ =
      ⟨key, captured.operation, 0, false⟩) :
    Leads (Atomic (flaky Lossy)) (Untouched origin start)
      (queueRenameCompletion fromPath toPath generation bytes seed operation).run
      (Yields E origin start fun _ => WaitsAlone
        ⟨(renameKeyMaterial fromPath toPath captured seed).key, captured.operation, 0, false⟩ origin
        start) := by
  subst hGeneration hBytes
  refine .andThen _ (.liftM (leads_enqueueAlone hClear _)) ?_
  intro queued
  cases queued with
  | ok _ =>
      refine .pure ?_
      rintro mount world ⟨hQueue, hWorld, hCache⟩
      rw [hOperation] at hQueue hWorld
      exact ⟨hQueue, hWorld, hCache⟩
  | error err => exact .throw fun _ _ h => Or.inl h

/-- The completion of what was captured is put into the queue under the seed that was drawn. -/
theorem yields_queueCaptured {E : Mount → World MemoryStorage → Prop} {fromPath toPath : MountPath}
    {plan : RenamePlan} {generation : Nat} {bytes : Bytes} {operation : FailedWriteOperation}
    (captured : Captured)
    (hSame : ∀ mount world, Untouched origin (start.draw true) mount world → E mount world)
    (hClear : Clear start.replay origin.file)
    (hSource : captured.AtSource origin.store)
    (hEnds : Captured.ends captured = (plan.source, plan.target))
    (hGeneration : captured.generation = generation) (hBytes : captured.bytes = bytes)
    (hOperation : ∀ key, durableEntryFromFailedWrite ⟨key, operation⟩ =
      ⟨key, captured.operation, 0, false⟩) :
    Leads (Atomic (flaky Lossy)) (Untouched origin (start.draw true))
      (queueRenameCompletion fromPath toPath generation bytes (start.seedText start.nextCommitId)
        operation).run
      (Yields E origin (start.draw true) fun _ =>
        RenameWaits fromPath toPath plan origin start) := by
  have hDrawn : Clear (start.draw true).replay origin.file := hClear
  refine (yields_queueCompletion hDrawn hGeneration hBytes hOperation).weaken (fun _ _ h => h)
    (Yields.mono hSame (fun _ _ h => h) ?_)
  exact fun _ mount world hWaits =>
    ⟨captured, hSource, hEnds, hWaits.queue, hWaits.world, hWaits.cache⟩

theorem yields_queueRename {E : Mount → World MemoryStorage → Prop}
    (hSame : ∀ mount world, Untouched origin (start.draw true) mount world → E mount world)
    (hClear : Clear start.replay origin.file) (fromPath toPath : MountPath) (plan : RenamePlan) :
    Leads (Atomic (flaky Lossy)) (Untouched origin start) (queueRename fromPath toPath plan).run
      (Yields E origin start fun _ => RenameWaits fromPath toPath plan origin start) := by
  cases plan with
  | kv fromBucket fromKey toBucket toKey =>
      refine .andThen (fun entry mount world => Untouched origin start mount world ∧
        origin.store.kv[(fromBucket, fromKey)]? = some entry) ?_ fun entry => .assume ?_
      · have hReads : (StorageCall.kvGet fromBucket fromKey).reads = true := rfl
        refine yields_renameSource
          (observes_looksAt.classifyKvDynamicPath fromBucket fromKey) hReads
          rfl rfl rfl ?_
        intro value hValue
        cases value with
        | none => exact yields_throw
        | some entry => exact .pure fun _ _ h => ⟨h, Except.ok.inj hValue⟩
      · intro hEntry
        refine yields_after (observes_looksAt.kvRenameDestination toBucket toKey) fun _ => ?_
        refine yields_afterSeed hSame ?_
        exact yields_queueCaptured (.kv fromBucket fromKey entry toBucket toKey) hSame hClear hEntry
          rfl rfl rfl fun _ => rfl
  | object fromBucket fromObject toBucket toObject =>
      refine .andThen (fun version mount world => Untouched origin start mount world ∧
        origin.store.objects[(fromBucket, fromObject)]? = some version) ?_ fun version => .assume ?_
      · have hReads : (StorageCall.objectGet fromBucket fromObject).reads = true := rfl
        refine yields_renameSource
          (observes_looksAt.classifyObjectDynamicPath fromBucket fromObject)
          hReads rfl rfl rfl ?_
        intro value hValue
        cases value with
        | none => exact yields_throw
        | some version => exact .pure fun _ _ h => ⟨h, Except.ok.inj hValue⟩
      · intro hVersion
        refine yields_after (observes_looksAt.objectRenameDestination toBucket toObject) fun _ => ?_
        refine yields_afterSeed hSame ?_
        exact yields_queueCaptured (.object fromBucket fromObject version toBucket toObject) hSame
          hClear hVersion rfl rfl rfl fun _ => rfl

omit [Rendering] in
/-- What is left of a queue is its end, and leads to the same. -/
structure LeftOf (J : MemoryStorage → Prop) (final : MemoryStorage) (queue : List QueueEntry)
    (replay : WritebackReplay) (world : World MemoryStorage) : Prop where
  mirrors : Mirrors J final replay.queue.entries world
  suffix : replay.queue.entries.map (·.work) <:+ queue.map (·.work)

omit [Rendering] in
theorem LeftOf.overlaid {J : MemoryStorage → Prop} {final shown : MemoryStorage}
    {queue : List QueueEntry} {replay : WritebackReplay} (h : LeftOf J final queue replay world)
    (hShown : Overlaid shown queue) : Overlaid shown world.file := by
  refine hShown.suffix ?_
  rw [h.mirrors.file]
  exact h.suffix

omit [Rendering] in
/-- Replaying the queue changes nothing of what it leads to. -/
theorem leads_replaySettles {J : MemoryStorage → Prop} {final : MemoryStorage}
    {queue : List QueueEntry} :
    Leads (Atomic (flaky Lossy))
      (fun mount world => mount.replay.queue.entries = queue ∧ Mirrors J final queue world)
      replayQueue fun _ mount world => LeftOf J final queue mount.replay world := by
  refine .bind (fun found mount world => found = mount ∧ found.replay.queue.entries = queue ∧
    Mirrors J final queue world) (.get fun mount world h => ⟨rfl, h⟩) ?_
  intro found
  refine .bind (fun result _ world => LeftOf J final queue result.1 world) (.stateLift ?_) ?_
  · rintro mount world ⟨replay', result⟩ world' ⟨rfl, rfl, hMirrors⟩ hRun
    obtain ⟨⟨left, queued⟩, between, hReplay, hSync⟩ := hRun.bind_some
    obtain ⟨⟨entries, outcome⟩, w, hEntries, hReturned⟩ := hReplay.bind_some
    obtain ⟨hQueue, rfl⟩ := hReturned.of_ret
    obtain ⟨rfl, rfl⟩ := Prod.mk.inj hQueue
    obtain ⟨hResult, rfl⟩ := hSync.of_ret
    obtain ⟨rfl, rfl⟩ := Prod.mk.inj hResult
    have hEnds := replayEnds_replayEntries found.replay.queue.entries hMirrors
      (hEntries.mono fun _ _ _ _ => unreliable_of_atomic)
    obtain ⟨log, hLog⟩ := Answers.of_run hEntries
    refine ⟨hEnds.2 ?_, works_of_replay hLog⟩
    rintro written ⟨call, hCall, -⟩
    cases hCall
  · rintro ⟨replay', result⟩
    refine .bind (fun _ mount world => LeftOf J final queue mount.replay world)
      (.modify fun _ _ h => h) fun _ => .modify fun mount world h => ?_
    exact (congrArg (LeftOf J final queue · world)
      (sameReplay_applyPathInvalidationPlan mount _)).mpr h

omit [Serde] [Rendering] in
/-- A replay empties the cache. -/
theorem leads_emptyCache {B : Behaviour io (World MemoryStorage)} :
    Leads B (fun _ _ => True) replayQueue fun _ mount _ =>
      ∀ key : Str, mount.cache.entries[key]? = none := by
  refine .bind (fun _ _ _ => True) (.get fun _ _ h => h) fun found => ?_
  refine .bind (fun _ _ _ => True) (fun _ _ _ _ _ _ _ => trivial) fun result => ?_
  refine .bind (fun _ _ _ => True) (.modify fun _ _ h => h) fun _ => .modify fun mount _ _ key => ?_
  rw [Mount.cache_applyInvalidationPlan]
  exact entries_gap mount.cache key

/-- The rename that waits moves its file. -/
theorem RenameWaits.mirrors {fromPath toPath : MountPath} {flags : Nat} {plan : RenamePlan}
    {mount : Mount} (h : RenameWaits fromPath toPath plan origin start mount world)
    (hClear : Clear start.replay origin.file) (hne : fromPath ≠ toPath)
    (hFrom : factOf fromPath = some plan.source) (hTo : factOf toPath = some plan.target)
    (hEnds : plan.source ≠ plan.target)
    (hFresh : Fresh K origin start (.rename fromPath toPath flags)) :
    ∃ K' final, UsesOnly True K origin start (.rename fromPath toPath flags) K' ∧
      Mirrors (KeysIn K') final mount.replay.queue.entries world ∧
      Overlaid final mount.replay.queue.entries ∧
      contents final = ((Operation.rename fromPath toPath flags).change start).apply
        (contents (settled origin)) := by
  obtain ⟨captured, hSource, hCaptured, hQueue, rfl, -⟩ := h
  let material := renameKeyMaterial fromPath toPath captured (start.seedText start.nextCommitId)
  let entry : QueueEntry := ⟨material.key, captured.operation, 0, false⟩
  have hFromEnd : factOf fromPath = some (Captured.ends captured).1 := by rw [hFrom, hCaptured]
  have hUses : (Operation.rename fromPath toPath flags).Uses start origin.store material :=
    .rename hne hSource hFromEnd
  have hNew : ¬ K entry.idempotencyKey := hFresh.new material hUses
  have hRecorded := not_recorded hFresh.settles.kept hNew
  obtain ⟨hPreserves, hStart⟩ := keysIn_withKey hFresh.settles.kept entry
  have hEndsCaptured : (Captured.ends captured).1 ≠ (Captured.ends captured).2 := by
    rw [hCaptured]
    exact hEnds
  refine ⟨WithKey K material.key, entry.settle origin.store, ?_, ?_, ?_, ?_⟩
  · exact fun key hKey => hKey.imp_right fun hSame => ⟨trivial, material, hUses, hSame⟩
  · rw [hQueue]
    refine ⟨⟨rfl, ?_, ?_, hStart⟩, rfl⟩
    · refine List.forall_mem_singleton.mpr ?_
      cases captured <;> trivial
    · exact List.forall_mem_singleton.mpr hPreserves
  · rw [hQueue]
    exact overlaid_settle rfl hRecorded (sourceCurrent_captured rfl hSource hEndsCaptured)
  · have hOperation : entry.operation = captured.operation := rfl
    rw [contents_settle_rename hOperation rfl hRecorded hSource hEndsCaptured,
      Operation.change, if_neg hne, hFrom, hTo, hCaptured, settled, hClear.file]
    rfl

theorem yields_executeRename {fromPath toPath : MountPath} {flags : Nat}
    (hGuarded : Guarded start.replay origin.file)
    (hOperation : operation = .rename fromPath toPath flags) :
    Leads (Atomic (flaky Lossy)) (Untouched origin start) (executeRename fromPath toPath flags).run
      (Yields (Spared Lossy K origin start operation) origin start
        fun _ => Made K origin start operation) := by
  subst hOperation
  refine yields_pastGate hGuarded fun hClear => ?_
  refine .whenE (fun _ => yields_throw) fun _ => ?_
  refine .whenE (fun hSame => ?_) fun hne => ?_
  · refine yields_looking ?_ (.pure _)
    rw [Operation.change, if_pos hSame]
  refine yields_afterErrno fun source hSource => yields_afterErrno fun target hTarget => ?_
  refine yields_afterErrno fun action hPlan => ?_
  split
  · next plan =>
    have hPlanned : planRename source target = .ok (.rename plan) := by
      rw [planOrErrno] at hPlan
      split at hPlan
      · next found hFound =>
        cases hPlan
        exact hFound
      · cases hPlan
    obtain ⟨_, ⟨⟩, hFrom, hTo, -, -⟩ := planRename_facts hPlanned
    have hEnds := ends_distinct (parse_of_parsePath hSource)
      (parse_of_parsePath hTarget) hPlanned hne
    rw [← factOf_eq hSource] at hFrom
    rw [← factOf_eq hTarget] at hTo
    refine .andThen _ (yields_queueRename (fun _ _ h => spared_of_drawn h) hClear fromPath toPath
      plan) fun _ => ?_
    refine .andThen (fun _ => Made K origin start (.rename fromPath toPath flags)) (.liftM ?_) ?_
    · intro mount world a mount' world' hWaits hRun
      have hLeft (hFresh : Fresh K origin start (.rename fromPath toPath flags)) :
          ∃ K' final, UsesOnly True K origin start (.rename fromPath toPath flags) K' ∧
            LeftOf (KeysIn K') final mount.replay.queue.entries mount'.replay world' ∧
            Overlaid final world'.file ∧
            contents final = ((Operation.rename fromPath toPath flags).change start).apply
              (contents (settled origin)) := by
        obtain ⟨K', final, hUses, hMirrors, hShown, hContents⟩ :=
          hWaits.mirrors hClear hne hFrom hTo hEnds hFresh
        have hLeft := leads_replaySettles ⟨rfl, hMirrors⟩ hRun
        exact ⟨K', final, hUses, hLeft, hLeft.overlaid hShown, hContents⟩
      constructor
      · intro hFresh
        obtain ⟨K', final, hUses, hLeft, hShown, hContents⟩ := hLeft hFresh
        exact ⟨K', hUses, final, hLeft.mirrors.toSettles, hShown, hContents⟩
      · intro hFresh _
        obtain ⟨K', final, -, hLeft, -, -⟩ := hLeft hFresh
        exact ⟨hLeft.mirrors.file, coherent_of_empty (leads_emptyCache trivial hRun)⟩
    · intro _
      refine .andThen (fun _ => Made K origin start (.rename fromPath toPath flags))
        (.liftM (.modify fun mount world h => ?_)) fun _ => .liftM (.modify fun mount world h => ?_)
      · exact ⟨h.1, fun hFresh hAgrees => (h.2 hFresh hAgrees).local fromPath⟩
      · exact ⟨h.1, fun hFresh hAgrees => (h.2 hFresh hAgrees).local toPath⟩
  · exact yields_throw

end Renaming

/-! ## Any operation -/

/-- Code that only looks, whatever it does to the handles. -/
theorem outcome_looking {p : Runtime Unit} (hKeep : operation.change start = .keep)
    (h : Keeps (looksAt origin.store) (Rereading SameReplay origin.store) p.run) :
    Leads (Atomic (flaky Lossy)) (Untouched origin start) p.run
      (Outcome Lossy K origin start operation) := by
  refine leads_of_looks h (fun _ _ hStart => by rw [hStart.world]) ?_
  rintro result mount mount' world hUntouched ⟨hReplay, hRereads⟩
  obtain rfl := hUntouched.world
  have hAgrees (hStart : Agrees world start) : Agrees world mount' := by
    have hBefore := hUntouched.agrees hStart
    refine ⟨?_, hBefore.2.rereads hRereads⟩
    rw [show mount'.replay = mount.replay from hReplay]
    exact hBefore.1
  cases result with
  | ok _ => exact ⟨done_same hKeep, fun _ => hAgrees⟩
  | error errno => exact Or.inl ⟨rfl, hAgrees⟩

theorem outcome_operation (hGuarded : Guarded start.replay origin.file) (operation : Operation) :
    Leads (Atomic (flaky Lossy)) (Untouched origin start) operation.code.run
      (Outcome Lossy K origin start operation) := by
  have hOutcome {p : Runtime Unit} (h : Leads (Atomic (flaky Lossy)) (Untouched origin start) p.run
      (Yields (Spared Lossy K origin start operation) origin start
        fun _ => Made K origin start operation)) :
      Leads (Atomic (flaky Lossy)) (Untouched origin start) p.run
        (Outcome Lossy K origin start operation) :=
    h.weaken (fun _ _ h => h) outcome_of_yields
  cases operation with
  | commit fh => exact hOutcome (yields_commitHandle hGuarded (Or.inl rfl))
  | release fh => exact yields_releaseHandle hGuarded rfl
  | truncatePath path => exact hOutcome (yields_truncatePath hGuarded rfl)
  | mkdir path => exact hOutcome (yields_executeMkdir hGuarded rfl)
  | mknod path mode =>
      exact hOutcome (.andThen _ (yields_executeMknod hGuarded rfl) fun _ => .pure fun _ _ h => h)
  | unlink path => exact hOutcome (yields_executeUnlink hGuarded rfl)
  | rename fromPath toPath flags => exact hOutcome (yields_executeRename hGuarded rfl)
  | _ =>
      exact outcome_looking rfl (keeps_ungated handling_rereading
        (fun _ _ => ⟨rfl, .refl _ _⟩) id)

end Outcomes

end EventFs.Fuse

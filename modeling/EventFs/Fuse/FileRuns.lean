import EventFs.Library.Durable
import EventFs.Fuse.OperationOutcomes
import EventFs.Fuse.UnspentSeeds

/-!
# Files over whole runs

A mount is the only client of its storage. Its operations succeed, fail or are cut off, it is
unmounted and mounted again on the same queue directory. What the files hold, once the
queue is settled, is what the changes of the operations have made of them, in order: each
one that was acknowledged, none that was refused, and each one that was cut off as a whole
or not at all. A write of the queue file that fails is assumed to leave it as it was.
-/

namespace EventFs.Fuse

open Library Protocol Transport Program

/-! ## Keys and seeds of a world -/

section Used

variable [Serde] {world : World MemoryStorage} {K : Str → Prop} {final : MemoryStorage}

/-- The key has been recorded, or an entry of the queue has it. -/
def Used (world : World MemoryStorage) (key : Str) : Prop :=
  (∃ id, world.store.applied id = true ∧ id.idempotencyKey = key) ∨
    ∃ entry ∈ world.file, entry.idempotencyKey = key

theorem settles_used (hValid : ∀ entry ∈ world.file, entry.ValidPayload) :
    Settles (KeysIn (Used world)) (settled world) world where
  settled := rfl
  valid := hValid
  preserves entry hMem := preserves_keysIn (Or.inr ⟨entry, hMem, rfl⟩)
  kept id hApplied := Or.inl ⟨id, hApplied, rfl⟩

/-- The invariant of a queue names all keys that have been used. -/
theorem used_le (h : Settles (KeysIn K) final world) {key : Str} (hUsed : Used world key) :
    K key := by
  rcases hUsed with ⟨id, hApplied, rfl⟩ | ⟨entry, hMem, rfl⟩
  · exact h.kept id hApplied
  · have hPut := (h.preserves entry hMem world.store h.kept).1
    obtain ⟨id, hApplied, hKey⟩ :=
      exists_applied (QueueEntry.recorded_put (h.valid entry hMem) world.store)
    rw [← hKey]
    exact hPut id hApplied

variable [Rendering] {Hashed : KeyMaterial → Prop} {start : Mount} {operation : Operation}
  {material : KeyMaterial}

/-- Of what is hashed, different seeds give different keys. -/
def Apart (Hashed : KeyMaterial → Prop) : Prop :=
  ∀ ⦃material other⦄, Hashed material → Hashed other → material.key = other.key →
    material.seed = other.seed

/-- The seed of a key that has been used. -/
def Spent (Hashed : KeyMaterial → Prop) (world : World MemoryStorage) (seed : Str) : Prop :=
  ∃ material, Hashed material ∧ material.seed = seed ∧ Used world material.key

omit [Serde] [Rendering] in
theorem Operation.Uses.spends {store : MemoryStorage} (h : operation.Uses start store material) :
    operation.spends start = some material.seed := by
  have hHandle {handle : Handle} (hUnsent : handle.Unsent) :
      Handle.spends handle = some handle.commitSeed := by
    rw [Handle.spends, hUnsent.writable, hUnsent.dirty, hUnsent.committed]
    rfl
  cases h with
  | commit hFound hUnsent | release hFound hUnsent =>
      rw [Operation.spends, hFound, Option.bind_some, hHandle hUnsent]
  | truncatePath | mknod => rfl
  | rename hne => rw [Operation.spends, if_neg hne]

omit [Serde] [Rendering] in
/-- The seed of a key that an operation uses has not been spent. -/
theorem Operation.Uses.unspent {store : MemoryStorage} {S : Str → Prop}
    (h : operation.Uses start store material) (hUnspent : Unspent S start) : ¬ S material.seed := by
  cases h with
  | commit hFound hUnsent | release hFound hUnsent =>
      exact hUnspent.uncommitted _ _ hFound hUnsent.committed
  | truncatePath | mknod | rename => exact hUnspent.later _ le_rfl

end Used

/-! ## Opening a mount -/

section Opening

variable [Serde] {Lossy : StorageCall → Prop} {J : MemoryStorage → Prop} {final : MemoryStorage}
  {world world' : World MemoryStorage} {capacity mountInstance : Nat} {mountName : Str}

/-- A mount that opens or fails to open does not change what the queue and the storage lead
to, and leaves the end of the queue. One that opens has no handles and nothing cached yet. -/
theorem settles_openMount {result : TransportResult Mount} (hStored : Stored world.file)
    (hSettles : Settles J final world)
    (hRun : Run (Atomic (flaky Lossy)) Alone (openMount capacity mountName mountInstance).run world
      (some result) world') :
    Settles J final world' ∧ (∀ shown, Overlaid shown world.file → Overlaid shown world'.file) ∧
      ∀ mount, result = .ok mount → SameHandles (Mount.new ⟨capacity, []⟩ mountName mountInstance)
        mount ∧ Agrees world' mount := by
  rw [openMount, ExceptT.run_bind] at hRun
  obtain ⟨opened, between, hOpen, hRest⟩ := hRun.bind_some
  obtain ⟨rfl, ⟨err, rfl⟩ | rfl⟩ := run_openQueue hStored hOpen
  · obtain ⟨rfl, rfl⟩ := hRest.of_ret
    exact ⟨hSettles, fun _ h => h, fun mount h => by cases h⟩
  · obtain ⟨mount, after, hMount, hEnd⟩ := hRest.bind_some
    obtain ⟨rfl, rfl⟩ := hEnd.of_ret
    obtain ⟨⟨_, replayed⟩, _, hReplay, hReturned⟩ := hMount.bind_some
    obtain ⟨rfl, rfl⟩ := hReturned.of_ret
    have hMirrors : Mirrors J final between.file between := ⟨hSettles, rfl⟩
    have hNew : SameHandles (Mount.new ⟨capacity, []⟩ mountName mountInstance)
        (Mount.new ⟨capacity, between.file⟩ mountName mountInstance) := ⟨rfl, rfl, rfl, rfl⟩
    have hLeft : LeftOf J final between.file mount.replay world' :=
      leads_replaySettles ⟨rfl, hMirrors⟩ hReplay
    refine ⟨hLeft.mirrors.toSettles, fun shown h => hLeft.overlaid h, ?_⟩
    rintro other ⟨⟩
    exact ⟨here_of_keeps keepsSame_replayQueue hNew hReplay, hLeft.mirrors.file,
      coherent_of_empty (leads_emptyCache trivial hReplay)⟩

end Opening

/-! ## Events -/

section Events

variable [Serde] [Rendering]

/-- What an operation or the end of a mount was to change, and how it was answered. -/
structure FileEvent where
  change : FileChange
  fate : Fate

def FileEvent.attempt (event : FileEvent) : Attempt Files := ⟨event.change.apply, event.fate⟩

/-- What may happen to a mount that is alone on its storage. Calls may be refused, and these
may take effect without being acknowledged; a run that is cut off leaves no mount. -/
inductive FileStep (Lossy : StorageCall → Prop) (Hashed : KeyMaterial → Prop) :
    Session MemoryStorage → FileEvent → Session MemoryStorage → Prop
  | succeeded {mount mount' : Mount} {world world' : World MemoryStorage} {operation : Operation}
      (hRoom : mount.nextCommitId < u64Max)
      (hHashed : ∀ material, operation.Uses mount world.store material → Hashed material)
      (hRun : Run (Atomic (flaky Lossy)) Alone (operation.code.run.run mount) world
        (some (.ok (), mount')) world') :
      FileStep Lossy Hashed ⟨some mount, world⟩ ⟨operation.change mount, .acknowledged⟩
        ⟨some mount', world'⟩
  | refused {mount mount' : Mount} {world world' : World MemoryStorage} {operation : Operation}
      {errno : Errno} (hRoom : mount.nextCommitId < u64Max) (hReliable : ∀ call, ¬ Lossy call)
      (hHashed : ∀ material, operation.Uses mount world.store material → Hashed material)
      (hRun : Run (Atomic (flaky Lossy)) Alone (operation.code.run.run mount) world
        (some (.error errno, mount')) world') :
      FileStep Lossy Hashed ⟨some mount, world⟩ ⟨operation.change mount, .refused⟩
        ⟨some mount', world'⟩
  -- the handle of a failed commit keeps its seed, so its put must not have taken effect
  | failed {mount mount' : Mount} {world world' : World MemoryStorage} {operation : Operation}
      {errno : Errno} (hRoom : mount.nextCommitId < u64Max)
      (hHashed : ∀ material, operation.Uses mount world.store material → Hashed material)
      (hUnused : ∀ material, operation.Uses mount world.store material →
        ¬ Used world' material.key)
      (hRun : Run (Atomic (flaky Lossy)) Alone (operation.code.run.run mount) world
        (some (.error errno, mount')) world') :
      FileStep Lossy Hashed ⟨some mount, world⟩ ⟨operation.change mount, .unanswered⟩
        ⟨some mount', world'⟩
  | crashed {mount : Mount} {world world' : World MemoryStorage} {operation : Operation}
      (hHashed : ∀ material, operation.Uses mount world.store material → Hashed material)
      (hRun : Run (Atomic (flaky Lossy)) Alone (operation.code.run.run mount) world none world') :
      FileStep Lossy Hashed ⟨some mount, world⟩ ⟨operation.change mount, .unanswered⟩
        ⟨none, world'⟩
  | unmounted (mount : Mount) (world : World MemoryStorage) :
      FileStep Lossy Hashed ⟨some mount, world⟩ ⟨.keep, .acknowledged⟩ ⟨none, world⟩
  | mounted {mount : Mount} {world world' : World MemoryStorage} {capacity mountInstance : Nat}
      {mountName : Str} (hFresh : ∀ id, ¬ Spent Hashed world
        ((Mount.new ⟨capacity, []⟩ mountName mountInstance).seedText id))
      (hRun : Run (Atomic (flaky Lossy)) Alone
        (openMount capacity mountName mountInstance).run world
        (some (.ok mount)) world') :
      FileStep Lossy Hashed ⟨none, world⟩ ⟨.keep, .acknowledged⟩ ⟨some mount, world'⟩
  | notMounted {world world' : World MemoryStorage} {capacity mountInstance : Nat}
      {mountName : Str} {outcome : Option (TransportResult Mount)}
      (hRun : Run (Atomic (flaky Lossy)) Alone
        (openMount capacity mountName mountInstance).run world
        outcome world') :
      FileStep Lossy Hashed ⟨none, world⟩ ⟨.keep, .acknowledged⟩ ⟨none, world'⟩

/-- What every step keeps. -/
structure Sound (Hashed : KeyMaterial → Prop) (session : Session MemoryStorage) : Prop where
  stored : Stored session.world.file
  valid : ∀ entry ∈ session.world.file, entry.ValidPayload
  overlaid : Overlaid (settled session.world) session.world.file
  mounted : ∀ mount, session.mount = some mount →
    guarded mount session.world ∧ Unspent (Spent Hashed session.world) mount

/-! ## Steps -/

section Steps

variable {Lossy : StorageCall → Prop} {Hashed : KeyMaterial → Prop} {mount mount' : Mount}
  {world world' : World MemoryStorage} {operation : Operation}

theorem Sound.unmounted (h : Sound Hashed ⟨some mount, world⟩) : Sound Hashed ⟨none, world⟩ :=
  ⟨h.stored, h.valid, h.overlaid, fun mount hMount => by cases hMount⟩

theorem Sound.fresh (h : Sound Hashed ⟨some mount, world⟩)
    (hHashed : ∀ material, operation.Uses mount world.store material → Hashed material) :
    Fresh (Used world) world mount operation where
  settles := settles_used h.valid
  overlaid := h.overlaid
  new material hUses hUsed :=
    hUses.unspent (h.mounted mount rfl).2 ⟨material, hHashed material hUses, rfl, hUsed⟩

/-- What an operation leaves in the world if it has done its work. -/
structure Worked (keyed : Prop) (world : World MemoryStorage) (mount : Mount)
    (operation : Operation) (world' : World MemoryStorage) : Prop where
  valid : ∀ entry ∈ world'.file, entry.ValidPayload
  overlaid : Overlaid (settled world') world'.file
  used : UsesOnly keyed (Used world) world mount operation (Used world')
  contents : contents (settled world') = (operation.change mount).apply (contents (settled world))

theorem Done.worked {keyed : Prop} (h : Done keyed (Used world) world mount operation world')
    (hFresh : Fresh (Used world) world mount operation) :
    Worked keyed world mount operation world' := by
  obtain ⟨K', hOnly, final, hSettles, hShown, hContents⟩ := h hFresh
  refine ⟨hSettles.valid, ?_, fun key hUsed => hOnly key (used_le hSettles hUsed), ?_⟩
  · rw [hSettles.settled]
    exact hShown
  · rw [hSettles.settled, hContents]

omit [Serde] in
/-- The seeds spent by an operation are those of the keys it uses. -/
theorem UsesOnly.spent {keyed : Prop} (hApart : Apart Hashed)
    (hHashed : ∀ material, operation.Uses mount world.store material → Hashed material)
    (h : UsesOnly keyed (Used world) world mount operation (Used world')) {seed : Str}
    (hSpent : Spent Hashed world' seed) :
    Spend (Spent Hashed world) (operation.spends mount) seed := by
  obtain ⟨material, hMaterial, rfl, hUsed⟩ := hSpent
  rcases h _ hUsed with hOld | ⟨-, other, hUses, hKey⟩
  · exact Or.inl ⟨material, hMaterial, rfl, hOld⟩
  · refine Or.inr ?_
    rw [hUses.spends, hApart hMaterial (hHashed other hUses) hKey]

/-- What an operation leaves, whether it has been answered or not. -/
theorem Sound.outcome (h : Sound Hashed ⟨some mount, world⟩) {result : Except Errno Unit}
    (hRun : Run (Atomic (flaky Lossy)) Alone (operation.code.run.run mount) world
      (some (result, mount')) world') :
    guarded mount' world' ∧
      Outcome Lossy (Used world) world mount operation result mount' world' := by
  have hGuarded := (h.mounted mount rfl).1
  exact ⟨leads_operation operation hGuarded hRun,
    outcome_operation hGuarded operation (Untouched.refl world mount) hRun⟩

theorem Sound.succeeded (h : Sound Hashed ⟨some mount, world⟩) (hApart : Apart Hashed)
    (hRoom : mount.nextCommitId < u64Max)
    (hHashed : ∀ material, operation.Uses mount world.store material → Hashed material)
    (hRun : Run (Atomic (flaky Lossy)) Alone (operation.code.run.run mount) world
      (some (.ok (), mount')) world') :
    Sound Hashed ⟨some mount', world'⟩ ∧ Worked True world mount operation world' ∧
      (Agrees world mount → Agrees world' mount') := by
  obtain ⟨hGuarded, hDone, hAgrees⟩ := h.outcome hRun
  have hWorked : Worked True world mount operation world' := Done.worked hDone (h.fresh hHashed)
  refine ⟨⟨hGuarded.stored, hWorked.valid, hWorked.overlaid, ?_⟩, hWorked,
    hAgrees (h.fresh hHashed)⟩
  rintro other ⟨⟩
  have hSpends : Unspent (Spend (Spent Hashed world) (operation.spends mount)) mount' :=
    spends_operation (h.mounted mount rfl).2 hRoom operation (SameHandles.refl mount) hRun
  exact ⟨hGuarded, hSpends.mono fun _ => hWorked.used.spent hApart hHashed⟩

/-- A failure that has not used its key. -/
theorem Sound.failed (h : Sound Hashed ⟨some mount, world⟩)
    (hRoom : mount.nextCommitId < u64Max)
    (hHashed : ∀ material, operation.Uses mount world.store material → Hashed material)
    (hUnused : ∀ material, operation.Uses mount world.store material → ¬ Used world' material.key)
    {errno : Errno}
    (hRun : Run (Atomic (flaky Lossy)) Alone (operation.code.run.run mount) world
      (some (.error errno, mount')) world') :
    Sound Hashed ⟨some mount', world'⟩ ∧
      (world' = world ∨ ∃ keyed, Worked keyed world mount operation world') := by
  obtain ⟨hGuarded, hSpared⟩ := h.outcome hRun
  have hSpends : Unspent (Spent Hashed world) mount' :=
    spends_operation (h.mounted mount rfl).2 hRoom operation (SameHandles.refl mount) hRun
  rcases hSpared with ⟨rfl, -⟩ | ⟨call, -, hDone⟩
  · refine ⟨⟨hGuarded.stored, h.valid, h.overlaid, ?_⟩, Or.inl rfl⟩
    rintro other ⟨⟩
    exact ⟨hGuarded, hSpends⟩
  · have hWorked := Done.worked hDone (h.fresh hHashed)
    refine ⟨⟨hGuarded.stored, hWorked.valid, hWorked.overlaid, ?_⟩, Or.inr ⟨_, hWorked⟩⟩
    rintro other ⟨⟩
    refine ⟨hGuarded, hSpends.mono ?_⟩
    rintro seed ⟨material, hMaterial, rfl, hUsed⟩
    rcases hWorked.used _ hUsed with hOld | ⟨-, own, hUses, hKey⟩
    · exact ⟨material, hMaterial, rfl, hOld⟩
    · rw [hKey] at hUsed
      exact absurd hUsed (hUnused own hUses)

/-- A run that was cut off leaves what some run leaves that was not. -/
theorem Sound.crashed (h : Sound Hashed ⟨some mount, world⟩)
    (hHashed : ∀ material, operation.Uses mount world.store material → Hashed material)
    (hRun : Run (Atomic (flaky Lossy)) Alone (operation.code.run.run mount) world none world') :
    Sound Hashed ⟨none, world'⟩ ∧
      (world' = world ∨ ∃ keyed, Worked keyed world mount operation world') := by
  obtain ⟨⟨result, mount'⟩, hFinished⟩ := hRun.finish_refused exists_refusal
  obtain ⟨hGuarded, hOutcome⟩ := h.outcome hFinished
  have hWorked : world' = world ∨ ∃ keyed, Worked keyed world mount operation world' := by
    cases result with
    | ok _ => exact Or.inr ⟨_, Done.worked hOutcome.1 (h.fresh hHashed)⟩
    | error errno =>
        rcases hOutcome with ⟨hSame, -⟩ | ⟨call, -, hDone⟩
        · exact Or.inl hSame
        · exact Or.inr ⟨_, Done.worked hDone (h.fresh hHashed)⟩
  refine ⟨⟨hGuarded.stored, ?_, ?_, fun mount hMount => by cases hMount⟩, hWorked⟩
  · rcases hWorked with rfl | ⟨_, hWorked⟩
    · exact h.valid
    · exact hWorked.valid
  · rcases hWorked with rfl | ⟨_, hWorked⟩
    · exact h.overlaid
    · exact hWorked.overlaid

variable {capacity mountInstance : Nat} {mountName : Str}

/-- Opening a mount keeps the contents, whatever comes of it. -/
theorem Sound.opened (h : Sound Hashed ⟨none, world⟩) {outcome : Option (TransportResult Mount)}
    (hRun : Run (Atomic (flaky Lossy)) Alone (openMount capacity mountName mountInstance).run world
      outcome world') :
    Sound Hashed ⟨none, world'⟩ ∧ settled world' = settled world := by
  obtain ⟨result, hFinished⟩ := hRun.finish_refused exists_refusal
  obtain ⟨hSettles, hShown, -⟩ := settles_openMount h.stored (settles_used h.valid) hFinished
  have hStored := (run_openMount h.stored hFinished).1
  refine ⟨⟨hStored, hSettles.valid, ?_, fun mount hMount => by cases hMount⟩, hSettles.settled⟩
  rw [hSettles.settled]
  exact hShown _ h.overlaid

theorem Sound.remounted (h : Sound Hashed ⟨none, world⟩)
    (hFresh : ∀ id, ¬ Spent Hashed world
      ((Mount.new ⟨capacity, []⟩ mountName mountInstance).seedText id))
    (hRun : Run (Atomic (flaky Lossy)) Alone (openMount capacity mountName mountInstance).run world
      (some (.ok mount)) world') :
    Sound Hashed ⟨some mount, world'⟩ := by
  have hOpened := (h.opened hRun).1
  obtain ⟨hSettles, -, hMount⟩ := settles_openMount h.stored (settles_used h.valid) hRun
  have hSame := (hMount mount rfl).1
  have hSpent {seed : Str} (hSpent : Spent Hashed world' seed) : Spent Hashed world seed := by
    obtain ⟨material, hMaterial, hSeed, hUsed⟩ := hSpent
    exact ⟨material, hMaterial, hSeed, used_le hSettles hUsed⟩
  have hNone (fh : Nat) (handle : Handle) : ¬ mount.handles[fh]? = some handle := by
    rw [hSame.handles]
    intro hFound
    have hEmpty : (∅ : Std.ExtTreeMap Nat Handle)[fh]? = some handle := hFound
    simp at hEmpty
  refine ⟨hOpened.stored, hOpened.valid, hOpened.overlaid, ?_⟩
  rintro other ⟨⟩
  refine ⟨((run_openMount h.stored hRun).2 mount rfl).1, ⟨?_, ?_, ?_, ?_⟩⟩
  · intro id _ hLater
    rw [hSame.seedText] at hLater
    exact hFresh id (hSpent hLater)
  · exact fun fh handle hFound => absurd hFound (hNone fh handle)
  · exact fun fh handle hFound => absurd hFound (hNone fh handle)
  · exact fun fh _ handle _ _ hFound => absurd hFound (hNone fh handle)

theorem makes_unanswered {change : FileChange}
    (h : world' = world ∨ ∃ keyed, Worked keyed world mount operation world')
    (hChange : change = operation.change mount) :
    (FileEvent.attempt ⟨change, .unanswered⟩).Makes (contents (settled world))
      (contents (settled world')) := by
  subst hChange
  rcases h with rfl | ⟨_, hWorked⟩
  · exact Or.inl rfl
  · exact Or.inr hWorked.contents

/-- Every step treats its change as a whole. -/
theorem Sound.step {session session' : Session MemoryStorage} {event : FileEvent}
    (hApart : Apart Hashed) (h : Sound Hashed session)
    (hStep : FileStep Lossy Hashed session event session') :
    Sound Hashed session' ∧ event.attempt.Makes (contents (settled session.world))
      (contents (settled session'.world)) := by
  cases hStep with
  | succeeded hRoom hHashed hRun =>
      obtain ⟨hSound, hWorked, -⟩ := h.succeeded hApart hRoom hHashed hRun
      exact ⟨hSound, hWorked.contents⟩
  | refused hRoom hReliable hHashed hRun =>
      obtain ⟨-, ⟨rfl, -⟩ | ⟨call, hLossy, -⟩⟩ := h.outcome hRun
      · have hFresh := (h.fresh hHashed).new
        exact ⟨(h.failed hRoom hHashed hFresh hRun).1, rfl⟩
      · exact absurd hLossy (hReliable call)
  | failed hRoom hHashed hUnused hRun =>
      obtain ⟨hSound, hWorked⟩ := h.failed hRoom hHashed hUnused hRun
      exact ⟨hSound, makes_unanswered hWorked rfl⟩
  | crashed hHashed hRun =>
      obtain ⟨hSound, hWorked⟩ := h.crashed hHashed hRun
      exact ⟨hSound, makes_unanswered hWorked rfl⟩
  | unmounted mount world => exact ⟨h.unmounted, rfl⟩
  | mounted hFresh hRun =>
      exact ⟨h.remounted hFresh hRun, congrArg contents (h.opened hRun).2⟩
  | notMounted hRun => exact ⟨(h.opened hRun).1, congrArg contents (h.opened hRun).2⟩

theorem sound_new (store : MemoryStorage) : Sound Hashed ⟨none, ⟨store, []⟩⟩ where
  stored := ⟨List.forall_mem_nil _, Nat.zero_le 1⟩
  valid := List.forall_mem_nil _
  overlaid := overlaid_nil _
  mounted mount h := by cases h

/-- What the steps of a run make of the files. -/
theorem Sound.durable {session session' : Session MemoryStorage} {events : List FileEvent}
    (hApart : Apart Hashed) (h : Sound Hashed session)
    (run : Trace (FileStep Lossy Hashed) session events session') :
    ∃ changes, TookPlace (events.map FileEvent.attempt) changes ∧
      contents (settled session'.world) =
        changes.foldl (fun files change => change files) (contents (settled session.world)) := by
  have hStep : ∀ ⦃s event t⦄, Sound Hashed s → FileStep Lossy Hashed s event t →
      Sound Hashed t ∧ event.attempt.Makes (contents (settled s.world))
        (contents (settled t.world)) :=
    fun _ _ _ h hOne => h.step hApart hOne
  have hEnd := run.durable hStep h
  exact hEnd

/-- In every session on a storage that does what it acknowledges and nothing else, an
operation that fails has changed neither the storage nor the queue file, whichever of its
calls was refused, provided a failed write of the queue file leaves the file as it was. -/
theorem failed_changes_nothing {store : MemoryStorage} {session : Session MemoryStorage}
    {errno : Errno} (hReaches : Relation.ReflTransGen
      (Session.Step (Atomic (flaky fun _ => False))) ⟨none, ⟨store, []⟩⟩ session)
    (hMount : session.mount = some mount)
    (hRun : Run (Atomic (flaky fun _ => False)) Alone (operation.code.run.run mount) session.world
      (some (.error errno, mount')) world') : world' = session.world := by
  have hGuarded := ((Session.kept_of_reaches hReaches).mounted mount hMount).1
  have hSpared : Spared (fun _ => False) (Used session.world) session.world mount operation mount'
      world' := outcome_operation hGuarded operation (Untouched.refl session.world mount) hRun
  rcases hSpared with ⟨hSame, -⟩ | ⟨call, hLossy, -⟩
  · exact hSame
  · exact hLossy.elim

end Steps

end Events

/-! ## A write that the storage refuses -/

section Example

attribute [local instance] literalSerde plainRendering

/-- A storage that refuses every put. -/
def putsRefused : Handler storage MemoryStorage := fun state call =>
  if call.effectId.isSome then (.error (.io (.other "no responders".toList)), state)
  else MemoryStorage.handle state call

theorem flaky_putsRefused (state : MemoryStorage) (call : StorageCall) :
    flaky (fun _ => False) state call (putsRefused state call).1 (putsRefused state call).2 := by
  unfold putsRefused
  split
  · exact Faulty.refused (I := storage) state call ⟨_, rfl⟩
  · exact Faulty.done (I := storage) state call

/-- What the key of the truncation is made from. -/
def truncation : KeyMaterial := ⟨sourcePath.asStr, [], "events:1:1".toList⟩

/-- The mount that has opened, and its world. -/
theorem run_emptyMount : Run (Atomic (flaky fun _ => False)) Alone
    (openMount 8 "events".toList 1).run ⟨renameStore, []⟩ (some (.ok emptyMount))
      ⟨renameStore, []⟩ := by
  have hOpened : eval (World.handle putsRefused) (openMount 8 "events".toList 1).run
      ⟨renameStore, []⟩ = (.ok emptyMount, ⟨renameStore, []⟩) := rfl
  have hRun : Run (Atomic (flaky fun _ => False)) Alone (openMount 8 "events".toList 1).run
      ⟨renameStore, []⟩ _ _ := run_eval (atomic_handle flaky_putsRefused) _ _
  rwa [hOpened] at hRun

theorem unused_renameStore (key : Str) : ¬ Used ⟨renameStore, []⟩ key := by
  rintro (⟨id, hApplied, -⟩ | ⟨entry, hMem, -⟩)
  · cases id <;> simp [renameStore, MemoryStorage.applied, MemoryStorage.putKv,
      MemoryStorage.new] at hApplied
  · cases hMem

theorem apart_truncation : Apart fun material => material = truncation := by
  rintro material other rfl rfl -
  rfl

/-- A truncation that succeeds, on a storage that may refuse calls. -/
theorem trace_truncation {handler : Handler storage MemoryStorage} {mount : Mount}
    {world : World MemoryStorage}
    (hFlaky : ∀ state call, flaky (fun _ => False) state call (handler state call).1
      (handler state call).2)
    (hTruncated : eval (World.handle handler)
      ((Operation.truncatePath sourcePath).code.run.run emptyMount) ⟨renameStore, []⟩ =
        ((.ok (), mount), world)) :
    Trace (FileStep (fun _ => False) (fun material => material = truncation))
      ⟨none, ⟨renameStore, []⟩⟩
      [⟨.keep, .acknowledged⟩, ⟨.put (.kv ['b'] ['x']) [], .acknowledged⟩]
      ⟨some mount, world⟩ := by
  have hHashed (material : KeyMaterial)
      (hUses : (Operation.truncatePath sourcePath).Uses emptyMount renameStore material) :
      material = truncation := by
    cases hUses
    rfl
  have hChange : (Operation.truncatePath sourcePath).change emptyMount =
      .put (.kv ['b'] ['x']) [] := by decide
  have hMounted : FileStep (fun _ => False) (fun material => material = truncation)
      ⟨none, ⟨renameStore, []⟩⟩ ⟨.keep, .acknowledged⟩ ⟨some emptyMount, ⟨renameStore, []⟩⟩ :=
    .mounted (fun _ ⟨_, _, _, hUsed⟩ => unused_renameStore _ hUsed) run_emptyMount
  have hRun : Run (Atomic (flaky fun _ => False)) Alone
      ((Operation.truncatePath sourcePath).code.run.run emptyMount) ⟨renameStore, []⟩ _ _ :=
    run_eval (atomic_handle hFlaky) _ _
  rw [hTruncated] at hRun
  have hStep : FileStep (fun _ => False) (fun material => material = truncation)
      ⟨some emptyMount, ⟨renameStore, []⟩⟩ ⟨.put (.kv ['b'] ['x']) [], .acknowledged⟩
      ⟨some mount, world⟩ := by
    rw [← hChange]
    exact .succeeded (by decide) hHashed hRun
  exact (Trace.nil _).step hMounted |>.step hStep

/-- The queue file cannot be written either. -/
def writesRefused : Handler io (World MemoryStorage)
  | world, .persist _ => (.error (.io (.other "disk full".toList)), world)
  | world, c => World.handle putsRefused world c

theorem atomic_writesRefused (world : World MemoryStorage) (c : IoCall) :
    Atomic (flaky fun _ => False) world c (writesRefused world c).1 (writesRefused world c).2 := by
  cases c with
  | persist entries => exact .refused world entries _
  | store call => exact .store (flaky_putsRefused world.store call)
  | load => exact .loaded world

theorem refused_write_failed :
    (eval writesRefused ((Operation.truncatePath sourcePath).code.run.run emptyMount)
      ⟨renameStore, []⟩).2 = ⟨renameStore, []⟩ := by
  have hFailed : (eval writesRefused ((Operation.truncatePath sourcePath).code.run.run emptyMount)
      ⟨renameStore, []⟩).1 = (.error .io, _) := Prod.ext (by decide) rfl
  have hRun : Run (Atomic (flaky fun _ => False)) Alone
      ((Operation.truncatePath sourcePath).code.run.run emptyMount) ⟨renameStore, []⟩ _ _ :=
    run_eval atomic_writesRefused _ _
  rw [hFailed] at hRun
  exact failed_changes_nothing (.single (.remount run_emptyMount)) rfl hRun

end Example

end EventFs.Fuse

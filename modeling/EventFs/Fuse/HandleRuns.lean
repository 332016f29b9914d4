import EventFs.Fuse.HandleSteps
import EventFs.Fuse.PendingReads
import EventFs.Library.FileBytes

/-!
# The life of an open handle

A handle of a whole value is opened, written, truncated, flushed and committed in any
order, and what else the mount does in between leaves it alone. Beside the mount the run
keeps what positional writes make of the content the handle was opened with. While the
handle is dirty, it reads as this content, and a commit sends this content, or the
payload of a created file for an empty one. Between two commits that send something lies
a change, and they have different seeds.
-/

namespace EventFs.Fuse

open Library Protocol Transport Program

/-! ## Runs -/

/-- A mount with one of its handles under observation. -/
structure HandleRun where
  mount : Mount
  /-- What an empty file is committed as, where the handle was created. -/
  defaultPayload : Option Bytes
  content : Bytes
  unsent : Bool
  /-- The seeds of the commits that sent something and succeeded. -/
  commits : List Str
  /-- How many seeds the mount has issued. -/
  issued : Nat
  /-- No write of no bytes past the end has been accepted. -/
  covered : Bool

namespace HandleRun

variable {fh : Nat} {s : HandleRun} {handle : Handle} {mount mount' : Mount} {log : Log io}

def payload (s : HandleRun) : Bytes :=
  if s.content = [] then s.defaultPayload.getD [] else s.content

/-- The next change draws a new seed: it is the first one since a commit. -/
def redraws (s : HandleRun) : Bool := !s.unsent && !s.commits.isEmpty

def drawn (s : HandleRun) : Nat := if s.redraws then s.issued + 1 else s.issued

def opened (handle : Handle) (dirty : Bool) (issued : Nat) (mount : Mount) : HandleRun where
  mount := mount
  defaultPayload := handle.stagedCreate.map (·.defaultPayload)
  content := handle.buffer
  unsent := dirty
  commits := []
  issued := issued + 1
  covered := true

def refuse (s : HandleRun) (mount : Mount) : HandleRun := { s with mount, issued := s.drawn }

def write (s : HandleRun) (offset : Int) (data : Bytes) (result : Except Errno Nat)
    (mount : Mount) : HandleRun :=
  if offset < 0 then { s with mount }
  else match result with
    | .error _ => s.refuse mount
    | .ok _ =>
        { s with
          mount
          content := pwrite s.content offset.toNat data
          unsent := true
          issued := s.drawn
          covered := s.covered && (data ≠ [] || offset.toNat ≤ s.content.length) }

def truncate (s : HandleRun) (result : Except Errno Unit) (mount : Mount) : HandleRun :=
  match result with
  | .error _ => s.refuse mount
  | .ok () => { s with mount, content := [], unsent := true, issued := s.drawn }

def commit (s : HandleRun) (seed : Str) (result : Except Errno Unit) (mount : Mount) :
    HandleRun :=
  match result with
  | .error _ => { s with mount }
  | .ok () =>
      if s.unsent then
        { s with
          mount
          content := s.payload
          unsent := false
          commits := s.commits ++ [seed] }
      else { s with mount }

section Reaches

variable [Serde] [Rendering]

/-- The runs from the opening of a handle, with any replies of the backend and of the
queue file. Offsets and lengths are those that an `i64` and a slice can have. -/
inductive Reaches (fh : Nat) : HandleRun → Prop
  | opened {path : MountPath} {writable truncate create : Bool} {mount mount' : Mount}
      {log : Log io} {handle : Handle} {issued : Nat}
      (hCounter : mount.nextCommitId = min (issued + 1) u64Max)
      (hOpen : Logs (openHandle path writable truncate create).run mount log (.ok fh) mount')
      (hHandle : mount'.handles[fh]? = some handle) (hMode : handle.mode = .wholeValue) :
      Reaches fh (opened handle (writable && (truncate || create)) issued mount')
  | write {s : HandleRun} {offset : Int} {data : Bytes} {log : Log io}
      {result : Except Errno Nat} {mount' : Mount} (hReaches : Reaches fh s)
      (hOffset : offset < 2 ^ 63) (hData : data.length < 2 ^ 63)
      (hWrite : Logs (writeToHandleBuffer fh offset data).run s.mount log result mount') :
      Reaches fh (s.write offset data result mount')
  | truncate {s : HandleRun} {log : Log io} {result : Except Errno Unit} {mount' : Mount}
      (hReaches : Reaches fh s)
      (hTruncate : Logs (stageTruncate fh).run s.mount log result mount') :
      Reaches fh (s.truncate result mount')
  | flush {s : HandleRun} {log : Log io} {result : Except Errno Unit} {mount' : Mount}
      (hReaches : Reaches fh s) (hFlush : Logs (flushHandle fh).run s.mount log result mount') :
      Reaches fh { s with mount := mount' }
  | commit {s : HandleRun} {handle : Handle} {log : Log io} {result : Except Errno Unit}
      {mount' : Mount} (hReaches : Reaches fh s) (hHandle : s.mount.handles[fh]? = some handle)
      (hCommit : Logs (commitHandle fh).run s.mount log result mount') :
      Reaches fh (s.commit handle.commitSeed result mount')
  /-- The mount does something else: it may issue seeds, and it leaves the handle alone. -/
  | other {s : HandleRun} {mount' : Mount} {issued' : Nat} (hReaches : Reaches fh s)
      (hHandle : mount'.handles[fh]? = s.mount.handles[fh]?)
      (hName : mount'.mountName = s.mount.mountName)
      (hInstance : mount'.mountInstance = s.mount.mountInstance)
      (hIssued : s.issued ≤ issued') (hCounter : mount'.nextCommitId = min (issued' + 1) u64Max) :
      Reaches fh { s with mount := mount', issued := issued' }

end Reaches

/-! ## Seeds -/

/-- The seeds of the commits are numbered upwards, and the seed of the handle has a number
that is not smaller; while the handle waits to be committed, it is larger. -/
def Seeds (s : HandleRun) (seed : Str) : Prop :=
  ∃ (id : Nat) (ids : List Nat), seed = s.mount.seedText id ∧ id ≤ s.issued ∧
    s.commits = ids.map s.mount.seedText ∧ ids.Pairwise (· < ·) ∧ (∀ earlier ∈ ids, earlier ≤ id) ∧
    (s.unsent = true → ∀ earlier ∈ ids, earlier < id)

theorem Seeds.nodup {seed : Str} (h : s.Seeds seed) : s.commits.Nodup := by
  obtain ⟨_, ids, -, -, hCommits, hSorted, -, -⟩ := h
  rw [hCommits]
  exact (hSorted.imp fun hLt => Nat.ne_of_lt hLt).map _ fun _ _ hne hEq =>
    hne (seedText_injective hEq)

theorem seedText_congr (hName : mount'.mountName = mount.mountName)
    (hInstance : mount'.mountInstance = mount.mountInstance) :
    mount'.seedText = mount.seedText := by
  funext id
  rw [Mount.seedText, Mount.seedText, hName, hInstance]

/-- What a change does to the seeds: the first one since a commit draws a new seed. -/
theorem Seeds.change {s' : HandleRun} {seed : Str} (h : s.Seeds seed)
    (hText : s'.mount.seedText = s.mount.seedText) (hCommits : s'.commits = s.commits)
    (hIssued : s'.issued = s.drawn) :
    s'.Seeds (if s.redraws then s.mount.seedText (s.issued + 1) else seed) := by
  obtain ⟨id, ids, rfl, hId, hIds, hSorted, hNotAbove, hBelow⟩ := h
  rw [Seeds, hText, hCommits, hIssued]
  cases hRedraws : s.redraws with
  | true =>
      have hDrawn : s.drawn = s.issued + 1 := if_pos hRedraws
      have hNew : ∀ earlier ∈ ids, earlier < s.issued + 1 := fun earlier hMem =>
        Nat.lt_succ_of_le ((hNotAbove earlier hMem).trans hId)
      exact ⟨s.issued + 1, ids, rfl, hDrawn.ge, hIds, hSorted,
        fun earlier hMem => (hNew earlier hMem).le, fun _ => hNew⟩
  | false =>
      have hDrawn : s.drawn = s.issued := if_neg (by simp [hRedraws])
      refine ⟨id, ids, rfl, hId.trans hDrawn.ge, hIds, hSorted, hNotAbove, fun _ => ?_⟩
      cases hUnsent : s.unsent with
      | true => exact hBelow hUnsent
      | false =>
          have hNone : s.commits = [] := by
            simpa [redraws, hUnsent] using hRedraws
          obtain rfl : ids = [] := List.map_eq_nil_iff.mp (hIds.symm.trans hNone)
          exact List.forall_mem_nil _

/-- A step that issues seeds but does not touch the handle. -/
theorem Seeds.issue {s' : HandleRun} {seed : Str} (h : s.Seeds seed)
    (hText : s'.mount.seedText = s.mount.seedText) (hCommits : s'.commits = s.commits)
    (hUnsent : s'.unsent = s.unsent) (hIssued : s.issued ≤ s'.issued) : s'.Seeds seed := by
  obtain ⟨id, ids, hSeed, hId, hIds⟩ := h
  rw [Seeds, hText, hCommits, hUnsent]
  exact ⟨id, ids, hSeed, hId.trans hIssued, hIds⟩

theorem Seeds.commit {seed : Str} {s' : HandleRun} (h : s.Seeds seed) (hUnsent : s.unsent = true)
    (hText : s'.mount.seedText = s.mount.seedText) (hCommits : s'.commits = s.commits ++ [seed])
    (hSent : s'.unsent = false) (hIssued : s'.issued = s.issued) : s'.Seeds seed := by
  obtain ⟨id, ids, rfl, hId, hIds, hSorted, hNotAbove, hBelow⟩ := h
  rw [Seeds, hText, hCommits, hSent, hIssued]
  refine ⟨id, ids ++ [id], rfl, hId, ?_, ?_, ?_, nofun⟩
  · rw [hIds, List.map_append, List.map_singleton]
  · refine List.pairwise_append.mpr ⟨hSorted, List.pairwise_singleton _ _, ?_⟩
    intro earlier hMem last hLast
    obtain rfl := List.mem_singleton.mp hLast
    exact hBelow hUnsent earlier hMem
  · intro earlier hMem
    rcases List.mem_append.mp hMem with hIn | hLast
    · exact hNotAbove earlier hIn
    · exact (List.mem_singleton.mp hLast).le

theorem issued_le_drawn (s : HandleRun) : s.issued ≤ s.drawn := by
  rw [drawn]
  split
  · exact Nat.le_succ _
  · exact le_refl _

/-! ## What a run keeps -/

/-- The handle of a run, and what the run knows of it. -/
structure Tracks (fh : Nat) (s : HandleRun) (handle : Handle) : Prop where
  held : s.mount.handles[fh]? = some handle
  mode : handle.mode = .wholeValue
  dirty : handle.dirty = s.unsent
  committed : handle.committed = s.redraws
  writable : s.unsent = true ∨ s.commits ≠ [] → handle.writable = true
  parsed : handle.writable = true → ∃ parsed, parsePath handle.path = .ok parsed
  defaultPayload : handle.stagedCreate.map (·.defaultPayload) = s.defaultPayload
  buffer : s.covered = true → handle.buffer = s.content
  counter : s.mount.nextCommitId = min (s.issued + 1) u64Max
  seeds : s.issued < u64Max → s.Seeds handle.commitSeed

theorem Tracks.writable_of_committed (h : Tracks fh s handle)
    (hCommitted : handle.committed = true) : handle.writable = true := by
  have hRedraws := h.committed.symm.trans hCommitted
  rw [redraws, Bool.and_eq_true] at hRedraws
  exact h.writable (Or.inr (by simpa using hRedraws.2))

theorem Tracks.uncommitted (h : Tracks fh s handle) (hDirty : handle.dirty = true) :
    handle.committed = false := by
  rw [h.committed, redraws, ← h.dirty, hDirty]
  rfl

/-- A handle is committed as the payload of the run. -/
theorem Tracks.handleCommitBytes (h : Tracks fh s handle) (hCovered : s.covered = true) :
    handleCommitBytes handle = s.payload := by
  rw [payload, ← h.defaultPayload, ← h.buffer hCovered]
  obtain ⟨path, buffer, dirty, committed, writable, seed, mode, offset, created⟩ := handle
  obtain rfl : mode = .wholeValue := h.mode
  cases created <;> cases buffer <;> rfl

/-- The next seed after a step that drew one, or did not. -/
theorem Tracks.counter_draw (h : Tracks fh s handle) :
    (s.mount.draw handle.committed).nextCommitId = min (s.drawn + 1) u64Max := by
  rw [h.committed, drawn, Mount.draw]
  cases s.redraws with
  | true =>
      simp only [if_true, h.counter]
      omega
  | false =>
      simp only [Bool.false_eq_true, if_false, h.counter]

/-- The seed under which a change of the handle will be committed. -/
theorem Tracks.refreshed_seed (h : Tracks fh s handle) (hIssued : s.drawn < u64Max) :
    (handle.refreshed s.mount).commitSeed =
      if s.redraws then s.mount.seedText (s.issued + 1) else handle.commitSeed := by
  have hDrawn := (issued_le_drawn s).trans_lt hIssued
  have hNext : s.mount.nextCommitId = s.issued + 1 := by
    rw [h.counter]
    omega
  rw [Handle.refreshed, h.committed, hNext]

theorem Tracks.refuse (h : Tracks fh s handle)
    (hHolds : Holds fh s.mount mount' handle.committed handle) :
    Tracks fh (s.refuse mount') handle where
  held := hHolds.handle
  mode := h.mode
  dirty := h.dirty
  committed := h.committed
  writable := h.writable
  parsed := h.parsed
  defaultPayload := h.defaultPayload
  buffer := h.buffer
  counter := hHolds.nextCommitId.trans h.counter_draw
  seeds hIssued := (h.seeds ((issued_le_drawn s).trans_lt hIssued)).issue
    (seedText_congr hHolds.mountName hHolds.mountInstance) rfl rfl (issued_le_drawn s)

/-- A step that stages a content. -/
theorem Tracks.stage {changed : Handle} {content : Bytes} {covered : Bool}
    (h : Tracks fh s handle) (hWritable : handle.writable = true)
    (hHolds : Holds fh s.mount mount' handle.committed changed)
    (hChanged : changed =
      { handle.refreshed s.mount with
        buffer := changed.buffer, baseOffset := changed.baseOffset
        dirty := true, committed := false })
    (hBuffer : covered = true → changed.buffer = content) :
    Tracks fh { s with mount := mount', content, unsent := true, issued := s.drawn, covered }
      changed where
  held := hHolds.handle
  mode := by rw [hChanged]; exact h.mode
  dirty := by rw [hChanged]
  committed := by rw [hChanged]; rfl
  writable _ := by rw [hChanged]; exact hWritable
  parsed hWrites := by rw [hChanged]; exact h.parsed hWritable
  defaultPayload := by rw [hChanged]; exact h.defaultPayload
  buffer := hBuffer
  counter := hHolds.nextCommitId.trans h.counter_draw
  seeds hIssued := by
    have hSeed : changed.commitSeed = (handle.refreshed s.mount).commitSeed := by rw [hChanged]
    rw [hSeed, h.refreshed_seed hIssued]
    exact (h.seeds ((issued_le_drawn s).trans_lt hIssued)).change
      (seedText_congr hHolds.mountName hHolds.mountInstance) rfl rfl

theorem Tracks.write {offset : Int} {data : Bytes} {result : Except Errno Nat}
    (h : Tracks fh s handle) (hOffset : offset < 2 ^ 63) (hData : data.length < 2 ^ 63)
    (hWrite : Logs (writeToHandleBuffer fh offset data).run s.mount log result mount') :
    ∃ handle', Tracks fh (s.write offset data result mount') handle' := by
  obtain ⟨-, ⟨hNegative, -, rfl⟩ | ⟨hPositive, hStaged⟩⟩ :=
    hWrite.of_writeToHandleBuffer h.held h.mode h.writable_of_committed hOffset hData
  · rw [HandleRun.write.eq_def, if_pos hNegative]
    exact ⟨handle, h⟩
  · rw [HandleRun.write.eq_def, if_neg (Int.not_lt.mpr hPositive)]
    rcases hStaged with ⟨⟨errno, rfl⟩, hHolds⟩ | ⟨rfl, hWritable, hHolds⟩
    · exact ⟨handle, h.refuse hHolds⟩
    · refine ⟨_, h.stage hWritable hHolds rfl ?_⟩
      rw [Bool.and_eq_true]
      rintro ⟨hCovered, hPlain⟩
      rw [← h.buffer hCovered] at hPlain ⊢
      exact splice_zeroPadded (by simpa using hPlain)

theorem Tracks.truncate {result : Except Errno Unit} (h : Tracks fh s handle)
    (hTruncate : Logs (stageTruncate fh).run s.mount log result mount') :
    ∃ handle', Tracks fh (s.truncate result mount') handle' := by
  obtain ⟨-, ⟨⟨errno, rfl⟩, hHolds⟩ | ⟨rfl, hWritable, hHolds⟩⟩ :=
    hTruncate.of_stageTruncate h.held h.mode h.writable_of_committed
  · exact ⟨handle, h.refuse hHolds⟩
  · exact ⟨_, h.stage hWritable hHolds rfl fun _ => rfl⟩

/-- A step that keeps the handle, and at which other seeds may be issued. -/
theorem Tracks.other {issued' : Nat} (h : Tracks fh s handle)
    (hHandle : mount'.handles[fh]? = s.mount.handles[fh]?)
    (hName : mount'.mountName = s.mount.mountName)
    (hInstance : mount'.mountInstance = s.mount.mountInstance)
    (hIssued : s.issued ≤ issued') (hCounter : mount'.nextCommitId = min (issued' + 1) u64Max) :
    Tracks fh { s with mount := mount', issued := issued' } handle where
  held := hHandle.trans h.held
  mode := h.mode
  dirty := h.dirty
  committed := h.committed
  writable := h.writable
  parsed := h.parsed
  defaultPayload := h.defaultPayload
  buffer := h.buffer
  counter := hCounter
  seeds hFew := (h.seeds (hIssued.trans_lt hFew)).issue (seedText_congr hName hInstance) rfl rfl
    hIssued

section Steps

variable [Serde] [Rendering]

theorem Tracks.commit {result : Except Errno Unit} (h : Tracks fh s handle)
    (hCommit : Logs (commitHandle fh).run s.mount log result mount') :
    ∃ handle', Tracks fh (s.commit handle.commitSeed result mount') handle' := by
  cases hDirty : handle.dirty with
  | false =>
      obtain ⟨-, rfl, rfl⟩ := hCommit.of_commitHandle_clean h.held hDirty
      have hSent : ¬ s.unsent = true := by simp [← h.dirty, hDirty]
      rw [HandleRun.commit, if_neg hSent]
      exact ⟨handle, h⟩
  | true =>
      have hUnsent : s.unsent = true := h.dirty.symm.trans hDirty
      obtain ⟨-, -, ⟨⟨errno, rfl⟩, hHolds⟩ | ⟨rfl, hWritable, hHolds⟩⟩ :=
        hCommit.of_commitHandle_dirty h.held h.mode (h.writable (Or.inl hUnsent)) hDirty
          (h.uncommitted hDirty)
      · exact ⟨handle, h.other (hHolds.handle.trans h.held.symm) hHolds.mountName
          hHolds.mountInstance (le_refl _) (hHolds.nextCommitId.trans h.counter)⟩
      · rw [HandleRun.commit, if_pos hUnsent]
        exact ⟨_, {
          held := hHolds.handle
          mode := h.mode
          dirty := rfl
          committed := by simp [redraws, Handle.afterCommit]
          writable := fun _ => hWritable
          parsed := h.parsed
          defaultPayload := h.defaultPayload
          buffer := fun hCovered => h.handleCommitBytes hCovered
          counter := hHolds.nextCommitId.trans h.counter
          seeds := fun hFew => (h.seeds hFew).commit hUnsent
            (seedText_congr hHolds.mountName hHolds.mountInstance) rfl rfl rfl }⟩

/-- A handle just opened. Its seed is the only one that its run knows of. -/
theorem Tracks.opened {path : MountPath} {writable truncate create : Bool} {issued : Nat}
    (hCounter : mount.nextCommitId = min (issued + 1) u64Max)
    (hOpen : Logs (openHandle path writable truncate create).run mount log (.ok fh) mount')
    (hHandle : mount'.handles[fh]? = some handle) (hMode : handle.mode = .wholeValue) :
    Tracks fh (opened handle (writable && (truncate || create)) issued mount') handle := by
  obtain ⟨hHolds, ⟨numbered, between, hBuilt, hSame⟩, hParsed⟩ :=
    hOpen.of_openHandle hHandle hMode
  exact {
    held := hHandle
    mode := hMode
    dirty := hBuilt.dirty
    committed := by
      rw [hBuilt.committed]
      simp [redraws, HandleRun.opened]
    writable := by
      rintro (hDirty | hNone)
      · exact hBuilt.sameWritable.trans ((Bool.and_eq_true _ _).mp hDirty).1
      · exact absurd rfl hNone
    parsed := by rwa [hBuilt.sameWritable, hBuilt.samePath]
    defaultPayload := rfl
    buffer := fun _ => rfl
    counter := by
      have hDrawn : min (mount.nextCommitId + 1) u64Max = min (issued + 1 + 1) u64Max := by omega
      exact hHolds.nextCommitId.trans hDrawn
    seeds := by
      intro hFew
      have hNext : mount.nextCommitId = issued + 1 := by
        have hRoom : issued + 1 < u64Max := hFew
        omega
      have hText : mount'.seedText = numbered.seedText :=
        (seedText_congr hHolds.mountName hHolds.mountInstance).trans
          (seedText_congr hSame.mountName hSame.mountInstance).symm
      refine ⟨issued + 1, [], ?_, le_refl _, rfl, .nil, List.forall_mem_nil _,
        fun _ => List.forall_mem_nil _⟩
      show handle.commitSeed = mount'.seedText (issued + 1)
      rw [hBuilt.seed, hText, hSame.nextCommitId, hNext] }

/-- Every run knows its handle. -/
theorem Reaches.tracks (h : Reaches fh s) : ∃ handle, Tracks fh s handle := by
  induction h with
  | opened hCounter hOpen hHandle hMode => exact ⟨_, .opened hCounter hOpen hHandle hMode⟩
  | write _ hOffset hData hWrite ih =>
      obtain ⟨handle, hTracks⟩ := ih
      exact hTracks.write hOffset hData hWrite
  | truncate _ hTruncate ih =>
      obtain ⟨handle, hTracks⟩ := ih
      exact hTracks.truncate hTruncate
  | flush _ hFlush ih =>
      obtain ⟨handle, hTracks⟩ := ih
      obtain ⟨-, -, rfl⟩ := hFlush.of_flushHandle hTracks.held
      exact ⟨handle, hTracks⟩
  | commit _ hHandle hCommit ih =>
      obtain ⟨handle, hTracks⟩ := ih
      obtain rfl := Option.some.inj (hTracks.held.symm.trans hHandle)
      exact hTracks.commit hCommit
  | other _ hHandle hName hInstance hIssued hCounter ih =>
      obtain ⟨handle, hTracks⟩ := ih
      exact ⟨handle, hTracks.other hHandle hName hInstance hIssued hCounter⟩

end Steps

/-! ## What holds along a run -/

/-- What the code does whenever it fails: the handle stays as it is. -/
def KeepsOnError {α : Type} (p : Runtime α) (mount : Mount) (fh : Nat) (handle : Handle) : Prop :=
  ∀ {log errno mount'}, Logs p.run mount log (.error errno) mount' →
    mount'.handles[fh]? = some handle

section Sound

variable [Serde] [Rendering]

/-- The next operation on the handle does what the run says. -/
structure Sound (fh : Nat) (s : HandleRun) (handle : Handle) : Prop where
  dirty : handle.dirty = s.unsent
  reads : handle.dirty = true → ∀ {log result mount'},
    Logs (readBytesForHandle fh handle.path).run s.mount log result mount' ↔
      log = [] ∧ result = .ok s.content ∧ mount' = s.mount
  sends : handle.dirty = true → ∀ {log result mount'},
    Logs (commitHandle fh).run s.mount log result mount' →
      let key := Rendering.idempotencyKey handle.path.asStr s.payload handle.commitSeed
      Sends s.mount.replay.queue.entries s.payload key log ∧
        (result = .ok () → Arrives s.mount.replay.queue.entries s.payload key log ∧
          ∃ sent, mount'.handles[fh]? = some sent ∧ sent.buffer = s.payload ∧ sent.dirty = false)
  silent : handle.dirty = false → ∀ {log result mount'},
    Logs (commitHandle fh).run s.mount log result mount' ↔
      log = [] ∧ result = .ok () ∧ mount' = s.mount
  seeds : s.issued < u64Max → s.commits.Nodup
  failedWrite : ∀ {offset : Int} {data : Bytes}, offset < 2 ^ 63 → data.length < 2 ^ 63 →
    KeepsOnError (writeToHandleBuffer fh offset data) s.mount fh handle
  failedTruncate : KeepsOnError (stageTruncate fh) s.mount fh handle
  failedCommit : KeepsOnError (commitHandle fh) s.mount fh handle

theorem Tracks.sends (h : Tracks fh s handle) (hCovered : s.covered = true)
    (hDirty : handle.dirty = true) {result : Except Errno Unit}
    (hCommit : Logs (commitHandle fh).run s.mount log result mount') :
    let key := Rendering.idempotencyKey handle.path.asStr s.payload handle.commitSeed
    Sends s.mount.replay.queue.entries s.payload key log ∧
      (result = .ok () → Arrives s.mount.replay.queue.entries s.payload key log ∧
        ∃ sent, mount'.handles[fh]? = some sent ∧ sent.buffer = s.payload ∧
          sent.dirty = false) := by
  have hWritable := h.writable (Or.inl (h.dirty.symm.trans hDirty))
  obtain ⟨hSends, hArrives, hStaged⟩ :=
    hCommit.of_commitHandle_dirty h.held h.mode hWritable hDirty (h.uncommitted hDirty)
  rw [h.handleCommitBytes hCovered] at hSends hArrives hStaged
  refine ⟨hSends, fun hOk => ⟨hArrives hOk, ?_⟩⟩
  rcases hStaged with ⟨⟨errno, hError⟩, -⟩ | ⟨-, -, hHolds⟩
  · cases hOk.symm.trans hError
  · exact ⟨_, hHolds.handle, rfl, rfl⟩

omit [Serde] [Rendering] in
theorem Tracks.failedWrite (h : Tracks fh s handle) {offset : Int} {data : Bytes}
    (hOffset : offset < 2 ^ 63) (hData : data.length < 2 ^ 63) :
    KeepsOnError (writeToHandleBuffer fh offset data) s.mount fh handle := by
  intro log errno mount' hWrite
  obtain ⟨-, ⟨-, -, rfl⟩ | ⟨-, ⟨-, hHolds⟩ | ⟨hOk, -⟩⟩⟩ :=
    hWrite.of_writeToHandleBuffer h.held h.mode h.writable_of_committed hOffset hData
  · exact h.held
  · exact hHolds.handle
  · cases hOk

omit [Serde] [Rendering] in
theorem Tracks.failedTruncate (h : Tracks fh s handle) :
    KeepsOnError (stageTruncate fh) s.mount fh handle := by
  intro log errno mount' hTruncate
  obtain ⟨-, ⟨-, hHolds⟩ | ⟨hOk, -⟩⟩ :=
    hTruncate.of_stageTruncate h.held h.mode h.writable_of_committed
  · exact hHolds.handle
  · cases hOk

theorem Tracks.failedCommit (h : Tracks fh s handle) :
    KeepsOnError (commitHandle fh) s.mount fh handle := by
  intro log errno mount' hCommit
  cases hDirty : handle.dirty with
  | false =>
      obtain ⟨-, hOk, -⟩ := hCommit.of_commitHandle_clean h.held hDirty
      cases hOk
  | true =>
      have hWritable := h.writable (Or.inl (h.dirty.symm.trans hDirty))
      obtain ⟨-, -, ⟨-, hHolds⟩ | ⟨hOk, -⟩⟩ :=
        hCommit.of_commitHandle_dirty h.held h.mode hWritable hDirty (h.uncommitted hDirty)
      · exact hHolds.handle
      · cases hOk

/-- As long as no write of no bytes past the end is accepted, the handle reads and commits
what positional writes make of its content. -/
theorem sound_of_covered (hReaches : Reaches fh s) (hCovered : s.covered = true) :
    ∃ handle, s.mount.handles[fh]? = some handle ∧ Sound fh s handle := by
  obtain ⟨handle, h⟩ := hReaches.tracks
  refine ⟨handle, h.held, {
    dirty := h.dirty
    reads := fun hDirty => Logs.iff_of_forall fun hRead => ?_
    sends := fun hDirty => h.sends hCovered hDirty
    silent := fun hClean => Logs.iff_of_forall (·.of_commitHandle_clean h.held hClean)
    seeds := fun hFew => (h.seeds hFew).nodup
    failedWrite := h.failedWrite
    failedTruncate := h.failedTruncate
    failedCommit := h.failedCommit }⟩
  have hWritable := h.writable (Or.inl (h.dirty.symm.trans hDirty))
  obtain ⟨parsed, hParsed⟩ := h.parsed hWritable
  rw [← h.buffer hCovered]
  exact hRead.of_readBytesForHandle h.held h.mode hDirty hParsed

end Sound

/-! A file opened with truncation: a write after a gap, and one of no bytes. -/

section Example

attribute [local instance] literalSerde plainRendering

def writtenHandle (buffer : Bytes) : Handle where
  path := sourcePath
  buffer := buffer
  dirty := true
  committed := false
  writable := true
  commitSeed := "events:1:1".toList
  mode := .wholeValue
  baseOffset := 0
  stagedCreate := none

def newMount : Mount := Mount.new ⟨8, []⟩ "events".toList 1

/-- The mount in which only this file is open. -/
def openedMount : Mount :=
  { newMount with nextFh := 3, nextCommitId := 2 }.store 2 (writtenHandle [])

def openedRun : HandleRun :=
  opened (writtenHandle []) (true && (true || false)) 0 openedMount

theorem reaches_openedRun : Reaches 2 openedRun := by
  have hOpen : Logs (openHandle sourcePath true true false).run newMount [] (.ok 2)
      openedMount := Logs.of_run rfl
  exact .opened rfl hOpen rfl rfl

/-- The mount after a write. -/
def writtenMount (buffer : Bytes) : Mount :=
  (openedMount.store 2 (writtenHandle [])).store 2 (writtenHandle buffer)

theorem gap_reads_as_zero :
    ∃ handle, (writtenMount [0, 7]).handles[2]? = some handle ∧
      Logs (readBytesForHandle 2 handle.path).run (writtenMount [0, 7]) [] (.ok [0, 7])
        (writtenMount [0, 7]) := by
  have hWrite : Logs (writeToHandleBuffer 2 1 [7]).run openedMount [] (.ok 1)
      (writtenMount [0, 7]) := Logs.of_run rfl
  obtain ⟨handle, hHandle, hSound⟩ :=
    sound_of_covered (reaches_openedRun.write (by decide) (by decide) hWrite) rfl
  exact ⟨handle, hHandle, (hSound.reads hSound.dirty).mpr ⟨rfl, rfl, rfl⟩⟩

/-- A write of no bytes at 4 is accepted, and four zeros are read. -/
theorem empty_write_is_read :
    Reaches 2 (openedRun.write 4 [] (.ok 0) (writtenMount [0, 0, 0, 0])) ∧
      (openedRun.write 4 [] (.ok 0) (writtenMount [0, 0, 0, 0])).content = [] ∧
      Logs (readBytesForHandle 2 sourcePath).run (writtenMount [0, 0, 0, 0]) [] (.ok [0, 0, 0, 0])
        (writtenMount [0, 0, 0, 0]) :=
  ⟨reaches_openedRun.write (by decide) (by decide) (Logs.of_run rfl), rfl, Logs.of_run rfl⟩

end Example

end HandleRun

end EventFs.Fuse

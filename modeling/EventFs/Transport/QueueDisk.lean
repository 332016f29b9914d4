import EventFs.Transport.QueueRecords

/-!
# Writing the queue file

`persist` of the queue's calls is six steps on the disk: the temporary file is opened,
written and synced, it is renamed over the queue file, and the directory is opened and
synced. Any of them may fail, and the machine may stop between any two of them.
-/

namespace EventFs.Transport

open Library Program

/-! ## The disk -/

/-- A file that has not been synced may hold anything after a power cut. -/
structure FileState where
  bytes : Bytes
  synced : Bool
deriving DecidableEq, Repr

/-- `queueFile` and `tmpFile` are what the running system sees under the two names;
`settled` is what the name of the queue file stood for when the directory was last synced. -/
structure Disk where
  queueFile : Option FileState
  tmpFile : Option FileState
  settled : Option Bytes
deriving DecidableEq, Repr

inductive DiskCall
  | openTmp
  | writeAll (bytes : Bytes)
  | syncAll
  | rename
  | openDir
  | syncDir
deriving DecidableEq, Repr

def disk : Interface where
  Call := DiskCall
  Reply _ := TransportResult Unit

def Disk.act (d : Disk) : DiskCall → Disk
  | .openTmp => { d with tmpFile := some ⟨[], false⟩ }
  | .writeAll bytes => { d with tmpFile := d.tmpFile.map fun file => ⟨file.bytes ++ bytes, false⟩ }
  | .syncAll => { d with tmpFile := d.tmpFile.map fun file => { file with synced := true } }
  | .rename => { d with queueFile := d.tmpFile, tmpFile := none }
  | .openDir => d
  | .syncDir => { d with settled := d.queueFile.map FileState.bytes }

/-- The step that fails. A write may fail after some of its bytes. -/
inductive DiskFault
  | openTmp
  | writeAll (written : Nat)
  | syncAll
  | rename
  | openDir
  | syncDir
deriving DecidableEq, Repr

/-- What is left on the disk by a call that fails, if it is the one that fails. -/
def DiskFault.strikes (fault : DiskFault) (d : Disk) (call : DiskCall) : Option Disk :=
  match fault, call with
  | .writeAll written, .writeAll bytes => some (d.act (.writeAll (bytes.take written)))
  | .openTmp, .openTmp | .syncAll, .syncAll | .rename, .rename | .openDir, .openDir
  | .syncDir, .syncDir => some d
  | _, _ => none

def faultyDisk (fault : Option DiskFault) : Handler disk Disk := fun d call =>
  match fault.bind fun fault => fault.strikes d call with
  | some left => (.error (.io (.other "disk".toList)), left)
  | none => (.ok (), d.act call)

/-! ## The steps of the source -/

namespace QueueFile

variable [QueueSerde]

abbrev DiskM := ExceptT TransportError (Program disk)

omit [QueueSerde] in
def onDisk (call : DiskCall) : DiskM Unit := ExceptT.mk (Program.perform (I := disk) call)

omit [QueueSerde] in
def fsyncDir : DiskM Unit := do
  onDisk .openDir
  onDisk .syncDir

def persistEntries (entries : List QueueEntry) : DiskM Unit := do
  onDisk .openTmp
  onDisk (.writeAll (Text.asBytes (content entries)))
  onDisk .syncAll
  onDisk .rename
  fsyncDir

def replaceEntries (queue : WritebackQueue) (entries : List QueueEntry) :
    Program disk (WritebackQueue × TransportResult Unit) := do
  match ← (persistEntries entries).run with
  | .error err => return (queue, .error err)
  | .ok () => return ({ queue with entries }, .ok ())

def enqueueAll (queue : WritebackQueue) (entries : List QueueEntry) :
    Program disk (WritebackQueue × TransportResult Unit) := do
  let pending := WritebackQueue.admitted queue.entries [] entries
  if pending.isEmpty then
    return (queue, .ok ())
  if queue.capacity < queue.entries.length + pending.length then
    return (queue, .error .queueFull)
  replaceEntries queue (queue.entries ++ pending)

/-- The ways in which the queue is rewritten: new entries, and the steps of a replay,
each of which replaces the entries by others. -/
inductive QueueStep
  | enqueue (entry : QueueEntry)
  | enqueueAll (entries : List QueueEntry)
  | replay (entries : List QueueEntry)

def QueueStep.program (queue : WritebackQueue) :
    QueueStep → Program disk (WritebackQueue × TransportResult Unit)
  | .enqueue entry => QueueFile.enqueueAll queue [entry]
  | .enqueueAll entries => QueueFile.enqueueAll queue entries
  | .replay entries => replaceEntries queue entries

omit [QueueSerde] in
/-- The entries a step writes, if it writes any. -/
def enqueued (queue : WritebackQueue) (entries : List QueueEntry) : Option (List QueueEntry) :=
  let pending := WritebackQueue.admitted queue.entries [] entries
  if pending.isEmpty ∨ queue.capacity < queue.entries.length + pending.length then none
  else some (queue.entries ++ pending)

omit [QueueSerde] in
def QueueStep.writes (queue : WritebackQueue) : QueueStep → Option (List QueueEntry)
  | .enqueue entry => enqueued queue [entry]
  | .enqueueAll entries => enqueued queue entries
  | .replay entries => some entries

/-! ## Reopening -/

/-- The entries that a file with these contents loads; no file loads none. -/
def load : Option Bytes → TransportResult (List QueueEntry)
  | none => .ok []
  | some bytes => readEntries bytes

/-- What a reopen of the directory finds while the machine runs. -/
def reopen (d : Disk) : TransportResult (List QueueEntry) := load (d.queueFile.map FileState.bytes)

/-- What the name of the queue file may stand for after a power cut: what it stood for at
the last directory sync, or the file it stands for now, whose contents are certain only
if they have been synced. -/
def Survives (d : Disk) (found : Option Bytes) : Prop :=
  found = d.settled ∨
    match d.queueFile with
    | none => found = none
    | some file => ∃ bytes, found = some bytes ∧ (file.synced = true → bytes = file.bytes)

variable {queue : WritebackQueue} {d : Disk} {fault : Option DiskFault}

/-- The file of these entries, on the disk for good. -/
def written (entries : List QueueEntry) : FileState := ⟨Text.asBytes (content entries), true⟩

/-- Before the rename nothing has changed but the temporary file. -/
def Before (d d' : Disk) : Prop := d'.queueFile = d.queueFile ∧ d'.settled = d.settled

/-- After it the name stands for the new file. -/
def After (d : Disk) (entries : List QueueEntry) (d' : Disk) : Prop :=
  d'.queueFile = some (written entries) ∧
    (d'.settled = d.settled ∨ d'.settled = some (written entries).bytes)

/-- The directory could not be opened or synced. -/
def DirectoryFails (fault : Option DiskFault) : Prop :=
  fault = some .openDir ∨ fault = some .syncDir

theorem eval_persistEntries_none (entries : List QueueEntry) (d : Disk) :
    eval (faultyDisk none) (persistEntries entries).run d =
      (.ok (), ⟨some (written entries), none, some (written entries).bytes⟩) := rfl

theorem eval_persistEntries_directory (entries : List QueueEntry) (d : Disk)
    (h : DirectoryFails fault) :
    eval (faultyDisk fault) (persistEntries entries).run d =
      (.error (.io (.other "disk".toList)), ⟨some (written entries), none, d.settled⟩) := by
  rcases h with rfl | rfl <;> rfl

theorem eval_persistEntries_early (entries : List QueueEntry) (d : Disk) {early : DiskFault}
    (h : ¬ DirectoryFails (some early)) :
    ∃ tmpFile, eval (faultyDisk (some early)) (persistEntries entries).run d =
      (.error (.io (.other "disk".toList)), { d with tmpFile }) := by
  cases early with
  | openTmp => exact ⟨d.tmpFile, rfl⟩
  | writeAll written => exact ⟨some ⟨_, false⟩, rfl⟩
  | syncAll => exact ⟨some ⟨_, false⟩, rfl⟩
  | rename => exact ⟨some ⟨_, true⟩, rfl⟩
  | openDir => exact absurd (Or.inl rfl) h
  | syncDir => exact absurd (Or.inr rfl) h

/-! ## Where the machine may stop -/

/-- The calls as this disk answers them. -/
def DiskBehaviour (fault : Option DiskFault) : Behaviour disk Disk := fun d call reply d' =>
  faultyDisk fault d call = (reply, d')

omit [QueueSerde] in
theorem diskBehaviour_inv {d d' : Disk} {call : DiskCall} {reply : TransportResult Unit}
    (h : DiskBehaviour fault d call reply d') :
    (reply = .ok () ∧ d' = d.act call) ∨
      ((∃ err, reply = .error err) ∧ ∃ f : DiskFault, f.strikes d call = some d') := by
  unfold DiskBehaviour faultyDisk at h
  cases hStrikes : fault.bind fun fault => fault.strikes d call with
  | none =>
      rw [hStrikes] at h
      obtain ⟨rfl, rfl⟩ := Prod.mk.inj h
      exact Or.inl ⟨rfl, rfl⟩
  | some left =>
      rw [hStrikes] at h
      obtain ⟨rfl, rfl⟩ := Prod.mk.inj h
      obtain ⟨f, -, hf⟩ := Option.bind_eq_some_iff.mp hStrikes
      exact Or.inr ⟨⟨_, rfl⟩, f, hf⟩

/-- `R` after a success, `C` after a failure. -/
def Outcome (R C : Disk → Prop) : TransportResult Unit → Disk → Prop
  | .ok _, d => R d
  | .error _, d => C d

omit [QueueSerde] in
/-- One step: a failed call leaves a state in which the machine might as well have stopped. -/
theorem triple_onDisk {P R C : Disk → Prop} {call : DiskCall} (hOk : ∀ d, P d → R (d.act call))
    (hFail : ∀ d left (f : DiskFault), P d → f.strikes d call = some left → C left)
    (hP : ∀ d, P d → C d) (hR : ∀ d, R d → C d) :
    Triple (DiskBehaviour fault) Alone P (onDisk call).run (Outcome R C) C := by
  refine Triple.perform (stable_alone P) (fun _ => stable_alone _) hP ?_ ?_
  · intro reply d hOutcome
    cases reply with
    | ok value => exact hR d hOutcome
    | error err => exact hOutcome
  · intro d reply d' hPd hCall
    rcases diskBehaviour_inv hCall with ⟨rfl, rfl⟩ | ⟨⟨err, rfl⟩, f, hf⟩
    · exact hOk d hPd
    · exact hFail d d' f hPd hf

omit [QueueSerde] in
/-- A step followed by others. -/
theorem triple_then {P R Q C : Disk → Prop} {call : DiskCall} {next : DiskM Unit}
    (hOk : ∀ d, P d → R (d.act call))
    (hFail : ∀ d left (f : DiskFault), P d → f.strikes d call = some left → C left)
    (hP : ∀ d, P d → C d) (hR : ∀ d, R d → C d)
    (hNext : Triple (DiskBehaviour fault) Alone R next.run (Outcome Q C) C) :
    Triple (DiskBehaviour fault) Alone P (onDisk call >>= fun _ => next).run (Outcome Q C) C :=
  Triple.bindExcept (Outcome R C) (triple_onDisk hOk hFail hP hR) (fun _ => stable_alone _)
    (fun _ _ h => h) (fun _ _ h => h) fun _ => hNext

omit [QueueSerde] in
/-- A step that fails does not touch the queue file or its name. -/
theorem before_of_strikes {d left : Disk} {f : DiskFault} {call : DiskCall}
    (h : f.strikes d call = some left) : Before d left := by
  cases f <;> cases call <;> simp only [DiskFault.strikes, Option.some.injEq, reduceCtorEq] at h
  all_goals exact h ▸ ⟨rfl, rfl⟩

/-- Up to the rename the disk is the old one, with this temporary file. -/
def Staged (d : Disk) (tmpFile : Option FileState) (d' : Disk) : Prop :=
  Before d d' ∧ d'.tmpFile = tmpFile

/-- Wherever the machine stops, the name of the queue file stands for the old file or for
the whole new one. -/
theorem triple_persistEntries (entries : List QueueEntry) :
    Triple (DiskBehaviour fault) Alone (fun d' => d' = d) (persistEntries entries).run
      (Outcome (After d entries) fun d' => Before d d' ∨ After d entries d')
      fun d' => Before d d' ∨ After d entries d' := by
  have hStaged (tmpFile : Option FileState) :
      ∀ d', Staged d tmpFile d' → Before d d' ∨ After d entries d' := fun _ h => Or.inl h.1
  have hStruck {call : DiskCall} (tmpFile : Option FileState) : ∀ d' left (f : DiskFault),
      Staged d tmpFile d' → f.strikes d' call = some left →
        Before d left ∨ After d entries left := by
    intro d' left f hAt hStrikes
    obtain ⟨hFile, hSettled⟩ := before_of_strikes hStrikes
    exact Or.inl ⟨hFile.trans hAt.1.1, hSettled.trans hAt.1.2⟩
  have hAfter : ∀ d', After d entries d' → Before d d' ∨ After d entries d' := fun _ => Or.inr
  have hStruckAfter {call : DiskCall} : ∀ d' left (f : DiskFault), After d entries d' →
      f.strikes d' call = some left → Before d left ∨ After d entries left := by
    intro d' left f hAt hStrikes
    obtain ⟨hFile, hSettled⟩ := before_of_strikes hStrikes
    exact Or.inr ⟨hFile.trans hAt.1, hSettled ▸ hAt.2⟩
  have hOpened : ∀ d', Staged d d.tmpFile d' → Staged d (some ⟨[], false⟩) (d'.act .openTmp) :=
    fun _ hAt => ⟨hAt.1, rfl⟩
  have hWritten : ∀ d', Staged d (some ⟨[], false⟩) d' →
      Staged d (some ⟨Text.asBytes (content entries), false⟩)
        (d'.act (.writeAll (Text.asBytes (content entries)))) := by
    intro d' hAt
    refine ⟨hAt.1, ?_⟩
    simp [Disk.act, hAt.2]
  have hSynced : ∀ d', Staged d (some ⟨Text.asBytes (content entries), false⟩) d' →
      Staged d (some (written entries)) (d'.act .syncAll) := by
    intro d' hAt
    refine ⟨hAt.1, ?_⟩
    simp [Disk.act, hAt.2, written]
  have hRenamed : ∀ d', Staged d (some (written entries)) d' →
      After d entries (d'.act .rename) := fun d' hAt => ⟨hAt.2, Or.inl hAt.1.2⟩
  have hDirSynced : ∀ d', After d entries d' → After d entries (d'.act .syncDir) := by
    intro d' hAt
    refine ⟨hAt.1, Or.inr ?_⟩
    simp [Disk.act, hAt.1]
  refine Triple.weaken ?_ (fun d' h => (⟨⟨congrArg _ h, congrArg _ h⟩, congrArg _ h⟩ :
    Staged d d.tmpFile d')) (fun _ _ h => h) fun _ h => h
  refine triple_then hOpened (hStruck _) (hStaged _) (hStaged _) ?_
  refine triple_then hWritten (hStruck _) (hStaged _) (hStaged _) ?_
  refine triple_then hSynced (hStruck _) (hStaged _) (hStaged _) ?_
  refine triple_then hRenamed (hStruck _) (hStaged _) hAfter ?_
  refine triple_then (fun _ h => h) hStruckAfter hAfter hAfter ?_
  exact triple_onDisk hDirSynced hStruckAfter hAfter hAfter

theorem cut_replaceEntries (entries : List QueueEntry) (n : Nat) :
    Before d (stateAfter (faultyDisk fault) n (replaceEntries queue entries) d) ∨
      After d entries (stateAfter (faultyDisk fault) n (replaceEntries queue entries) d) := by
  have hTriple : Triple (DiskBehaviour fault) Alone (fun d' => d' = d)
      (replaceEntries queue entries) (fun _ d' => Before d d' ∨ After d entries d')
      fun d' => Before d d' ∨ After d entries d' := by
    refine Triple.bind _ (triple_persistEntries entries) ?_
    intro reply
    cases reply with
    | error err => exact .ret (stable_alone _) (fun _ h => h) fun _ h => h
    | ok value => exact .ret (stable_alone _) (fun _ h => Or.inr h) fun _ h => Or.inr h
  exact hTriple rfl (run_stateAfter (fun _ _ => rfl) n (replaceEntries queue entries) d)

/-! ## All or nothing -/

theorem program_of_writes {step : QueueStep} {entries : List QueueEntry}
    (h : step.writes queue = some entries) : step.program queue = replaceEntries queue entries := by
  have hEnqueue {new : List QueueEntry} (h : enqueued queue new = some entries) :
      QueueFile.enqueueAll queue new = replaceEntries queue entries := by
    simp only [enqueued] at h
    split at h
    · cases h
    · next hWrites =>
      obtain ⟨hPending, hRoom⟩ := not_or.mp hWrites
      cases h
      rw [QueueFile.enqueueAll]
      simp only [hPending, hRoom, if_false, Bool.false_eq_true]
  cases step with
  | enqueue entry => exact hEnqueue h
  | enqueueAll new => exact hEnqueue h
  | replay new =>
      cases h
      rfl

theorem program_of_writes_none {step : QueueStep} (h : step.writes queue = none) :
    ∃ result, step.program queue = pure (queue, result) := by
  have hEnqueue {new : List QueueEntry} (h : enqueued queue new = none) :
      ∃ result, QueueFile.enqueueAll queue new = pure (queue, result) := by
    simp only [enqueued] at h
    split at h
    · next hWrites =>
      by_cases hPending : (WritebackQueue.admitted queue.entries [] new).isEmpty = true
      · exact ⟨.ok (), by simp only [QueueFile.enqueueAll, hPending, if_true]⟩
      · have hRoom := hWrites.resolve_left hPending
        exact ⟨.error .queueFull, by
          simp only [QueueFile.enqueueAll, hPending, hRoom, if_true, if_false, Bool.false_eq_true]⟩
    · cases h
  cases step with
  | enqueue entry => exact hEnqueue h
  | enqueueAll new => exact hEnqueue h
  | replay new => cases h

/-- After an error the queue in memory and what a reopen would load are those before the
step. Wherever the machine stops, a reopen loads what it would have loaded before, or the
entries that the step writes; after a power cut too. -/
structure AllOrNothing (queue : WritebackQueue) (step : QueueStep) (fault : Option DiskFault)
    (d : Disk) : Prop where
  onError : ∀ err, (eval (faultyDisk fault) (step.program queue) d).1.2 = .error err →
    (eval (faultyDisk fault) (step.program queue) d).1.1 = queue ∧
      reopen (eval (faultyDisk fault) (step.program queue) d).2 = reopen d
  onStop : ∀ n, reopen (stateAfter (faultyDisk fault) n (step.program queue) d) = reopen d ∨
    ∃ entries, step.writes queue = some entries ∧
      reopen (stateAfter (faultyDisk fault) n (step.program queue) d) = .ok entries
  onPowerCut : ∀ n found,
    Survives (stateAfter (faultyDisk fault) n (step.program queue) d) found →
      Survives d found ∨ ∃ entries, step.writes queue = some entries ∧ load found = .ok entries

theorem load_written {entries : List QueueEntry} (h : WellFormed entries) :
    load (some (written entries).bytes) = .ok entries := readEntries_content h

theorem Before.reopen {d d' : Disk} (h : Before d d') :
    QueueFile.reopen d' = QueueFile.reopen d := by
  rw [QueueFile.reopen, h.1]
  rfl

theorem After.reopen {d d' : Disk} {entries : List QueueEntry} (hForm : WellFormed entries)
    (h : After d entries d') : QueueFile.reopen d' = .ok entries := by
  rw [QueueFile.reopen, h.1]
  exact load_written hForm

omit [QueueSerde] in
theorem Before.survives {d d' : Disk} {found : Option Bytes} (h : Before d d')
    (hFound : Survives d' found) : Survives d found := by
  rw [Survives, h.1, h.2] at hFound
  exact hFound

theorem After.survives {d d' : Disk} {entries : List QueueEntry} {found : Option Bytes}
    (hForm : WellFormed entries) (h : After d entries d') (hFound : Survives d' found) :
    Survives d found ∨ load found = .ok entries := by
  rw [Survives, h.1] at hFound
  rcases hFound with rfl | ⟨bytes, rfl, hBytes⟩
  · rcases h.2 with hOld | hNew
    · exact Or.inl (Or.inl hOld)
    · exact Or.inr (hNew ▸ load_written hForm)
  · exact Or.inr (hBytes rfl ▸ load_written hForm)

/-- Writing the file is the `persist` of the queue's calls: it is done, or refused, or, if
the directory fails, done without being acknowledged. -/
theorem persistEntries_refines {σ : Type} (backend : Handler storage σ) {w : World σ}
    {entries : List QueueEntry} (hForm : WellFormed entries) (hFile : reopen d = .ok w.file) :
    ∃ w', reopen (eval (faultyDisk fault) (persistEntries entries).run d).2 = .ok w'.file ∧
      Faulty (World.handle backend) Fails (fun _ => DirectoryFails fault) w (.persist entries)
        (eval (faultyDisk fault) (persistEntries entries).run d).1 w' := by
  have hRefused (err : TransportError) : Fails (.persist entries) (.error err) := ⟨err, rfl⟩
  by_cases hFails : DirectoryFails fault
  · rw [eval_persistEntries_directory entries d hFails]
    exact ⟨{ w with file := entries }, load_written hForm,
      @Faulty.unacknowledged _ _ (World.handle backend) _ _ w _ _ hFails (hRefused _)⟩
  · cases fault with
    | none =>
        rw [eval_persistEntries_none entries d]
        exact ⟨{ w with file := entries }, load_written hForm,
          @Faulty.done _ _ (World.handle backend) _ _ w (.persist entries)⟩
    | some early =>
        obtain ⟨tmpFile, hEval⟩ := eval_persistEntries_early entries d hFails
        rw [hEval]
        exact ⟨w, hFile, .refused w _ (hRefused _)⟩

theorem eval_replaceEntries_ok {entries : List QueueEntry} {d' : Disk}
    (h : eval (faultyDisk fault) (persistEntries entries).run d = (.ok (), d')) :
    eval (faultyDisk fault) (replaceEntries queue entries) d =
      (({ queue with entries }, .ok ()), d') := by
  rw [replaceEntries, eval_bind, h]
  rfl

theorem eval_replaceEntries_error {entries : List QueueEntry} {err : TransportError} {d' : Disk}
    (h : eval (faultyDisk fault) (persistEntries entries).run d = (.error err, d')) :
    eval (faultyDisk fault) (replaceEntries queue entries) d = ((queue, .error err), d') := by
  rw [replaceEntries, eval_bind, h]
  rfl

/-- The queue keeps the contract exactly when the directory can be opened and synced, or
there is nothing to write that the file does not hold already. -/
theorem allOrNothing_iff {step : QueueStep}
    (hForm : ∀ entries, step.writes queue = some entries → WellFormed entries) :
    AllOrNothing queue step fault d ↔
      ∀ entries, step.writes queue = some entries → DirectoryFails fault →
        reopen d = .ok entries := by
  constructor
  · intro h entries hWrites hFails
    have hEval := @eval_replaceEntries_error _ queue _ _ _ _ _
      (eval_persistEntries_directory entries d hFails)
    rw [← program_of_writes hWrites] at hEval
    obtain ⟨-, hReopen⟩ := h.onError (.io (.other "disk".toList)) (by rw [hEval])
    rw [hEval] at hReopen
    rw [← hReopen]
    exact load_written (hForm entries hWrites)
  · intro h
    cases hWrites : step.writes queue with
    | none =>
        obtain ⟨result, hProgram⟩ := program_of_writes_none hWrites
        have hStop : ∀ n, stateAfter (faultyDisk fault) n (step.program queue) d = d := by
          intro n
          rw [hProgram]
          cases n <;> rfl
        refine ⟨?_, ?_, ?_⟩
        · intro err _
          rw [hProgram]
          exact ⟨rfl, rfl⟩
        · intro n
          rw [hStop]
          exact Or.inl rfl
        · intro n found hFound
          rw [hStop] at hFound
          exact Or.inl hFound
    | some entries =>
        have hForm := hForm entries hWrites
        refine ⟨?_, ?_, ?_⟩
        · intro err hErr
          rw [program_of_writes hWrites] at hErr ⊢
          by_cases hFails : DirectoryFails fault
          · rw [eval_replaceEntries_error (eval_persistEntries_directory entries d hFails)]
            refine ⟨rfl, ?_⟩
            rw [h entries hWrites hFails]
            exact load_written hForm
          · cases fault with
            | none =>
                rw [eval_replaceEntries_ok (eval_persistEntries_none entries d)] at hErr
                cases hErr
            | some early =>
                obtain ⟨tmpFile, hEval⟩ := eval_persistEntries_early entries d hFails
                rw [eval_replaceEntries_error hEval]
                exact ⟨rfl, rfl⟩
        · intro n
          rw [program_of_writes hWrites]
          rcases cut_replaceEntries entries n with hBefore | hAfter
          · exact Or.inl hBefore.reopen
          · exact Or.inr ⟨entries, hWrites, hAfter.reopen hForm⟩
        · intro n found hFound
          rw [program_of_writes hWrites] at hFound
          rcases cut_replaceEntries entries n with hBefore | hAfter
          · exact Or.inl (hBefore.survives hFound)
          · exact (hAfter.survives hForm hFound).imp_right fun hLoad => ⟨entries, hWrites, hLoad⟩

end QueueFile

/-! ## One entry -/

/-- An empty queue in a new directory. -/
def newQueue : WritebackQueue := ⟨8, []⟩

def newDisk : Disk := ⟨none, none, none⟩

/-- The directory cannot be synced: the enqueue fails, but a reopen loads the entry. -/
theorem enqueue_unsynced_directory :
    let _ := accentedSerde
    let outcome := eval (faultyDisk (some .syncDir))
      (QueueFile.QueueStep.program newQueue (.enqueue accentedPut)) newDisk
    outcome.1 = (newQueue, .error (.io (.other "disk".toList))) ∧
      QueueFile.reopen newDisk = .ok [] ∧ QueueFile.reopen outcome.2 = .ok [accentedPut] ∧
      ¬ QueueFile.AllOrNothing newQueue (.enqueue accentedPut) (some .syncDir) newDisk := by
  intro _ outcome
  have hWrites : QueueFile.QueueStep.writes newQueue (.enqueue accentedPut) =
      some [accentedPut] := by
    decide
  have hOutcome : outcome = ((newQueue, .error (.io (.other "disk".toList))),
      ⟨some (QueueFile.written [accentedPut]), none, none⟩) := by
    show eval _ (QueueFile.QueueStep.program newQueue (.enqueue accentedPut)) newDisk = _
    rw [QueueFile.program_of_writes hWrites]
    exact QueueFile.eval_replaceEntries_error
      (QueueFile.eval_persistEntries_directory [accentedPut] newDisk (Or.inr rfl))
  have hReopen : QueueFile.reopen outcome.2 = .ok [accentedPut] := by
    rw [hOutcome]
    exact QueueFile.load_written accentedSerde_wellFormed
  refine ⟨by rw [hOutcome], rfl, hReopen, ?_⟩
  intro h
  obtain ⟨-, hSame⟩ := h.onError (.io (.other "disk".toList)) (congrArg (fun o => o.1.2) hOutcome)
  have hLoaded : (.ok [accentedPut] : TransportResult (List QueueEntry)) = .ok [] :=
    hReopen.symm.trans hSame
  cases hLoaded

/-- The rename fails: nothing has changed. -/
theorem enqueue_unrenamed :
    let _ := accentedSerde
    QueueFile.AllOrNothing newQueue (.enqueue accentedPut) (some .rename) newDisk := by
  intro _
  refine QueueFile.allOrNothing_iff ?_ |>.mpr ?_
  · intro entries hWrites
    cases hWrites
    exact accentedSerde_wellFormed
  · intro entries _ hFails
    rcases hFails with hFails | hFails <;> cases hFails

end EventFs.Transport

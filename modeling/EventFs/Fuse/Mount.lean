import EventFs.Protocol.Plan
import EventFs.Transport.Cache
import EventFs.Fuse.QueuedOverlay

/-!
# The state of a mount

The inode table, the open handles, the read cache and the write-back queue of one
mounted file system, and the two monads its code runs in: `RuntimeM` for code that
cannot fail and `Runtime` for code that may return an errno. The list of recent
error texts is not modelled.
-/

namespace EventFs.Fuse

open Library Protocol Transport

instance : Ord MountPath := ⟨fun p q => compare p.asStr q.asStr⟩

instance : Std.TransCmp (compare (α := MountPath)) where
  eq_swap := by
    intro p q
    show compare p.asStr q.asStr = (compare q.asStr p.asStr).swap
    exact Std.OrientedCmp.eq_swap
  isLE_trans := by
    intro p q r hpq hqr
    show (compare p.asStr r.asStr).isLE = true
    exact Std.TransCmp.isLE_trans (b := q.asStr) hpq hqr

instance : Std.LawfulEqCmp (compare (α := MountPath)) where
  compare_self := by
    intro p
    show compare p.asStr p.asStr = .eq
    exact Std.ReflCmp.compare_self
  eq_of_compare h := MountPath.ext (Std.LawfulEqCmp.eq_of_compare h)

/-! ## The inode table -/

inductive FileType
  | directory
  | regularFile
deriving DecidableEq, Repr

def rootIno : Nat := 1

structure PathCache where
  byPath : Std.ExtTreeMap MountPath (Nat × FileType)
  byIno : Std.ExtTreeMap Nat MountPath
  nextIno : Nat

namespace PathCache

def remember (cache : PathCache) (path : MountPath) (ino : Nat) (kind : FileType) : PathCache :=
  { cache with
    byPath := cache.byPath.insert path (ino, kind)
    byIno := cache.byIno.insert ino path }

def new : PathCache := remember ⟨∅, ∅, rootIno + 1⟩ MountPath.root rootIno .directory

def path (cache : PathCache) (ino : Nat) : Option MountPath := cache.byIno[ino]?

def entry (cache : PathCache) (path : MountPath) : Option (Nat × FileType) := cache.byPath[path]?

def ensure (cache : PathCache) (path : MountPath) (kind : FileType) : Nat × PathCache :=
  match cache.byPath[path]? with
  | some (ino, _) => (ino, { cache with byPath := cache.byPath.insert path (ino, kind) })
  | none =>
      (cache.nextIno,
        -- the counter is a `u64`, which wraps in a release build
        remember { cache with nextIno := (cache.nextIno + 1) % 2 ^ 64 } path cache.nextIno kind)

def remove (cache : PathCache) (path : MountPath) : PathCache :=
  match cache.byPath[path]? with
  | some (ino, _) =>
      { cache with byPath := cache.byPath.erase path, byIno := cache.byIno.erase ino }
  | none => cache

/-- Drop the entries whose path matches, and their inodes. -/
def retainNot (cache : PathCache) (matching : MountPath → Bool) : PathCache :=
  let removed := cache.byPath.toList.filterMap fun (candidate, (ino, _)) =>
    if matching candidate then some ino else none
  { cache with
    byPath := cache.byPath.filter fun candidate _ => !matching candidate
    byIno := removed.foldl (fun byIno ino => byIno.erase ino) cache.byIno }

def removeRecursive (cache : PathCache) (path : MountPath) : PathCache :=
  if path.isRoot then
    let cleared := { cache with byPath := ∅, byIno := ∅ }
    match cache.byPath[MountPath.root]? with
    | some (ino, kind) => remember cleared MountPath.root ino kind
    | none => cleared
  else cache.retainNot fun candidate => candidate.isSelfOrDescendantOf path

def removeDescendants (cache : PathCache) (path : MountPath) : PathCache :=
  cache.retainNot fun candidate => candidate != MountPath.root && candidate.isDescendantOf path

end PathCache

/-! ## Handles -/

inductive HandleMode
  | wholeValue
  | jsonLines
deriving DecidableEq, Repr

structure StagedCreate where
  defaultPayload : Bytes
deriving DecidableEq, Repr

structure Handle where
  path : MountPath
  buffer : Bytes
  dirty : Bool
  committed : Bool
  writable : Bool
  commitSeed : Str
  mode : HandleMode
  baseOffset : Nat
  stagedCreate : Option StagedCreate
deriving DecidableEq

/-! ## The mount -/

/-- `MountRuntimeState` together with the inode table that is passed to all its methods. -/
structure Mount where
  paths : PathCache
  stalePaths : Std.ExtTreeSet MountPath
  handles : Std.ExtTreeMap Nat Handle
  nextFh : Nat
  nextCommitId : Nat
  mountInstance : Nat
  cache : LocalCache
  replay : WritebackReplay
  mountName : Str

def Mount.new (queue : WritebackQueue) (mountName : Str) (mountInstance : Nat) : Mount where
  paths := PathCache.new
  stalePaths := ∅
  handles := ∅
  nextFh := 2
  nextCommitId := 1
  mountInstance := mountInstance
  cache := LocalCache.new
  replay := WritebackReplay.fromQueue queue
  mountName := mountName

/-- What the mount takes from outside the repository: the hash that names a commit, and
the JSON text of stream messages and of the files under `/.eventfs`. -/
class Rendering where
  idempotencyKey : Str → Bytes → Str → Str
  streamMessageBytes : StreamMessageView → TransportResult Bytes
  metadataBytes : Mount → MetadataFile → Bytes

abbrev RuntimeM := StateT Mount (Program io)

abbrev Runtime := ExceptT Errno RuntimeM

/-- One storage call. -/
def request (call : StorageCall) : RuntimeM (TransportResult call.Value) :=
  StateT.lift (Transport.call call).run

def ioError : TransportError → Errno
  | .notFound => .notFound
  | _ => .io

/-- A storage call whose failure ends the operation. -/
def requestIo (call : StorageCall) : Runtime call.Value := do
  match ← request call with
  | .ok value => return value
  | .error err => throw (ioError err)

def parsePath (path : MountPath) : Except Errno JetStreamPath :=
  match JetStreamPath.parse path.asStr with
  | .ok parsed => .ok parsed
  | .error err => .error err.errno

def planOrErrno (intent : FileIntent) (path : JetStreamPath) : Except Errno JetStreamAction :=
  match planOperation intent path with
  | .ok action => .ok action
  | .error err => .error err.errno

/-- A pure step that may fail with an errno. -/
def liftErrno {α : Type} : Except Errno α → Runtime α
  | .ok value => pure value
  | .error errno => throw errno

/-- Run a step and look at its outcome. -/
def attempt {α : Type} (step : Runtime α) : Runtime (Except Errno α) := ExceptT.lift step.run

/-! ## Invalidation -/

def clearStalePath (path : MountPath) : RuntimeM Unit :=
  modify fun mount => { mount with stalePaths := mount.stalePaths.erase path }

namespace Mount

def markStale (mount : Mount) (matching : MountPath → Bool) : Mount :=
  { mount with
    stalePaths := mount.paths.byPath.keys.foldl
      (fun stale path => if matching path then stale.insert path else stale) mount.stalePaths }

def applyPathAction (mount : Mount) (action : InvalidationAction) : Mount :=
  match action.scope with
  | .exactEntry => mount.markStale fun path => !path.isRoot && path == action.path
  | .subtree => mount.markStale fun path => !path.isRoot && path.isSelfOrDescendantOf action.path
  | .all => mount.markStale fun path => !path.isRoot

def applyPathInvalidationPlan (mount : Mount) (plan : InvalidationPlan) : Mount :=
  plan.foldl applyPathAction mount

def applyInvalidationPlan (mount : Mount) (plan : InvalidationPlan) : Mount :=
  let mount := mount.applyPathInvalidationPlan plan
  { mount with cache := mount.cache.applyInvalidation plan }

def applyWatchEvent (mount : Mount) (event : WatchEvent) : Mount :=
  let mount := mount.applyPathInvalidationPlan (.forWatchEvent event)
  { mount with cache := mount.cache.apply event }

def invalidateAfterLocalMutation (mount : Mount) (path : MountPath) : Mount :=
  match InvalidationPlan.forLocalMutation path with
  | .ok plan => mount.applyInvalidationPlan plan
  | .error _ => mount.applyInvalidationPlan (.subtree path)

def invalidateAfterLocalWrite (mount : Mount) (path : MountPath) : Mount :=
  mount.invalidateAfterLocalMutation path

def invalidateAfterLocalUnlink (mount : Mount) (path : MountPath) : Mount :=
  let mount := mount.invalidateAfterLocalMutation path
  { mount with paths := mount.paths.remove path }

end Mount

def applyPendingWatchEvents : RuntimeM Unit := do
  match ← request .watchEvents with
  | .ok events => modify fun mount => events.foldl Mount.applyWatchEvent mount
  | .error _ => modify fun mount => mount.applyWatchEvent .gap

end EventFs.Fuse

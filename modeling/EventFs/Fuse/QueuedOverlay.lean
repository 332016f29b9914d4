import EventFs.Transport.Overlay

/-!
# The queued overlay

What the pending writes say about a path: the latest whole value, the latest delete,
the JSON lines to append, and the children a directory gains. The last fact in the
queue wins.
-/

namespace EventFs.Fuse

open Library Protocol Transport

structure QueuedJsonlEntry where
  idempotencyKey : Str
  stream : Str
  subject : Str
  bytes : Bytes
  appliedLines : Nat
deriving DecidableEq, Repr

structure QueuedOverlayChange where
  deletedPaths : List MountPath
  visiblePaths : List MountPath

def insertDirectoryEntry (entries : List DirectoryEntry) (entry : DirectoryEntry) :
    List DirectoryEntry :=
  if entries.any fun candidate => candidate.name == entry.name then
    changeNamed entry.name (fun existing =>
      if entry.kind = .file then { existing with kind := .file } else existing) entries
  else entries ++ [entry]

/-- The child of `dir` on the way to `file`: a file if it is `file` itself. -/
def queuedDirectoryChild (dir file : MountPath) : Option DirectoryEntry :=
  if !file.isDescendantOf dir then none
  else
    let remainder :=
      if dir.isRoot then Text.stripPrefix ['/'] file.asStr
      else (Text.stripPrefix dir.asStr file.asStr).bind (Text.stripPrefix ['/'])
    match remainder with
    | none => none
    | some remainder =>
        if remainder.isEmpty then none
        else
          match remainder.splitOn '/' with
          | [] => none
          | [name] => some ⟨name, .file⟩
          | name :: _ :: _ => some ⟨name, .directory⟩

def queuedDeleteCanEmptySyntheticDirectory : JetStreamPath → Bool
  | .kvKey _ _ | .object _ _ | .taskNamespace _ | .agentRecord _ _ _ | .semanticRecord _ _ => true
  | _ => false

namespace QueuedOverlay

variable (facts : List PendingWriteOverlay)

/-- Scan from the newest fact: a delete of the path hides everything older. -/
def wholeValueSnapshotIn (path : MountPath) : List PendingWriteOverlay → Option Bytes
  | [] => none
  | fact :: older =>
      if fact.deletedPaths.any fun candidate => candidate == path then none
      else if !fact.visiblePaths.any fun candidate => candidate == path then
        wholeValueSnapshotIn path older
      else
        match fact.payload with
        | .wholeValue bytes => some bytes
        | .jsonLines .. => wholeValueSnapshotIn path older

def wholeValueSnapshot (path : MountPath) : Option Bytes :=
  wholeValueSnapshotIn path facts.reverse

def jsonlEntries (path : MountPath) : List QueuedJsonlEntry :=
  facts.filterMap fun fact =>
    if !fact.visiblePaths.any fun candidate => candidate == path then none
    else
      match fact.payload with
      | .jsonLines stream subject bytes appliedLines =>
          some ⟨fact.idempotencyKey, stream, subject, bytes, appliedLines⟩
      | .wholeValue _ => none

def hasJsonlEntry (path : MountPath) : Bool :=
  facts.any fun fact =>
    (match fact.payload with
      | .jsonLines .. => true
      | .wholeValue _ => false) &&
      fact.visiblePaths.any fun candidate => candidate == path

def latestDeleteCoversIn (path : MountPath) : List PendingWriteOverlay → Bool
  | [] => false
  | fact :: older =>
      if fact.deletedPaths.any fun candidate => candidate == path then true
      else if fact.visiblePaths.any fun candidate => candidate == path then false
      else latestDeleteCoversIn path older

def latestDeleteCovers (path : MountPath) : Bool := latestDeleteCoversIn path facts.reverse

def directoryEntries (path : MountPath) : List DirectoryEntry :=
  sortByName <|
    ((facts.flatMap (·.visiblePaths)).filterMap (queuedDirectoryChild path)).foldl
      insertDirectoryEntry []

def changes : List QueuedOverlayChange :=
  facts.map fun fact => ⟨fact.deletedPaths, fact.visiblePaths⟩

def hasDeletedDescendant (path : MountPath) : Bool :=
  (facts.flatMap (·.deletedPaths)).any fun deleted => deleted.isDescendantOf path

end QueuedOverlay

def exactDeleteRevealsSyntheticDirectory (parsed : JetStreamPath)
    (hasKnownVisibleEntries : Bool) : Bool :=
  queuedDeleteCanEmptySyntheticDirectory parsed && hasKnownVisibleEntries

def deletedDescendantEmptiesSyntheticDirectory (parsed : JetStreamPath)
    (exactDynamicFileExists hasVisibleEntries : Bool) : Bool :=
  queuedDeleteCanEmptySyntheticDirectory parsed && !exactDynamicFileExists && !hasVisibleEntries

def deleteCanElideDirectoryChild (path : MountPath) : Bool :=
  match JetStreamPath.parse path.asStr with
  | .ok parsed => queuedDeleteCanEmptySyntheticDirectory parsed
  | .error _ => false

end EventFs.Fuse

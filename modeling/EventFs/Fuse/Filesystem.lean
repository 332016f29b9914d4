import EventFs.Fuse.Runtime

/-!
# The file system

`JetStreamFuse` and its answers to the kernel. Requests name inodes; the inode table
remembers the kind that was last reported for a path, and reporting it removes the
stale mark of the path. The owner and the times of an attribute are not modelled, nor
are `opendir`, `releasedir` and `statfs`, which look at nothing.
-/

namespace EventFs.Fuse

open Library Protocol Transport

structure FileAttr where
  ino : Nat
  kind : FileType
  perm : Nat
  size : Nat
deriving DecidableEq, Repr

def fileTypeFromRuntime : MountProjectionKind → FileType
  | .directory => .directory
  | .file => .regularFile

def fileTypeFromEntry : EntryKind → FileType
  | .directory => .directory
  | .file => .regularFile

/-! ## The inode table -/

def pathForIno (ino : Nat) : Runtime MountPath := do
  match (← get).paths.path ino with
  | some path => return path
  | none => throw .notFound

/-- The path of a name in a directory. -/
def childPath (parent : Nat) (name : Str) : Runtime MountPath := do
  match (← get).paths.path parent with
  | none => throw .notFound
  | some parent =>
      match parent.joinChild name with
      | .ok path => return path
      | .error _ => throw .notFound

def allocateForPath (path : MountPath) (kind : FileType) : RuntimeM Nat := do
  clearStalePath path
  let mount ← get
  let (ino, paths) := mount.paths.ensure path kind
  set { mount with paths }
  return ino

def parentInoForPath (path : MountPath) : RuntimeM Nat := do
  if path.isRoot then
    return rootIno
  allocateForPath path.parent .directory

/-! ## Attributes -/

def fileAttrFromRuntime (path : MountPath) (attr : MountProjectionAttr) (perm : Option Nat) :
    RuntimeM FileAttr := do
  let kind := fileTypeFromRuntime attr.kind
  let ino ← allocateForPath path kind
  return ⟨ino, kind, perm.getD (if kind = .directory then 0o755 else 0o644), attr.size⟩

def placeholderRegularFileAttr (path : MountPath) (perm size : Nat) : RuntimeM FileAttr := do
  let ino ← allocateForPath path .regularFile
  return ⟨ino, .regularFile, perm, size⟩

variable [Serde] [Rendering]

def attrForPath (path : MountPath) : Runtime FileAttr := do
  fileAttrFromRuntime path (← attr path) none

def regularFileReplyAttr (path : MountPath) (perm fallbackSize : Nat) : Runtime FileAttr := do
  match ← attempt (attr path) with
  | .ok attr => fileAttrFromRuntime path attr (some perm)
  | .error errno =>
      if errno = .notFound then placeholderRegularFileAttr path perm fallbackSize
      else throw errno

def createReplyAttr (path : MountPath) (fh perm : Nat) : Runtime FileAttr := do
  fileAttrFromRuntime path (← createdHandleAttr fh path) (some perm)

def truncateHandleReplyAttr (path : MountPath) (fh : Nat) : Runtime FileAttr := do
  let attr ← createdHandleAttr fh path
  stageTruncate fh
  fileAttrFromRuntime path { attr with size := 0 } none

omit [Serde] [Rendering] in
def directoryReplyEntries (path : MountPath) (ino : Nat) :
    Runtime (List (Nat × FileType × Str)) := do
  let entries ← directoryEntries path
  let parent ← parentInoForPath path
  entries.foldlM (fun reply entry => do
    match path.joinChild entry.name with
    | .error err => throw err.errno
    | .ok child =>
        let kind := fileTypeFromEntry entry.kind
        let ino ← allocateForPath child kind
        return reply ++ [(ino, kind, entry.name)])
    [(ino, .directory, ".".toList), (parent, .directory, "..".toList)]

/-! ## Requests of the kernel -/

def oAccMode : Nat := 0o3

def oTrunc : Nat := 0o1000

def permissionBits (mode : Nat) : Nat := mode &&& 0o7777

def lookup (parent : Nat) (name : Str) : Runtime FileAttr := do
  attrForPath (← childPath parent name)

def getattr (ino : Nat) : Runtime FileAttr := do
  attrForPath (← pathForIno ino)

omit [Serde] [Rendering] in
def readdir (ino : Nat) (offset : Int) : Runtime (List (Nat × FileType × Str)) := do
  return (← directoryReplyEntries (← pathForIno ino) ino).drop offset.toNat

def openFile (ino flags : Nat) : Runtime Nat := do
  let writable := flags &&& oAccMode ≠ 0
  openHandle (← pathForIno ino) writable (writable && flags &&& oTrunc ≠ 0) false

def readFile (ino fh : Nat) (offset : Int) (size : Nat) : Runtime Bytes := do
  if offset < 0 then
    throw .invalidInput
  return ((← readBytesForHandle fh (← pathForIno ino)).drop offset.toNat).take size

def writeFile (ino fh : Nat) (offset : Int) (data : Bytes) : Runtime Nat := do
  if offset < 0 then
    throw .invalidInput
  let handle ← writableHandle fh (← pathForIno ino)
  writeToHandleBuffer handle offset data

def mknod (parent : Nat) (name : Str) (mode : Nat) : Runtime FileAttr := do
  let path ← childPath parent name
  let _ ← executeMknod path mode
  regularFileReplyAttr path (permissionBits mode) 0

omit [Serde] [Rendering] in
def mkdir (parent : Nat) (name : Str) (mode : Nat) : Runtime FileAttr := do
  let path ← childPath parent name
  executeMkdir path
  let ino ← allocateForPath path .directory
  return ⟨ino, .directory, permissionBits mode, 0⟩

def create (parent : Nat) (name : Str) (mode : Nat) : Runtime (FileAttr × Nat) := do
  let path ← childPath parent name
  let fh ← openHandle path true false true
  match ← attempt (createReplyAttr path fh (permissionBits mode)) with
  | .ok attr => return (attr, fh)
  | .error errno =>
      discardHandle fh
      throw errno

omit [Serde] [Rendering] in
def unlink (parent : Nat) (name : Str) : Runtime Unit := do
  executeUnlink (← childPath parent name)

omit [Serde] in
def rename (parent : Nat) (name : Str) (newParent : Nat) (newName : Str) (flags : Nat) :
    Runtime Unit := do
  let path ← childPath parent name
  let newPath ← childPath newParent newName
  executeRename path newPath flags

/-- `metadata` says whether the request asks for anything but a size. -/
def setattr (ino : Nat) (metadata : Bool) (size fh : Option Nat) : Runtime FileAttr := do
  let path ← pathForIno ino
  if metadata then
    throw .notSupported
  match size, fh with
  | none, _ => attrForPath path
  | some (_ + 1), _ => throw .notSupported
  | some 0, some fh => truncateHandleReplyAttr path fh
  | some 0, none =>
      truncatePath path
      attrForPath path

end EventFs.Fuse

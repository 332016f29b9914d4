import EventFs.Library.Text

/-!
# The vocabulary of the mount

The parsed mount paths, the areas and file names they are made of, the errors of
the protocol and the fixed bucket and stream names of the materialized surfaces.
Errors keep the texts and the path of the source; where the source prints a parsed
path into an error, the error here holds the path itself.
-/

namespace EventFs.Protocol

open Library

/-! ## Paths -/

/-- A validated stream subject. -/
structure StreamSubject where
  asStr : Str
deriving DecidableEq, Repr

/-- The areas of an agent: two mailboxes and two directories of records. -/
inductive AgentArea
  | inbox
  | outbox
  | tasks
  | memory
deriving DecidableEq, Repr

/-- The directories under `/semantic`. -/
inductive SemanticArea
  | summaries
  | tags
  | relations
  | timelines
  | embeddings
deriving DecidableEq, Repr

/-- The files under `/.eventfs`. -/
inductive MetadataFile
  | status
  | cache
  | queue
  | capabilities
  | errors
deriving DecidableEq, Repr

/-- What a mount path stands for. -/
inductive JetStreamPath
  | root
  | kvRoot
  | kvBucket (bucket : Str)
  | kvKey (bucket key : Str)
  | kvHistoryRoot (bucket : Str)
  | kvHistoryKey (bucket key : Str)
  | kvRevision (bucket key : Str) (revision : Nat)
  | streamsRoot
  | streamRoot (stream : Str)
  | streamMessages (stream : Str)
  | streamMessage (stream : Str) (sequence : Nat)
  | streamSubjects (stream : Str)
  | streamSubject (stream : Str) (subject : StreamSubject)
  | objectsRoot
  | objectBucket (bucket : Str)
  | object (bucket object : Str)
  | eventsRoot
  | eventLog (stream : Str)
  | tasksRoot
  | taskNamespace (ns : Str)
  | task (ns task : Str)
  | agentsRoot
  | agentRoot (agent : Str)
  | agentMailbox (agent : Str) (area : AgentArea)
  | agentDirectory (agent : Str) (area : AgentArea)
  | agentRecord (agent : Str) (area : AgentArea) (path : Str)
  | semanticRoot
  | semanticArea (area : SemanticArea)
  | semanticRecord (area : SemanticArea) (path : Str)
  | metadataRoot
  | metadataFile (file : MetadataFile)
deriving DecidableEq, Repr

def AgentArea.parse (value : Str) : Option AgentArea :=
  if value = "inbox".toList then some .inbox
  else if value = "outbox".toList then some .outbox
  else if value = "tasks".toList then some .tasks
  else if value = "memory".toList then some .memory
  else none

def AgentArea.asStr : AgentArea → Str
  | .inbox => "inbox".toList
  | .outbox => "outbox".toList
  | .tasks => "tasks".toList
  | .memory => "memory".toList

/-- A mailbox is the subject of a stream, the other areas hold keys. -/
def AgentArea.isMailbox : AgentArea → Bool
  | .inbox | .outbox => true
  | .tasks | .memory => false

def SemanticArea.parse (value : Str) : Option SemanticArea :=
  if value = "summaries".toList then some .summaries
  else if value = "tags".toList then some .tags
  else if value = "relations".toList then some .relations
  else if value = "timelines".toList then some .timelines
  else if value = "embeddings".toList then some .embeddings
  else none

def SemanticArea.asStr : SemanticArea → Str
  | .summaries => "summaries".toList
  | .tags => "tags".toList
  | .relations => "relations".toList
  | .timelines => "timelines".toList
  | .embeddings => "embeddings".toList

def MetadataFile.parse (value : Str) : Option MetadataFile :=
  if value = "status.json".toList then some .status
  else if value = "cache.json".toList then some .cache
  else if value = "queue.json".toList then some .queue
  else if value = "capabilities.json".toList then some .capabilities
  else if value = "errors.jsonl".toList then some .errors
  else none

def MetadataFile.fileName : MetadataFile → Str
  | .status => "status.json".toList
  | .cache => "cache.json".toList
  | .queue => "queue.json".toList
  | .capabilities => "capabilities.json".toList
  | .errors => "errors.jsonl".toList

/-- `asStr` is the only text that parses to an area. -/
theorem AgentArea.parse_eq_some {value : Str} {area : AgentArea} :
    AgentArea.parse value = some area ↔ value = area.asStr := by
  constructor
  · intro h
    simp only [AgentArea.parse] at h
    split_ifs at h <;> simp_all [AgentArea.asStr]
    all_goals
      subst h
      rfl
  · rintro rfl
    cases area <;> decide

theorem SemanticArea.parse_eq_some {value : Str} {area : SemanticArea} :
    SemanticArea.parse value = some area ↔ value = area.asStr := by
  constructor
  · intro h
    simp only [SemanticArea.parse] at h
    split_ifs at h <;> simp_all
    all_goals
      subst h
      rfl
  · rintro rfl
    cases area <;> decide

theorem MetadataFile.parse_eq_some {value : Str} {file : MetadataFile} :
    MetadataFile.parse value = some file ↔ value = file.fileName := by
  constructor
  · intro h
    simp only [MetadataFile.parse] at h
    split_ifs at h <;> simp_all
    all_goals
      subst h
      rfl
  · rintro rfl
    cases file <;> decide

/-! ## Errors -/

/-- The errnos that the mount reports. -/
inductive Errno
  | notFound
  | notSupported
  | readOnly
  | invalidInput
  | isDirectory
  | notDirectory
  | exists_
  | notEmpty
  | crossDevice
  | io
  | badFile
  | noAccess
deriving DecidableEq, Repr

/-- Why a path, an operation or a payload is refused, and the errno to report. -/
inductive EventFsError
  | invalidPath (message : Str) (errno : Errno)
  | unsupported (operation : Str) (path : JetStreamPath) (errno : Errno)
  | readOnly (path : JetStreamPath) (errno : Errno)
  | invalidJson (path message : Str) (errno : Errno)
deriving DecidableEq, Repr

namespace EventFsError

def invalidPathText (message : Str) : EventFsError := .invalidPath message .invalidInput

def unsupportedAt (operation : Str) (path : JetStreamPath) : EventFsError :=
  .unsupported operation path .notSupported

def readOnlyAt (path : JetStreamPath) : EventFsError := .readOnly path .readOnly

def invalidJsonAt (path message : Str) : EventFsError := .invalidJson path message .invalidInput

def errno : EventFsError → Errno
  | .invalidPath _ errno | .unsupported _ _ errno | .readOnly _ errno | .invalidJson _ _ errno =>
    errno

/-- The text of an error, up to the path that the source prints into the texts of
`Unsupported` and `ReadOnly`. -/
def text : EventFsError → Str
  | .invalidPath message _ => message
  | .unsupported operation _ _ => operation ++ " is unsupported".toList
  | .readOnly _ _ => " is read only".toList
  | .invalidJson path message _ =>
      "invalid json at ".toList ++ path ++ ": ".toList ++ message

end EventFsError

/-! ## Fixed names -/

/-- The names in the root directory. -/
def rootDirectories : List Str :=
  ["kv", "streams", "objects", "events", "tasks", "agents", "semantic", ".eventfs"].map
    String.toList

/-- The keys under which the key-value client notes its puts. -/
def kvWritebackMarkerKeyPrefix : Str := "__eventfs_writeback".toList

def kvAppliedMarkerKeyPrefix : Str := "__eventfs_applied".toList

def tasksBucket : Str := "EVENTFS_TASKS".toList

def agentsBucket : Str := "EVENTFS_AGENTS".toList

def agentsStream : Str := "EVENTFS_AGENTS".toList

def semanticBucket : Str := "EVENTFS_SEMANTIC".toList

/-- The key is this prefix, or goes on from it with a dot or a slash. -/
def keyHasReservedPrefix (key pre : Str) : Bool :=
  key == pre ||
    match Text.stripPrefix pre key with
    | some rest => Text.startsWith ['.'] rest || Text.startsWith ['/'] rest
    | none => false

/-- The keys that the write-back notes are kept under. -/
def isReservedKvKey (key : Str) : Bool :=
  keyHasReservedPrefix key kvWritebackMarkerKeyPrefix ||
    keyHasReservedPrefix key kvAppliedMarkerKeyPrefix

end EventFs.Protocol

import EventFs.Protocol.VisiblePaths

/-!
# Operation plans

What a file operation on a parsed path asks of the storage.
-/

namespace EventFs.Protocol

open Library

/-- What is asked for a path. -/
inductive FileIntent
  | getAttr
  | readDir
  | read
  | write
  | create
  | mkdir
  | unlink
  | rename (dst : JetStreamPath)
deriving DecidableEq, Repr

inductive StaticEntryKind
  | directory
  | file
deriving DecidableEq, Repr

structure StaticDirectoryEntry where
  name : Str
  kind : StaticEntryKind
deriving DecidableEq, Repr

def StaticDirectoryEntry.directory (name : Str) : StaticDirectoryEntry := ⟨name, .directory⟩

def StaticDirectoryEntry.file (name : Str) : StaticDirectoryEntry := ⟨name, .file⟩

/-- A rename stays within the keys or within the objects. -/
inductive RenamePlan
  | kv (fromBucket fromKey toBucket toKey : Str)
  | object (fromBucket fromObject toBucket toObject : Str)
deriving DecidableEq, Repr

/-- What is to be done on the storage. -/
inductive JetStreamAction
  | staticDirectory (entries : List StaticDirectoryEntry)
  | metadataRead (file : MetadataFile)
  | listKvBuckets
  | ensureKvBucket (bucket : Str)
  | ensureKvDirectory (bucket pre : Str)
  | listKvPrefix (bucket pre : Str)
  | kvGet (bucket key : Str)
  | kvPut (bucket key : Str)
  | kvDelete (bucket key : Str)
  | kvHistory (bucket key : Str)
  | listKvHistoryPrefix (bucket pre : Str)
  | kvRevision (bucket key : Str) (revision : Nat)
  | listStreams
  | listEventLogs
  | listAgents
  | ensureStream (stream : Str)
  | listStreamMessages (stream : Str)
  | listStreamSubjects (stream : Str)
  | streamMessage (stream : Str) (sequence : Nat)
  | publishJsonLines (stream subject : Str)
  | listObjectBuckets
  | ensureObjectBucket (bucket : Str)
  | ensureObjectDirectory (bucket pre : Str)
  | listObjectPrefix (bucket pre : Str)
  | objectGet (bucket object : Str)
  | objectPut (bucket object : Str)
  | objectDelete (bucket object : Str)
  | materializedGet (target : MaterializedTarget)
  | materializedPut (target : MaterializedTarget)
  | materializedDelete (target : MaterializedTarget)
  | rename (plan : RenamePlan)
  | noopDirectory
deriving DecidableEq, Repr

/-- The surfaces whose values can be renamed. -/
inductive RenameSurface
  | kv
  | object
  | tasks
  | agent (area : AgentArea)
  | semantic (area : SemanticArea)
deriving DecidableEq, Repr

def publishAction (stream : Str) (subject : StreamSubject) :
    Except EventFsError JetStreamAction :=
  .ok (.publishJsonLines stream subject.asStr)

/-- Only files that are stored can be read; the aliases read the value behind them. -/
def planRead (path : JetStreamPath) : Except EventFsError JetStreamAction :=
  match path with
  | .kvKey bucket key => .ok (.kvGet bucket key)
  | .kvRevision bucket key revision => .ok (.kvRevision bucket key revision)
  | .streamMessage stream sequence => .ok (.streamMessage stream sequence)
  | .streamSubject stream subject => publishAction stream subject
  | .object bucket object => .ok (.objectGet bucket object)
  | .metadataFile file => .ok (.metadataRead file)
  | _ =>
      match MaterializedTarget.fromPath path with
      | some target => .ok (.materializedGet target)
      | none => .error (.unsupportedAt "read".toList path)

def planGetattr (path : JetStreamPath) : Except EventFsError JetStreamAction :=
  if path.isDirectory then .ok .noopDirectory else planRead path

/-- A key or an object name may also be a directory of longer ones. -/
def planReaddir (path : JetStreamPath) : Except EventFsError JetStreamAction :=
  match path with
  | .root => .ok (.staticDirectory (rootDirectories.map .directory))
  | .kvRoot => .ok .listKvBuckets
  | .kvBucket bucket => .ok (.listKvPrefix bucket [])
  | .kvKey bucket key => .ok (.listKvPrefix bucket key)
  | .kvHistoryRoot bucket => .ok (.listKvHistoryPrefix bucket [])
  | .kvHistoryKey bucket key => .ok (.kvHistory bucket key)
  | .streamsRoot => .ok .listStreams
  | .streamRoot _ =>
      .ok (.staticDirectory [.directory "messages".toList, .directory "subjects".toList])
  | .streamMessages stream => .ok (.listStreamMessages stream)
  | .streamSubjects stream => .ok (.listStreamSubjects stream)
  | .objectsRoot => .ok .listObjectBuckets
  | .objectBucket bucket => .ok (.listObjectPrefix bucket [])
  | .object bucket object => .ok (.listObjectPrefix bucket object)
  | .eventsRoot => .ok .listEventLogs
  | .tasksRoot => .ok (.listKvPrefix tasksBucket [])
  | .taskNamespace ns => .ok (.listKvPrefix tasksBucket ns)
  | .agentsRoot => .ok .listAgents
  | .agentRoot _ =>
      .ok (.staticDirectory [.file "inbox".toList, .file "outbox".toList,
        .directory "tasks".toList, .directory "memory".toList])
  | .agentDirectory agent area => .ok (.listKvPrefix agentsBucket (agent ++ '/' :: area.asStr))
  | .semanticRoot =>
      .ok (.staticDirectory [.directory "summaries".toList, .directory "tags".toList,
        .directory "relations".toList, .directory "timelines".toList,
        .directory "embeddings".toList])
  | .semanticArea area => .ok (.listKvPrefix semanticBucket area.asStr)
  | .agentRecord agent area path =>
      .ok (.listKvPrefix agentsBucket (agent ++ '/' :: area.asStr ++ '/' :: path))
  | .semanticRecord area path => .ok (.listKvPrefix semanticBucket (area.asStr ++ '/' :: path))
  | .metadataRoot =>
      .ok (.staticDirectory ([.status, .cache, .queue, .capabilities, .errors].map
        fun file => .file (MetadataFile.fileName file)))
  | _ => .error (.unsupportedAt "readdir".toList path)

/-- Streams are appended to, values are replaced; revisions and messages are read only. -/
def planWrite (path : JetStreamPath) : Except EventFsError JetStreamAction :=
  match path with
  | .kvKey bucket key => .ok (.kvPut bucket key)
  | .streamSubject stream subject => publishAction stream subject
  | .eventLog _ | .agentMailbox _ _ =>
      match MaterializedTarget.fromPath path with
      | some (.stream stream subject) => .ok (.publishJsonLines stream subject)
      | _ => .error (.unsupportedAt "write".toList path)
  | .object bucket object => .ok (.objectPut bucket object)
  | .task _ _ | .agentRecord _ .tasks _ | .agentRecord _ .memory _ | .semanticRecord _ _ =>
      match MaterializedTarget.fromPath path with
      | some target => .ok (.materializedPut target)
      | none => .error (.unsupportedAt "write".toList path)
  | .kvRevision _ _ _ | .streamMessage _ _ => .error (.readOnlyAt path)
  | _ =>
      if path.isDirectory then .error (.unsupported "write".toList path .isDirectory)
      else .error (.unsupportedAt "write".toList path)

/-- Only buckets and streams are made; below them a directory exists through its keys. -/
def planMkdir (path : JetStreamPath) : Except EventFsError JetStreamAction :=
  match path with
  | .kvBucket bucket => .ok (.ensureKvBucket bucket)
  | .streamRoot stream => .ok (.ensureStream stream)
  | .streamMessages _ | .streamSubjects _ => .ok .noopDirectory
  | .objectBucket bucket => .ok (.ensureObjectBucket bucket)
  | .taskNamespace _ | .agentRoot _ | .agentDirectory _ _ | .semanticArea _ => .ok .noopDirectory
  | .kvKey bucket key => .ok (.ensureKvDirectory bucket key)
  | .object bucket object => .ok (.ensureObjectDirectory bucket object)
  | _ => .error (.unsupportedAt "mkdir".toList path)

/-- Values can be removed, lines and revisions cannot. -/
def planUnlink (path : JetStreamPath) : Except EventFsError JetStreamAction :=
  match path with
  | .kvKey bucket key => .ok (.kvDelete bucket key)
  | .object bucket object => .ok (.objectDelete bucket object)
  | .task _ _ | .agentRecord _ _ _ | .semanticRecord _ _ =>
      match MaterializedTarget.fromPath path with
      | some target => .ok (.materializedDelete target)
      | none => .error (.unsupportedAt "unlink".toList path)
  | .kvRevision _ _ _ | .streamMessage _ _ => .error (.readOnlyAt path)
  | _ => .error (.unsupportedAt "unlink".toList path)

def renameSurface : JetStreamPath → Option RenameSurface
  | .kvKey _ _ => some .kv
  | .object _ _ => some .object
  | .task _ _ => some .tasks
  | .agentRecord _ area _ => some (.agent area)
  | .semanticRecord area _ => some (.semantic area)
  | _ => none

def crossDeviceRename (path : JetStreamPath) : EventFsError :=
  .unsupported "rename".toList path .crossDevice

/-- Both ends must show values of one surface, and of one bucket. -/
def planRename (src dst : JetStreamPath) : Except EventFsError JetStreamAction :=
  match renameSurface src, renameSurface dst with
  | some srcSurface, some dstSurface =>
      if srcSurface ≠ dstSurface then .error (crossDeviceRename src)
      else
        let materialized : Except EventFsError JetStreamAction :=
          match MaterializedTarget.fromPath src, MaterializedTarget.fromPath dst with
          | some (.kv fromBucket fromKey), some (.kv toBucket toKey) =>
              if fromBucket ≠ toBucket then .error (crossDeviceRename src)
              else .ok (.rename (.kv fromBucket fromKey toBucket toKey))
          | _, _ => .error (crossDeviceRename src)
        match src, dst with
        | .kvKey fromBucket fromKey, .kvKey toBucket toKey =>
            if fromBucket = toBucket then .ok (.rename (.kv fromBucket fromKey toBucket toKey))
            else materialized
        | .object fromBucket fromObject, .object toBucket toObject =>
            if fromBucket = toBucket then
              .ok (.rename (.object fromBucket fromObject toBucket toObject))
            else materialized
        | _, _ => materialized
  | _, _ => .error (crossDeviceRename src)

/-- A file is created by the action that writes it. -/
def planOperation (intent : FileIntent) (path : JetStreamPath) :
    Except EventFsError JetStreamAction :=
  match intent with
  | .getAttr => planGetattr path
  | .readDir => planReaddir path
  | .read => planRead path
  | .write | .create => planWrite path
  | .mkdir => planMkdir path
  | .unlink => planUnlink path
  | .rename dst => planRename path dst

end EventFs.Protocol

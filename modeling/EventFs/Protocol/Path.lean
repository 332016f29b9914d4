import EventFs.Protocol.FileNames

/-!
# Parsing mount paths

`JetStreamPath.parse` splits a path into components and reads them surface by
surface. The source matches one slice pattern per path; here each surface has a
function of its own over the components after the surface's name.
-/

namespace EventFs.Protocol

open Library

/-! ## Validation -/

/-- Bucket and stream names, task namespaces and agents: ASCII letters, digits, `_` and `-`. -/
def validateToken (value label : Str) : Except EventFsError Unit :=
  if value.isEmpty then .error (.invalidPathText ("missing ".toList ++ label))
  else if value.all fun ch => Text.isAsciiAlphanumeric ch || ch == '_' || ch == '-' then .ok ()
  else .error (.invalidPathText ("invalid ".toList ++ label))

def validateBucket (value : Str) : Except EventFsError Unit :=
  validateToken value "bucket".toList

def validateStream (value : Str) : Except EventFsError Unit :=
  validateToken value "stream".toList

def validateName (value label : Str) : Except EventFsError Unit := validateToken value label

/-- A name that becomes the first part of a key must not be one of the reserved markers. -/
def validateMaterializedRootName (value label : Str) : Except EventFsError Unit := do
  validateName value label
  if isReservedKvKey value then
    .error (.invalidPathText (label ++ " uses a reserved internal KV prefix".toList))
  else .ok ()

/-- No empty part at either end or inside, and no wildcard, blank or control character. -/
def validateSubject (value : Str) : Except EventFsError Unit :=
  if value.isEmpty || Text.startsWith ['.'] value || Text.endsWith ['.'] value ||
      Text.contains "..".toList value then
    .error (.invalidPathText "invalid subject".toList)
  else if value.any fun ch =>
      Text.isControl ch || Text.isWhitespace ch || ch == '*' || ch == '>' then
    .error (.invalidPathText "invalid subject".toList)
  else .ok ()

/-- A component of a path below a surface. A leading dot hides it. -/
def validComponent (value : Str) : Bool :=
  !(value.isEmpty || value == ['.'] || value == ['.', '.'] || value.contains '\x00' ||
    Text.startsWith ['.'] value)

def validateComponent (value : Str) : Except EventFsError Unit :=
  if validComponent value then .ok ()
  else .error (.invalidPathText "invalid path component".toList)

/-- The characters that the broker allows in keys. -/
def isKvKeyChar (ch : Char) : Bool :=
  Text.isAsciiAlphanumeric ch || ch == '-' || ch == '_' || ch == '=' || ch == '.' || ch == '/'

def validateKvKey (value : Str) : Except EventFsError Unit :=
  if value.isEmpty || Text.startsWith ['.'] value || Text.endsWith ['.'] value then
    .error (.invalidPathText "invalid kv key".toList)
  else if isReservedKvKey value then
    .error (.invalidPathText "kv key uses a reserved internal prefix".toList)
  else if value.all isKvKeyChar then .ok ()
  else .error (.invalidPathText "invalid kv key".toList)

/-- A `.json` file whose name is a key. -/
def validateJsonFile (value label : Str) : Except EventFsError Unit :=
  if Text.endsWith ".json".toList value then do
    validateComponent value
    validateKvKey value
  else .error (.invalidPathText (label ++ " must end in .json".toList))

/-! ## Components -/

/-- The components between slashes. Slashes at either end are dropped, others must not be
doubled. -/
def components (path : Str) : Except EventFsError (List Str) :=
  if path.contains '\x00' then .error (.invalidPathText "path contains NUL".toList)
  else
    let trimmed := Text.trimMatches '/' path
    if trimmed.isEmpty then .ok []
    else
      let parts := trimmed.splitOn '/'
      if parts.any fun part => part.isEmpty || part == ['.'] || part == ['.', '.'] then
        .error (.invalidPathText "invalid path component".toList)
      else .ok parts

/-- A key or an object name from the components that are left. -/
def joinPath (parts : List Str) : Except EventFsError Str :=
  if parts.isEmpty then .error (.invalidPathText "missing path".toList)
  else if parts.all validComponent then .ok (['/'].intercalate parts)
  else .error (.invalidPathText "invalid path component".toList)

def joinKvKey (parts : List Str) : Except EventFsError Str := do
  let key ← joinPath parts
  validateKvKey key
  return key

/-- The name of a stream message, `<sequence>.json`. -/
def parseSequenceFile (value : Str) : Except EventFsError Nat :=
  match Text.stripSuffix ".json".toList value with
  | none => .error (.invalidPathText "stream message files must end in .json".toList)
  | some stem =>
      match Text.parseU64 stem with
      | some sequence => .ok sequence
      | none => .error (.invalidPathText "stream message sequence must be numeric".toList)

def parseJsonlStem (value label : Str) : Except EventFsError Str :=
  match Text.stripSuffix ".jsonl".toList value with
  | none => .error (.invalidPathText (label ++ " must end in .jsonl".toList))
  | some stem => do
      validateStream stem
      return stem

/-- The subject whose file has this name. -/
def StreamSubject.parseFileName (name : Str) : Except EventFsError StreamSubject := do
  let subject ← parseStreamSubjectFileName name
  validateSubject subject
  return ⟨subject⟩

/-! ## Surfaces -/

/-- A last component `@<revision>` under `.history` asks for one revision. -/
def parseKvRevisionMarker (value : Str) : Except EventFsError (Option Nat) :=
  match Text.stripPrefix ['@'] value with
  | none => .ok none
  | some revision =>
      if revision.isEmpty then
        .error (.invalidPathText "kv history revision marker must include a revision".toList)
      else
        match Text.parseU64 revision with
        | some revision => .ok (some revision)
        | none => .error (.invalidPathText "kv history revision must be numeric".toList)

def parseKvHistory (bucket : Str) (rest : List Str) : Except EventFsError JetStreamPath := do
  validateBucket bucket
  if rest.isEmpty then
    return .kvHistoryRoot bucket
  match ← parseKvRevisionMarker (rest.getLastD []) with
  | some revision =>
      if rest.length = 1 then
        .error (.invalidPathText "kv history revision paths require a key".toList)
      else
        return .kvRevision bucket (← joinKvKey rest.dropLast) revision
  | none => return .kvHistoryKey bucket (← joinKvKey rest)

def parseKv : List Str → Except EventFsError JetStreamPath
  | [] => .ok .kvRoot
  | [bucket] => do
      validateBucket bucket
      return .kvBucket bucket
  | bucket :: first :: rest =>
      if first = ".history".toList then parseKvHistory bucket rest
      else do
        validateBucket bucket
        return .kvKey bucket (← joinKvKey (first :: rest))

def unsupportedMountPath : EventFsError := .invalidPathText "unsupported mount path".toList

def parseStreams : List Str → Except EventFsError JetStreamPath
  | [] => .ok .streamsRoot
  | [stream] => do
      validateStream stream
      return .streamRoot stream
  | [stream, area] =>
      if area = "messages".toList then do
        validateStream stream
        return .streamMessages stream
      else if area = "subjects".toList then do
        validateStream stream
        return .streamSubjects stream
      else .error unsupportedMountPath
  | [stream, area, file] =>
      if area = "messages".toList then do
        validateStream stream
        return .streamMessage stream (← parseSequenceFile file)
      else if area = "subjects".toList then do
        validateStream stream
        return .streamSubject stream (← StreamSubject.parseFileName file)
      else .error unsupportedMountPath
  | _ => .error unsupportedMountPath

def parseObjects : List Str → Except EventFsError JetStreamPath
  | [] => .ok .objectsRoot
  | [bucket] => do
      validateBucket bucket
      return .objectBucket bucket
  | bucket :: rest => do
      validateBucket bucket
      return .object bucket (← joinPath rest)

def parseEvents : List Str → Except EventFsError JetStreamPath
  | [] => .ok .eventsRoot
  | [eventFile] => return .eventLog (← parseJsonlStem eventFile "event files".toList)
  | _ => .error unsupportedMountPath

def parseTasks : List Str → Except EventFsError JetStreamPath
  | [] => .ok .tasksRoot
  | [ns] => do
      validateMaterializedRootName ns "task namespace".toList
      return .taskNamespace ns
  | [ns, task] => do
      validateMaterializedRootName ns "task namespace".toList
      validateJsonFile task "task files".toList
      return .task ns task
  | _ => .error unsupportedMountPath

/-- A mailbox is a file; tasks and memory are directories of records. -/
def parseAgentArea (agent area : Str) (rest : List Str) :
    Except EventFsError JetStreamPath := do
  validateMaterializedRootName agent "agent".toList
  match AgentArea.parse area with
  | none => .error (.invalidPathText "unknown agent area".toList)
  | some area =>
      if area.isMailbox then
        if rest.isEmpty then return .agentMailbox agent area
        else
          .error (.invalidPathText "agent mailbox paths are JSONL files, not directories".toList)
      else if rest.isEmpty then return .agentDirectory agent area
      else return .agentRecord agent area (← joinKvKey rest)

def parseAgents : List Str → Except EventFsError JetStreamPath
  | [] => .ok .agentsRoot
  | [agent] => do
      validateMaterializedRootName agent "agent".toList
      return .agentRoot agent
  | agent :: area :: rest => parseAgentArea agent area rest

def parseSemantic : List Str → Except EventFsError JetStreamPath
  | [] => .ok .semanticRoot
  | area :: rest =>
      match SemanticArea.parse area with
      | none => .error (.invalidPathText "unknown semantic area".toList)
      | some area =>
          if rest.isEmpty then .ok (.semanticArea area)
          else return .semanticRecord area (← joinKvKey rest)

def parseMetadata : List Str → Except EventFsError JetStreamPath
  | [] => .ok .metadataRoot
  | [file] =>
      match MetadataFile.parse file with
      | some file => .ok (.metadataFile file)
      | none => .error (.invalidPathText "unknown metadata file".toList)
  | _ => .error unsupportedMountPath

/-- The first component names the surface. -/
def JetStreamPath.parseComponents : List Str → Except EventFsError JetStreamPath
  | [] => .ok .root
  | surface :: rest =>
      if surface = "kv".toList then parseKv rest
      else if surface = "streams".toList then parseStreams rest
      else if surface = "objects".toList then parseObjects rest
      else if surface = "events".toList then parseEvents rest
      else if surface = "tasks".toList then parseTasks rest
      else if surface = "agents".toList then parseAgents rest
      else if surface = "semantic".toList then parseSemantic rest
      else if surface = ".eventfs".toList then parseMetadata rest
      else .error unsupportedMountPath

def JetStreamPath.parse (path : Str) : Except EventFsError JetStreamPath := do
  JetStreamPath.parseComponents (← components path)

/-- The paths that are directories whatever is stored. -/
def JetStreamPath.isDirectory : JetStreamPath → Bool
  | .root | .kvRoot | .kvBucket _ | .kvHistoryRoot _ | .kvHistoryKey _ _ | .streamsRoot
  | .streamRoot _ | .streamMessages _ | .streamSubjects _ | .objectsRoot | .objectBucket _
  | .eventsRoot | .tasksRoot | .taskNamespace _ | .agentsRoot | .agentRoot _
  | .agentDirectory _ _ | .semanticRoot | .semanticArea _ | .metadataRoot => true
  | _ => false

end EventFs.Protocol

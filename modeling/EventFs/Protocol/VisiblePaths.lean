import EventFs.Protocol.MountPath

/-!
# Storage facts and the paths that show them

One stored value may be shown at several mount paths: its native path and the
aliases of the materialized surfaces. `StorageFact.fromJetstreamPath` says which
value a path shows, `visiblePaths` which paths show a value.
-/

namespace EventFs.Protocol

open Library

inductive MaterializedTarget
  | kv (bucket key : Str)
  | stream (stream subject : Str)
deriving DecidableEq, Repr

structure AgentSubject where
  stream : Str
  subject : Str
deriving DecidableEq, Repr

def agentSubject (agent : Str) (area : AgentArea) : Option AgentSubject :=
  if area.isMailbox then
    some ⟨agentsStream, "agents.".toList ++ agent ++ '.' :: area.asStr⟩
  else none

def MaterializedTarget.fromPath : JetStreamPath → Option MaterializedTarget
  | .eventLog log => some (.stream log ("events.".toList ++ log))
  | .task ns task => some (.kv tasksBucket (ns ++ '/' :: task))
  | .agentMailbox agent area =>
      (agentSubject agent area).map fun subject => .stream subject.stream subject.subject
  | .agentRecord agent area path =>
      some (.kv agentsBucket (agent ++ '/' :: area.asStr ++ '/' :: path))
  | .semanticRecord area path => some (.kv semanticBucket (area.asStr ++ '/' :: path))
  | _ => none

inductive StorageFact
  | kv (bucket key : Str)
  | streamSubject (stream subject : Str)
  | object (bucket name : Str)
deriving DecidableEq, Repr

def StorageFact.fromMaterializedTarget : MaterializedTarget → StorageFact
  | .kv bucket key => .kv bucket key
  | .stream stream subject => .streamSubject stream subject

def StorageFact.fromJetstreamPath : JetStreamPath → Option StorageFact
  | .kvKey bucket key => some (.kv bucket key)
  | .streamSubject stream subject => some (.streamSubject stream subject.asStr)
  | .object bucket name => some (.object bucket name)
  | path => (MaterializedTarget.fromPath path).map .fromMaterializedTarget

inductive AffectedPathReason
  | exact
  | ancestor
  | alias_
  | mailbox
deriving DecidableEq, Repr

structure AffectedPath where
  path : MountPath
  reason : AffectedPathReason
deriving DecidableEq

def pushUnique (paths : List AffectedPath) (affected : AffectedPath) : List AffectedPath :=
  if paths.any fun candidate => candidate.path == affected.path then paths
  else paths ++ [affected]

def joinStoragePath (fixed : List Str) (tail : Option Str) : Except EventFsError MountPath :=
  match tail with
  | none => MountPath.fromComponents fixed
  | some tail =>
      if tail.isEmpty then .error (.invalidPathText "missing path tail".toList)
      else MountPath.fromComponents (fixed ++ tail.splitOn '/')

def pushStoragePath (paths : List AffectedPath) (reason : AffectedPathReason) (fixed : List Str)
    (tail : Option Str) : Except EventFsError (List AffectedPath) := do
  return pushUnique paths ⟨← joinStoragePath fixed tail, reason⟩

/-- The first two components of a key and the rest of it, all nonempty. -/
def agentKvAliasParts (key : Str) : Option (Str × Str × Str) :=
  match key.splitOn '/' with
  | agent :: area :: next :: more =>
      let rest := ['/'].intercalate (next :: more)
      if agent.isEmpty || area.isEmpty || rest.isEmpty then none else some (agent, area, rest)
  | _ => none

def agentMailboxSubjectParts (subject : Str) : Option (Str × AgentArea) :=
  match subject.splitOn '.' with
  | [first, agent, area] =>
      if first ≠ "agents".toList || agent.isEmpty || isReservedKvKey agent then none
      else
        match AgentArea.parse area with
        | some area => if area.isMailbox then some (agent, area) else none
        | none => none
  | _ => none

def pushKvAliasPaths (paths : List AffectedPath) (bucket key : Str) :
    Except EventFsError (List AffectedPath) :=
  if bucket = tasksBucket then pushStoragePath paths .alias_ ["tasks".toList] (some key)
  else if bucket = agentsBucket then
    match agentKvAliasParts key with
    | none => .ok paths
    | some (agent, area, rest) =>
        pushStoragePath paths .alias_ ["agents".toList, agent, area] (some rest)
  else if bucket = semanticBucket then
    pushStoragePath paths .alias_ ["semantic".toList] (some key)
  else .ok paths

def pushStreamAliasPaths (paths : List AffectedPath) (stream subject : Str) :
    Except EventFsError (List AffectedPath) := do
  let paths ←
    if Text.stripPrefix "events.".toList subject = some stream then
      pushStoragePath paths .alias_ ["events".toList] (some (stream ++ ".jsonl".toList))
    else .ok paths
  if stream = agentsStream then
    match agentMailboxSubjectParts subject with
    | some (agent, area) =>
        pushStoragePath paths .mailbox ["agents".toList, agent, area.asStr] none
    | none => .ok paths
  else .ok paths

def visiblePaths : StorageFact → Except EventFsError (List AffectedPath)
  | .kv bucket key => do
      let paths ← pushStoragePath [] .exact ["kv".toList, bucket] (some key)
      pushKvAliasPaths paths bucket key
  | .streamSubject stream subject => do
      let paths ← pushStoragePath [] .exact ["streams".toList, stream, "subjects".toList]
        (some (streamSubjectFileNameFromStr subject))
      pushStreamAliasPaths paths stream subject
  | .object bucket name => pushStoragePath [] .exact ["objects".toList, bucket] (some name)

end EventFs.Protocol

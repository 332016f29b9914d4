import EventFs.Protocol.VisiblePaths

/-!
# Paths a change may affect

The visible paths of a storage fact together with the directories above them, down
to a floor that depends on the surface.
-/

namespace EventFs.Protocol

open Library

def ancestorFloor (components : List Str) (sourceReason : AffectedPathReason) : Nat :=
  match components.head? with
  | none => components.length
  | some first =>
      if first = "kv".toList ∨ first = "objects".toList then 2
      else if first = "streams".toList then 3
      else if first = "tasks".toList ∨ first = "semantic".toList then 2
      else if first = "events".toList then 1
      else if first = "agents".toList then if sourceReason = .mailbox then 1 else 2
      else components.length

/-- Add the directories above `path`, the nearest first. -/
def pushAncestors (paths : List AffectedPath) (path : MountPath)
    (sourceReason : AffectedPathReason) : Except EventFsError (List AffectedPath) :=
  let components := path.components
  let floor := ancestorFloor components sourceReason
  ((List.range (components.length - floor)).reverse.map (· + floor)).foldlM (fun paths len => do
    return pushUnique paths ⟨← MountPath.fromComponents (components.take len), .ancestor⟩) paths

def invalidationPaths (fact : StorageFact) : Except EventFsError (List AffectedPath) := do
  (← visiblePaths fact).foldlM
    (fun paths affected => pushAncestors (pushUnique paths affected) affected.path affected.reason)
    []

def prioritizeSourcePath (paths : List AffectedPath) (sourcePath : MountPath) :
    Except EventFsError (List AffectedPath) :=
  match paths.find? fun affected => affected.path == sourcePath with
  | none => .ok paths
  | some source => do
      let reordered ← pushAncestors (pushUnique [] source) source.path source.reason
      return paths.foldl pushUnique reordered

def mountPathFromJetstreamPath : JetStreamPath → Except EventFsError MountPath
  | .root => MountPath.new "/".toList
  | .kvRoot => MountPath.new "/kv".toList
  | .kvBucket bucket => joinStoragePath ["kv".toList, bucket] none
  | .kvKey bucket key => joinStoragePath ["kv".toList, bucket] (some key)
  | .kvHistoryRoot bucket => joinStoragePath ["kv".toList, bucket, ".history".toList] none
  | .kvHistoryKey bucket key =>
      joinStoragePath ["kv".toList, bucket, ".history".toList] (some key)
  | .kvRevision bucket key revision =>
      joinStoragePath ["kv".toList, bucket, ".history".toList]
        (some (key ++ "/@".toList ++ Text.decimal revision))
  | .streamsRoot => MountPath.new "/streams".toList
  | .streamRoot stream => joinStoragePath ["streams".toList, stream] none
  | .streamMessages stream => joinStoragePath ["streams".toList, stream, "messages".toList] none
  | .streamMessage stream sequence =>
      joinStoragePath ["streams".toList, stream, "messages".toList]
        (some (Text.decimal sequence ++ ".json".toList))
  | .streamSubjects stream => joinStoragePath ["streams".toList, stream, "subjects".toList] none
  | .streamSubject stream subject =>
      joinStoragePath ["streams".toList, stream, "subjects".toList]
        (some (streamSubjectFileNameFromStr subject.asStr))
  | .objectsRoot => MountPath.new "/objects".toList
  | .objectBucket bucket => joinStoragePath ["objects".toList, bucket] none
  | .object bucket object => joinStoragePath ["objects".toList, bucket] (some object)
  | .eventsRoot => MountPath.new "/events".toList
  | .eventLog stream => joinStoragePath ["events".toList] (some (stream ++ ".jsonl".toList))
  | .tasksRoot => MountPath.new "/tasks".toList
  | .taskNamespace ns => joinStoragePath ["tasks".toList, ns] none
  | .task ns task => joinStoragePath ["tasks".toList, ns] (some task)
  | .agentsRoot => MountPath.new "/agents".toList
  | .agentRoot agent => joinStoragePath ["agents".toList, agent] none
  | .agentMailbox agent area | .agentDirectory agent area =>
      joinStoragePath ["agents".toList, agent, area.asStr] none
  | .agentRecord agent area path =>
      joinStoragePath ["agents".toList, agent, area.asStr] (some path)
  | .semanticRoot => MountPath.new "/semantic".toList
  | .semanticArea area => joinStoragePath ["semantic".toList, area.asStr] none
  | .semanticRecord area path => joinStoragePath ["semantic".toList, area.asStr] (some path)
  | .metadataRoot => MountPath.new "/.eventfs".toList
  | .metadataFile file => joinStoragePath [".eventfs".toList, file.fileName] none

def invalidationPathsForMountPath (path : JetStreamPath) :
    Except EventFsError (List AffectedPath) := do
  let sourcePath ← mountPathFromJetstreamPath path
  match StorageFact.fromJetstreamPath path with
  | some fact => prioritizeSourcePath (← invalidationPaths fact) sourcePath
  | none => pushAncestors [⟨sourcePath, .exact⟩] sourcePath .exact

end EventFs.Protocol

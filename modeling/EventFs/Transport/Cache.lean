import EventFs.Transport.Storage
import EventFs.Protocol.Invalidation
import EventFs.Protocol.ParseCases

/-!
# Invalidation plans and the read cache
-/

namespace EventFs.Transport

open Library Protocol

/-- How far an invalidation reaches: one path, what is below it too, or everything. -/
inductive InvalidationScope
  | exactEntry
  | subtree
  | all
deriving DecidableEq, Repr

structure InvalidationAction where
  path : MountPath
  scope : InvalidationScope
deriving DecidableEq

/-- The actions are applied in order. -/
abbrev InvalidationPlan := List InvalidationAction

namespace InvalidationPlan

def gap : InvalidationPlan := [⟨MountPath.root, .all⟩]

def exactEntry (path : MountPath) : InvalidationPlan := [⟨path, .exactEntry⟩]

def subtree (path : MountPath) : InvalidationPlan := [⟨path, .subtree⟩]

/-- Of a directory above the change only the listing is affected. -/
def forAffectedPath (path : MountPath) : AffectedPathReason → InvalidationPlan
  | .ancestor => exactEntry path
  | .exact | .alias_ | .mailbox => subtree path

/-- A refreshed path that is not one of the mount empties everything. -/
def forWatchEvent : WatchEvent → InvalidationPlan
  | .invalidatePath path => subtree path
  | .invalidateAffectedPath path reason => forAffectedPath path reason
  | .refresh entry =>
      match MountPath.new entry.path with
      | .ok path => subtree path
      | .error _ => gap
  | .gap => gap

/-- Equal actions are listed once. -/
def push (plan : InvalidationPlan) (action : InvalidationAction) : InvalidationPlan :=
  if plan.any fun candidate => candidate == action then plan else plan ++ [action]

def extend (plan other : InvalidationPlan) : InvalidationPlan := other.foldl push plan

/-- The plan for the paths that show a changed value. -/
def fromAffectedPaths (paths : List AffectedPath) : InvalidationPlan :=
  paths.foldl (fun plan affected => extend plan (forAffectedPath affected.path affected.reason)) []

/-- The plan for a change that the mount has made itself. -/
def forLocalMutation (path : MountPath) : Except EventFsError InvalidationPlan := do
  let parsed ← JetStreamPath.parse path.asStr
  return fromAffectedPaths (← invalidationPathsForMountPath parsed)

end InvalidationPlan

/-- The root is never matched by an action on everything. -/
def pathMatchesAction (path : MountPath) (action : InvalidationAction) : Bool :=
  match action.scope with
  | .exactEntry => path == action.path
  | .subtree => path.isSelfOrDescendantOf action.path
  | .all => !path.isRoot

/-- The cached contents by path. The generation counts how often everything was dropped. -/
structure LocalCache where
  entries : Std.ExtTreeMap Str CacheEntry
  generation : Nat

namespace LocalCache

def new : LocalCache := ⟨∅, 0⟩

def insert (cache : LocalCache) (entry : CacheEntry) : LocalCache :=
  { cache with entries := cache.entries.insert entry.path entry }

/-- Only valid entries are found. -/
def get (cache : LocalCache) (path : Str) : Option CacheEntry :=
  cache.entries[path]?.filter (·.valid)

def invalidate (cache : LocalCache) (path : Str) : LocalCache :=
  { cache with entries := cache.entries.erase path }

/-- An entry whose path is not a mount path goes with every action. -/
def applyAction (cache : LocalCache) (action : InvalidationAction) : LocalCache :=
  match action.scope with
  | .all => ⟨∅, min (cache.generation + 1) (2 ^ 64 - 1)⟩
  | .exactEntry | .subtree =>
      { cache with
        entries := cache.entries.filter fun path _ =>
          match MountPath.new path with
          | .ok path => !pathMatchesAction path action
          | .error _ => false }

def applyInvalidation (cache : LocalCache) (plan : InvalidationPlan) : LocalCache :=
  plan.foldl applyAction cache

/-- A refreshed entry is stored after its path has been invalidated. -/
def apply (cache : LocalCache) (event : WatchEvent) : LocalCache :=
  let cache := cache.applyInvalidation (.forWatchEvent event)
  match event with
  | .refresh entry => cache.insert entry
  | _ => cache

/-! ## What invalidation removes -/

variable {cache : LocalCache}

theorem get_of_entries {path : Str} (h : cache.entries[path]? = none) : cache.get path = none := by
  rw [get, h]
  rfl

/-- An action adds nothing. -/
theorem applyAction_of_none {path : Str} (h : cache.entries[path]? = none)
    (action : InvalidationAction) : (cache.applyAction action).entries[path]? = none := by
  rw [applyAction]
  split
  · exact Std.ExtTreeMap.getElem?_empty
  · rw [Std.ExtTreeMap.getElem?_filter', h]
    rfl
  · rw [Std.ExtTreeMap.getElem?_filter', h]
    rfl

/-- An action on a path or on a path above it removes the entry. -/
theorem applyAction_of_matches {path : MountPath} {action : InvalidationAction}
    (h : action.scope = .all ∨ pathMatchesAction path action = true) :
    (cache.applyAction action).entries[path.asStr]? = none := by
  rw [applyAction]
  split
  · exact Std.ExtTreeMap.getElem?_empty
  · next hScope =>
    have hMatches := h.resolve_left (by rw [hScope]; decide)
    rw [Std.ExtTreeMap.getElem?_filter', MountPath.new_asStr]
    simp [hMatches]
  · next hScope =>
    have hMatches := h.resolve_left (by rw [hScope]; decide)
    rw [Std.ExtTreeMap.getElem?_filter', MountPath.new_asStr]
    simp [hMatches]

theorem applyInvalidation_of_none {path : Str} (h : cache.entries[path]? = none)
    (plan : InvalidationPlan) : (cache.applyInvalidation plan).entries[path]? = none := by
  induction plan generalizing cache with
  | nil => exact h
  | cons action rest ih => exact ih (applyAction_of_none h action)

/-- One action of the plan that reaches the path is enough. -/
theorem applyInvalidation_of_mem {path : MountPath} {plan : InvalidationPlan}
    (h : ∃ action ∈ plan, action.scope = .all ∨ pathMatchesAction path action = true) :
    (cache.applyInvalidation plan).entries[path.asStr]? = none := by
  obtain ⟨action, hMem, hMatches⟩ := h
  obtain ⟨front, back, rfl⟩ := List.append_of_mem hMem
  rw [applyInvalidation, List.foldl_append, List.foldl_cons]
  exact applyInvalidation_of_none (applyAction_of_matches hMatches) back

/-- Every reason reaches the path itself. -/
theorem pathMatchesAction_self {path : MountPath} {reason : AffectedPathReason} :
    ∃ action ∈ InvalidationPlan.forAffectedPath path reason,
      pathMatchesAction path action = true := by
  cases reason <;>
    exact ⟨_, List.mem_singleton.mpr rfl,
      by simp [pathMatchesAction, MountPath.isSelfOrDescendantOf]⟩

end LocalCache

end EventFs.Transport

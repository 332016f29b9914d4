import EventFs.Protocol.PathFacts
import EventFs.Protocol.PlannedFacts

/-!
# The ends of a rename

Each surface of the mount shows a value at one path only. So a rename from one path to
another one moves a value to a different place.
-/

namespace EventFs.Protocol

open Library

variable {parts others : List Str} {fact : StorageFact}

/-- The directory of a surface. -/
def RenameSurface.front : RenameSurface → Str
  | .kv => "kv".toList
  | .object => "objects".toList
  | .tasks => "tasks".toList
  | .agent _ => "agents".toList
  | .semantic _ => "semantic".toList

theorem front_of_surface {parsed : JetStreamPath} {surface : RenameSurface}
    (h : Parses parts parsed) (hSurface : renameSurface parsed = some surface) :
    parsed.isValue = true ∧ parts.head? = some surface.front := by
  cases h <;> cases hSurface <;> exact ⟨rfl, rfl⟩

/-- The key, the subject or the name of the object. -/
def StorageFact.name : StorageFact → Str
  | .kv _ name | .streamSubject _ name | .object _ name => name

/-- The part of a path that comes before the components of the name. -/
def shownFront (head : Str) (fact : StorageFact) : List Str :=
  if head = "kv".toList ∨ head = "objects".toList then [head, fact.container] else [head]

theorem Shows.split (h : Shows parts fact) :
    ∃ names, names ≠ [] ∧ parts = shownFront (parts.headD []) fact ++ names ∧
      fact.name = ['/'].intercalate names := by
  cases h with
  | kv bucket hne => exact ⟨_, hne, rfl, rfl⟩
  | object bucket hne => exact ⟨_, hne, rfl, rfl⟩
  | task hne => exact ⟨_, hne, rfl, rfl⟩
  | agent agent area hne => exact ⟨_, List.cons_ne_nil _ _, rfl, rfl⟩
  | semantic hne => exact ⟨_, hne, rfl, rfl⟩

/-- A value is shown at one path of a surface only. -/
theorem Shows.injective (h : Shows parts fact) (hOther : Shows others fact)
    (hValid : MountPath.Valid parts) (hValidOthers : MountPath.Valid others)
    (hFront : parts.headD [] = others.headD []) : parts = others := by
  obtain ⟨names, hne, hParts, hName⟩ := h.split
  obtain ⟨names', hne', hOthers, hName'⟩ := hOther.split
  have hShown : MountPath.Valid names := by
    rw [hParts] at hValid
    exact fun part hMem => hValid part (List.mem_append_right _ hMem)
  have hShownOthers : MountPath.Valid names' := by
    rw [hOthers] at hValidOthers
    exact fun part hMem => hValidOthers part (List.mem_append_right _ hMem)
  have hNames : names = names' := by
    rw [← MountPath.splitOn_intercalate_of_valid hShown hne, ← hName, hName',
      MountPath.splitOn_intercalate_of_valid hShownOthers hne']
  rw [hParts, hOthers, hFront, hNames]

/-- A rename of a path to another one has two different ends. -/
theorem ends_distinct {fromPath toPath : MountPath} {source target : JetStreamPath}
    {plan : RenamePlan} (hSource : JetStreamPath.parse fromPath.asStr = .ok source)
    (hTarget : JetStreamPath.parse toPath.asStr = .ok target)
    (hPlan : planRename source target = .ok (.rename plan)) (hne : fromPath ≠ toPath) :
    plan.source ≠ plan.target := by
  obtain ⟨_, ⟨⟩, hFrom, hTo, -, surface, hSurface, hSurface'⟩ := planRename_facts hPlan
  have hParses := parse_cases hSource
  have hParses' := parse_cases hTarget
  obtain ⟨hValue, hFront⟩ := front_of_surface hParses hSurface
  obtain ⟨hValue', hFront'⟩ := front_of_surface hParses' hSurface'
  obtain ⟨fact, hFact, hShows⟩ := shows_of_parse hSource hValue
  obtain ⟨fact', hFact', hShows'⟩ := shows_of_parse hTarget hValue'
  obtain rfl : fact = plan.source := Option.some.inj (hFact.symm.trans hFrom)
  obtain rfl : fact' = plan.target := Option.some.inj (hFact'.symm.trans hTo)
  intro hSame
  rw [← hSame] at hShows'
  have hHead : fromPath.components.headD [] = toPath.components.headD [] := by
    rw [List.headD_eq_head?_getD, List.headD_eq_head?_getD, hFront, hFront']
  have hComponents :=
    hShows.injective hShows' fromPath.valid_components toPath.valid_components hHead
  apply hne
  apply MountPath.ext
  rw [← MountPath.render_components, hComponents, MountPath.render_components]

end EventFs.Protocol

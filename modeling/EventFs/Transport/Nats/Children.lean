import EventFs.Transport.ImmediateChildren

/-!
# The listing of the NATS client

The NATS client has its own copies of `immediate_children` and `merge_child_entry`. The prefix is
cut off as text and the first entry of a name is changed in place; the results are those of the
in-memory storage.
-/

namespace EventFs.Transport.Nats

open Library Protocol

/-- Change the first entry of the name, or add one at the end. -/
def mergeChildEntry : List DirectoryEntry → Str → EntryKind → List DirectoryEntry
  | [], name, kind => [⟨name, kind⟩]
  | entry :: rest, name, kind =>
      if entry.name = name then
        (if kind = .file then { entry with kind := .file } else entry) :: rest
      else entry :: mergeChildEntry rest name kind

def prefixWithSlash (normalizedPrefix : Str) : Str :=
  if normalizedPrefix.isEmpty then [] else normalizedPrefix ++ ['/']

def immediateChild (prefixWithSlash key : Str) : Option DirectoryEntry :=
  if !Text.startsWith prefixWithSlash key then none
  else
    let rest := key.drop prefixWithSlash.length
    if rest.isEmpty then none
    else
      match Text.splitOnce '/' rest with
      | some (dir, _) => some ⟨dir, .directory⟩
      | none => some ⟨rest, .file⟩

def immediateChildren (keys : List Str) (pre : Str) : List DirectoryEntry :=
  sortByName <|
    (keys.filterMap (immediateChild (prefixWithSlash (Text.trimMatches '/' pre)))).foldl
      (fun entries child => mergeChildEntry entries child.name child.kind) []

/-! ## The copies agree -/

theorem immediateChild_eq (normalizedPrefix key : Str) :
    immediateChild (prefixWithSlash normalizedPrefix) key =
      Transport.immediateChild normalizedPrefix key := by
  rw [immediateChild, Transport.immediateChild, prefixWithSlash]
  by_cases hEmpty : normalizedPrefix.isEmpty = true
  · rw [if_pos hEmpty, if_pos hEmpty]
    rfl
  · rw [if_neg hEmpty, if_neg hEmpty]
    cases hStrip : Text.stripPrefix (normalizedPrefix ++ ['/']) key with
    | none =>
      have hStarts : Text.startsWith (normalizedPrefix ++ ['/']) key = false := by
        rw [Text.startsWith, Bool.eq_false_iff, ne_eq, List.isPrefixOf_iff_prefix]
        exact Text.stripPrefix_eq_none.mp hStrip
      rw [hStarts]
      rfl
    | some rest =>
      obtain rfl := Text.stripPrefix_eq_some.mp hStrip
      have hStarts : Text.startsWith (normalizedPrefix ++ ['/'])
          (normalizedPrefix ++ ['/'] ++ rest) = true := by
        rw [Text.startsWith, List.isPrefixOf_iff_prefix]
        exact List.prefix_append _ _
      rw [hStarts, List.drop_left]
      rfl

/-- To make a file of a file changes nothing. -/
theorem mergeChildEntry_eq (entries : List DirectoryEntry) (name : Str) (kind : EntryKind) :
    mergeChildEntry entries name kind = Transport.mergeChildEntry entries name kind := by
  induction entries with
  | nil => rfl
  | cons entry rest ih =>
    rw [mergeChildEntry, ih, Transport.mergeChildEntry, Transport.mergeChildEntry, List.any_cons,
      changeNamed]
    by_cases hEq : entry.name = name
    · subst hEq
      obtain ⟨other, found⟩ := entry
      cases found <;> cases kind <;> simp
    · rw [if_neg hEq, if_neg hEq, beq_eq_false_iff_ne.mpr hEq, Bool.false_or]
      split <;> rfl

theorem immediateChildren_eq (keys : List Str) (pre : Str) :
    immediateChildren keys pre = Transport.immediateChildren keys pre := by
  have hChild : immediateChild (prefixWithSlash (Text.trimMatches '/' pre)) =
      Transport.immediateChild (Text.trimMatches '/' pre) :=
    funext (immediateChild_eq _)
  rw [immediateChildren, Transport.immediateChildren, hChild]
  simp only [mergeChildEntry_eq]

end EventFs.Transport.Nats

import EventFs.Fuse.Projection
import EventFs.Protocol.PathAlgebra

/-!
# How deep the overlay looks

Laying the overlay over a directory looks into a child only on the way to a deleted path. A
nested call is therefore one component deeper and at or above a deleted path, no path is visited
twice, and the longest deleted path bounds the depth. Termination is stated as congruence: the
listing equals the one computed without the guards, with any larger fuel, whatever an exhausted
call would answer.
-/

namespace EventFs.Fuse

open Library Protocol Transport

/-! ## Children on the way to a path -/

theorem remainder_eq {dir file : MountPath} {back : List Str}
    (hFile : file.components = dir.components ++ back) (hBack : back ≠ []) :
    (if dir.isRoot then Text.stripPrefix ['/'] file.asStr
      else (Text.stripPrefix dir.asStr file.asStr).bind (Text.stripPrefix ['/'])) =
      some (['/'].intercalate back) := by
  have hne : file.components ≠ [] := by simp [hFile, hBack]
  split_ifs with hRoot
  · rw [MountPath.isRoot_iff] at hRoot
    rw [hRoot, List.nil_append] at hFile
    rw [Text.stripPrefix_eq_some, ← MountPath.render_components, MountPath.render_of_ne_nil hne,
      hFile]
    rfl
  · rw [MountPath.isRoot_iff] at hRoot
    rw [Option.bind_eq_some_iff]
    refine ⟨'/' :: ['/'].intercalate back, ?_, Text.stripPrefix_append ['/'] _⟩
    rw [Text.stripPrefix_eq_some, MountPath.asStr_append_slash hRoot,
      ← MountPath.render_components, MountPath.render_of_ne_nil hne, hFile,
      Text.intercalate_append hRoot hBack]

/-- A child on the way to a file is the next component of the file. -/
theorem queuedDirectoryChild_eq_some {dir file : MountPath} {child : DirectoryEntry} :
    queuedDirectoryChild dir file = some child ↔
      ∃ rest, file.components = dir.components ++ child.name :: rest ∧
        child.kind = if rest = [] then .file else .directory := by
  have hNext {name : Str} {rest : List Str}
      (hFile : file.components = dir.components ++ name :: rest) :
      queuedDirectoryChild dir file =
        some ⟨name, if rest = [] then .file else .directory⟩ := by
    have hBelow : file.isDescendantOf dir = true :=
      MountPath.isDescendantOf_iff.mpr ⟨_, List.cons_ne_nil _ _, hFile⟩
    have hValid : MountPath.Valid (name :: rest) :=
      (MountPath.valid_append.mp (hFile ▸ file.valid_components)).2
    obtain ⟨c, tail, hHead, -⟩ := MountPath.intercalate_head hValid (List.cons_ne_nil _ _)
    have hSplit := MountPath.splitOn_intercalate_of_valid hValid (List.cons_ne_nil _ _)
    rw [queuedDirectoryChild, hBelow, remainder_eq hFile (List.cons_ne_nil _ _)]
    simp only [Bool.not_true, Bool.false_eq_true, if_false, hSplit]
    rw [hHead]
    cases rest <;> simp
  constructor
  · intro h
    have hBelow : file.isDescendantOf dir = true := by
      by_contra hNot
      rw [queuedDirectoryChild, Bool.eq_false_iff.mpr hNot] at h
      cases h
    obtain ⟨back, hBack, hFile⟩ := MountPath.isDescendantOf_iff.mp hBelow
    obtain ⟨name, rest, rfl⟩ := List.exists_cons_of_ne_nil hBack
    rw [hNext hFile] at h
    obtain rfl := Option.some.inj h
    exact ⟨rest, hFile, rfl⟩
  · rintro ⟨rest, hFile, hKind⟩
    rw [hNext hFile, ← hKind]

/-! ## Nested calls -/

/-- The paths that the queue deletes. -/
def deletedPaths (changes : List QueuedOverlayChange) : List MountPath :=
  changes.flatMap (·.deletedPaths)

/-- The listing of `path` may look into `childPath`: it is a child on the way to a deleted path. -/
def NestedCall (changes : List QueuedOverlayChange) (path childPath : MountPath) : Prop :=
  ∃ deleted ∈ deletedPaths changes, ∃ child, queuedDirectoryChild path deleted = some child ∧
    path.joinChild child.name = .ok childPath

/-- The longest deleted path. -/
def longestDeleted (changes : List QueuedOverlayChange) : Nat :=
  (deletedPaths changes).foldl (fun n path => max n path.components.length) 0

theorem overlayFuel_eq (changes : List QueuedOverlayChange) :
    overlayFuel changes = longestDeleted changes + 1 := rfl

theorem le_foldl_max (paths : List MountPath) (n : Nat) :
    n ≤ paths.foldl (fun n path => max n path.components.length) n ∧
      ∀ path ∈ paths, path.components.length ≤
        paths.foldl (fun n path => max n path.components.length) n := by
  induction paths generalizing n with
  | nil => simp
  | cons first rest ih =>
    rw [List.foldl_cons, List.forall_mem_cons]
    obtain ⟨hStart, hRest⟩ := ih (max n first.components.length)
    exact ⟨by omega, by omega, hRest⟩

theorem le_longestDeleted {changes : List QueuedOverlayChange} {path : MountPath}
    (h : path ∈ deletedPaths changes) : path.components.length ≤ longestDeleted changes :=
  (le_foldl_max _ 0).2 path h

variable {changes : List QueuedOverlayChange} {path childPath : MountPath}

/-- A nested call is one component deeper, at or above a deleted path. -/
theorem NestedCall.components (h : NestedCall changes path childPath) :
    (∃ name, childPath.components = path.components ++ [name]) ∧
      ∃ deleted ∈ deletedPaths changes, childPath.components <+: deleted.components := by
  obtain ⟨deleted, hDeleted, child, hChild, hJoin⟩ := h
  obtain ⟨rest, hRest, -⟩ := queuedDirectoryChild_eq_some.mp hChild
  have hValid : validMountComponent child.name = true :=
    deleted.valid_components _ (by rw [hRest]; simp)
  obtain ⟨joined, hJoined, hComponents⟩ := MountPath.exists_joinChild path hValid
  obtain rfl : joined = childPath := Except.ok.inj (hJoined.symm.trans hJoin)
  refine ⟨⟨child.name, hComponents⟩, deleted, hDeleted, ?_⟩
  rw [hComponents, hRest]
  exact ⟨rest, by simp⟩

theorem NestedCall.length_le (h : NestedCall changes path childPath) :
    childPath.components.length = path.components.length + 1 ∧
      childPath.components.length ≤ longestDeleted changes := by
  obtain ⟨⟨name, hName⟩, deleted, hDeleted, hPrefix⟩ := h.components
  refine ⟨by rw [hName, List.length_append, List.length_singleton], ?_⟩
  exact hPrefix.length_le.trans (le_longestDeleted hDeleted)

/-- The paths being visited are at or above the path. -/
def VisitedAbove (visited : List MountPath) (path : MountPath) : Prop :=
  ∀ seen ∈ visited, seen.components <+: path.components

theorem visitedAbove_nil (path : MountPath) : VisitedAbove [] path := by
  intro seen hSeen
  cases hSeen

/-- No guard finds the path of a nested call, and the visited paths stay above. -/
theorem NestedCall.not_visited {visited : List MountPath} (h : NestedCall changes path childPath)
    (hVisited : VisitedAbove visited path) :
    childPath ∉ visited ∧ VisitedAbove (childPath :: visited) childPath := by
  obtain ⟨⟨name, hName⟩, -⟩ := h.components
  constructor
  · intro hMem
    have hLength := (hVisited childPath hMem).length_le
    rw [hName, List.length_append, List.length_singleton] at hLength
    omega
  · intro seen hSeen
    rcases List.mem_cons.mp hSeen with rfl | hSeen
    · exact List.prefix_rfl
    · rw [hName]
      exact (hVisited seen hSeen).trans (List.prefix_append _ _)

/-! ## The listing without guards -/

namespace DirectoryReader

variable {m : Type → Type} [Monad m] (reader : DirectoryReader m)

theorem foldlM_congr {α β : Type} {f g : β → α → m β} {items : List α}
    (h : ∀ item ∈ items, ∀ acc, f acc item = g acc item) (acc : β) :
    items.foldlM f acc = items.foldlM g acc := by
  induction items generalizing acc with
  | nil => rfl
  | cons item rest ih =>
    rw [List.foldlM_cons, List.foldlM_cons, h item List.mem_cons_self]
    exact bind_congr fun next =>
      ih (fun other hOther => h other (List.mem_cons_of_mem _ hOther)) next

/-- The overlay of a listing with no guard in it. `cut` answers what is beyond the fuel. -/
def unguardedOverlay (changes : List QueuedOverlayChange)
    (cut : MountPath → List DirectoryEntry → m (List DirectoryEntry)) :
    Nat → MountPath → List DirectoryEntry → m (List DirectoryEntry)
  | 0, path, entries => cut path entries
  | fuel + 1, path, entries =>
      -- nothing has been visited, so neither guard answers
      changes.foldlM (reader.applyChange
        (fun childPath entries _ => unguardedOverlay changes cut fuel childPath entries) path [])
        entries

section Congruence

variable {recurse other : MountPath → List DirectoryEntry → List MountPath →
    m (List DirectoryEntry)}
  {visited visited' : List MountPath}

theorem childHasKnownVisibleEntries_congr (hNew : childPath ∉ visited)
    (hNew' : childPath ∉ visited')
    (h : ∀ entries, recurse childPath entries (childPath :: visited) =
      other childPath entries (childPath :: visited')) :
    reader.childHasKnownVisibleEntries recurse childPath visited =
      reader.childHasKnownVisibleEntries other childPath visited' := by
  rw [childHasKnownVisibleEntries, childHasKnownVisibleEntries, if_neg hNew, if_neg hNew']
  simp only [h]

theorem childHasVisibleEntries_congr (hNew : childPath ∉ visited) (hNew' : childPath ∉ visited')
    (h : ∀ entries, recurse childPath entries (childPath :: visited) =
      other childPath entries (childPath :: visited')) :
    reader.childHasVisibleEntries recurse childPath visited =
      reader.childHasVisibleEntries other childPath visited' := by
  rw [childHasVisibleEntries, childHasVisibleEntries, if_neg hNew, if_neg hNew']
  simp only [h]

/-- All that a listing looks into are nested calls. -/
theorem applyOverlay_congr
    (hNew : ∀ childPath, NestedCall changes path childPath →
      childPath ∉ visited ∧ childPath ∉ visited')
    (h : ∀ childPath entries, NestedCall changes path childPath →
      recurse childPath entries (childPath :: visited) =
        other childPath entries (childPath :: visited')) (entries : List DirectoryEntry) :
    changes.foldlM (reader.applyChange recurse path visited) entries =
      changes.foldlM (reader.applyChange other path visited') entries := by
  apply foldlM_congr
  intro change hChange entries
  have hDelete : ∀ deleted ∈ change.deletedPaths, ∀ entries,
      reader.applyDelete recurse path visited entries deleted =
        reader.applyDelete other path visited' entries deleted := by
    intro deleted hDeleted entries
    rw [applyDelete, applyDelete]
    cases hChild : queuedDirectoryChild path deleted with
    | none => rfl
    | some child =>
      dsimp only
      cases hJoin : path.joinChild child.name with
      | error err => rfl
      | ok childPath =>
        have hNested : NestedCall changes path childPath :=
          ⟨deleted, List.mem_flatMap.mpr ⟨change, hChange, hDeleted⟩, child, hChild, hJoin⟩
        obtain ⟨hLeft, hRight⟩ := hNew childPath hNested
        simp only [reader.childHasKnownVisibleEntries_congr hLeft hRight
            fun entries => h childPath entries hNested,
          reader.childHasVisibleEntries_congr hLeft hRight
            fun entries => h childPath entries hNested]
  rw [applyChange, applyChange, foldlM_congr hDelete]

end Congruence

/-- With fuel for the way to the longest deleted path, the listing is the one without guards, for
any fuel as large and whatever is answered beyond it. -/
theorem overlay_eq_unguarded
    (cut : MountPath → List DirectoryEntry → m (List DirectoryEntry)) (fuel fuel' : Nat)
    {visited : List MountPath} (hVisited : VisitedAbove visited path)
    (hFuel : longestDeleted changes - path.components.length < fuel)
    (hFuel' : longestDeleted changes - path.components.length < fuel')
    (entries : List DirectoryEntry) :
    reader.applyQueuedOverlayToDirectory changes fuel path entries visited =
      reader.unguardedOverlay changes cut fuel' path entries := by
  induction fuel generalizing fuel' path visited entries with
  | zero => omega
  | succ fuel ih =>
    obtain ⟨fuel', rfl⟩ := Nat.exists_eq_succ_of_ne_zero (Nat.ne_zero_of_lt hFuel')
    rw [applyQueuedOverlayToDirectory, unguardedOverlay]
    apply reader.applyOverlay_congr
    · intro childPath hNested
      exact ⟨(hNested.not_visited hVisited).1, List.not_mem_nil⟩
    · intro childPath entries hNested
      obtain ⟨hDeeper, hLongest⟩ := hNested.length_le
      exact ih fuel' (hNested.not_visited hVisited).2 (by omega) (by omega) entries

theorem visitedAbove_self (path : MountPath) : VisitedAbove [path] path := by
  intro seen hSeen
  rw [List.mem_singleton.mp hSeen]

theorem longestDeleted_lt_overlayFuel (changes : List QueuedOverlayChange) (path : MountPath) :
    longestDeleted changes - path.components.length < overlayFuel changes := by
  rw [overlayFuel_eq]
  omega

/-- The overlay with just the fuel that the path needs. -/
def overlay (changes : List QueuedOverlayChange) (path : MountPath)
    (entries : List DirectoryEntry) (visited : List MountPath) : m (List DirectoryEntry) :=
  reader.applyQueuedOverlayToDirectory changes
    (longestDeleted changes - path.components.length + 1) path entries visited

/-- The overlay solves the equation of the recursion, in which no fuel occurs. -/
theorem overlay_eq {visited : List MountPath} (hVisited : VisitedAbove visited path)
    (entries : List DirectoryEntry) :
    reader.overlay changes path entries visited =
      changes.foldlM (reader.applyChange (reader.overlay changes) path visited) entries := by
  rw [overlay, applyQueuedOverlayToDirectory]
  apply reader.applyOverlay_congr
  · intro childPath hNested
    exact ⟨(hNested.not_visited hVisited).1, (hNested.not_visited hVisited).1⟩
  · intro childPath entries hNested
    obtain ⟨hDeeper, hLongest⟩ := hNested.length_le
    have hFuel : longestDeleted changes - path.components.length =
        longestDeleted changes - childPath.components.length + 1 := by omega
    rw [hFuel]
    rfl

/-- Every solution of the equation is the overlay. The induction is on the levels left below. -/
theorem overlay_unique
    {other : MountPath → List DirectoryEntry → List MountPath → m (List DirectoryEntry)}
    (h : ∀ path entries visited, VisitedAbove visited path →
      other path entries visited = changes.foldlM (reader.applyChange other path visited) entries)
    {visited : List MountPath} (hVisited : VisitedAbove visited path)
    (entries : List DirectoryEntry) :
    other path entries visited = reader.overlay changes path entries visited := by
  generalize hLevels : longestDeleted changes - path.components.length = levels
  induction levels using Nat.strong_induction_on generalizing path visited entries with
  | h levels ih =>
    rw [h path entries visited hVisited, reader.overlay_eq hVisited]
    apply reader.applyOverlay_congr
    · intro childPath hNested
      exact ⟨(hNested.not_visited hVisited).1, (hNested.not_visited hVisited).1⟩
    · intro childPath entries hNested
      obtain ⟨hDeeper, hLongest⟩ := hNested.length_le
      exact ih _ (by omega) (hNested.not_visited hVisited).2 entries rfl

/-- The overlay recursion ends. Every nested call is one component deeper, at or above a deleted
path and not visited yet; listings look into nested calls only; the equation of the recursion has
exactly one solution, and the three functions compute it without ever meeting a guard or the end
of their fuel. -/
theorem overlay_terminates (changes : List QueuedOverlayChange) :
    (∀ path childPath, NestedCall changes path childPath →
      childPath.isDescendantOf path = true ∧
        childPath.components.length = path.components.length + 1 ∧
        (∃ deleted ∈ deletedPaths changes, childPath.components <+: deleted.components) ∧
        childPath.components.length ≤ longestDeleted changes ∧
        ∀ visited, VisitedAbove visited path →
          childPath ∉ visited ∧ VisitedAbove (childPath :: visited) childPath) ∧
    (∀ recurse other path visited entries, VisitedAbove visited path →
      (∀ childPath entries, NestedCall changes path childPath →
        recurse childPath entries (childPath :: visited) =
          other childPath entries (childPath :: visited)) →
        changes.foldlM (reader.applyChange recurse path visited) entries =
          changes.foldlM (reader.applyChange other path visited) entries) ∧
    (∀ path entries visited, VisitedAbove visited path →
      reader.overlay changes path entries visited =
        changes.foldlM (reader.applyChange (reader.overlay changes) path visited) entries) ∧
    (∀ other, (∀ path entries visited, VisitedAbove visited path →
        other path entries visited =
          changes.foldlM (reader.applyChange other path visited) entries) →
      ∀ path entries visited, VisitedAbove visited path →
        other path entries visited = reader.overlay changes path entries visited) ∧
    ∀ cut fuel path, overlayFuel changes ≤ fuel →
      (∀ entries, reader.applyQueuedOverlayToDirectory changes
        (overlayFuel changes) path entries [] =
          reader.unguardedOverlay changes cut fuel path entries ∧
        reader.overlay changes path entries [] =
          reader.unguardedOverlay changes cut fuel path entries) ∧
      reader.childHasKnownVisibleEntries
          (reader.applyQueuedOverlayToDirectory changes (overlayFuel changes)) path [] =
        reader.childHasKnownVisibleEntries
          (fun path entries _ => reader.unguardedOverlay changes cut fuel path entries) path [] ∧
      reader.childHasVisibleEntries
          (reader.applyQueuedOverlayToDirectory changes (overlayFuel changes)) path [] =
        reader.childHasVisibleEntries
          (fun path entries _ => reader.unguardedOverlay changes cut fuel path entries)
            path [] := by
  refine ⟨?_, ?_, fun path entries visited hVisited => reader.overlay_eq hVisited entries,
    fun other h path entries visited hVisited => reader.overlay_unique h hVisited entries, ?_⟩
  · intro path childPath hNested
    obtain ⟨⟨name, hName⟩, hDeleted⟩ := hNested.components
    obtain ⟨hDeeper, hLongest⟩ := hNested.length_le
    refine ⟨?_, hDeeper, hDeleted, hLongest, fun visited hVisited => hNested.not_visited hVisited⟩
    exact MountPath.isDescendantOf_iff.mpr ⟨[name], List.cons_ne_nil _ _, hName⟩
  · intro recurse other path visited entries hVisited h
    apply reader.applyOverlay_congr _ h
    intro childPath hNested
    exact ⟨(hNested.not_visited hVisited).1, (hNested.not_visited hVisited).1⟩
  · intro cut fuel path hFuel
    have hEnough := longestDeleted_lt_overlayFuel changes path
    have hBelow (entries : List DirectoryEntry) :
        reader.applyQueuedOverlayToDirectory changes (overlayFuel changes) path entries [path] =
          reader.unguardedOverlay changes cut fuel path entries :=
      reader.overlay_eq_unguarded cut _ _ (visitedAbove_self path) hEnough
        (hEnough.trans_le hFuel) entries
    refine ⟨?_, ?_, ?_⟩
    · intro entries
      exact ⟨reader.overlay_eq_unguarded cut _ _ (visitedAbove_nil path) hEnough
          (hEnough.trans_le hFuel) entries,
        reader.overlay_eq_unguarded cut _ _ (visitedAbove_nil path) (Nat.lt_succ_self _)
          (hEnough.trans_le hFuel) entries⟩
    · exact reader.childHasKnownVisibleEntries_congr List.not_mem_nil List.not_mem_nil hBelow
    · exact reader.childHasVisibleEntries_congr List.not_mem_nil List.not_mem_nil hBelow

end DirectoryReader

end EventFs.Fuse

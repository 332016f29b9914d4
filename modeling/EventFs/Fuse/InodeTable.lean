import EventFs.Fuse.Mount
import EventFs.Library.Inverse

/-!
# The inode table over whole runs

The kernel knows files by inode numbers, the rest of the mount by their paths. The table
holds both maps and edits them apart. Through every sequence of its operations they read
each other back, the root keeps inode 1, and no inode is given to two paths, for as long
as the counter has room.
-/

namespace EventFs.Fuse

open Library Protocol

/-- The root is below no other path. -/
theorem root_not_selfOrDescendant {path : MountPath} (h : ¬ path.isRoot = true) :
    MountPath.root.isSelfOrDescendantOf path = false := by
  have hComponents : MountPath.root.components = [] := rfl
  rw [MountPath.isSelfOrDescendantOf, Bool.or_eq_false_iff, beq_eq_false_iff_ne]
  refine ⟨?_, Bool.eq_false_iff.mpr ?_⟩
  · rintro rfl
    exact h rfl
  · intro hBelow
    obtain ⟨back, hBack, hPath⟩ := MountPath.isDescendantOf_iff.mp hBelow
    rw [hComponents] at hPath
    exact hBack (List.append_eq_nil_iff.mp hPath.symm).2

namespace PathCache

/-- The inode of a path. -/
def inode (cache : PathCache) (path : MountPath) : Option Nat := (cache.entry path).map Prod.fst

variable (cache : PathCache)

/-! ## What the operations do to the two maps -/

@[simp] theorem inode_remember (path : MountPath) (ino : Nat) (kind : FileType) :
    (cache.remember path ino kind).inode = Function.update cache.inode path (some ino) := by
  funext other
  by_cases h : other = path
  · subst h
    simp [inode, entry, remember]
  · have hCompare : compare path other ≠ .eq := fun hEq =>
      h (Std.LawfulEqCmp.eq_of_compare hEq).symm
    simp [inode, entry, remember, Std.ExtTreeMap.getElem?_insert, hCompare, h]

@[simp] theorem path_remember (path : MountPath) (ino : Nat) (kind : FileType) :
    (cache.remember path ino kind).path = Function.update cache.path ino (some path) := by
  funext other
  by_cases h : other = ino
  · subst h
    simp [PathCache.path, remember]
  · simp [PathCache.path, remember, Std.ExtTreeMap.getElem?_insert, Ne.symm h, h]

@[simp] theorem nextIno_remember (path : MountPath) (ino : Nat) (kind : FileType) :
    (cache.remember path ino kind).nextIno = cache.nextIno := rfl

theorem getElem?_foldl_erase (removed : List Nat) {byIno : Std.ExtTreeMap Nat MountPath}
    {ino : Nat} {path : MountPath} :
    (removed.foldl (fun byIno ino => byIno.erase ino) byIno)[ino]? = some path ↔
      byIno[ino]? = some path ∧ ino ∉ removed := by
  induction removed generalizing byIno with
  | nil => simp
  | cons first removed ih =>
      rw [List.foldl_cons, ih, Std.ExtTreeMap.getElem?_erase]
      by_cases h : ino = first
      · simp [h]
      · simp [h, Ne.symm h]

variable (matching : MountPath → Bool)

theorem inode_retainNot {path : MountPath} {ino : Nat} :
    (cache.retainNot matching).inode path = some ino ↔
      cache.inode path = some ino ∧ matching path = false := by
  simp only [inode, entry, retainNot, Std.ExtTreeMap.getElem?_filter']
  cases cache.byPath[path]? with
  | none => simp
  | some found => cases matching path <;> simp [Option.filter]

theorem notMem_removed {ino : Nat} :
    ino ∉ (cache.byPath.toList.filterMap fun (candidate, (ino, _)) =>
      if matching candidate then some ino else none) ↔
        ∀ other, cache.inode other = some ino → matching other = false := by
  simp only [List.mem_filterMap, not_exists, not_and]
  constructor
  · intro h other hOther
    obtain ⟨⟨found, kind⟩, hEntry, rfl⟩ := Option.map_eq_some_iff.mp hOther
    by_contra hMatching
    refine h (other, (found, kind)) (Std.ExtTreeMap.mem_toList_iff_getElem?_eq_some.mpr hEntry) ?_
    exact if_pos (Bool.not_eq_false _ ▸ hMatching)
  · rintro h ⟨other, found, kind⟩ hMem hIno
    have hEntry : cache.entry other = some (found, kind) :=
      Std.ExtTreeMap.mem_toList_iff_getElem?_eq_some.mp hMem
    split at hIno
    · next hMatching =>
      obtain rfl := Option.some.inj hIno
      have hOther : cache.inode other = some found := by rw [inode, hEntry, Option.map_some]
      rw [h other hOther] at hMatching
      cases hMatching
    · cases hIno

theorem path_retainNot {path : MountPath} {ino : Nat} :
    (cache.retainNot matching).path ino = some path ↔
      cache.path ino = some path ∧
        ∀ other, cache.inode other = some ino → matching other = false := by
  rw [← notMem_removed]
  exact getElem?_foldl_erase _

theorem inode_remove {path other : MountPath} {ino : Nat} :
    (cache.remove path).inode other = some ino ↔ cache.inode other = some ino ∧ other ≠ path := by
  unfold remove
  split
  · next found kind hEntry =>
    simp only [inode, entry, Std.ExtTreeMap.getElem?_erase, Std.LawfulEqCmp.compare_eq_iff_eq]
    by_cases h : other = path
    · simp [h]
    · simp [h, Ne.symm h]
  · next hEntry =>
    refine ⟨fun h => ⟨h, ?_⟩, And.left⟩
    rintro rfl
    rw [inode, entry, hEntry] at h
    cases h

theorem path_remove {path other : MountPath} {ino : Nat} :
    (cache.remove path).path ino = some other ↔
      cache.path ino = some other ∧ ∀ c, cache.inode c = some ino → c ≠ path := by
  unfold remove
  split
  · next found kind hEntry =>
    have hInode : cache.inode path = some found := by rw [inode, entry, hEntry, Option.map_some]
    have hFound : (∀ c, cache.inode c = some ino → c ≠ path) ↔ ino ≠ found := by
      constructor
      · rintro h rfl
        exact h path hInode rfl
      · rintro hne c hc rfl
        exact hne (Option.some.inj (hc.symm.trans hInode))
    rw [hFound]
    simp only [PathCache.path, Std.ExtTreeMap.getElem?_erase, Nat.compare_eq_eq]
    by_cases h : ino = found
    · simp [h]
    · simp [h, Ne.symm h]
  · next hEntry =>
    refine ⟨fun h => ⟨h, ?_⟩, And.left⟩
    rintro c hc rfl
    rw [inode, entry, hEntry] at hc
    cases hc

@[simp] theorem nextIno_remove (path : MountPath) :
    (cache.remove path).nextIno = cache.nextIno := by
  unfold remove
  split <;> rfl

variable {cache}

/-- A path that has an inode keeps it. -/
theorem ensure_of_some {path : MountPath} {ino : Nat} {old : FileType}
    (h : cache.entry path = some (ino, old)) (kind : FileType) :
    (cache.ensure path kind).1 = ino ∧ (cache.ensure path kind).2.inode = cache.inode ∧
      (cache.ensure path kind).2.path = cache.path ∧
      (cache.ensure path kind).2.nextIno = cache.nextIno := by
  have hEnsure : cache.ensure path kind =
      (ino, { cache with byPath := cache.byPath.insert path (ino, kind) }) := by
    rw [ensure, show cache.byPath[path]? = some (ino, old) from h]
  rw [hEnsure]
  refine ⟨rfl, ?_, rfl, rfl⟩
  funext other
  simp only [inode, entry, Std.ExtTreeMap.getElem?_insert, Std.LawfulEqCmp.compare_eq_iff_eq]
  split
  · next hSame =>
    subst hSame
    rw [show cache.byPath[path]? = some (ino, old) from h]
    rfl
  · rfl

/-- Any other path gets the next one. -/
theorem ensure_of_none {path : MountPath} (h : cache.entry path = none) (kind : FileType) :
    cache.ensure path kind = (cache.nextIno,
      remember { cache with nextIno := (cache.nextIno + 1) % 2 ^ 64 } path cache.nextIno kind) := by
  rw [ensure, show cache.byPath[path]? = none from h]

variable (cache)

/-- The table with nothing in it. -/
def cleared : PathCache := { cache with byPath := ∅, byIno := ∅ }

theorem inode_remember_cleared (path : MountPath) (ino : Nat) (kind : FileType) {other : MountPath}
    {found : Nat} : (cache.cleared.remember path ino kind).inode other = some found ↔
      other = path ∧ found = ino := by
  have hCleared : cache.cleared.inode = fun _ => none := by
    funext path
    simp [cleared, inode, entry]
  rw [inode_remember, hCleared]
  exact Inverse.update_none

theorem path_remember_cleared (path : MountPath) (ino : Nat) (kind : FileType) {other : MountPath}
    {found : Nat} : (cache.cleared.remember path ino kind).path found = some other ↔
      found = ino ∧ other = path := by
  have hCleared : cache.cleared.path = fun _ => none := by
    funext ino
    simp [cleared, PathCache.path]
  rw [path_remember, hCleared]
  exact Inverse.update_none

theorem inverse_remember_cleared (path : MountPath) (ino : Nat) (kind : FileType) :
    Inverse (cache.cleared.remember path ino kind).inode
      (cache.cleared.remember path ino kind).path := by
  intro other found
  rw [inode_remember_cleared, path_remember_cleared]
  exact and_comm

end PathCache

/-! ## Runs -/

/-- An operation on the table. The source never removes the root alone. -/
inductive PathOperation
  | ensure (path : MountPath) (kind : FileType)
  | remove (path : MountPath) (hChild : path.isRoot = false)
  | removeRecursive (path : MountPath)
  | removeDescendants (path : MountPath)

/-- The table, every inode that was given to a path with that path, and the number of
inodes taken from the counter. -/
structure InodeRun where
  cache : PathCache
  given : List (Nat × MountPath)
  allocations : Nat

namespace InodeRun

def new : InodeRun := ⟨PathCache.new, [(rootIno, MountPath.root)], 0⟩

def step (s : InodeRun) : PathOperation → InodeRun
  | .ensure path kind =>
      { cache := (s.cache.ensure path kind).2
        given := ((s.cache.ensure path kind).1, path) :: s.given
        allocations := if (s.cache.entry path).isNone then s.allocations + 1 else s.allocations }
  | .remove path _ => { s with cache := s.cache.remove path }
  | .removeRecursive path => { s with cache := s.cache.removeRecursive path }
  | .removeDescendants path => { s with cache := s.cache.removeDescendants path }

def after (operations : List PathOperation) : InodeRun := operations.foldl step new

/-- `once` says that no inode was given to two paths. -/
structure Invariant (s : InodeRun) : Prop where
  inverse : Inverse s.cache.inode s.cache.path
  root : s.cache.inode MountPath.root = some rootIno
  counter : s.cache.nextIno = rootIno + 1 + s.allocations
  recorded : ∀ ino path, s.cache.path ino = some path → (ino, path) ∈ s.given
  below : ∀ ino path, (ino, path) ∈ s.given → ino < s.cache.nextIno
  once : ∀ ino path path', (ino, path) ∈ s.given → (ino, path') ∈ s.given → path = path'

variable {s : InodeRun}

theorem invariant_new : new.Invariant where
  inverse := PathCache.inverse_remember_cleared ⟨∅, ∅, rootIno + 1⟩ _ _ .directory
  root := by simp [new, PathCache.new]
  counter := rfl
  recorded := by
    intro ino path h
    obtain ⟨rfl, rfl⟩ :=
      (PathCache.path_remember_cleared ⟨∅, ∅, rootIno + 1⟩ _ _ .directory).mp h
    exact List.mem_singleton_self _
  below := by
    intro ino path h
    obtain ⟨rfl, -⟩ := Prod.mk.inj (List.mem_singleton.mp h)
    decide
  once := by
    intro ino path path' h h'
    obtain ⟨-, rfl⟩ := Prod.mk.inj (List.mem_singleton.mp h)
    exact (Prod.mk.inj (List.mem_singleton.mp h')).2.symm

/-- Some paths leave the table, the root is none of them. -/
theorem Invariant.restrict (h : s.Invariant) {cache : PathCache} {keep : MountPath → Prop}
    (hInode : ∀ path ino, cache.inode path = some ino ↔ s.cache.inode path = some ino ∧ keep path)
    (hPath : ∀ path ino, cache.path ino = some path ↔
      s.cache.path ino = some path ∧ ∀ c, s.cache.inode c = some ino → keep c)
    (hNext : cache.nextIno = s.cache.nextIno) (hRoot : keep MountPath.root) :
    Invariant { s with cache } where
  inverse := h.inverse.restrict hInode hPath
  root := (hInode _ _).mpr ⟨h.root, hRoot⟩
  counter := hNext.trans h.counter
  recorded := fun ino path hIno => h.recorded ino path ((hPath path ino).mp hIno).1
  below := fun ino path hGiven => (h.below ino path hGiven).trans_eq hNext.symm
  once := h.once

theorem Invariant.path_of_inode (h : s.Invariant) {path : MountPath} {ino : Nat}
    (hIno : s.cache.inode path = some ino) : s.cache.path ino = some path :=
  (h.inverse path ino).mp hIno

/-- A path that is known changes nothing but its kind. -/
theorem Invariant.ensure_of_some (h : s.Invariant) {path : MountPath} {ino : Nat}
    {old kind : FileType} (hEntry : s.cache.entry path = some (ino, old)) :
    (s.step (.ensure path kind)).Invariant := by
  obtain ⟨hFirst, hInode, hPath, hNext⟩ := PathCache.ensure_of_some hEntry kind
  have hIno : s.cache.inode path = some ino := by rw [PathCache.inode, hEntry, Option.map_some]
  have hGiven : (ino, path) ∈ s.given := h.recorded ino path (h.path_of_inode hIno)
  have hSame (ino' : Nat) (path' : MountPath) :
      (ino', path') ∈ (s.step (.ensure path kind)).given ↔ (ino', path') ∈ s.given := by
    rw [step, hFirst, List.mem_cons]
    refine ⟨?_, Or.inr⟩
    rintro (hEq | hMem)
    · exact hEq ▸ hGiven
    · exact hMem
  refine ⟨?_, ?_, ?_, ?_, ?_, ?_⟩
  · show Inverse (s.cache.ensure path kind).2.inode (s.cache.ensure path kind).2.path
    rw [hInode, hPath]
    exact h.inverse
  · show (s.cache.ensure path kind).2.inode MountPath.root = some rootIno
    rw [hInode]
    exact h.root
  · simp only [step, hNext, hEntry, Option.isNone_some]
    exact h.counter
  · intro ino' path' hFound
    rw [hSame]
    exact h.recorded ino' path' (hPath ▸ hFound)
  · intro ino' path' hMem
    rw [hSame] at hMem
    exact (h.below ino' path' hMem).trans_eq hNext.symm
  · intro ino' path' path'' hMem hMem'
    rw [hSame] at hMem hMem'
    exact h.once ino' path' path'' hMem hMem'

/-- A path that is not known takes an inode that was never given. -/
theorem Invariant.ensure_of_none (h : s.Invariant) {path : MountPath} {kind : FileType}
    (hEntry : s.cache.entry path = none) (hRoom : rootIno + 1 + (s.allocations + 1) < 2 ^ 64) :
    (s.step (.ensure path kind)).Invariant := by
  have hEnsure := PathCache.ensure_of_none hEntry kind
  have hIno : s.cache.inode path = none := by rw [PathCache.inode, hEntry, Option.map_none]
  have hFresh (path' : MountPath) : (s.cache.nextIno, path') ∉ s.given := fun hMem =>
    (h.below _ _ hMem).ne rfl
  have hUnused : s.cache.path s.cache.nextIno = none := by
    cases hPath : s.cache.path s.cache.nextIno with
    | none => rfl
    | some path' => exact absurd (h.recorded _ _ hPath) (hFresh path')
  have hNext : (s.cache.nextIno + 1) % 2 ^ 64 = s.cache.nextIno + 1 := by
    rw [h.counter]
    exact Nat.mod_eq_of_lt hRoom
  have hRoot : MountPath.root ≠ path := by
    rintro rfl
    rw [h.root] at hIno
    cases hIno
  simp only [step, hEnsure, hEntry, Option.isNone_none, if_true]
  refine ⟨?_, ?_, ?_, ?_, ?_, ?_⟩
  · simp only [PathCache.inode_remember, PathCache.path_remember]
    exact h.inverse.insert hIno hUnused
  · simp only [PathCache.inode_remember, Function.update_of_ne hRoot]
    exact h.root
  · simp only [PathCache.nextIno_remember, hNext]
    rw [h.counter]
    rfl
  · intro ino' path' hFound
    simp only [PathCache.path_remember] at hFound
    by_cases hNew : ino' = s.cache.nextIno
    · subst hNew
      rw [Function.update_self] at hFound
      obtain rfl := Option.some.inj hFound
      exact List.mem_cons_self
    · rw [Function.update_of_ne hNew] at hFound
      exact List.mem_cons_of_mem _ (h.recorded ino' path' hFound)
  · intro ino' path' hMem
    simp only [PathCache.nextIno_remember, hNext]
    rcases List.mem_cons.mp hMem with hEq | hMem
    · obtain ⟨rfl, -⟩ := Prod.mk.inj hEq
      exact Nat.lt_succ_self _
    · exact (h.below ino' path' hMem).trans (Nat.lt_succ_self _)
  · intro ino' path' path'' hMem hMem'
    rcases List.mem_cons.mp hMem with hEq | hMem <;> rcases List.mem_cons.mp hMem' with hEq' | hMem'
    · exact (Prod.mk.inj hEq).2.trans (Prod.mk.inj hEq').2.symm
    · exact absurd ((Prod.mk.inj hEq).1 ▸ hMem') (hFresh path'')
    · exact absurd ((Prod.mk.inj hEq').1 ▸ hMem) (hFresh path')
    · exact h.once ino' path' path'' hMem hMem'

theorem Invariant.ensure (h : s.Invariant) (path : MountPath) (kind : FileType)
    (hRoom : rootIno + 1 + (s.step (.ensure path kind)).allocations < 2 ^ 64) :
    (s.step (.ensure path kind)).Invariant := by
  cases hEntry : s.cache.entry path with
  | some found => exact h.ensure_of_some hEntry
  | none =>
      refine h.ensure_of_none hEntry ?_
      simpa only [step, hEntry, Option.isNone_none, if_true] using hRoom

theorem Invariant.removeRecursive (h : s.Invariant) (path : MountPath) :
    (s.step (.removeRecursive path)).Invariant := by
  show Invariant { s with cache := s.cache.removeRecursive path }
  unfold PathCache.removeRecursive
  split
  · next hRoot =>
    obtain ⟨⟨ino, kind⟩, hEntry, hIno⟩ := Option.map_eq_some_iff.mp h.root
    rw [show s.cache.byPath[MountPath.root]? = some (ino, kind) from hEntry]
    obtain rfl : ino = rootIno := hIno
    refine @Invariant.restrict s h _ (fun path => path = MountPath.root) ?_ ?_ rfl rfl
    · intro other found
      refine (s.cache.inode_remember_cleared _ _ kind).trans ⟨?_, ?_⟩
      · rintro ⟨rfl, rfl⟩
        exact ⟨h.root, rfl⟩
      · rintro ⟨hFound, rfl⟩
        exact ⟨rfl, Option.some.inj (hFound.symm.trans h.root)⟩
    · intro other found
      refine (s.cache.path_remember_cleared _ _ kind).trans ⟨?_, ?_⟩
      · rintro ⟨rfl, rfl⟩
        exact ⟨h.path_of_inode h.root, fun c hc => h.inverse.key_eq hc h.root⟩
      · rintro ⟨hFound, hOnly⟩
        have hOther := (h.inverse other found).mpr hFound
        obtain rfl := hOnly other hOther
        exact ⟨Option.some.inj (hOther.symm.trans h.root), rfl⟩
  · next hRoot =>
    refine h.restrict (fun _ _ => s.cache.inode_retainNot _) (fun _ _ => s.cache.path_retainNot _)
      rfl ?_
    exact root_not_selfOrDescendant hRoot

theorem Invariant.step (h : s.Invariant) (operation : PathOperation)
    (hRoom : rootIno + 1 + (s.step operation).allocations < 2 ^ 64) :
    (s.step operation).Invariant := by
  cases operation with
  | ensure path kind => exact h.ensure path kind hRoom
  | remove path hChild =>
      refine h.restrict (fun _ _ => s.cache.inode_remove) (fun _ _ => s.cache.path_remove)
        (s.cache.nextIno_remove path) ?_
      rintro rfl
      cases hChild
  | removeRecursive path => exact h.removeRecursive path
  | removeDescendants path =>
      refine h.restrict (fun _ _ => s.cache.inode_retainNot _) (fun _ _ => s.cache.path_retainNot _)
        rfl ?_
      simp

theorem allocations_le_step (s : InodeRun) (operation : PathOperation) :
    s.allocations ≤ (s.step operation).allocations := by
  cases operation with
  | ensure path kind =>
      rw [step]
      split
      · exact Nat.le_succ _
      · exact le_rfl
  | remove path hChild => exact le_rfl
  | removeRecursive path => exact le_rfl
  | removeDescendants path => exact le_rfl

theorem invariant_after (operations : List PathOperation)
    (hRoom : rootIno + 1 + (after operations).allocations < 2 ^ 64) :
    (after operations).Invariant := by
  induction operations using List.reverseRecOn with
  | nil => exact invariant_new
  | append_singleton operations operation ih =>
      rw [after, List.foldl_append, List.foldl_cons, List.foldl_nil] at hRoom ⊢
      have hMono := allocations_le_step (operations.foldl InodeRun.step new) operation
      have hBefore : rootIno + 1 + (after operations).allocations < 2 ^ 64 :=
        (Nat.add_le_add_left hMono _).trans_lt hRoom
      exact (ih hBefore).step operation hRoom

/-- What the table promises to the rest of the mount. -/
structure Sound (s : InodeRun) : Prop where
  inverse : Inverse s.cache.inode s.cache.path
  rootInode : s.cache.inode MountPath.root = some rootIno
  rootPath : s.cache.path rootIno = some MountPath.root
  below : ∀ ino path, s.cache.path ino = some path → ino < s.cache.nextIno
  once : ∀ ino path path', (ino, path) ∈ s.given → (ino, path') ∈ s.given → path = path'

theorem Invariant.sound (h : s.Invariant) : s.Sound where
  inverse := h.inverse
  rootInode := h.root
  rootPath := h.path_of_inode h.root
  below := fun ino path hPath => h.below ino path (h.recorded ino path hPath)
  once := h.once

/-- While the counter has not run out, every sequence of operations leaves the table
sound. -/
theorem sound_after (operations : List PathOperation)
    (hFew : (after operations).allocations < 2 ^ 64 - 2) : (after operations).Sound := by
  have hRoom : rootIno + 1 + (after operations).allocations < 2 ^ 64 := by
    rw [rootIno]
    omega
  exact (invariant_after operations hRoom).sound

/-- No operation takes more than one inode. -/
theorem allocations_after_le (operations : List PathOperation) :
    (after operations).allocations ≤ operations.length := by
  induction operations using List.reverseRecOn with
  | nil => exact le_rfl
  | append_singleton operations operation ih =>
      rw [after, List.foldl_append, List.foldl_cons, List.foldl_nil, List.length_append]
      refine le_trans ?_ (Nat.add_le_add_right ih 1)
      show (step (after operations) operation).allocations ≤ _
      cases operation with
      | ensure path kind =>
          rw [step]
          split
          · exact le_rfl
          · exact Nat.le_succ _
      | remove path hChild => exact Nat.le_succ _
      | removeRecursive path => exact Nat.le_succ _
      | removeDescendants path => exact Nat.le_succ _

def kvDirectory : MountPath :=
  MountPath.ofValid (show MountPath.Valid ["kv".toList] by decide)

/-- A path that leaves the table and comes back. -/
theorem kvDirectory_sound :
    (after [.ensure kvDirectory .directory, .remove kvDirectory (by decide),
      .ensure kvDirectory .regularFile, .removeDescendants MountPath.root,
      .removeRecursive MountPath.root]).Sound := by
  refine sound_after _ ((allocations_after_le _).trans_lt ?_)
  decide

end InodeRun

end EventFs.Fuse

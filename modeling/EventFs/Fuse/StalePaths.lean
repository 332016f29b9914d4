import EventFs.Fuse.Mount

/-!
# One plan, two caches

An invalidation plan is applied to the read cache, which drops entries, and to the inode table,
whose paths become stale. Both effects are a union over the actions of the plan, so that they
depend only on which actions the plan has; on a path below the root both follow
`pathMatchesAction`.
-/

namespace EventFs.Transport

open Library Protocol

namespace LocalCache

/-- An action drops the entry of a key. A key that is no path is dropped by every action. -/
def drops (action : InvalidationAction) (key : Str) : Bool :=
  match action.scope with
  | .all => true
  | .exactEntry | .subtree =>
      match MountPath.new key with
      | .ok path => pathMatchesAction path action
      | .error _ => true

theorem getElem?_applyAction (cache : LocalCache) (action : InvalidationAction) (key : Str) :
    (cache.applyAction action).entries[key]? =
      if drops action key then none else cache.entries[key]? := by
  have hFilter (keep : Bool) :
      cache.entries[key]?.filter (fun _ => keep) = if !keep then none else cache.entries[key]? := by
    cases keep <;> cases cache.entries[key]? <;> rfl
  rw [applyAction, drops]
  cases action.scope with
  | all => exact Std.ExtTreeMap.getElem?_empty
  | exactEntry =>
    simp only
    rw [Std.ExtTreeMap.getElem?_filter', hFilter]
    cases MountPath.new key <;> simp
  | subtree =>
    simp only
    rw [Std.ExtTreeMap.getElem?_filter', hFilter]
    cases MountPath.new key <;> simp

/-- An entry survives a plan unchanged, unless an action of the plan drops it. -/
theorem getElem?_applyInvalidation (cache : LocalCache) (plan : InvalidationPlan) (key : Str) :
    (cache.applyInvalidation plan).entries[key]? =
      if plan.any (drops · key) then none else cache.entries[key]? := by
  induction plan generalizing cache with
  | nil => rfl
  | cons action rest ih =>
    rw [applyInvalidation, List.foldl_cons, ← applyInvalidation, ih, getElem?_applyAction,
      List.any_cons]
    cases drops action key <;> simp

/-- On the key of a path below the root, dropping is matching. -/
theorem drops_asStr {path : MountPath} (h : path.isRoot = false) (action : InvalidationAction) :
    drops action path.asStr = pathMatchesAction path action := by
  rw [drops, pathMatchesAction, MountPath.new_asStr]
  cases hScope : action.scope with
  | all => simp [h]
  | exactEntry => simp [pathMatchesAction, hScope]
  | subtree => simp [pathMatchesAction, hScope]

end LocalCache

end EventFs.Transport

namespace EventFs.Fuse

open Library Protocol Transport

namespace Mount

theorem mem_foldl_insert (matching : MountPath → Bool) (paths : List MountPath)
    (stale : Std.ExtTreeSet MountPath) (path : MountPath) :
    path ∈ paths.foldl
      (fun stale path => if matching path then stale.insert path else stale) stale ↔
      path ∈ stale ∨ path ∈ paths ∧ matching path = true := by
  induction paths generalizing stale with
  | nil => simp
  | cons first rest ih =>
    rw [List.foldl_cons, ih, List.mem_cons]
    by_cases hFirst : matching first = true
    · rw [if_pos hFirst, Std.ExtTreeSet.mem_insert, Std.LawfulEqCmp.compare_eq_iff_eq]
      constructor
      · rintro ((rfl | hStale) | ⟨hRest, hMatch⟩)
        · exact .inr ⟨.inl rfl, hFirst⟩
        · exact .inl hStale
        · exact .inr ⟨.inr hRest, hMatch⟩
      · rintro (hStale | ⟨rfl | hRest, hMatch⟩)
        · exact .inl (.inr hStale)
        · exact .inl (.inl rfl)
        · exact .inr ⟨hRest, hMatch⟩
    · rw [if_neg hFirst]
      constructor
      · rintro (hStale | ⟨hRest, hMatch⟩)
        · exact .inl hStale
        · exact .inr ⟨.inr hRest, hMatch⟩
      · rintro (hStale | ⟨rfl | hRest, hMatch⟩)
        · exact .inl hStale
        · exact absurd hMatch hFirst
        · exact .inr ⟨hRest, hMatch⟩

theorem mem_markStale {mount : Mount} {matching : MountPath → Bool} {path : MountPath} :
    path ∈ (mount.markStale matching).stalePaths ↔
      path ∈ mount.stalePaths ∨ path ∈ mount.paths.byPath ∧ matching path = true := by
  rw [markStale, mem_foldl_insert, Std.ExtTreeMap.mem_keys]

theorem applyPathAction_eq (mount : Mount) (action : InvalidationAction) :
    mount.applyPathAction action =
      mount.markStale fun path => !path.isRoot && pathMatchesAction path action := by
  rw [applyPathAction]
  cases hScope : action.scope with
  | all => simp only [pathMatchesAction, hScope, Bool.and_self]
  | exactEntry => simp only [pathMatchesAction, hScope]
  | subtree => simp only [pathMatchesAction, hScope]

@[simp] theorem paths_applyPathInvalidationPlan (mount : Mount) (plan : InvalidationPlan) :
    (mount.applyPathInvalidationPlan plan).paths = mount.paths := by
  induction plan generalizing mount with
  | nil => rfl
  | cons action rest ih =>
    rw [applyPathInvalidationPlan, List.foldl_cons, ← applyPathInvalidationPlan, ih,
      applyPathAction_eq]
    rfl

/-- A plan marks the known paths below the root that one of its actions matches. -/
theorem mem_applyPathInvalidationPlan {mount : Mount} {plan : InvalidationPlan}
    {path : MountPath} :
    path ∈ (mount.applyPathInvalidationPlan plan).stalePaths ↔
      path ∈ mount.stalePaths ∨ path ∈ mount.paths.byPath ∧ path.isRoot = false ∧
        plan.any (pathMatchesAction path) = true := by
  induction plan generalizing mount with
  | nil => simp [applyPathInvalidationPlan]
  | cons action rest ih =>
    have hPaths : (mount.applyPathAction action).paths = mount.paths := by
      rw [applyPathAction_eq]
      rfl
    rw [applyPathInvalidationPlan, List.foldl_cons, ← applyPathInvalidationPlan, ih, hPaths,
      applyPathAction_eq, mem_markStale, List.any_cons, Bool.or_eq_true, Bool.and_eq_true,
      Bool.not_eq_true']
    grind

/-- The paths that a plan makes stale when none is stale before. -/
def markedStale (mount : Mount) (plan : InvalidationPlan) : Std.ExtTreeSet MountPath :=
  ({ mount with stalePaths := ∅ }.applyInvalidationPlan plan).stalePaths

theorem mem_markedStale {mount : Mount} {plan : InvalidationPlan} {path : MountPath} :
    path ∈ mount.markedStale plan ↔ path ∈ mount.paths.byPath ∧ path.isRoot = false ∧
      plan.any (pathMatchesAction path) = true := by
  rw [markedStale, applyInvalidationPlan, mem_applyPathInvalidationPlan]
  simp

theorem any_congr_mem {plan other : InvalidationPlan}
    (h : ∀ action, action ∈ plan ↔ action ∈ other) (p : InvalidationAction → Bool) :
    plan.any p = other.any p := by
  rw [Bool.eq_iff_iff, List.any_eq_true, List.any_eq_true]
  simp only [h]

theorem cache_applyInvalidationPlan (mount : Mount) (plan : InvalidationPlan) :
    (mount.applyInvalidationPlan plan).cache = mount.cache.applyInvalidation plan := by
  have hCache (mount : Mount) : (mount.applyPathInvalidationPlan plan).cache = mount.cache := by
    induction plan generalizing mount with
    | nil => rfl
    | cons action rest ih =>
      rw [applyPathInvalidationPlan, List.foldl_cons, ← applyPathInvalidationPlan, ih,
        applyPathAction_eq]
      rfl
  rw [applyInvalidationPlan, hCache]

/-- A plan removes a path below the root from the read cache exactly if it marks the path stale;
what survives and what is stale depend only on which actions the plan has, and what no action
matches is untouched. -/
theorem plan_same_effect (mount : Mount) (plan : InvalidationPlan) :
    (∀ path : MountPath, path.isRoot = false → path ∈ mount.paths.byPath →
      path.asStr ∈ mount.cache.entries →
        (path.asStr ∉ (mount.applyInvalidationPlan plan).cache.entries ↔
          path ∈ mount.markedStale plan)) ∧
    (∀ path, path ∈ (mount.applyInvalidationPlan plan).stalePaths ↔
      path ∈ mount.stalePaths ∨ path ∈ mount.markedStale plan) ∧
    (∀ other : InvalidationPlan, (∀ action, action ∈ plan ↔ action ∈ other) →
      (mount.applyInvalidationPlan plan).cache.entries =
          (mount.applyInvalidationPlan other).cache.entries ∧
        (mount.applyInvalidationPlan plan).stalePaths =
          (mount.applyInvalidationPlan other).stalePaths) ∧
    (∀ path : MountPath, path.isRoot = false →
      (∀ action ∈ plan, pathMatchesAction path action = false) →
        (mount.applyInvalidationPlan plan).cache.entries[path.asStr]? =
            mount.cache.entries[path.asStr]? ∧
          (path ∈ (mount.applyInvalidationPlan plan).stalePaths ↔ path ∈ mount.stalePaths)) ∧
    ∀ key, (∀ action ∈ plan, LocalCache.drops action key = false) →
      (mount.applyInvalidationPlan plan).cache.entries[key]? = mount.cache.entries[key]? := by
  have hStale : ∀ path, path ∈ (mount.applyInvalidationPlan plan).stalePaths ↔
      path ∈ mount.stalePaths ∨ path ∈ mount.markedStale plan := by
    intro path
    rw [mem_markedStale]
    exact mem_applyPathInvalidationPlan
  have hEntry (key : Str) : (mount.applyInvalidationPlan plan).cache.entries[key]? =
      if plan.any (LocalCache.drops · key) then none else mount.cache.entries[key]? := by
    rw [cache_applyInvalidationPlan, LocalCache.getElem?_applyInvalidation]
  have hDrops {path : MountPath} (hRoot : path.isRoot = false) :
      (LocalCache.drops · path.asStr) = pathMatchesAction path :=
    funext fun action => LocalCache.drops_asStr hRoot action
  have hKept (key : Str) (hNone : plan.any (LocalCache.drops · key) = false) :
      (mount.applyInvalidationPlan plan).cache.entries[key]? = mount.cache.entries[key]? := by
    rw [hEntry, if_neg (by rw [hNone]; decide)]
  refine ⟨?_, hStale, ?_, ?_, ?_⟩
  · intro path hRoot hPath hCached
    rw [Std.ExtTreeMap.mem_iff_isSome_getElem?] at hCached ⊢
    rw [hEntry, hDrops hRoot, mem_markedStale]
    cases plan.any (pathMatchesAction path) with
    | true => simp [hPath, hRoot]
    | false => simp [hCached]
  · intro other hSame
    constructor
    · apply Std.ExtTreeMap.ext_getElem?
      intro key
      rw [hEntry, cache_applyInvalidationPlan, LocalCache.getElem?_applyInvalidation,
        any_congr_mem hSame]
    · apply Std.ExtTreeSet.ext_mem
      intro path
      rw [applyInvalidationPlan, applyInvalidationPlan, mem_applyPathInvalidationPlan,
        mem_applyPathInvalidationPlan, any_congr_mem hSame]
  · intro path hRoot hNone
    have hAny : plan.any (pathMatchesAction path) = false := by
      rw [List.any_eq_false]
      intro action hMem
      rw [hNone action hMem]
      decide
    refine ⟨hKept _ (by rw [hDrops hRoot, hAny]), ?_⟩
    rw [hStale, mem_markedStale, hAny]
    simp
  · intro key hNone
    apply hKept
    rw [List.any_eq_false]
    intro action hMem
    rw [hNone action hMem]
    decide

end Mount

end EventFs.Fuse

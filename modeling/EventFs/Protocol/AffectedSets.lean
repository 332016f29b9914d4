import EventFs.Protocol.PathFacts
import EventFs.Protocol.RoundTrip

/-!
# The set of affected paths

The paths that a change of a fact affects are its visible paths and the directories above
them, each down to the floor of its surface. Moving the changed alias to the front neither
adds nor loses a path.
-/

namespace EventFs.Protocol

open Library

/-- The shown path is the affected one or a directory above it that is not below the floor. -/
def AffectedPath.Covers (affected : AffectedPath) (shown : MountPath) : Prop :=
  shown = affected.path ∨
    ∃ len, ancestorFloor affected.path.components affected.reason ≤ len ∧
      len < affected.path.components.length ∧
      shown.components = affected.path.components.take len

/-! ## Pushing paths -/

theorem eq_of_mem_pushUnique {paths : List AffectedPath} {affected other : AffectedPath}
    (h : other ∈ pushUnique paths affected) : other ∈ paths ∨ other = affected := by
  rw [pushUnique] at h
  split_ifs at h
  · exact Or.inl h
  · simpa using h

theorem nodup_pushUnique {paths : List AffectedPath} (h : (paths.map (·.path)).Nodup)
    (affected : AffectedPath) : ((pushUnique paths affected).map (·.path)).Nodup := by
  rw [pushUnique]
  split_ifs with hAny
  · exact h
  · rw [List.map_append, List.nodup_append]
    refine ⟨h, List.nodup_singleton _, ?_⟩
    rintro path hMem other hOther rfl
    obtain ⟨candidate, hCandidate, hPath⟩ := List.mem_map.mp hMem
    rw [List.map_singleton, List.mem_singleton] at hOther
    exact hAny (List.any_eq_true.mpr ⟨candidate, hCandidate, by simp [hPath, hOther]⟩)

theorem nodup_foldl_pushUnique {paths : List AffectedPath} (h : (paths.map (·.path)).Nodup)
    (pushed : List AffectedPath) : ((pushed.foldl pushUnique paths).map (·.path)).Nodup := by
  induction pushed generalizing paths with
  | nil => exact h
  | cons affected rest ih => exact ih (nodup_pushUnique h affected)

/-- What is kept of a list while more paths are pushed: no path twice, and what is new is an
ancestor. -/
structure Pushed (paths pushed : List AffectedPath) : Prop where
  nodup : (paths.map (·.path)).Nodup → (pushed.map (·.path)).Nodup
  new : ∀ affected ∈ pushed, affected ∈ paths ∨ affected.reason = .ancestor

theorem Pushed.refl (paths : List AffectedPath) : Pushed paths paths :=
  ⟨id, fun _ h => Or.inl h⟩

theorem Pushed.trans {paths between pushed : List AffectedPath} (h : Pushed paths between)
    (hMore : Pushed between pushed) : Pushed paths pushed := by
  refine ⟨hMore.nodup ∘ h.nodup, ?_⟩
  intro affected hMem
  rcases hMore.new affected hMem with hMem | hReason
  · exact h.new affected hMem
  · exact Or.inr hReason

theorem foldlM_ancestors {path : MountPath} {lens : List Nat} :
    ∀ {paths pushed : List AffectedPath},
    lens.foldlM (fun paths len => do
      return pushUnique paths ⟨← MountPath.fromComponents (path.components.take len), .ancestor⟩)
        paths = Except.ok pushed →
    Pushed paths pushed ∧ ∀ shown : MountPath, shown ∈ pushed.map (·.path) ↔
      shown ∈ paths.map (·.path) ∨ ∃ len ∈ lens, shown.components = path.components.take len := by
  induction lens with
  | nil =>
      intro paths pushed h
      cases h
      exact ⟨.refl _, by simp⟩
  | cons len rest ih =>
      intro paths pushed h
      obtain ⟨next, hNext, h⟩ := except_bind_eq_ok.mp h
      obtain ⟨ancestor, hAncestor, hPush⟩ := except_bind_eq_ok.mp hNext
      cases hPush
      obtain ⟨hPushed, hMem⟩ := ih h
      obtain ⟨-, hComponents⟩ := MountPath.fromComponents_eq_ok.mp hAncestor
      have hFirst : Pushed paths (pushUnique paths ⟨ancestor, .ancestor⟩) := by
        refine ⟨fun hNodup => nodup_pushUnique hNodup _, ?_⟩
        intro affected hAffected
        rcases eq_of_mem_pushUnique hAffected with hOld | rfl
        · exact Or.inl hOld
        · exact Or.inr rfl
      refine ⟨hFirst.trans hPushed, ?_⟩
      intro shown
      rw [hMem, mem_pushUnique, MountPath.eq_iff_components, hComponents, List.exists_mem_cons_iff,
        or_assoc]

theorem pushAncestors_pushed {paths pushed : List AffectedPath} {affected : AffectedPath}
    (h : pushAncestors paths affected.path affected.reason = .ok pushed)
    (hOwn : affected.path ∈ paths.map (·.path)) :
    Pushed paths pushed ∧ ∀ shown : MountPath, shown ∈ pushed.map (·.path) ↔
      shown ∈ paths.map (·.path) ∨ affected.Covers shown := by
  obtain ⟨hPushed, hMem⟩ := foldlM_ancestors h
  refine ⟨hPushed, ?_⟩
  intro shown
  rw [hMem, AffectedPath.Covers]
  constructor
  · rintro (hOld | ⟨len, hLen, hShown⟩)
    · exact Or.inl hOld
    · simp only [List.mem_map, List.mem_reverse, List.mem_range] at hLen
      obtain ⟨n, hLess, rfl⟩ := hLen
      exact Or.inr (Or.inr ⟨_, Nat.le_add_left _ n, by omega, hShown⟩)
  · rintro (hOld | rfl | ⟨len, hFloor, hLess, hShown⟩)
    · exact Or.inl hOld
    · exact Or.inl hOwn
    · refine Or.inr ⟨len, ?_, hShown⟩
      simp only [List.mem_map, List.mem_reverse, List.mem_range]
      exact ⟨len - ancestorFloor affected.path.components affected.reason, by omega, by omega⟩

/-! ## The affected paths of a fact -/

theorem foldlM_visible {visible : List AffectedPath} :
    ∀ {paths pushed : List AffectedPath},
    visible.foldlM (fun paths affected =>
      pushAncestors (pushUnique paths affected) affected.path affected.reason) paths =
        Except.ok pushed →
    ((paths.map (·.path)).Nodup → (pushed.map (·.path)).Nodup) ∧
    (∀ affected ∈ pushed, affected ∈ paths ∨ affected ∈ visible ∨ affected.reason = .ancestor) ∧
    ∀ shown : MountPath, shown ∈ pushed.map (·.path) ↔
      shown ∈ paths.map (·.path) ∨ ∃ affected ∈ visible, affected.Covers shown := by
  induction visible with
  | nil =>
      intro paths pushed h
      cases h
      exact ⟨id, fun _ => Or.inl, by simp⟩
  | cons first rest ih =>
      intro paths pushed h
      obtain ⟨next, hNext, h⟩ := except_bind_eq_ok.mp h
      obtain ⟨hPushed, hMem⟩ := pushAncestors_pushed hNext (mem_pushUnique.mpr (Or.inr rfl))
      obtain ⟨hNodup, hReasons, hRest⟩ := ih h
      refine ⟨fun hPaths => hNodup (hPushed.nodup (nodup_pushUnique hPaths first)), ?_, ?_⟩
      · intro affected hAffected
        rcases hReasons affected hAffected with hAffected | hAffected | hReason
        · rcases hPushed.new affected hAffected with hAffected | hReason
          · rcases eq_of_mem_pushUnique hAffected with hOld | rfl
            · exact Or.inl hOld
            · exact Or.inr (Or.inl List.mem_cons_self)
          · exact Or.inr (Or.inr hReason)
        · exact Or.inr (Or.inl (List.mem_cons_of_mem first hAffected))
        · exact Or.inr (Or.inr hReason)
      · intro shown
        have hFirst : shown = first.path ∨ first.Covers shown ↔ first.Covers shown :=
          or_iff_right_of_imp Or.inl
        rw [hRest, hMem, mem_pushUnique, List.exists_mem_cons_iff, or_assoc, or_assoc,
          ← or_assoc (a := shown = first.path), hFirst]

/-- What the affected paths of a fact are, given its visible paths. -/
structure AffectedBy (visible paths : List AffectedPath) : Prop where
  nodup : (paths.map (·.path)).Nodup
  reasons : ∀ affected ∈ paths, affected ∈ visible ∨ affected.reason = .ancestor
  mem_iff : ∀ shown : MountPath,
    shown ∈ paths.map (·.path) ↔ ∃ affected ∈ visible, affected.Covers shown

theorem invalidationPaths_affected {fact : StorageFact} {visible paths : List AffectedPath}
    (hVisible : visiblePaths fact = .ok visible) (hPaths : invalidationPaths fact = .ok paths) :
    AffectedBy visible paths := by
  rw [invalidationPaths, hVisible] at hPaths
  obtain ⟨hNodup, hReasons, hMem⟩ := foldlM_visible hPaths
  refine ⟨hNodup List.nodup_nil, ?_, ?_⟩
  · intro affected hAffected
    rcases hReasons affected hAffected with hNone | hRest
    · cases hNone
    · exact hRest
  · intro shown
    rw [hMem]
    simp

/-! ## Directories above a value -/

theorem Shows.ancestorFloor_le {parts : List Str} {fact : StorageFact} (h : Shows parts fact)
    (reason : AffectedPathReason) : ancestorFloor parts reason ≤ 2 := by
  cases h with
  | kv => exact Nat.le_refl 2
  | object => exact Nat.le_refl 2
  | task => exact Nat.le_refl 2
  | semantic => exact Nat.le_refl 2
  | agent =>
      cases reason with
      | mailbox => exact Nat.le_succ 1
      | _ => exact Nat.le_refl 2

theorem Shows.two_le_length {parts : List Str} {fact : StorageFact} (h : Shows parts fact) :
    2 ≤ parts.length := by
  have hNames : ∀ {names : List Str}, names ≠ [] → 1 ≤ names.length :=
    fun hne => List.length_pos_iff.mpr hne
  cases h with
  | kv bucket hne => simp
  | object bucket hne => simp
  | task hne => exact Nat.succ_le_succ (hNames hne)
  | semantic hne => exact Nat.succ_le_succ (hNames hne)
  | agent agent area hne => simp

/-- A longer path shows the longer key. -/
theorem Shows.kv_below {parts more : List Str} {bucket key : Str}
    (h : Shows parts (.kv bucket key)) (hMore : more ≠ []) :
    Shows (parts ++ more) (.kv bucket (key ++ '/' :: ['/'].intercalate more)) := by
  have hJoin : ∀ {names : List Str}, names ≠ [] →
      ['/'].intercalate names ++ '/' :: ['/'].intercalate more =
        ['/'].intercalate (names ++ more) :=
    fun hne => (Text.intercalate_append hne hMore).symm
  cases h with
  | kv bucket hne =>
      rw [hJoin hne]
      exact .kv bucket (List.append_ne_nil_of_right_ne_nil _ hMore)
  | task hne =>
      rw [hJoin hne]
      exact .task (List.append_ne_nil_of_right_ne_nil _ hMore)
  | semantic hne =>
      rw [hJoin hne]
      exact .semantic (List.append_ne_nil_of_right_ne_nil _ hMore)
  | agent agent area hne =>
      rw [hJoin (List.cons_ne_nil _ _)]
      exact .agent agent area (List.append_ne_nil_of_right_ne_nil _ hMore)

theorem Shows.object_below {parts more : List Str} {bucket name : Str}
    (h : Shows parts (.object bucket name)) (hMore : more ≠ []) :
    Shows (parts ++ more) (.object bucket (name ++ '/' :: ['/'].intercalate more)) := by
  cases h with
  | object bucket hne =>
      rw [← Text.intercalate_append hne hMore]
      exact .object bucket (List.append_ne_nil_of_right_ne_nil _ hMore)

theorem visible_of_shows {path : MountPath} {fact : StorageFact}
    (h : Shows path.components fact) :
    ∃ visible, visiblePaths fact = .ok visible ∧ path ∈ visible.map (·.path) := by
  cases fact with
  | kv bucket key => exact mem_visiblePaths_kv.mpr h
  | object bucket name => exact mem_visiblePaths_object.mpr h
  | streamSubject stream subject =>
      generalize path.components = parts at h
      cases h

/-- The path of a value and every directory above it but the first two are affected. -/
theorem affected_of_shows {path : MountPath} {more : List Str} {fact : StorageFact}
    (hShows : Shows (path.components ++ more) fact) (hLength : 2 ≤ path.components.length)
    (hMore : MountPath.Valid more) :
    ∃ paths, invalidationPaths fact = .ok paths ∧ path ∈ paths.map (·.path) := by
  have hValid := MountPath.valid_append.mpr ⟨path.valid_components, hMore⟩
  have hComponents := MountPath.components_ofValid hValid
  have hLong : Shows (MountPath.ofValid hValid).components fact := by
    rwa [hComponents]
  obtain ⟨visible, hVisible, hMem⟩ := visible_of_shows hLong
  obtain ⟨paths, hPaths⟩ := invalidationPaths_ok hVisible
  refine ⟨paths, hPaths, ?_⟩
  rw [(invalidationPaths_affected hVisible hPaths).mem_iff]
  obtain ⟨affected, hAffected, hPath⟩ := List.mem_map.mp hMem
  refine ⟨affected, hAffected, ?_⟩
  by_cases hNone : more = []
  · subst hNone
    refine Or.inl (MountPath.components_injective ?_)
    rw [hPath, hComponents, List.append_nil]
  · have hFloor := hShows.ancestorFloor_le affected.reason
    have hPositive := List.length_pos_iff.mpr hNone
    right
    rw [hPath, hComponents]
    refine ⟨path.components.length, hFloor.trans hLength, ?_, ?_⟩
    · rw [List.length_append]
      omega
    · rw [List.take_left]

/-! ## The changed alias first -/

/-- Only a mailbox has a lower floor than the directories above it. -/
theorem ancestorFloor_take_le (components : List Str) (reason : AffectedPathReason) {len n : Nat}
    (hFloor : ancestorFloor (components.take n) .ancestor ≤ len)
    (hLess : len < (components.take n).length) :
    ancestorFloor components reason ≤ len := by
  cases components with
  | nil => simp at hLess
  | cons first rest =>
      cases n with
      | zero => simp at hLess
      | succ n =>
          rw [List.take_succ_cons] at hFloor hLess
          simp only [ancestorFloor, List.head?_cons] at hFloor ⊢
          split_ifs at hFloor ⊢ <;> first | omega | (exfalso; simp_all)

/-- A path that is among the affected ones has the directories above it there too. -/
theorem AffectedBy.covers {visible paths : List AffectedPath} (h : AffectedBy visible paths)
    {source : AffectedPath} (hSource : source ∈ paths) {shown : MountPath}
    (hShown : source.Covers shown) : shown ∈ paths.map (·.path) := by
  rcases h.reasons source hSource with hVisible | hReason
  · exact (h.mem_iff shown).mpr ⟨source, hVisible, hShown⟩
  · rcases hShown with rfl | ⟨len, hFloor, hLess, hComponents⟩
    · exact List.mem_map_of_mem hSource
    · rw [hReason] at hFloor
      obtain ⟨affected, hVisible, hCovers⟩ :=
        (h.mem_iff source.path).mp (List.mem_map_of_mem hSource)
      obtain ⟨n, hTake⟩ : ∃ n, source.path.components = affected.path.components.take n := by
        rcases hCovers with hSame | ⟨n, -, -, hTake⟩
        · exact ⟨affected.path.components.length, by rw [hSame, List.take_length]⟩
        · exact ⟨n, hTake⟩
      rw [hTake] at hFloor hLess hComponents
      rw [List.length_take] at hLess
      refine (h.mem_iff shown).mpr ⟨affected, hVisible, Or.inr ⟨len, ?_, by omega, ?_⟩⟩
      · exact ancestorFloor_take_le _ _ hFloor (by rwa [List.length_take])
      · rw [hComponents, List.take_take, Nat.min_eq_left (by omega)]

theorem prioritizeSourcePath_same {visible paths : List AffectedPath} (h : AffectedBy visible paths)
    (sourcePath : MountPath) :
    ∃ reordered, prioritizeSourcePath paths sourcePath = .ok reordered ∧
      (reordered.map (·.path)).Nodup ∧
      ∀ shown : MountPath, shown ∈ reordered.map (·.path) ↔ shown ∈ paths.map (·.path) := by
  rw [prioritizeSourcePath]
  split
  · exact ⟨paths, rfl, h.nodup, fun _ => Iff.rfl⟩
  · next source hFind =>
    have hSource := List.mem_of_find?_eq_some hFind
    have hOnly : pushUnique [] source = [source] := rfl
    obtain ⟨front, hFront⟩ := pushAncestors_ok (pushUnique [] source) source.path source.reason
    obtain ⟨hPushed, hMem⟩ := pushAncestors_pushed hFront (mem_pushUnique.mpr (Or.inr rfl))
    refine ⟨paths.foldl pushUnique front, except_bind_eq_ok.mpr ⟨front, hFront, rfl⟩, ?_, ?_⟩
    · exact nodup_foldl_pushUnique (hPushed.nodup (by simp [hOnly])) paths
    · intro shown
      rw [mem_foldl_pushUnique, hMem, hOnly, List.map_singleton, List.mem_singleton]
      refine or_iff_right_of_imp ?_
      rintro (rfl | hCovers)
      · exact List.mem_map_of_mem hSource
      · exact h.covers hSource hCovers

theorem invalidationPathsForMountPath_eq {s : Str} {parsed : JetStreamPath} {fact : StorageFact}
    (hParse : JetStreamPath.parse s = .ok parsed)
    (hFact : StorageFact.fromJetstreamPath parsed = some fact) :
    ∃ sourcePath, invalidationPathsForMountPath parsed =
      invalidationPaths fact >>= fun paths => prioritizeSourcePath paths sourcePath := by
  obtain ⟨sourcePath, hSource, -⟩ := canonical_path_parses hParse
  refine ⟨sourcePath, ?_⟩
  rw [invalidationPathsForMountPath, hSource, hFact]
  rfl

theorem visiblePaths_of_invalidationPaths {fact : StorageFact} {paths : List AffectedPath}
    (h : invalidationPaths fact = .ok paths) : ∃ visible, visiblePaths fact = .ok visible := by
  obtain ⟨visible, hVisible, -⟩ := except_bind_eq_ok.mp h
  exact ⟨visible, hVisible⟩

/-- Whatever alias is changed, the affected paths are those of the fact, each once. -/
theorem invalidationPathsForMountPath_same {s : Str} {parsed : JetStreamPath} {fact : StorageFact}
    (hParse : JetStreamPath.parse s = .ok parsed)
    (hFact : StorageFact.fromJetstreamPath parsed = some fact) :
    (∀ err, invalidationPaths fact = .error err →
      invalidationPathsForMountPath parsed = .error err) ∧
    ∀ paths, invalidationPaths fact = .ok paths →
      ∃ own, invalidationPathsForMountPath parsed = .ok own ∧ (own.map (·.path)).Nodup ∧
        ∀ shown : MountPath, shown ∈ own.map (·.path) ↔ shown ∈ paths.map (·.path) := by
  obtain ⟨sourcePath, hEq⟩ := invalidationPathsForMountPath_eq hParse hFact
  rw [hEq]
  constructor
  · intro err hErr
    rw [hErr]
    rfl
  · intro paths hPaths
    obtain ⟨visible, hVisible⟩ := visiblePaths_of_invalidationPaths hPaths
    obtain ⟨own, hOwn, hRest⟩ := prioritizeSourcePath_same
      (invalidationPaths_affected hVisible hPaths) sourcePath
    exact ⟨own, by rw [hPaths]; exact hOwn, hRest⟩

end EventFs.Protocol

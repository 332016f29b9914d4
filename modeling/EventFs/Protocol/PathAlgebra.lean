import EventFs.Protocol.ParseCases

/-!
# The algebra of mount paths

`MountPath.new` keeps the nonempty components of a text, and its answer is the one path with
these components. On components, `isDescendantOf` is the order of proper prefixes, `joinChild`
appends a component and `parent` drops the last one, so that the ancestors of a path are the
paths that iterating `parent` reaches.
-/

namespace EventFs.Protocol.MountPath

open Library

/-! ## Construction -/

/-- The components of a text that `new` keeps. -/
def keptComponents (s : Str) : List Str :=
  (s.splitOn '/').filter fun component => !component.isEmpty

theorem mem_keptComponents {s component : Str} :
    component ∈ keptComponents s ↔ component ∈ s.splitOn '/' ∧ component ≠ [] := by
  simp [keptComponents]

theorem valid_keptComponents {s : Str} (hNul : '\x00' ∉ s) :
    Valid (keptComponents s) ↔
      ∀ component ∈ s.splitOn '/', component ≠ ['.'] ∧ component ≠ ['.', '.'] := by
  constructor
  · intro hValid component hMem
    by_cases hne : component = []
    · subst hne
      exact ⟨by simp, by simp⟩
    · have hComponent := validMountComponent_iff.mp
        (hValid component (mem_keptComponents.mpr ⟨hMem, hne⟩))
      exact ⟨hComponent.2.1, hComponent.2.2.1⟩
  · intro hAll component hMem
    obtain ⟨hSplit, hne⟩ := mem_keptComponents.mp hMem
    obtain ⟨hDot, hDots⟩ := hAll component hSplit
    exact validMountComponent_iff.mpr ⟨hne, hDot, hDots,
      fun hMem => hNul (Text.mem_of_mem_splitOn hSplit hMem), Text.not_mem_of_mem_splitOn hSplit⟩

theorem new_eq_ok {s : Str} {path : MountPath} :
    new s = .ok path ↔
      '\x00' ∉ s ∧ Valid (keptComponents s) ∧ path.components = keptComponents s := by
  rw [new]
  split_ifs with hNul
  · simp only [false_iff, not_and]
    exact fun hFree => absurd (by simpa using hNul) hFree
  · rw [fromComponents_eq_ok]
    have hFree : '\x00' ∉ s := by simpa using hNul
    exact ⟨fun h => ⟨hFree, h⟩, fun h => h.2⟩

theorem exists_new_eq_ok {s : Str} :
    (∃ path, new s = .ok path) ↔ '\x00' ∉ s ∧
      ∀ component ∈ s.splitOn '/', component ≠ ['.'] ∧ component ≠ ['.', '.'] := by
  simp only [new_eq_ok]
  constructor
  · rintro ⟨path, hNul, hValid, -⟩
    exact ⟨hNul, (valid_keptComponents hNul).mp hValid⟩
  · rintro ⟨hNul, hAll⟩
    have hValid := (valid_keptComponents hNul).mpr hAll
    exact ⟨ofValid hValid, hNul, hValid, components_ofValid hValid⟩

/-! ## Ancestors -/

/-- The directory of a path, as the code spells it. -/
theorem asStr_parent (path : MountPath) :
    path.parent.asStr = if path.components.length ≤ 1 then ['/']
      else '/' :: ['/'].intercalate (path.components.take (path.components.length - 1)) := by
  rw [← render_components, components_parent, List.dropLast_eq_take]
  split_ifs with hShort
  · rw [Nat.sub_eq_zero_of_le hShort]
    rfl
  · apply render_of_ne_nil
    rw [← List.length_pos_iff, List.length_take]
    omega

theorem isDescendantOf_iff_extends {path root : MountPath} :
    path.isDescendantOf root = true ↔
      root.components <+: path.components ∧ root.components ≠ path.components := by
  rw [isDescendantOf_iff]
  constructor
  · rintro ⟨back, hBack, hPath⟩
    rw [hPath]
    exact ⟨List.prefix_append _ _, by simpa using hBack⟩
  · rintro ⟨⟨back, hPath⟩, hne⟩
    refine ⟨back, ?_, hPath.symm⟩
    rintro rfl
    exact hne (by simpa using hPath)

theorem components_iterate_parent (path : MountPath) (n : Nat) :
    (parent^[n] path).components = path.components.take (path.components.length - n) := by
  induction n with
  | zero => simp
  | succ n ih =>
      rw [Function.iterate_succ_apply', components_parent, ih, List.dropLast_eq_take,
        List.length_take, List.take_take]
      congr 1
      omega

/-- The paths that `parent` reaches are those whose components are a prefix. -/
theorem prefix_iff_iterate_parent {path root : MountPath} :
    root.components <+: path.components ↔ ∃ n, parent^[n] path = root := by
  constructor
  · intro hPrefix
    refine ⟨path.components.length - root.components.length, ?_⟩
    have hLength := hPrefix.length_le
    apply components_injective
    rw [components_iterate_parent, Nat.sub_sub_self hLength]
    exact (List.prefix_iff_eq_take.mp hPrefix).symm
  · rintro ⟨n, rfl⟩
    rw [components_iterate_parent]
    exact List.take_prefix _ _

theorem exists_joinChild (path : MountPath) {child : Str}
    (hChild : validMountComponent child = true) :
    ∃ joined, path.joinChild child = .ok joined ∧
      joined.components = path.components ++ [child] := by
  have hValid : Valid (path.components ++ [child]) := by
    rw [valid_append]
    exact ⟨valid_components path, by simpa [Valid] using hChild⟩
  exact ⟨ofValid hValid, joinChild_eq_ok hChild (components_ofValid hValid),
    components_ofValid hValid⟩

/-- What is above a path with one more component is the shorter path and what is above it. -/
theorem isDescendantOf_concat {path joined : MountPath} {child : Str}
    (hJoined : joined.components = path.components ++ [child]) (root : MountPath) :
    joined.isDescendantOf root = true ↔ root = path ∨ path.isDescendantOf root = true := by
  rw [isDescendantOf_iff_extends, isDescendantOf_iff_extends, eq_iff_components, hJoined,
    List.prefix_concat_iff]
  constructor
  · rintro ⟨hPrefix, hne⟩
    rcases hPrefix with hEq | hPrefix
    · exact absurd hEq hne
    · by_cases hEq : root.components = path.components
      · exact .inl hEq
      · exact .inr ⟨hPrefix, hEq⟩
  · intro h
    have hPrefix : root.components <+: path.components := by
      rcases h with hEq | hBelow
      · rw [hEq]
      · exact hBelow.1
    refine ⟨.inr hPrefix, ?_⟩
    intro hEq
    have hLength := hPrefix.length_le
    rw [hEq, List.length_append, List.length_singleton] at hLength
    omega

theorem self_or_ancestor_iff {path root : MountPath} :
    root = path ∨ path.isDescendantOf root = true ↔ ∃ n, parent^[n] path = root := by
  rw [← prefix_iff_iterate_parent, isDescendantOf_iff_extends, eq_iff_components]
  constructor
  · rintro (hEq | hBelow)
    · rw [hEq]
    · exact hBelow.1
  · intro hPrefix
    by_cases hEq : root.components = path.components
    · exact .inl hEq
    · exact .inr ⟨hPrefix, hEq⟩

/-- Normal forms, the prefix test and the join of a child agree with the components. -/
theorem mountPath_components :
    (∀ s, (∃ path, new s = .ok path) ↔ '\x00' ∉ s ∧
      ∀ component ∈ s.splitOn '/', component ≠ ['.'] ∧ component ≠ ['.', '.']) ∧
    (∀ s path, new s = .ok path →
      path.components = keptComponents s ∧ path.asStr = render (keptComponents s) ∧
        (∀ other : MountPath, other.components = keptComponents s → other = path) ∧
        new path.asStr = .ok path) ∧
    (∀ path root : MountPath, path.isDescendantOf root = true ↔
      root.components <+: path.components ∧ root.components ≠ path.components) ∧
    ∀ (path : MountPath) (child : Str), validMountComponent child = true →
      ∃ joined, path.joinChild child = .ok joined ∧ joined.parent = path ∧
        ∀ root, joined.isDescendantOf root = true ↔ ∃ n, parent^[n] path = root := by
  refine ⟨fun s => exists_new_eq_ok, ?_, fun _ _ => isDescendantOf_iff_extends, ?_⟩
  · intro s path hNew
    obtain ⟨-, -, hComponents⟩ := new_eq_ok.mp hNew
    refine ⟨hComponents, ?_, ?_, new_asStr path⟩
    · rw [← hComponents, render_components]
    · intro other hOther
      exact components_injective (hOther.trans hComponents.symm)
  · intro path child hChild
    obtain ⟨joined, hJoin, hJoined⟩ := exists_joinChild path hChild
    refine ⟨joined, hJoin, ?_, ?_⟩
    · apply components_injective
      rw [components_parent, hJoined, List.dropLast_concat]
    · intro root
      rw [isDescendantOf_concat hJoined, self_or_ancestor_iff]

end EventFs.Protocol.MountPath

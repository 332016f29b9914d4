import EventFs.Protocol.Path

/-!
# Mount paths

A `MountPath` is a string in normal form: `/`, or a slash before every component,
each component nonempty, without slash and NUL, and not `.` or `..`. The operations
work on the string as the source does; `components` is a bijection onto lists of
valid components (`components_render`, `render_components`), and the string test
`isDescendantOf` is the prefix order on components.
-/

namespace EventFs.Protocol

open Library

def validMountComponent (component : Str) : Bool :=
  !(component.isEmpty || component == ['.'] || component == ['.', '.'] ||
    component.contains '\x00' || component.contains '/')

namespace MountPath

def render : List Str → Str
  | [] => ['/']
  | components => '/' :: ['/'].intercalate components

def Valid (components : List Str) : Prop :=
  ∀ component ∈ components, validMountComponent component = true

instance (components : List Str) : Decidable (Valid components) :=
  inferInstanceAs (Decidable (∀ component ∈ components, _))

end MountPath

structure MountPath where
  asStr : Str
  normal : ∃ components, MountPath.Valid components ∧ asStr = MountPath.render components

namespace MountPath

@[ext] theorem ext {p q : MountPath} (h : p.asStr = q.asStr) : p = q := by
  cases p
  cases q
  cases h
  rfl

instance : DecidableEq MountPath := fun p q =>
  decidable_of_iff (p.asStr = q.asStr) ⟨MountPath.ext, fun h => h ▸ rfl⟩

def root : MountPath := ⟨['/'], [], by simp [Valid], rfl⟩

def isRoot (path : MountPath) : Bool := path.asStr == ['/']

def components (path : MountPath) : List Str :=
  ((Text.trimMatches '/' path.asStr).splitOn '/').filter fun component => !component.isEmpty

def fromComponents (components : List Str) : Except EventFsError MountPath :=
  if h : Valid components then .ok ⟨render components, components, h, rfl⟩
  else .error (.invalidPathText "invalid path component".toList)

def new (path : Str) : Except EventFsError MountPath :=
  if path.contains '\x00' then .error (.invalidPathText "path contains NUL".toList)
  else fromComponents ((path.splitOn '/').filter fun component => !component.isEmpty)

def joinChild (path : MountPath) (child : Str) : Except EventFsError MountPath :=
  if path.isRoot then new ('/' :: child) else new (path.asStr ++ '/' :: child)

def isDescendantOf (path root : MountPath) : Bool :=
  if root.isRoot then !path.isRoot
  else ((Text.stripPrefix root.asStr path.asStr).bind (Text.stripPrefix ['/'])).isSome

def isSelfOrDescendantOf (path root : MountPath) : Bool :=
  path == root || path.isDescendantOf root

/-! ## Components -/

theorem validMountComponent_iff {component : Str} :
    validMountComponent component = true ↔
      component ≠ [] ∧ component ≠ ['.'] ∧ component ≠ ['.', '.'] ∧ '\x00' ∉ component ∧
        '/' ∉ component := by
  simp [validMountComponent, List.isEmpty_iff, and_assoc]

theorem ne_nil_of_valid {component : Str} (h : validMountComponent component = true) :
    component ≠ [] := (validMountComponent_iff.mp h).1

theorem slash_not_mem_of_valid {component : Str} (h : validMountComponent component = true) :
    '/' ∉ component := (validMountComponent_iff.mp h).2.2.2.2

theorem render_of_ne_nil {components : List Str} (h : components ≠ []) :
    render components = '/' :: ['/'].intercalate components := by
  cases components with
  | nil => exact absurd rfl h
  | cons component rest => rfl

theorem filter_nonempty_of_valid {components : List Str} (h : Valid components) :
    components.filter (fun component => !component.isEmpty) = components := by
  rw [List.filter_eq_self]
  intro component hMem
  simp [List.isEmpty_iff, ne_nil_of_valid (h component hMem)]

theorem intercalate_head {components : List Str} (h : Valid components) (hne : components ≠ []) :
    ∃ c rest, ['/'].intercalate components = c :: rest ∧ c ≠ '/' := by
  cases components with
  | nil => exact absurd rfl hne
  | cons component rest =>
      have hValid := h component List.mem_cons_self
      cases component with
      | nil => exact absurd rfl (ne_nil_of_valid hValid)
      | cons c component =>
          have hSlash := slash_not_mem_of_valid hValid
          rw [List.mem_cons, not_or] at hSlash
          cases rest with
          | nil => exact ⟨c, component, by simp, Ne.symm hSlash.1⟩
          | cons next rest =>
              exact ⟨c, _, by rw [List.intercalate_cons_cons]; rfl, Ne.symm hSlash.1⟩

theorem intercalate_last {components : List Str} (h : Valid components) (hne : components ≠ []) :
    ∃ front c, ['/'].intercalate components = front ++ [c] ∧ c ≠ '/' := by
  obtain ⟨front, component, rfl⟩ := List.eq_nil_or_concat components |>.resolve_left hne
  have hValid := h component (by simp)
  obtain ⟨body, c, rfl⟩ := List.eq_nil_or_concat component |>.resolve_left (ne_nil_of_valid hValid)
  have hSlash := slash_not_mem_of_valid hValid
  have hc : c ≠ '/' := by
    rintro rfl
    exact hSlash (by simp)
  cases front with
  | nil => exact ⟨body, c, by simp, hc⟩
  | cons first front =>
      rw [List.concat_eq_append, Text.intercalate_append (by simp) (by simp)]
      exact ⟨['/'].intercalate (first :: front) ++ '/' :: body, c, by simp, hc⟩

theorem trimMatches_render {components : List Str} (h : Valid components) :
    Text.trimMatches '/' (render components) = ['/'].intercalate components := by
  by_cases hne : components = []
  · subst hne
    rfl
  · rw [render_of_ne_nil hne]
    obtain ⟨c, rest, hHead, hc⟩ := intercalate_head h hne
    obtain ⟨front, d, hLast, hd⟩ := intercalate_last h hne
    have hStart : Text.trimStartMatches '/' ('/' :: ['/'].intercalate components) =
        ['/'].intercalate components := by
      rw [hHead]
      simp [Text.trimStartMatches, hc]
    rw [Text.trimMatches, hStart, hLast]
    simp [Text.trimEndMatches, hd]

theorem splitOn_intercalate_of_valid {components : List Str} (h : Valid components)
    (hne : components ≠ []) : (['/'].intercalate components).splitOn '/' = components :=
  List.splitOn_intercalate '/' (fun component hMem => slash_not_mem_of_valid (h component hMem)) hne

theorem components_render {components : List Str} (h : Valid components) (hNormal) :
    MountPath.components ⟨render components, hNormal⟩ = components := by
  simp only [MountPath.components]
  rw [trimMatches_render h]
  by_cases hne : components = []
  · subst hne
    rfl
  · rw [splitOn_intercalate_of_valid h hne, filter_nonempty_of_valid h]

theorem valid_components (path : MountPath) : Valid path.components := by
  obtain ⟨s, components, hValid, rfl⟩ := path
  rw [components_render hValid]
  exact hValid

theorem render_components (path : MountPath) : render path.components = path.asStr := by
  obtain ⟨s, components, hValid, rfl⟩ := path
  rw [components_render hValid]

theorem components_injective {p q : MountPath} (h : p.components = q.components) : p = q := by
  apply MountPath.ext
  rw [← render_components p, ← render_components q, h]

theorem eq_iff_components {p q : MountPath} : p = q ↔ p.components = q.components :=
  ⟨fun h => h ▸ rfl, components_injective⟩

theorem fromComponents_eq_ok {components : List Str} {path : MountPath} :
    fromComponents components = .ok path ↔ Valid components ∧ path.components = components := by
  simp only [fromComponents]
  split
  · next h =>
    constructor
    · intro hEq
      cases hEq
      exact ⟨h, components_render h _⟩
    · rintro ⟨-, hPath⟩
      congr 1
      apply components_injective
      rw [components_render h, hPath]
  · next h => simp [h]

/-- The mount path with the given components. -/
def ofValid {components : List Str} (h : Valid components) : MountPath :=
  ⟨render components, components, h, rfl⟩

@[simp] theorem components_ofValid {components : List Str} (h : Valid components) :
    (ofValid h).components = components := components_render h _

/-- The directory of a path; the root is its own. -/
def parent (path : MountPath) : MountPath :=
  ofValid (fun component h => valid_components path component (List.dropLast_subset _ h) :
    Valid path.components.dropLast)

@[simp] theorem components_parent (path : MountPath) :
    path.parent.components = path.components.dropLast := components_ofValid _

theorem valid_append {front back : List Str} :
    Valid (front ++ back) ↔ Valid front ∧ Valid back := List.forall_mem_append

theorem isRoot_iff {path : MountPath} : path.isRoot = true ↔ path.components = [] := by
  rw [isRoot, beq_iff_eq, ← render_components path]
  constructor
  · intro h
    by_contra hne
    rw [render_of_ne_nil hne] at h
    obtain ⟨c, rest, hHead, -⟩ := intercalate_head (valid_components path) hne
    rw [hHead] at h
    simp at h
  · intro h
    rw [h]
    rfl

/-! ## The prefix order -/

/-- Of two slash-joined lists of components, one string extends the other at a slash
exactly when the list does. -/
theorem intercalate_extends {front components : List Str} (hFront : Valid front)
    (hValid : Valid components) (hne : front ≠ []) :
    (∃ rest, ['/'].intercalate components = ['/'].intercalate front ++ '/' :: rest) ↔
      ∃ back, back ≠ [] ∧ components = front ++ back := by
  constructor
  · rintro ⟨rest, hRest⟩
    by_cases hcne : components = []
    · subst hcne
      simp at hRest
    · have hSplit := splitOn_intercalate_of_valid hValid hcne
      rw [hRest, List.splitOn_append_cons_self, splitOn_intercalate_of_valid hFront hne] at hSplit
      exact ⟨_, List.splitOn_ne_nil '/' rest, hSplit.symm⟩
  · rintro ⟨back, hBack, rfl⟩
    exact ⟨_, Text.intercalate_append hne hBack⟩

theorem isDescendantOf_iff {path root : MountPath} :
    path.isDescendantOf root = true ↔
      ∃ back, back ≠ [] ∧ path.components = root.components ++ back := by
  simp only [isDescendantOf]
  split
  · next hRoot =>
    rw [isRoot_iff] at hRoot
    rw [hRoot, Bool.not_eq_true', ← Bool.not_eq_true, isRoot_iff]
    simp
  · next hRoot =>
    rw [isRoot_iff] at hRoot
    rw [Option.isSome_iff_exists, ← intercalate_extends (valid_components root)
      (valid_components path) hRoot]
    simp only [Option.bind_eq_some_iff, Text.stripPrefix_eq_some]
    rw [← render_components path, ← render_components root, render_of_ne_nil hRoot]
    constructor
    · rintro ⟨rest, tail, hPath, rfl⟩
      by_cases hne : path.components = []
      · rw [hne] at hPath
        simp [render] at hPath
      · rw [render_of_ne_nil hne] at hPath
        exact ⟨rest, by simpa using hPath⟩
    · rintro ⟨rest, hPath⟩
      have hne : path.components ≠ [] := by
        intro h
        rw [h] at hPath
        simp at hPath
      exact ⟨rest, '/' :: rest, by rw [render_of_ne_nil hne, hPath]; rfl, rfl⟩

theorem asStr_append_slash {path : MountPath} (hne : path.components ≠ []) (child : Str) :
    path.asStr ++ '/' :: child = '/' :: (['/'].intercalate path.components ++ '/' :: child) := by
  rw [← render_components path, render_of_ne_nil hne]
  rfl

/-- Joining a valid component appends it. -/
theorem joinChild_eq_ok {path : MountPath} {child : Str} (hChild : validMountComponent child = true)
    {joined : MountPath} (hJoined : joined.components = path.components ++ [child]) :
    path.joinChild child = .ok joined := by
  obtain ⟨hne, -, -, hNul, hSlash⟩ := validMountComponent_iff.mp hChild
  have hValid : Valid (path.components ++ [child]) := by
    rw [← hJoined]
    exact valid_components joined
  have hNulAll : ∀ component ∈ path.components, '\x00' ∉ component := fun component hMem =>
    (validMountComponent_iff.mp (valid_components path component hMem)).2.2.2.1
  have hFrom : fromComponents (path.components ++ [child]) = .ok joined :=
    fromComponents_eq_ok.mpr ⟨hValid, hJoined⟩
  by_cases hRoot : path.components = []
  · have hIsRoot : path.isRoot = true := isRoot_iff.mpr hRoot
    have hSplit : (('/' :: child).splitOn '/').filter (fun c => !c.isEmpty) = [child] := by
      rw [← List.nil_append ('/' :: child), List.splitOn_append_cons_self,
        List.splitOn_eq_singleton hSlash]
      simp [List.isEmpty_iff, hne]
    rw [joinChild, if_pos hIsRoot, new, if_neg (by simpa using hNul), hSplit]
    rwa [hRoot] at hFrom
  · have hIsRoot : path.isRoot ≠ true := fun h => hRoot (isRoot_iff.mp h)
    have hSplit : ((path.asStr ++ '/' :: child).splitOn '/').filter (fun c => !c.isEmpty) =
        path.components ++ [child] := by
      rw [asStr_append_slash hRoot, ← List.nil_append ('/' :: _), List.splitOn_append_cons_self,
        List.splitOn_append_cons_self, splitOn_intercalate_of_valid (valid_components path) hRoot,
        List.splitOn_eq_singleton hSlash]
      simpa [hne] using filter_nonempty_of_valid (valid_components path)
    have hNoNul : '\x00' ∉ path.asStr ++ '/' :: child := by
      rw [asStr_append_slash hRoot]
      intro hMem
      rcases List.mem_cons.mp hMem with h | h
      · simp at h
      rcases List.mem_append.mp h with h | h
      · rcases Text.mem_intercalate h with h | ⟨component, hComponent, h⟩
        · simp at h
        · exact hNulAll component hComponent h
      · rcases List.mem_cons.mp h with h | h
        · simp at h
        · exact hNul h
    rw [joinChild, if_neg hIsRoot, new, if_neg (by simpa using hNoNul), hSplit]
    exact hFrom

end MountPath

end EventFs.Protocol

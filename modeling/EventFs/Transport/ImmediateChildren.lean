import EventFs.Transport.MemoryStorage

/-!
# The children of a directory of keys

A key below a directory contributes the next component as a file, or as a directory if the key
goes on. Merging keeps one entry for each name and prefers the file, so that the listing depends
only on which keys there are: a name is a file if the path of the child is a key itself, and a
directory if it is none but some key lies below it.
-/

namespace EventFs.Transport

open Library Protocol

/-! ## Merging -/

/-- One entry for each name of the children, a file if a child is one. -/
structure Merged (children merged : List DirectoryEntry) : Prop where
  nodup : (merged.map (·.name)).Nodup
  file : ∀ name, (⟨name, .file⟩ : DirectoryEntry) ∈ merged ↔ ⟨name, .file⟩ ∈ children
  directory : ∀ name, (⟨name, .directory⟩ : DirectoryEntry) ∈ merged ↔
    ⟨name, .directory⟩ ∈ children ∧ ⟨name, .file⟩ ∉ children

theorem Merged.nil : Merged [] [] := ⟨List.nodup_nil, by simp, by simp⟩

variable {children merged : List DirectoryEntry}

theorem Merged.mem_names (h : Merged children merged) {name : Str} :
    name ∈ merged.map (·.name) ↔ ∃ kind, (⟨name, kind⟩ : DirectoryEntry) ∈ children := by
  rw [List.mem_map]
  constructor
  · rintro ⟨entry, hEntry, rfl⟩
    obtain ⟨name, kind⟩ := entry
    cases kind with
    | file => exact ⟨.file, (h.file name).mp hEntry⟩
    | directory => exact ⟨.directory, ((h.directory name).mp hEntry).1⟩
  · rintro ⟨kind, hChild⟩
    by_cases hFile : (⟨name, .file⟩ : DirectoryEntry) ∈ children
    · exact ⟨_, (h.file name).mpr hFile, rfl⟩
    · cases kind with
      | file => exact absurd hChild hFile
      | directory => exact ⟨_, (h.directory name).mpr ⟨hChild, hFile⟩, rfl⟩

/-- A file takes the place of a directory of its name. -/
def upgradeChild (name : Str) (entry : DirectoryEntry) : DirectoryEntry :=
  if entry.name = name then { entry with kind := .file } else entry

theorem map_upgradeChild_of_notMem {name : Str} (hName : name ∉ merged.map (·.name)) :
    merged.map (upgradeChild name) = merged := by
  have hSame : ∀ entry ∈ merged, upgradeChild name entry = entry := by
    intro entry hEntry
    rw [upgradeChild, if_neg]
    rintro rfl
    exact hName (List.mem_map_of_mem hEntry)
  rw [List.map_congr_left hSame, List.map_id']

theorem changeNamed_self {name : Str} {change : DirectoryEntry → DirectoryEntry}
    (hChange : ∀ entry, change entry = entry) : changeNamed name change merged = merged := by
  induction merged with
  | nil => rfl
  | cons entry rest ih =>
      rw [changeNamed, hChange, ih, ite_self]

/-- Where no name stands twice, changing the first entry of a name changes all of them. -/
theorem changeNamed_upgrade (h : (merged.map (·.name)).Nodup) {name : Str}
    {change : DirectoryEntry → DirectoryEntry}
    (hChange : ∀ entry, change entry = { entry with kind := .file }) :
    changeNamed name change merged = merged.map (upgradeChild name) := by
  induction merged with
  | nil => rfl
  | cons entry rest ih =>
      rw [List.map_cons, List.nodup_cons] at h
      rw [changeNamed, List.map_cons, upgradeChild]
      by_cases hEq : entry.name = name
      · subst hEq
        rw [map_upgradeChild_of_notMem h.1, if_pos rfl, if_pos rfl, hChange]
      · rw [if_neg hEq, if_neg hEq, ih h.2]

theorem mergeChildEntry_of_mem (h : (merged.map (·.name)).Nodup) {name : Str}
    (hName : name ∈ merged.map (·.name)) :
    mergeChildEntry merged name .directory = merged ∧
      mergeChildEntry merged name .file = merged.map (upgradeChild name) := by
  have hAny : (merged.any fun entry => entry.name == name) = true := by
    obtain ⟨entry, hEntry, rfl⟩ := List.mem_map.mp hName
    exact List.any_eq_true.mpr ⟨entry, hEntry, beq_self_eq_true _⟩
  rw [mergeChildEntry, mergeChildEntry, if_pos hAny, if_pos hAny]
  refine ⟨changeNamed_self fun entry => by simp, changeNamed_upgrade h ?_⟩
  rintro ⟨other, kind⟩
  cases kind <;> simp

theorem mergeChildEntry_of_notMem {name : Str} (hName : name ∉ merged.map (·.name))
    (kind : EntryKind) : mergeChildEntry merged name kind = merged ++ [⟨name, kind⟩] := by
  rw [mergeChildEntry, if_neg]
  intro hAny
  obtain ⟨entry, hEntry, hSame⟩ := List.any_eq_true.mp hAny
  exact hName (List.mem_map.mpr ⟨entry, hEntry, eq_of_beq hSame⟩)

theorem mem_map_upgradeChild {name other : Str} {kind : EntryKind}
    (hName : name ∈ merged.map (·.name)) :
    (⟨other, kind⟩ : DirectoryEntry) ∈ merged.map (upgradeChild name) ↔
      (other = name ∧ kind = .file) ∨ (other ≠ name ∧ ⟨other, kind⟩ ∈ merged) := by
  rw [List.mem_map]
  constructor
  · rintro ⟨entry, hEntry, hSame⟩
    rw [upgradeChild] at hSame
    split_ifs at hSame with hEq
    · cases hSame
      exact .inl ⟨hEq, rfl⟩
    · subst hSame
      exact .inr ⟨hEq, hEntry⟩
  · rintro (⟨rfl, rfl⟩ | ⟨hNe, hEntry⟩)
    · obtain ⟨entry, hEntry, rfl⟩ := List.mem_map.mp hName
      exact ⟨entry, hEntry, by rw [upgradeChild, if_pos rfl]⟩
    · exact ⟨_, hEntry, by rw [upgradeChild, if_neg hNe]⟩

theorem Merged.merge (h : Merged children merged) (child : DirectoryEntry) :
    Merged (children ++ [child]) (mergeChildEntry merged child.name child.kind) := by
  obtain ⟨name, kind⟩ := child
  by_cases hName : name ∈ merged.map (·.name)
  · obtain ⟨hDirectory, hFile⟩ := mergeChildEntry_of_mem h.nodup hName
    cases kind with
    | directory =>
      rw [hDirectory]
      refine ⟨h.nodup, ?_, ?_⟩
      · intro other
        rw [h.file, List.mem_append, List.mem_singleton]
        simp
      · intro other
        rw [h.directory, List.mem_append, List.mem_append, List.mem_singleton, List.mem_singleton]
        obtain ⟨found, hFound⟩ := h.mem_names.mp hName
        by_cases hEq : other = name
        · subst hEq
          cases found <;> simp_all
        · simp [hEq]
    | file =>
      rw [hFile]
      refine ⟨?_, ?_, ?_⟩
      · have hNames : (merged.map (upgradeChild name)).map (·.name) = merged.map (·.name) := by
          rw [List.map_map]
          apply List.map_congr_left
          intro entry _
          simp only [Function.comp_apply, upgradeChild]
          split_ifs <;> rfl
        rw [hNames]
        exact h.nodup
      · intro other
        rw [mem_map_upgradeChild hName, h.file, List.mem_append, List.mem_singleton]
        by_cases hEq : other = name <;> simp [hEq]
      · intro other
        rw [mem_map_upgradeChild hName, h.directory, List.mem_append, List.mem_append,
          List.mem_singleton, List.mem_singleton]
        by_cases hEq : other = name <;> simp [hEq]
  · rw [mergeChildEntry_of_notMem hName]
    have hNone : ∀ other, (⟨name, other⟩ : DirectoryEntry) ∉ children :=
      fun other hChild => hName (h.mem_names.mpr ⟨other, hChild⟩)
    refine ⟨?_, ?_, ?_⟩
    · rw [List.map_append, List.map_singleton, ← List.concat_eq_append]
      exact h.nodup.concat hName
    · intro other
      rw [List.mem_append, List.mem_append, h.file]
    · intro other
      rw [List.mem_append, List.mem_append, List.mem_append, h.directory]
      simp only [List.mem_singleton, DirectoryEntry.mk.injEq]
      by_cases hEq : other = name
      · subst hEq
        cases kind <;> simp [hNone]
      · simp [hEq]

/-- What the fold over all children arrives at. -/
theorem merged_foldl (children : List DirectoryEntry) :
    Merged children
      (children.foldl (fun entries child => mergeChildEntry entries child.name child.kind) []) := by
  induction children using List.reverseRecOn with
  | nil => exact .nil
  | append_singleton front child ih =>
    rw [List.foldl_append, List.foldl_cons, List.foldl_nil]
    exact ih.merge child

/-! ## Sorting -/

/-- The names grow. -/
def SortedByName (entries : List DirectoryEntry) : Prop :=
  entries.Pairwise fun left right => left.name < right.name

theorem mem_sortByName {entries : List DirectoryEntry} {entry : DirectoryEntry} :
    entry ∈ sortByName entries ↔ entry ∈ entries :=
  (List.perm_insertionSort _ entries).mem_iff

theorem sortByName_sorted {entries : List DirectoryEntry} (h : (entries.map (·.name)).Nodup) :
    SortedByName (sortByName entries) := by
  have hPerm := List.perm_insertionSort (fun left right : DirectoryEntry => left.name ≤ right.name)
    entries
  have hTotal : Std.Total fun left right : DirectoryEntry => left.name ≤ right.name :=
    ⟨fun left right => le_total left.name right.name⟩
  have hTrans : IsTrans DirectoryEntry fun left right => left.name ≤ right.name :=
    ⟨fun _ _ _ hLeft hRight => le_trans hLeft hRight⟩
  have hSorted := List.pairwise_insertionSort
    (fun left right : DirectoryEntry => left.name ≤ right.name) entries
  have hNodup : (sortByName entries).Pairwise fun left right => left.name ≠ right.name := by
    rw [← List.pairwise_map (f := DirectoryEntry.name) (R := (· ≠ ·))]
    exact (hPerm.map _).nodup_iff.mpr h
  exact (hSorted.and hNodup).imp fun hPair => lt_of_le_of_ne hPair.1 hPair.2

/-- A sorted listing is determined by its entries. -/
theorem SortedByName.eq_of_mem {left right : List DirectoryEntry} (hLeft : SortedByName left)
    (hRight : SortedByName right) (h : ∀ entry, entry ∈ left ↔ entry ∈ right) : left = right := by
  have hIrrefl : ∀ {entries : List DirectoryEntry}, SortedByName entries → entries.Nodup :=
    fun hSorted => hSorted.imp fun hPair hEq => absurd (hEq ▸ hPair) (lt_irrefl _)
  have hPerm : left.Perm right :=
    (List.perm_ext_iff_of_nodup (hIrrefl hLeft) (hIrrefl hRight)).mpr h
  exact hPerm.eq_of_pairwise (fun _ _ _ _ hLess hMore => absurd hMore (lt_asymm hLess)) hLeft hRight

/-! ## What a key contributes -/

/-- The components of a key between the slashes are not empty. -/
def IsKeyPath (key : Str) : Prop := ∀ component ∈ key.splitOn '/', component ≠ []

/-- One component of a key. -/
def IsKeyName (name : Str) : Prop := name ≠ [] ∧ '/' ∉ name

/-- The key of a child. -/
def childKey (pre name : Str) : Str := if pre = [] then name else pre ++ '/' :: name

/-- The key goes on below the other one. -/
def KeyBelow (pre key : Str) : Prop := ∃ rest, key = pre ++ '/' :: rest

theorem splitOn_slash (before after : Str) :
    (before ++ '/' :: after).splitOn '/' = before.splitOn '/' ++ after.splitOn '/' :=
  List.splitOn_append_cons_self ..

theorem isKeyPath_append {before after : Str} :
    IsKeyPath (before ++ '/' :: after) ↔ IsKeyPath before ∧ IsKeyPath after := by
  rw [IsKeyPath, splitOn_slash]
  exact List.forall_mem_append

theorem not_isKeyPath_nil : ¬ IsKeyPath [] := fun h => h [] (by simp) rfl

theorem IsKeyName.isKeyPath {name : Str} (h : IsKeyName name) : IsKeyPath name := by
  intro component hMem
  rw [List.splitOn_eq_singleton h.2, List.mem_singleton] at hMem
  exact hMem ▸ h.1

theorem trimMatches_of_isKeyPath {pre : Str} (h : IsKeyPath pre) :
    Text.trimMatches '/' pre = pre := by
  have hne : pre ≠ [] := by
    rintro rfl
    exact not_isKeyPath_nil h
  have hStart : Text.trimStartMatches '/' pre = pre := by
    obtain ⟨c, rest, rfl⟩ := List.exists_cons_of_ne_nil hne
    rw [Text.trimStartMatches, List.dropWhile_cons_of_neg]
    intro hSlash
    obtain rfl := eq_of_beq hSlash
    exact not_isKeyPath_nil ((@isKeyPath_append [] _).mp h).1
  have hEnd : Text.trimEndMatches '/' pre = pre := by
    obtain ⟨front, c, rfl⟩ := (List.eq_nil_or_concat pre).resolve_left hne
    rw [List.concat_eq_append] at h ⊢
    rw [Text.trimEndMatches, List.reverse_append, List.reverse_singleton, List.singleton_append,
      List.dropWhile_cons_of_neg]
    · simp
    · intro hSlash
      obtain rfl := eq_of_beq hSlash
      exact not_isKeyPath_nil (isKeyPath_append.mp h).2
  rw [Text.trimMatches, hStart, hEnd]

theorem splitOnce_eq_none {s : Str} : Text.splitOnce '/' s = none ↔ '/' ∉ s := by
  constructor
  · intro h hMem
    obtain ⟨before, after, rfl, hBefore⟩ := List.eq_append_cons_of_mem hMem
    rw [Text.splitOnce_append hBefore] at h
    cases h
  · intro h
    induction s with
    | nil => rfl
    | cons x s ih =>
      rw [List.mem_cons, not_or] at h
      rw [Text.splitOnce, if_neg (Ne.symm h.1), ih h.2]
      rfl

/-- The empty prefix, or a key. -/
def IsPrefix (pre : Str) : Prop := pre = [] ∨ IsKeyPath pre

variable {pre key name : Str}

theorem IsPrefix.trimMatches (h : IsPrefix pre) : Text.trimMatches '/' pre = pre := by
  rcases h with rfl | h
  · rfl
  · exact trimMatches_of_isKeyPath h

theorem childKey_append (pre name rest : Str) :
    childKey pre (name ++ '/' :: rest) = childKey pre name ++ '/' :: rest := by
  rw [childKey, childKey]
  split_ifs
  · rfl
  · rw [List.append_assoc, List.cons_append]

theorem IsPrefix.childKey (h : IsPrefix pre) {rest : Str} :
    IsKeyPath (childKey pre rest) ↔ IsKeyPath rest := by
  rcases h with rfl | h
  · rfl
  · have hne : pre ≠ [] := by
      rintro rfl
      exact not_isKeyPath_nil h
    rw [Transport.childKey, if_neg hne, isKeyPath_append]
    exact and_iff_right h

theorem childKey_injective {left right : Str} (h : childKey pre left = childKey pre right) :
    left = right := by
  rw [childKey, childKey] at h
  split_ifs at h
  · exact h
  · exact (List.cons.inj (List.append_cancel_left h)).2

/-- What remains of a key below a prefix. -/
theorem remainder_eq_some {rest : Str} :
    (if pre.isEmpty then some key else Text.stripPrefix (pre ++ ['/']) key) = some rest ↔
      key = childKey pre rest := by
  rw [childKey]
  by_cases hPre : pre = []
  · subst hPre
    simp
  · rw [if_neg (by simpa using hPre), if_neg hPre, Text.stripPrefix_eq_some, List.append_assoc,
      List.singleton_append]

/-- A key contributes its next component: the file it names, or a directory it lies below. -/
theorem immediateChild_eq_some (hPre : IsPrefix pre) (hKey : IsKeyPath key) {kind : EntryKind} :
    immediateChild (Text.trimMatches '/' pre) key = some ⟨name, kind⟩ ↔
      IsKeyName name ∧ (kind = .file ∧ key = childKey pre name ∨
        kind = .directory ∧ KeyBelow (childKey pre name) key) := by
  rw [hPre.trimMatches, immediateChild]
  generalize hRemainder : (if pre.isEmpty then some key
    else Text.stripPrefix (pre ++ ['/']) key) = remainder
  have hBelow {rest : Str} (h : key = childKey pre rest) {other : Str} :
      KeyBelow (childKey pre other) key ↔ ∃ after, rest = other ++ '/' :: after := by
    constructor
    · rintro ⟨after, hAfter⟩
      rw [h, ← childKey_append] at hAfter
      exact ⟨after, childKey_injective hAfter⟩
    · rintro ⟨after, rfl⟩
      exact ⟨after, by rw [h, childKey_append]⟩
  cases remainder with
  | none =>
    have hNone (rest : Str) : key ≠ childKey pre rest := by
      intro hEq
      rw [remainder_eq_some.mpr hEq] at hRemainder
      cases hRemainder
    simp only [reduceCtorEq, false_iff, not_and, not_or]
    intro _
    refine ⟨fun _ => hNone name, ?_⟩
    rintro - ⟨after, hAfter⟩
    exact hNone _ (hAfter.trans (childKey_append pre name after).symm)
  | some rest =>
    have hRest := remainder_eq_some.mp hRemainder
    have hParts : IsKeyPath rest := hPre.childKey.mp (hRest ▸ hKey)
    have hne : rest ≠ [] := by
      rintro rfl
      exact not_isKeyPath_nil hParts
    have hFile : key = childKey pre name ↔ rest = name :=
      ⟨fun h => childKey_injective (hRest.symm.trans h), fun h => h ▸ hRest⟩
    rw [hBelow hRest, hFile]
    simp only [List.isEmpty_iff, hne, if_false]
    cases hSplit : Text.splitOnce '/' rest with
    | none =>
      have hSlash := splitOnce_eq_none.mp hSplit
      simp only [Option.some.injEq, DirectoryEntry.mk.injEq]
      constructor
      · rintro ⟨rfl, rfl⟩
        exact ⟨⟨hne, hSlash⟩, .inl ⟨rfl, rfl⟩⟩
      · rintro ⟨-, ⟨rfl, rfl⟩ | ⟨-, after, rfl⟩⟩
        · exact ⟨rfl, rfl⟩
        · exact absurd (by simp) hSlash
    | some parts =>
      obtain ⟨first, after⟩ := parts
      obtain ⟨hFirst, rfl⟩ := Text.splitOnce_eq_some hSplit
      have hFirstName : first ≠ [] := by
        rintro rfl
        exact not_isKeyPath_nil (isKeyPath_append.mp hParts).1
      simp only [Option.some.injEq, DirectoryEntry.mk.injEq]
      constructor
      · rintro ⟨rfl, rfl⟩
        exact ⟨⟨hFirstName, hFirst⟩, .inr ⟨rfl, after, rfl⟩⟩
      · rintro ⟨hName, ⟨-, rfl⟩ | ⟨rfl, other, hOther⟩⟩
        · exact absurd (by simp) hName.2
        · have hSame := congrArg (Text.splitOnce '/') hOther
          rw [Text.splitOnce_append hFirst, Text.splitOnce_append hName.2] at hSame
          cases hSame
          exact ⟨rfl, rfl⟩

/-! ## Listings -/

/-- The entries of the directory `pre` of the keys. -/
structure Lists (keys : List Str) (pre : Str) (entries : List DirectoryEntry) : Prop where
  sorted : SortedByName entries
  file : ∀ name, (⟨name, .file⟩ : DirectoryEntry) ∈ entries ↔
    IsKeyName name ∧ childKey pre name ∈ keys
  directory : ∀ name, (⟨name, .directory⟩ : DirectoryEntry) ∈ entries ↔
    IsKeyName name ∧ childKey pre name ∉ keys ∧ ∃ key ∈ keys, KeyBelow (childKey pre name) key

variable {keys : List Str}

/-- The children that the keys contribute. -/
def childrenOf (keys : List Str) (pre : Str) : List DirectoryEntry :=
  keys.filterMap (immediateChild (Text.trimMatches '/' pre))

theorem mem_childrenOf (hPre : IsPrefix pre) (hKeys : ∀ key ∈ keys, IsKeyPath key)
    {kind : EntryKind} :
    (⟨name, kind⟩ : DirectoryEntry) ∈ childrenOf keys pre ↔
      IsKeyName name ∧ (kind = .file ∧ childKey pre name ∈ keys ∨
        kind = .directory ∧ ∃ key ∈ keys, KeyBelow (childKey pre name) key) := by
  rw [childrenOf, List.mem_filterMap]
  constructor
  · rintro ⟨key, hKey, hChild⟩
    obtain ⟨hName, ⟨rfl, rfl⟩ | ⟨rfl, hBelow⟩⟩ :=
      (immediateChild_eq_some hPre (hKeys key hKey)).mp hChild
    · exact ⟨hName, .inl ⟨rfl, hKey⟩⟩
    · exact ⟨hName, .inr ⟨rfl, key, hKey, hBelow⟩⟩
  · rintro ⟨hName, ⟨rfl, hKey⟩ | ⟨rfl, key, hKey, hBelow⟩⟩
    · exact ⟨_, hKey, (immediateChild_eq_some hPre (hKeys _ hKey)).mpr ⟨hName, .inl ⟨rfl, rfl⟩⟩⟩
    · exact ⟨key, hKey,
        (immediateChild_eq_some hPre (hKeys key hKey)).mpr ⟨hName, .inr ⟨rfl, hBelow⟩⟩⟩

theorem merged_immediateChildren (keys : List Str) (pre : Str) :
    ∃ merged, Merged (childrenOf keys pre) merged ∧ immediateChildren keys pre =
      sortByName merged :=
  ⟨_, merged_foldl (childrenOf keys pre), rfl⟩

theorem immediateChildren_eq_nil_iff (keys : List Str) (pre : Str) :
    immediateChildren keys pre = [] ↔ childrenOf keys pre = [] := by
  obtain ⟨merged, hMerged, hEntries⟩ := merged_immediateChildren keys pre
  rw [hEntries, List.eq_nil_iff_forall_not_mem, List.eq_nil_iff_forall_not_mem]
  constructor
  · rintro hNone ⟨name, kind⟩ hChild
    obtain ⟨entry, hEntry, -⟩ := List.mem_map.mp (hMerged.mem_names.mpr ⟨kind, hChild⟩)
    exact hNone entry (mem_sortByName.mpr hEntry)
  · intro hNone entry hEntry
    obtain ⟨kind, hChild⟩ := hMerged.mem_names.mp
      (List.mem_map_of_mem (mem_sortByName.mp hEntry))
    exact hNone _ hChild

/-- A listing becomes empty only when a key that contributes to it goes. -/
theorem exists_gone_of_eq_nil {keys' : List Str} (h : immediateChildren keys pre ≠ [])
    (h' : immediateChildren keys' pre = []) :
    ∃ key ∈ keys, key ∉ keys' ∧
      ∃ child, immediateChild (Text.trimMatches '/' pre) key = some child := by
  rw [Ne, immediateChildren_eq_nil_iff] at h
  rw [immediateChildren_eq_nil_iff] at h'
  obtain ⟨child, hChild⟩ := List.exists_mem_of_ne_nil _ h
  obtain ⟨key, hKey, hFrom⟩ := List.mem_filterMap.mp hChild
  refine ⟨key, hKey, ?_, child, hFrom⟩
  intro hStays
  have hStill : child ∈ childrenOf keys' pre := List.mem_filterMap.mpr ⟨key, hStays, hFrom⟩
  rw [h'] at hStill
  cases hStill

theorem below_of_immediateChild {child : DirectoryEntry} (hPre : IsKeyPath pre)
    (h : immediateChild (Text.trimMatches '/' pre) key = some child) : KeyBelow pre key := by
  have hne : pre ≠ [] := by
    rintro rfl
    exact not_isKeyPath_nil hPre
  rw [trimMatches_of_isKeyPath hPre, immediateChild] at h
  cases hRemainder : if pre.isEmpty then some key else Text.stripPrefix (pre ++ ['/']) key with
  | none =>
      simp only [hRemainder] at h
      cases h
  | some rest =>
      refine ⟨rest, ?_⟩
      rw [remainder_eq_some.mp hRemainder, childKey, if_neg hne]

theorem immediateChildren_lists (hPre : IsPrefix pre) (hKeys : ∀ key ∈ keys, IsKeyPath key) :
    Lists keys pre (immediateChildren keys pre) := by
  obtain ⟨merged, hMerged, hEntries⟩ := merged_immediateChildren keys pre
  rw [hEntries]
  refine ⟨sortByName_sorted hMerged.nodup, ?_, ?_⟩
  · intro name
    rw [mem_sortByName, hMerged.file, mem_childrenOf hPre hKeys]
    simp
  · intro name
    rw [mem_sortByName, hMerged.directory, mem_childrenOf hPre hKeys, mem_childrenOf hPre hKeys]
    simp only [reduceCtorEq, false_and, false_or, true_and, or_false, not_and]
    constructor
    · rintro ⟨⟨hName, hBelow⟩, hFile⟩
      exact ⟨hName, hFile hName, hBelow⟩
    · rintro ⟨hName, hFile, hBelow⟩
      exact ⟨⟨hName, hBelow⟩, fun _ => hFile⟩

theorem Lists.names {entries : List DirectoryEntry} (h : Lists keys pre entries)
    {entry : DirectoryEntry} (hEntry : entry ∈ entries) :
    IsKeyName entry.name := by
  obtain ⟨name, kind⟩ := entry
  cases kind with
  | file => exact ((h.file name).mp hEntry).1
  | directory => exact ((h.directory name).mp hEntry).1

/-- A listing is determined by which keys there are. -/
theorem Lists.unique {keys' : List Str} {entries entries' : List DirectoryEntry}
    (h : Lists keys pre entries) (h' : Lists keys' pre entries')
    (hKeys : ∀ key, key ∈ keys ↔ key ∈ keys') : entries = entries' := by
  apply h.sorted.eq_of_mem h'.sorted
  rintro ⟨name, kind⟩
  cases kind with
  | file => rw [h.file, h'.file, hKeys]
  | directory =>
    rw [h.directory, h'.directory, hKeys]
    simp only [hKeys]

/-- A directory is empty if no key lies below it. -/
theorem immediateChildren_eq_nil (hPre : IsKeyPath pre) (hKeys : ∀ key ∈ keys, IsKeyPath key) :
    immediateChildren keys pre = [] ↔ ∀ key ∈ keys, ¬ KeyBelow pre key := by
  have hLists := immediateChildren_lists (.inr hPre) hKeys
  have hne : pre ≠ [] := by
    rintro rfl
    exact not_isKeyPath_nil hPre
  have hChild (rest : Str) : childKey pre rest = pre ++ '/' :: rest := if_neg hne
  constructor
  · rintro hNil key hKey ⟨rest, rfl⟩
    have hRest := (isKeyPath_append.mp (hKeys _ hKey)).2
    have hNone : ∀ entry, entry ∉ immediateChildren keys pre := by simp [hNil]
    cases hSplit : Text.splitOnce '/' rest with
    | none =>
      have hName : IsKeyName rest := by
        refine ⟨?_, splitOnce_eq_none.mp hSplit⟩
        rintro rfl
        exact not_isKeyPath_nil hRest
      exact hNone _ ((hLists.file rest).mpr ⟨hName, hChild rest ▸ hKey⟩)
    | some parts =>
      obtain ⟨first, after⟩ := parts
      obtain ⟨hFirst, rfl⟩ := Text.splitOnce_eq_some hSplit
      have hName : IsKeyName first := by
        refine ⟨?_, hFirst⟩
        rintro rfl
        exact not_isKeyPath_nil (isKeyPath_append.mp hRest).1
      by_cases hFile : childKey pre first ∈ keys
      · exact hNone _ ((hLists.file first).mpr ⟨hName, hFile⟩)
      · refine hNone _ ((hLists.directory first).mpr ⟨hName, hFile, _, hKey, after, ?_⟩)
        rw [hChild, List.append_assoc, List.cons_append]
  · intro hNone
    rw [List.eq_nil_iff_forall_not_mem]
    rintro ⟨name, kind⟩ hEntry
    cases kind with
    | file => exact hNone _ ((hLists.file name).mp hEntry).2 ⟨name, hChild name⟩
    | directory =>
      obtain ⟨-, -, key, hKey, after, hAfter⟩ := (hLists.directory name).mp hEntry
      refine hNone key hKey ⟨name ++ '/' :: after, ?_⟩
      rw [hAfter, hChild, List.append_assoc, List.cons_append]

end EventFs.Transport

import EventFs.Fuse.Exec
import EventFs.Transport.MemoryRuns
import EventFs.Transport.Nats.Children

/-!
# Kinds of dynamic paths

The kind of a key path is found by looking for the exact key and then for keys below it. On a
store that answers from a list of keys this is the kind under which the directory above lists the
name.
-/

namespace EventFs.Fuse

open Library Protocol Transport Program

/-- The kind under which a listing has a name. -/
def listedKind (entries : List DirectoryEntry) (name : Str) : DynamicPathKind :=
  if (⟨name, .file⟩ : DirectoryEntry) ∈ entries then .file
  else if (⟨name, .directory⟩ : DirectoryEntry) ∈ entries then .directory
  else .missing

/-- What looking for the key and then for keys below it finds. -/
def lookedUpKind (keys : List Str) (key : Str) : DynamicPathKind :=
  if key ∈ keys then .file
  else if (immediateChildren keys key).isEmpty then .missing
  else .directory

theorem lookedUpKind_eq {keys : List Str} {pre name : Str} (hPre : IsPrefix pre)
    (hKeys : ∀ key ∈ keys, IsKeyPath key) (hName : IsKeyName name) :
    lookedUpKind keys (childKey pre name) = listedKind (immediateChildren keys pre) name := by
  have hLists := immediateChildren_lists hPre hKeys
  have hFile := hLists.file name
  have hDirectory := hLists.directory name
  have hBelow := immediateChildren_eq_nil (hPre.childKey.mpr hName.isKeyPath) hKeys
  rw [lookedUpKind, listedKind]
  by_cases hKey : childKey pre name ∈ keys
  · rw [if_pos hKey, if_pos (hFile.mpr ⟨hName, hKey⟩)]
  · rw [if_neg hKey, if_neg fun h => hKey (hFile.mp h).2]
    by_cases hNil : immediateChildren keys (childKey pre name) = []
    · have hNone : (⟨name, .directory⟩ : DirectoryEntry) ∉ immediateChildren keys pre := by
        intro h
        obtain ⟨-, -, key, hMem, hKeyBelow⟩ := hDirectory.mp h
        exact hBelow.mp hNil key hMem hKeyBelow
      rw [if_neg hNone, if_pos (List.isEmpty_iff.mpr hNil)]
    · have hSome : ∃ key ∈ keys, KeyBelow (childKey pre name) key := by
        by_contra hNot
        push Not at hNot
        exact hNil (hBelow.mpr hNot)
      rw [if_neg (by simpa using hNil), if_pos (hDirectory.mpr ⟨hName, hKey, hSome⟩)]

/-! ## Stores that answer from a list of keys -/

variable {σ : Type} (handle : Handler io σ) (world : σ) (bucket : Str) (keys : List Str)

structure AnswersKv : Prop where
  get : ∀ key, ∃ value, handle world (.store (.kvGet bucket key)) = (.ok value, world) ∧
    (value.isSome = true ↔ key ∈ keys)
  list : ∀ pre, handle world (.store (.listKvPrefix bucket pre)) =
    (.ok (immediateChildren keys pre), world)

structure AnswersObjects : Prop where
  metadata : ∀ object, ∃ value, handle world (.store (.objectMetadata bucket object)) =
    (.ok value, world) ∧ (value.isSome = true ↔ object ∈ keys)
  list : ∀ pre, handle world (.store (.listObjectPrefix bucket pre)) =
    (.ok (immediateChildren keys pre), world)

variable {handle world bucket keys} {mount : Mount}

theorem exec_classifyKvDynamicPath (h : AnswersKv handle world bucket keys) (key : Str) :
    exec handle (classifyKvDynamicPath bucket key) mount world =
      (.ok (lookedUpKind keys key), mount, world) := by
  obtain ⟨value, hGet, hValue⟩ := h.get key
  rw [classifyKvDynamicPath, lookedUpKind, exec_bind, exec_requestIo, hGet]
  simp only [Except.mapError, hValue]
  by_cases hKey : key ∈ keys
  · rw [if_pos hKey, if_pos hKey, exec_pure]
  · rw [if_neg hKey, if_neg hKey, exec_bind, exec_requestIo, h.list]
    simp only [Except.mapError]
    split_ifs
    · rfl
    · rfl

theorem exec_classifyObjectDynamicPath (h : AnswersObjects handle world bucket keys)
    (object : Str) :
    exec handle (classifyObjectDynamicPath bucket object) mount world =
      (.ok (lookedUpKind keys object), mount, world) := by
  obtain ⟨value, hGet, hValue⟩ := h.metadata object
  rw [classifyObjectDynamicPath, lookedUpKind, objectMetadata, exec_bind, exec_requestIo, hGet]
  simp only [Except.mapError, hValue]
  by_cases hKey : object ∈ keys
  · rw [if_pos hKey, if_pos hKey, exec_pure]
  · rw [if_neg hKey, if_neg hKey, exec_bind, exec_requestIo, h.list]
    simp only [Except.mapError]
    split_ifs
    · rfl
    · rfl

/-! ## The in-memory storage -/

theorem mem_namesIn {names : List (Str × Str)} {bucket name : Str} :
    name ∈ MemoryStorage.namesIn names bucket ↔ (bucket, name) ∈ names := by
  rw [MemoryStorage.namesIn, List.mem_filterMap]
  constructor
  · rintro ⟨⟨other, found⟩, hMem, hFound⟩
    dsimp only at hFound
    split_ifs at hFound with hBucket
    cases hFound
    exact hBucket ▸ hMem
  · intro hMem
    exact ⟨_, hMem, if_pos rfl⟩

section InMemory

variable [Serde] {w : World MemoryStorage}

theorem memory_answersKv (h : w.store.kvBuckets.contains bucket = true) :
    AnswersKv faultless w bucket (MemoryStorage.namesIn w.store.kv.keys bucket) := by
  constructor
  · intro key
    refine ⟨w.store.kv[(bucket, key)]?, rfl, ?_⟩
    rw [mem_namesIn, Std.ExtTreeMap.mem_keys, Std.ExtTreeMap.mem_iff_isSome_getElem?]
  · intro pre
    show (w.store.listKvPrefix bucket pre, w) = _
    rw [MemoryStorage.listKvPrefix, if_pos h]
    rfl

theorem memory_answersObjects (h : w.store.objectBuckets.contains bucket = true) :
    AnswersObjects faultless w bucket (MemoryStorage.namesIn w.store.objects.keys bucket) := by
  constructor
  · intro object
    refine ⟨w.store.objects[(bucket, object)]?.map fun entry =>
      ⟨entry.bytes.length, entry.sequence⟩,
      rfl, ?_⟩
    rw [Option.isSome_map, mem_namesIn, Std.ExtTreeMap.mem_keys,
      Std.ExtTreeMap.mem_iff_isSome_getElem?]
  · intro pre
    show (w.store.listObjectPrefix bucket pre, w) = _
    rw [MemoryStorage.listObjectPrefix, if_pos h]
    rfl

/-- The listing of a prefix is sorted, has no name twice and depends only on which keys there
are; it has a file where the path of the child is a key and a directory where only longer keys
are; both copies agree, and so do the kinds that are looked up, on every store that answers from
the keys and on the in-memory storage. -/
theorem directory_projection :
    (∀ (keys : List Str) (pre : Str), (∀ key ∈ keys, IsKeyPath key) → IsPrefix pre →
      SortedByName (immediateChildren keys pre) ∧
      (∀ keys' : List Str, (∀ key, key ∈ keys ↔ key ∈ keys') →
        immediateChildren keys' pre = immediateChildren keys pre) ∧
      (∀ entry ∈ immediateChildren keys pre, IsKeyName entry.name) ∧
      (∀ name, IsKeyName name →
        ((⟨name, .file⟩ : DirectoryEntry) ∈ immediateChildren keys pre ↔
          childKey pre name ∈ keys) ∧
        ((⟨name, .directory⟩ : DirectoryEntry) ∈ immediateChildren keys pre ↔
          childKey pre name ∉ keys ∧ ∃ key ∈ keys, KeyBelow (childKey pre name) key)) ∧
      Nats.immediateChildren keys pre = immediateChildren keys pre ∧
      ∀ name, IsKeyName name →
        ∀ (σ : Type) (handle : Handler io σ) (world : σ) (bucket : Str) (mount : Mount),
          (AnswersKv handle world bucket keys →
            exec handle (classifyKvDynamicPath bucket (childKey pre name)) mount world =
              (.ok (listedKind (immediateChildren keys pre) name), mount, world)) ∧
          (AnswersObjects handle world bucket keys →
            exec handle (classifyObjectDynamicPath bucket (childKey pre name)) mount world =
              (.ok (listedKind (immediateChildren keys pre) name), mount, world))) ∧
    ∀ (w : World MemoryStorage) (bucket : Str),
      (w.store.kvBuckets.contains bucket = true →
        AnswersKv faultless w bucket (MemoryStorage.namesIn w.store.kv.keys bucket)) ∧
      (w.store.objectBuckets.contains bucket = true →
        AnswersObjects faultless w bucket (MemoryStorage.namesIn w.store.objects.keys bucket)) := by
  refine ⟨?_, fun w bucket => ⟨memory_answersKv, memory_answersObjects⟩⟩
  intro keys pre hKeys hPre
  have hLists := immediateChildren_lists hPre hKeys
  refine ⟨hLists.sorted, ?_, fun entry => hLists.names, ?_, Nats.immediateChildren_eq keys pre, ?_⟩
  · intro keys' hSame
    have hKeys' : ∀ key ∈ keys', IsKeyPath key := fun key hKey => hKeys key ((hSame key).mpr hKey)
    exact (hLists.unique (immediateChildren_lists hPre hKeys') hSame).symm
  · intro name hName
    rw [hLists.file, hLists.directory]
    exact ⟨and_iff_right hName, and_iff_right hName⟩
  · intro name hName σ handle world bucket mount
    rw [← lookedUpKind_eq hPre hKeys hName]
    exact ⟨fun h => exec_classifyKvDynamicPath h _, fun h => exec_classifyObjectDynamicPath h _⟩

end InMemory

/-- A bucket with a key on top and one inside a directory. -/
def nestedKeys : World MemoryStorage :=
  ⟨((MemoryStorage.new.putKv "cfg".toList "dir/b".toList []).2.putKv "cfg".toList
    "a".toList []).2, []⟩

theorem nestedKeys_keys : MemoryStorage.namesIn nestedKeys.store.kv.keys "cfg".toList =
    ["a".toList, "dir/b".toList] := by decide

/-- The bucket lists the key and the directory, and the directory is found as one. -/
theorem nested_keys_listed :
    let _ := MemoryStorage.nullSerde
    let keys := ["a".toList, "dir/b".toList]
    SortedByName (immediateChildren keys []) ∧
      (⟨"a".toList, .file⟩ : DirectoryEntry) ∈ immediateChildren keys [] ∧
      (⟨"dir".toList, .directory⟩ : DirectoryEntry) ∈ immediateChildren keys [] ∧
      ∀ mount, exec faultless (classifyKvDynamicPath "cfg".toList "dir".toList) mount nestedKeys =
        (.ok .directory, mount, nestedKeys) := by
  let _ := MemoryStorage.nullSerde
  have hPaths : ∀ key ∈ ["a".toList, "dir/b".toList], IsKeyPath key := by
    simp only [IsKeyPath]
    decide
  have hName : IsKeyName "a".toList := by
    rw [IsKeyName]
    decide
  have hDir : IsKeyName "dir".toList := by
    rw [IsKeyName]
    decide
  obtain ⟨hLists, hMemory⟩ := directory_projection
  obtain ⟨hSorted, -, -, hKinds, -, hLookup⟩ :=
    hLists ["a".toList, "dir/b".toList] [] hPaths (.inl rfl)
  have hBelow : KeyBelow (childKey [] "dir".toList) "dir/b".toList := ⟨"b".toList, by decide⟩
  have hDirMem := (hKinds _ hDir).2.mpr ⟨by decide, _, by decide, hBelow⟩
  refine ⟨hSorted, (hKinds _ hName).1.mpr (by decide), hDirMem, fun mount => ?_⟩
  have hAnswers := (hMemory nestedKeys "cfg".toList).1 (by decide)
  rw [nestedKeys_keys] at hAnswers
  exact (hLookup _ hDir _ faultless nestedKeys "cfg".toList mount).1 hAnswers

end EventFs.Fuse

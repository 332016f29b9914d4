import EventFs.Fuse.Mount
import EventFs.Library.LossyText
import EventFs.Protocol.PathAlgebra

/-!
# The path of a name in a directory

The kernel passes the name of an entry as bytes, and `childPath` reads them as lossy text. Every
such name has a path, and names that are text have different paths; names that differ only in
what is replaced have the same one.
-/

namespace EventFs.Fuse

open Library Protocol

/-- The name of an entry as the kernel passes it. -/
structure IsFileName (name : Bytes) : Prop where
  nonempty : name ≠ []
  slash : 0x2f ∉ name
  nul : 0 ∉ name
  dot : name ≠ [0x2e]
  dots : name ≠ [0x2e, 0x2e]

instance (name : Bytes) : Decidable (IsFileName name) :=
  decidable_of_iff (name ≠ [] ∧ 0x2f ∉ name ∧ 0 ∉ name ∧ name ≠ [0x2e] ∧ name ≠ [0x2e, 0x2e])
    ⟨fun h => ⟨h.1, h.2.1, h.2.2.1, h.2.2.2.1, h.2.2.2.2⟩,
      fun h => ⟨h.nonempty, h.slash, h.nul, h.dot, h.dots⟩⟩

def PathCache.childPath (cache : PathCache) (parent : Nat) (name : Bytes) : Option MountPath :=
  (cache.path parent).bind fun parent => (parent.joinChild (Text.toStringLossy name)).toOption

theorem mem_of_char_mem_chunks {name : Bytes} {c : Char} {byte : UInt8}
    (hEncode : String.utf8EncodeChar c = [byte]) (h : Text.Chunk.char c ∈ Text.chunks name) :
    byte ∈ name := by
  rw [← Text.flatMap_chunks name]
  refine List.mem_flatMap.mpr ⟨_, h, ?_⟩
  rw [Text.Chunk.bytes, hEncode]
  exact List.mem_singleton_self byte

/-- The lossy text of a name is a component of a path. -/
theorem IsFileName.valid {name : Bytes} (h : IsFileName name) :
    validMountComponent (Text.toStringLossy name) = true := by
  rw [MountPath.validMountComponent_iff]
  refine ⟨?_, ?_, ?_, ?_, ?_⟩
  · intro hEmpty
    exact h.nonempty (Text.eq_asBytes_of_toStringLossy hEmpty (by decide))
  · intro hDot
    exact h.dot (Text.eq_asBytes_of_toStringLossy hDot (by decide))
  · intro hDots
    exact h.dots (Text.eq_asBytes_of_toStringLossy hDots (by decide))
  · intro hMem
    exact h.nul (mem_of_char_mem_chunks rfl (Text.char_mem_chunks hMem (by decide)))
  · intro hMem
    exact h.slash (mem_of_char_mem_chunks rfl (Text.char_mem_chunks hMem (by decide)))

variable {cache : PathCache} {parent : Nat} {dir : MountPath}

theorem childPath_eq_some (hParent : cache.path parent = some dir) {name : Bytes}
    (h : IsFileName name) :
    ∃ path, cache.childPath parent name = some path ∧
      path.components = dir.components ++ [Text.toStringLossy name] := by
  obtain ⟨path, hJoin, hPath⟩ := MountPath.exists_joinChild dir h.valid
  refine ⟨path, ?_, hPath⟩
  rw [PathCache.childPath, hParent, Option.bind_some, hJoin]
  rfl

/-- Two names have the same path exactly if they read as the same text. -/
theorem childPath_eq_iff (hParent : cache.path parent = some dir) {left right : Bytes}
    (hLeft : IsFileName left) (hRight : IsFileName right) :
    cache.childPath parent left = cache.childPath parent right ↔
      List.Forall₂ Text.Chunk.Similar (Text.chunks left) (Text.chunks right) := by
  obtain ⟨p, hp, hpComponents⟩ := childPath_eq_some hParent hLeft
  obtain ⟨q, hq, hqComponents⟩ := childPath_eq_some hParent hRight
  rw [hp, hq, Option.some.injEq, MountPath.eq_iff_components, hpComponents, hqComponents,
    List.append_cancel_left_eq, List.singleton_inj, Text.toStringLossy_eq_iff]

/-- Names that are text have different paths. -/
theorem childPath_asBytes_injective (hParent : cache.path parent = some dir) {left right : Str}
    (hLeft : IsFileName (Text.asBytes left)) (hRight : IsFileName (Text.asBytes right))
    (h : cache.childPath parent (Text.asBytes left) = cache.childPath parent (Text.asBytes right)) :
    left = right := by
  rw [childPath_eq_iff hParent hLeft hRight, ← Text.toStringLossy_eq_iff] at h
  rwa [Text.toStringLossy_asBytes, Text.toStringLossy_asBytes] at h

/-- Two names have different paths exactly if they do not agree chunk by chunk up to what is
replaced. -/
theorem childPath_distinct (cache : PathCache) (parent : Nat) (dir : MountPath)
    (left right : Bytes) (hParent : cache.path parent = some dir) (hLeft : IsFileName left)
    (hRight : IsFileName right) :
    (∀ p q, cache.childPath parent left = some p → cache.childPath parent right = some q → p ≠ q) ↔
      ¬ List.Forall₂ Text.Chunk.Similar (Text.chunks left) (Text.chunks right) := by
  obtain ⟨p, hp, -⟩ := childPath_eq_some hParent hLeft
  obtain ⟨q, hq, -⟩ := childPath_eq_some hParent hRight
  rw [← childPath_eq_iff hParent hLeft hRight, hp, hq, Option.some.injEq]
  constructor
  · intro h
    exact h p q rfl rfl
  · rintro h _ _ ⟨⟩ ⟨⟩
    exact h

theorem new_path_root : PathCache.new.path rootIno = some MountPath.root := by
  rw [PathCache.path, PathCache.new, PathCache.remember]
  exact Std.ExtTreeMap.getElem?_insert_self

theorem root_names_distinct :
    IsFileName [0x61] ∧ IsFileName [0x62] ∧
      ∀ p q, PathCache.new.childPath rootIno [0x61] = some p →
        PathCache.new.childPath rootIno [0x62] = some q → p ≠ q := by
  have hLeft : IsFileName [0x61] := by decide
  have hRight : IsFileName [0x62] := by decide
  refine ⟨hLeft, hRight, (childPath_distinct _ _ _ _ _ new_path_root hLeft hRight).mpr ?_⟩
  rw [← Text.toStringLossy_eq_iff]
  decide +kernel

/-- Two invalid names under the root have one path. -/
theorem childPath_collides :
    ¬ (IsFileName [0xff] → IsFileName [0xfe] → ([0xff] : Bytes) ≠ [0xfe] →
      ∀ p q, PathCache.new.childPath rootIno [0xff] = some p →
        PathCache.new.childPath rootIno [0xfe] = some q → p ≠ q) := by
  intro h
  have hLeft : IsFileName [0xff] := by decide
  have hRight : IsFileName [0xfe] := by decide
  obtain ⟨p, hp, -⟩ := childPath_eq_some new_path_root hLeft
  have hSame : PathCache.new.childPath rootIno [0xff] = PathCache.new.childPath rootIno [0xfe] := by
    rw [childPath_eq_iff new_path_root hLeft hRight, ← Text.toStringLossy_eq_iff]
    decide +kernel
  exact h hLeft hRight (by decide) p p hp (hSame ▸ hp) rfl

end EventFs.Fuse

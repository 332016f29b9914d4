import EventFs.Library.Framing
import EventFs.Transport.Nats.Core

/-!
# The names of writes in the ledger

A key is the kind of a write and three parts behind their lengths, and its subject is the key
in hexadecimal. So a subject belongs to one key and a key to one write, whatever the parts
hold.
-/

namespace EventFs.Transport.Nats

open Library Protocol

theorem scopedKey_eq (kind : Str) (parts : List Str) :
    scopedKey kind parts = kind ++ Text.frames '|' parts := by
  unfold scopedKey Text.frames
  induction parts generalizing kind with
  | nil => rw [List.foldl_nil, List.flatMap_nil, List.append_nil]
  | cons part rest ih =>
      rw [List.foldl_cons, ih, List.flatMap_cons, ← List.append_assoc]
      simp only [Text.framed, List.cons_append, List.append_assoc]

namespace Ledger

/-- The kinds under which writes are noted. -/
inductive Kind
  | kv
  | stream
  | object
deriving DecidableEq, Repr

def Kind.text : Kind → Str
  | kv => "kv".toList
  | stream => "stream".toList
  | object => "object".toList

theorem Kind.text_injective {kind kind' : Kind} (h : kind.text = kind'.text) : kind = kind' := by
  cases kind <;> cases kind' <;> first | rfl | exact absurd h (by decide)

theorem Kind.mark_notMem_text (kind : Kind) : '|' ∉ kind.text := by
  cases kind <;> decide

/-- A write as the ledger knows it: its kind, its target and its idempotency key. -/
structure Write where
  kind : Kind
  container : Str
  item : Str
  idempotencyKey : Str
deriving DecidableEq, Repr

def Write.ledgerKey (w : Write) : Str :=
  scopedKey w.kind.text [w.container, w.item, w.idempotencyKey]

theorem Write.ledgerKey_injective {w w' : Write} (h : w.ledgerKey = w'.ledgerKey) : w = w' := by
  unfold Write.ledgerKey at h
  rw [scopedKey_eq, scopedKey_eq] at h
  obtain ⟨hKind, hParts⟩ :=
    Text.front_frames_injective w.kind.mark_notMem_text w'.kind.mark_notMem_text h
  obtain ⟨kind, container, item, key⟩ := w
  obtain ⟨kind', container', item', key'⟩ := w'
  cases hParts
  obtain rfl : kind = kind' := Kind.text_injective hKind
  rfl

/-- A key begins with the first letter of its kind. -/
theorem Write.ledgerKey_head (w : Write) :
    ∃ rest, w.ledgerKey = 'k' :: rest ∨ w.ledgerKey = 's' :: rest ∨ w.ledgerKey = 'o' :: rest := by
  unfold Write.ledgerKey
  rw [scopedKey_eq]
  cases w.kind with
  | kv => exact ⟨_, Or.inl rfl⟩
  | stream => exact ⟨_, Or.inr (Or.inl rfl)⟩
  | object => exact ⟨_, Or.inr (Or.inr rfl)⟩

theorem ledgerSubject_injective {key key' : Str} (h : ledgerSubject key = ledgerSubject key') :
    key = key' := by
  have hHex := (List.cons.inj (List.append_cancel_left h)).2
  exact Text.asBytes_injective (hexEncode_injective hHex)

end Ledger

end EventFs.Transport.Nats

import MiRelay.Client.Pagination
import MiRelay.Server.Reports

/-!
# The result of a scan

Any transactions may happen between two page requests. The scan answers with the
pending ordinary deliveries of its first page, each at most once, and misses
none that is still pending at the last page unless the receiver's own size limit
excludes it.
-/

namespace MiRelay

namespace HttpSource

open Database

variable {m bound limit : Nat} {device : String} {fromJson : List UInt8 → Option CursorV1}

/-- The transactions between the pages. -/
structure Interleaved (m : Nat) (ds : Nat → Desk) : Prop where
  first : ∃ l, Steps (Desk.perform m) (fun _ _ => True) Desk.initial l (ds 0)
  next : ∀ n, ∃ l, Steps (Desk.perform m) (fun _ _ => True) (ds n) l (ds (n + 1))

namespace Interleaved

variable {ds : Nat → Desk}

theorem reachable (h : Interleaved m ds) (n : Nat) :
    ∃ l, Steps (Desk.perform m) (fun _ _ => True) Desk.initial l (ds n) := by
  induction n with
  | zero => exact h.first
  | succ n ih =>
    obtain ⟨l, hl⟩ := ih
    obtain ⟨l', hl'⟩ := h.next n
    exact ⟨_, hl.append hl'⟩

theorem numbered (h : Interleaved m ds) (n : Nat) : (ds n).db.Numbered := by
  obtain ⟨l, hl⟩ := h.reachable n
  have hinitial : Desk.initial.db.Numbered := by
    refine ⟨?_, ?_, ?_⟩ <;> simp [Desk.initial, Database.initial]
  exact Desk.numbered_run hl hinitial

theorem from_first (h : Interleaved m ds) (n : Nat) :
    ∃ l, Steps (Desk.perform m) (fun _ _ => True) (ds 0) l (ds n) := by
  induction n with
  | zero => exact ⟨[], .nil⟩
  | succ n ih =>
    obtain ⟨l, hl⟩ := ih
    obtain ⟨l', hl'⟩ := h.next n
    exact ⟨_, hl.append hl'⟩

/-- The pages of a scan are read from a snapshot. -/
theorem snapshot (h : Interleaved m ds) (hlast : (ds 0).db.lastSequence ≤ i64Max) :
    Snapshot m device ((ds 0).db.pendingSnapshot device) fun n => (ds n).db where
  readable n := by
    obtain ⟨l, hl⟩ := h.reachable n
    exact Readable.run hl
  numbered := h.numbered
  shrinking := by
    refine ⟨fun n => pairwise_pendingUpTo (h.numbered n) _, fun n row hrow => ?_⟩
    obtain ⟨l, hl⟩ := h.next n
    obtain ⟨l₀, hl₀⟩ := h.from_first n
    obtain ⟨hmem, hpending, hle⟩ := mem_pendingUpTo.mp hrow
    have hsnapshot : (ds 0).db.pendingSnapshot device ≤ (ds 0).db.lastSequence :=
      pendingSnapshot_le (h.numbered 0)
    have hgrown := Desk.lastSequence_run hl₀
    have hback := Desk.pending_run hl hmem hpending (by omega)
    exact mem_pendingUpTo.mpr ⟨hback.1, hback.2, hle⟩
  first := rfl
  bounded := (pendingSnapshot_le (h.numbered 0)).trans hlast

end Interleaved

section Reader

end Reader

end HttpSource

end MiRelay

import MiRelay.Core.Run
import MiRelay.Server.ExitGuards

/-!
# Leftovers of uploads

Purging the uploads of one folder refuses to go on when any part in the upload
directory lacks its record. Every operation keeps the record for as long as the
part exists, except for a discard, which removes the record first. As long as
no discard is cut off in between, every part has its record and the purge
removes exactly the uploads of its folder.
-/

namespace MiRelay

open Proc Relay

namespace ServerStore

variable {store : ServerStore} {sha256 : Bytes → String} {s : Relay}

/-- Every record is valid and stored under its own identity. -/
def RecordsValid (store : ServerStore) (s : Relay) : Prop :=
  ∀ k r, s.records.lookup k = some r → r.id = k ∧ store.checkUploadRecord r = .ok ()

/-- Replacing a record by a valid one keeps all records valid. -/
theorem RecordsValid.withRecord (h : store.RecordsValid s) {r : UploadRecord}
    (hr : store.checkUploadRecord r = .ok ()) : store.RecordsValid (s.withRecord r) := by
  intro k r' hk
  rw [records_withRecord, Files.lookup_insert] at hk
  split at hk
  · rename_i heq
    obtain rfl := Option.some.inj hk
    exact ⟨heq.symm, hr⟩
  · exact h k r' hk

theorem RecordsValid.erase (h : store.RecordsValid s) {t : Relay} {id : String}
    (ht : t.records = s.records.erase id) : store.RecordsValid t := by
  intro k r hk
  rw [ht, Files.lookup_erase] at hk
  split at hk
  · contradiction
  · exact h k r hk

theorem recordsValid_step {e : Event} (h : store.RecordsValid s)
    (hp : Permitted store sha256 s e) : store.RecordsValid (apply store sha256 s e) := by
  cases e with
  | createRecord r => exact h.withRecord hp.2.2.2.1
  | advance r chunk => exact h.withRecord hp.2.2.1
  | complete r => exact h.withRecord hp.1
  | discardRecord id | purgeRecord id => exact h.erase rfl
  | _ => exact h

/-- A valid record is read. -/
theorem readUploadRecord_of_valid (h : store.RecordsValid s) {k : String} {r : UploadRecord}
    (hr : s.records.lookup k = some r) : store.readUploadRecord s k = .ok (some r) := by
  obtain ⟨rfl, hcheck⟩ := h k r hr
  simp only [checkUploadRecord, bind_eq_ok] at hcheck
  obtain ⟨_, hvalid, hsize⟩ := hcheck
  have hid : validateUploadId r.id = .ok () := by
    simp only [validateUploadRecord, bind_eq_ok] at hvalid
    obtain ⟨_, hid, -⟩ := hvalid
    exact hid
  rw [readUploadRecord, bind_eq_ok]
  refine ⟨(), hid, ?_⟩
  rw [hr]
  simp only [bind_eq_ok, ensure_eq_ok] at hsize ⊢
  exact ⟨(), hsize, (), hvalid, rfl⟩

end ServerStore

end MiRelay

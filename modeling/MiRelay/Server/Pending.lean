import MiRelay.Server.ExitGuards

/-!
# Pending deliveries keep their content

Collectors and exits remove objects that several devices may share by digest,
and a payload is stored before the row that needs it. In every state of every
run a delivery that nobody acknowledged has its object with the recorded size
and digest, as long as the exit of its folder has not begun.
-/

namespace MiRelay

open Relay

/-- The object of a delivery is present with the recorded size and digest. -/
def Relay.HasContent (sha256 : Bytes → String) (s : Relay) (d : DeliveryRow) : Prop :=
  ∃ name bytes, d.object = some name ∧ s.library.objects.lookup name = some bytes ∧
    bytes.length = d.sizeBytes ∧ sha256 bytes = d.sha256

/-- Every pending delivery of a device whose exit has not begun has its content. -/
def Relay.PendingKept (sha256 : Bytes → String) (s : Relay) : Prop :=
  ∀ d ∈ s.db.deliveries.rows, d.acknowledgedAtUnix = none →
    (∀ id, d.deviceId = folderDevice id → s.db.exiting id = false) → s.HasContent sha256 d

namespace ServerStore

variable {store : ServerStore} {sha256 : Bytes → String} {s : Relay}

/-- The exits that have begun when the metadata of a folder goes. -/
theorem exiting_removeFolder (db : Database) (id f : String) :
    (db.removeFolder id).exiting f = db.exiting f := by
  simp only [Database.removeFolder, Database.exiting, Database.updateExits,
    Database.updateFolders, Table.rows_update, List.any_map]
  refine List.any_congr rfl fun row => ?_
  dsimp only [Function.comp_apply]
  split <;> rfl

/-- A row keeps its content as long as its object stays. -/
theorem HasContent.of_lookup {t : Relay} {d : DeliveryRow} (h : s.HasContent sha256 d)
    (hobject : ∀ name bytes, d.object = some name → s.library.objects.lookup name = some bytes →
      t.library.objects.lookup name = some bytes) : t.HasContent sha256 d := by
  obtain ⟨name, bytes, hname, hlookup, hrest⟩ := h
  exact ⟨name, bytes, hname, hobject name bytes hname hlookup, hrest⟩

/-- Every permitted event keeps the content of pending deliveries. -/
theorem pendingKept_step {e : Event} (h : s.PendingKept sha256) (hp : Permitted store sha256 s e) :
    (apply store sha256 s e).PendingKept sha256 := by
  cases e with
  | transaction t =>
    have hsame := sameContent_transaction store sha256 s hp
    intro d hd hnone hopen
    refine HasContent.of_lookup (h d (hsame.db.pending hd hnone) hnone fun id hid => ?_)
      fun name bytes _ hlookup => by rw [hsame.library]; exact hlookup
    by_contra hexit
    rw [Bool.not_eq_false] at hexit
    have hexit' := hsame.db.exiting id hexit
    rw [hopen id hid] at hexit'
    contradiction
  | stage | unstage | cleanupStaging | createRecord | createPart | writePart | advance | complete
  | removePart | discardRecord | discardPart | purgePart | purgeRecord => exact h
  | persist device bytes =>
    intro d hd hnone hopen
    refine HasContent.of_lookup (h d hd hnone hopen) fun name old _ hlookup => ?_
    rw [apply, Files.lookup_insert, if_neg]
    · exact hlookup
    · rintro rfl
      rw [hp.1] at hlookup
      contradiction
  | insertDelivery origin device delivery createdAt directory now =>
    obtain ⟨db, hdb⟩ := hp.accepted
    have he := Database.enqueue_ok hdb
    rw [apply_insertDelivery store sha256 hdb]
    intro d hd hnone hopen
    obtain ⟨acknowledged, -, hrows⟩ := he.deliveries
    rw [db_withDb, hrows, List.mem_append, List.mem_singleton] at hd
    rcases hd with hd | rfl
    · refine HasContent.of_lookup (h d hd hnone fun id hid => ?_) fun _ _ _ hlookup => hlookup
      have hopen := hopen id hid
      rwa [db_withDb, Database.exiting, he.folderExits] at hopen
    · obtain ⟨bytes, hlookup, hsize, hsha, hmedia⟩ := hp.stored
      refine ⟨nameOf sha256 bytes, bytes, ?_, hlookup, hsize.symm, hsha.symm⟩
      rw [DeliveryRow.object, objectOf_eq_some]
      refine ⟨hsha.symm, ?_⟩
      dsimp only [Delivery.row]
      rw [hmedia]
      exact extensionForMediaType_mediaOf bytes
  | collect name =>
    intro d hd hnone hopen
    refine HasContent.of_lookup (h d hd hnone hopen) fun n bytes hn hlookup => ?_
    rw [apply, Files.lookup_erase, if_neg]
    · exact hlookup
    · rintro rfl
      exact hp d hd hnone hn
  | erase id name =>
    intro d hd hnone hopen
    refine HasContent.of_lookup (h d hd hnone hopen) fun n bytes hn hlookup => ?_
    rw [apply, Files.lookup_erase, if_neg]
    · exact hlookup
    · rintro rfl
      have hopen := hopen id (hp.2 d hd hnone (objectOf_eq_some.mp hn).1.symm)
      have hexit : s.db.exiting id = true := hp.1
      rw [apply] at hopen
      rw [hopen] at hexit
      contradiction
  | removeFolder id =>
    intro d hd hnone hopen
    refine HasContent.of_lookup (h d (Table.mem_delete.mp hd).1 hnone fun f hf => ?_)
      fun _ _ _ hlookup => hlookup
    rw [← exiting_removeFolder s.db id f]
    exact hopen f hf

end ServerStore

end MiRelay

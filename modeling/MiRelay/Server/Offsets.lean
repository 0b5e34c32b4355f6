import MiRelay.Server.Leftovers
import MiRelay.Server.Pending

/-!
# Offsets and accepted bytes

A chunk is accepted when the record's offset moves over it. In every state the
offset of an upload is the number of bytes accepted since its creation, and the
part begins with exactly these bytes until the upload is delivered. A request
at another offset, or with more than what remains, moves no upload on.
-/

namespace MiRelay

open Proc Relay

/-- The chunks accepted for an upload since it was created, one after the other. -/
def acceptedBytes (l : List Event) (id : String) : Bytes :=
  l.foldl (fun accepted e => match e with
    | .createRecord r => if r.id = id then [] else accepted
    | .advance r chunk => if r.id = id then accepted ++ chunk else accepted
    | _ => accepted) []

theorem acceptedBytes_append (l : List Event) (e : Event) (id : String) :
    acceptedBytes (l ++ [e]) id = match e with
      | .createRecord r => if r.id = id then [] else acceptedBytes l id
      | .advance r chunk => if r.id = id then acceptedBytes l id ++ chunk else acceptedBytes l id
      | _ => acceptedBytes l id := by
  rw [acceptedBytes, List.foldl_append]
  cases e <;> rfl

/-- An event that moves no upload on accepts nothing. -/
theorem acceptedBytes_of_calm {e : Event} (hcalm : committing e = false) (l : List Event)
    (id : String) : acceptedBytes (l ++ [e]) id = acceptedBytes l id := by
  rw [acceptedBytes_append]
  cases e <;> first | rfl | contradiction

/-- The exit of the device's folder has not begun. -/
def Database.Open (db : Database) (device : String) : Prop :=
  ∀ id, device = folderDevice id → db.exiting id = false

/-- The bytes of a part, none when there is no file. -/
def Relay.partOf (s : Relay) (id : String) : Bytes := (s.parts.lookup id).getD []

namespace ServerStore

variable {store : ServerStore} {sha256 : Bytes → String} {s : Relay}

/-- Every offset counts the accepted bytes, an undelivered part begins with them, and only the
exit of its folder takes a part away that holds some. -/
structure Committed (m : List Event) (s : Relay) : Prop where
  offset : ∀ k r, s.records.lookup k = some r → r.offset = (acceptedBytes m k).length
  bytes : ∀ k r part, s.records.lookup k = some r → r.deliveryId = none →
    s.parts.lookup k = some part → part.take r.offset = acceptedBytes m k
  present : ∀ k r, s.records.lookup k = some r → r.deliveryId = none → 0 < r.offset →
    s.parts.lookup k = none → ¬s.db.Open r.deviceId

/-- Nothing is begun by taking an exit back. -/
theorem open_of_step {e : Event} (hp : Permitted store sha256 s e) {device : String}
    (h : (apply store sha256 s e).db.Open device) : s.db.Open device := by
  intro id hid
  by_contra hexit
  rw [Bool.not_eq_false] at hexit
  have hexit' : (apply store sha256 s e).db.exiting id = true := by
    cases e with
    | transaction t => exact (sameContent_transaction store sha256 s hp).db.exiting id hexit
    | insertDelivery origin device delivery createdAt directory now =>
      rw [apply, db_withDb, Database.exiting, folderExits_insert]
      exact hexit
    | removeFolder f =>
      rw [apply, db_withDb, exiting_removeFolder]
      exact hexit
    | _ => exact hexit
  rw [h id hid] at hexit'
  contradiction

/-- Events that leave records and parts alone and move no upload on. -/
theorem Committed.same {m : List Event} {e : Event} (h : Committed m s)
    (hp : Permitted store sha256 s e) (hcalm : committing e = false)
    (hrecords : (apply store sha256 s e).records = s.records)
    (hparts : (apply store sha256 s e).parts = s.parts) :
    Committed (m ++ [e]) (apply store sha256 s e) := by
  have haccepted : ∀ k, acceptedBytes (m ++ [e]) k = acceptedBytes m k :=
    acceptedBytes_of_calm hcalm m
  refine ⟨fun k r hr => ?_, fun k r part hr hnone hpart => ?_,
    fun k r hr hnone hpos hpart hopen => ?_⟩ <;> rw [hrecords] at hr
  · rw [haccepted]
    exact h.offset k r hr
  · rw [hparts] at hpart
    rw [haccepted]
    exact h.bytes k r part hr hnone hpart
  · rw [hparts] at hpart
    exact h.present k r hr hnone hpos hpart (open_of_step hp hopen)

/-- Another part of an undelivered upload has the same committed bytes. -/
theorem Committed.withPart {m m' : List Event} {id : String} {new : Bytes} (h : Committed m s)
    (haccepted : ∀ k, acceptedBytes m' k = acceptedBytes m k)
    (hnew : ∀ r, s.records.lookup id = some r → r.deliveryId = none →
      new.take r.offset = acceptedBytes m id) : Committed m' (s.withPart id new) := by
  refine ⟨fun k r hr => ?_, fun k r part hr hnone hpart => ?_, fun k r hr hnone hpos hpart => ?_⟩
  · rw [haccepted]
    exact h.offset k r hr
  · rw [parts_withPart, Files.lookup_insert] at hpart
    rw [haccepted]
    split at hpart
    · rename_i hk
      subst hk
      obtain rfl := Option.some.inj hpart
      exact hnew r hr hnone
    · exact h.bytes k r part hr hnone hpart
  · rw [parts_withPart, Files.lookup_insert] at hpart
    split at hpart
    · contradiction
    · exact h.present k r hr hnone hpos hpart

/-- The part of an upload that is delivered, gone or exiting may go. -/
theorem Committed.withoutPart {m m' : List Event} {id : String} (h : Committed m s)
    (haccepted : ∀ k, acceptedBytes m' k = acceptedBytes m k)
    (hgone : ∀ r, s.records.lookup id = some r → r.deliveryId = none → ¬s.db.Open r.deviceId) :
    Committed m' { s with parts := s.parts.erase id } := by
  refine ⟨fun k r hr => ?_, fun k r part hr hnone hpart => ?_, fun k r hr hnone hpos hpart => ?_⟩
  · rw [haccepted]
    exact h.offset k r hr
  · rw [Files.lookup_erase] at hpart
    split at hpart
    · contradiction
    · rw [haccepted]
      exact h.bytes k r part hr hnone hpart
  · rw [Files.lookup_erase] at hpart
    split at hpart
    · rename_i hk
      subst hk
      exact hgone r hr hnone
    · exact h.present k r hr hnone hpos hpart

/-- A record that goes takes nothing from the others. -/
theorem Committed.withoutRecord {m m' : List Event} {id : String} (h : Committed m s)
    (haccepted : ∀ k, acceptedBytes m' k = acceptedBytes m k) :
    Committed m' { s with records := s.records.erase id } := by
  have hkept : ∀ k r, (s.records.erase id).lookup k = some r → s.records.lookup k = some r := by
    intro k r hr
    rw [Files.lookup_erase] at hr
    split at hr
    · contradiction
    · exact hr
  refine ⟨fun k r hr => ?_, fun k r part hr => ?_, fun k r hr => h.present k r (hkept k r hr)⟩ <;>
    rw [haccepted]
  · exact h.offset k r (hkept k r hr)
  · exact h.bytes k r part (hkept k r hr)

/-- A record that is replaced agrees with the bytes accepted by then. -/
theorem Committed.withRecord {m m' : List Event} {record : UploadRecord} (h : Committed m s)
    (haccepted : ∀ k, k ≠ record.id → acceptedBytes m' k = acceptedBytes m k)
    (hoffset : record.offset = (acceptedBytes m' record.id).length)
    (hbytes : record.deliveryId = none → ∀ part, s.parts.lookup record.id = some part →
      part.take record.offset = acceptedBytes m' record.id)
    (hpresent : record.deliveryId = none → 0 < record.offset →
      s.parts.lookup record.id = none → ¬s.db.Open record.deviceId) :
    Committed m' (s.withRecord record) := by
  refine ⟨fun k r hr => ?_, fun k r part hr hnone hpart => ?_, fun k r hr hnone hpos hpart => ?_⟩ <;>
    rw [records_withRecord, Files.lookup_insert] at hr <;> split at hr
  · rename_i hk
    subst hk
    obtain rfl := Option.some.inj hr
    exact hoffset
  · rename_i hk
    rw [haccepted k hk]
    exact h.offset k r hr
  · rename_i hk
    subst hk
    obtain rfl := Option.some.inj hr
    exact hbytes hnone part hpart
  · rename_i hk
    rw [haccepted k hk]
    exact h.bytes k r part hr hnone hpart
  · rename_i hk
    subst hk
    obtain rfl := Option.some.inj hr
    exact hpresent hnone hpos hpart
  · exact h.present k r hr hnone hpos hpart

/-- Every permitted event keeps offsets and parts in step with the accepted bytes. -/
theorem Committed.step {m : List Event} {e : Event} (h : Committed m s)
    (hp : Permitted store sha256 s e) : Committed (m ++ [e]) (apply store sha256 s e) := by
  cases e with
  | transaction t =>
    have hsame := sameContent_transaction store sha256 s hp
    exact h.same hp rfl hsame.records hsame.parts
  | createRecord record =>
    obtain ⟨-, hpart, -, -, hzero, -⟩ := hp
    have haccepted : ∀ k, acceptedBytes (m ++ [.createRecord record]) k =
        if record.id = k then [] else acceptedBytes m k := fun k => by rw [acceptedBytes_append]
    refine h.withRecord (fun k hk => ?_) ?_ (fun _ part hl => ?_) fun _ hpos => ?_
    · rw [haccepted, if_neg (Ne.symm hk)]
    · rw [haccepted, if_pos rfl, hzero, List.length_nil]
    · rw [hpart] at hl
      contradiction
    · omega
  | createPart device id =>
    obtain ⟨-, -, r, hr, -, hzero, -⟩ := hp
    refine h.withPart (fun k => by rw [acceptedBytes_append]) fun r' hr' _ => ?_
    rw [hr] at hr'
    obtain rfl := Option.some.inj hr'
    have hlength := h.offset id r hr
    rw [hzero] at hlength ⊢
    rw [List.take_zero, List.eq_nil_of_length_eq_zero hlength.symm]
  | writePart id new =>
    obtain ⟨r, old, hr, hold, hopen, htake, -⟩ := hp
    refine h.withPart (fun k => by rw [acceptedBytes_append]) fun r' hr' _ => ?_
    rw [hr] at hr'
    obtain rfl := Option.some.inj hr'
    rw [htake]
    exact h.bytes id r old hr hopen hold
  | advance record chunk =>
    obtain ⟨hlookup, hopen, -, bytes, hbytes, hsplit, hle⟩ := hp
    have haccepted : ∀ k, acceptedBytes (m ++ [.advance record chunk]) k =
        if record.id = k then acceptedBytes m k ++ chunk else acceptedBytes m k :=
      fun k => by rw [acceptedBytes_append]
    refine h.withRecord (fun k hk => ?_) ?_ (fun _ part hl => ?_) fun _ _ hl => ?_
    · rw [haccepted, if_neg (Ne.symm hk)]
    · rw [haccepted, if_pos rfl, List.length_append, ← h.offset _ _ hlookup]
    · dsimp only at hl ⊢
      rw [hbytes] at hl
      obtain rfl := Option.some.inj hl
      have hlength : bytes.length = record.offset + chunk.length := by
        rw [hsplit, List.length_append, List.length_take, Nat.min_eq_left hle]
      rw [haccepted, if_pos rfl, ← h.bytes _ _ bytes hlookup hopen hbytes, ← hlength,
        List.take_length]
      exact hsplit
    · dsimp only at hl
      rw [hbytes] at hl
      contradiction
  | complete record =>
    obtain ⟨-, ⟨part, hv⟩, -⟩ := hp
    refine h.withRecord (fun k _ => by rw [acceptedBytes_append]) ?_ (fun hnone => ?_) fun hnone => ?_
    · rw [acceptedBytes_append]
      exact h.offset record.id record hv.hasRecord
    · contradiction
    · contradiction
  | removePart id =>
    -- The completed upload names its delivery.
    refine h.withoutPart (fun k => by rw [acceptedBytes_append]) fun r hr hnone => ?_
    obtain ⟨r', hr', hsome⟩ := hp
    rw [hr] at hr'
    rw [← Option.some.inj hr', hnone] at hsome
    contradiction
  | discardPart id =>
    -- The discarded upload has no record.
    refine h.withoutPart (fun k => by rw [acceptedBytes_append]) fun r hr _ => ?_
    replace hp : s.records.lookup id = none := hp
    rw [hr] at hp
    contradiction
  | purgePart id =>
    -- The folder of the purged upload exits.
    refine h.withoutPart (fun k => by rw [acceptedBytes_append]) fun r hr _ hopen => ?_
    obtain ⟨r', f, hr', hdevice, hexit⟩ := hp
    rw [hr] at hr'
    rw [← Option.some.inj hr'] at hdevice
    rw [hopen f hdevice] at hexit
    contradiction
  | discardRecord id readFails | purgeRecord id =>
    exact h.withoutRecord fun k => by rw [acceptedBytes_append]
  | stage | unstage | persist | insertDelivery | cleanupStaging | collect | erase | removeFolder =>
    exact h.same hp rfl rfl rfl

/-- In every state of every run. -/
theorem committed_run (l : List Action) :
    Committed (store.trace sha256 Relay.initial l) (store.run sha256 Relay.initial l) := by
  refine (trace_permitted Relay.initial l).history (m := []) ?_ fun _ _ _ => Committed.step
  refine ⟨?_, ?_, ?_⟩ <;> simp [Relay.initial]

/-- Every record of every run is valid. -/
theorem recordsValid_run (l : List Action) :
    store.RecordsValid (store.run sha256 Relay.initial l) :=
  run_invariant (fun k r hr => by simp [Relay.initial] at hr) (fun _ _ => recordsValid_step) l

end ServerStore

end MiRelay

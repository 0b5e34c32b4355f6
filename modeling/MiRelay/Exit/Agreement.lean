import MiRelay.Exit.Parties

/-!
# Agreement of the three parties

Cleanups that are finished stay finished, and a flag of the relay, once set, stays
set. Whatever a message or a stored phase says about a party therefore remains
true from the moment it was said, and a step only has to justify what it adds.
-/

namespace MiRelay

namespace Database

variable {db : Database} {id hash : String} {maxFileSize : Nat} {info : FolderHandshake}

/-- The role found for a credential is the one the folder row gives it. -/
theorem identity_role (h : db.identity maxFileSize id hash = .ok info) :
    ∃ row, db.findFolder id = some row ∧
      (info.role = "receiver" ∧ row.receiverHash = hash ∨
        info.role = "sender" ∧ row.receiverHash ≠ hash) := by
  simp only [identity, bind_eq_ok] at h
  obtain ⟨_, -, h⟩ := h
  split at h
  · rename_i row hrow
    rw [bind_eq_ok] at h
    obtain ⟨role, hrole, h⟩ := h
    cases Except.ok.inj h
    refine ⟨row, hrow, ?_⟩
    dsimp only
    unfold FolderRow.role at hrole
    split at hrole
    · rename_i hreceiver
      exact .inl ⟨(Except.ok.inj hrole).symm, hreceiver⟩
    · rename_i hreceiver
      split at hrole
      · exact .inr ⟨(Except.ok.inj hrole).symm, hreceiver⟩
      · contradiction
  · contradiction

end Database

/-- No flag is taken back. -/
structure ExitRow.Le (e e' : ExitRow) : Prop where
  server : e.serverCleaned = true → e'.serverCleaned = true
  sender : e.senderCleaned = true → e'.senderCleaned = true
  receiver : e.receiverCleaned = true → e'.receiverCleaned = true

namespace Parties

variable {maxFileSize : Nat} {id hash role name : String} {s t u : Parties}

/-- The exit row of the folder at the relay. -/
def exitOf (id : String) (s : Parties) : Option ExitRow := s.desk.db.exitOf id

/-- The row of the folder at the relay. -/
def folderOf (id : String) (s : Parties) : Option FolderRow := s.desk.db.findFolder id

/-- What no step takes back. -/
structure Advanced (id : String) (s t : Parties) : Prop where
  folder : ∀ row, s.folderOf id = some row → ∃ row', t.folderOf id = some row' ∧ Later row row'
  exit : ∀ e, s.exitOf id = some e → ∃ e', t.exitOf id = some e' ∧ e.Le e'
  linux : s.linux.Finished → t.linux.Finished
  android : ∀ h, (s.android h).Finished → (t.android h).Finished

namespace Advanced

theorem of_desk (hdesk : t.desk = s.desk) (hlinux : s.linux.Finished → t.linux.Finished)
    (handroid : ∀ h, (s.android h).Finished → (t.android h).Finished) : Advanced id s t where
  folder row hrow := ⟨row, by rw [folderOf, hdesk]; exact hrow, .refl row⟩
  exit e he := ⟨e, by rw [exitOf, hdesk]; exact he, ⟨fun h => h, fun h => h, fun h => h⟩⟩
  linux := hlinux
  android := handroid

theorem refl (s : Parties) : Advanced id s s := of_desk rfl (fun h => h) fun _ h => h

theorem trans (h : Advanced id s t) (h' : Advanced id t u) : Advanced id s u where
  folder row hrow := by
    obtain ⟨row', hrow', hlater⟩ := h.folder row hrow
    obtain ⟨row'', hrow'', hlater'⟩ := h'.folder row' hrow'
    exact ⟨row'', hrow'', hlater.trans hlater'⟩
  exit e he := by
    obtain ⟨e', he', hle⟩ := h.exit e he
    obtain ⟨e'', he'', hle'⟩ := h'.exit e' he'
    exact ⟨e'', he'', ⟨hle'.server ∘ hle.server, hle'.sender ∘ hle.sender,
      hle'.receiver ∘ hle.receiver⟩⟩
  linux := h'.linux ∘ h.linux
  android x := h'.android x ∘ h.android x

end Advanced

/-- The credential has this role in the folder. -/
def Seated (id : String) (s : Parties) (role hash : String) : Prop :=
  ∃ row, s.folderOf id = some row ∧
    (role = "receiver" ∧ row.receiverHash = hash ∨ role = "sender" ∧ row.receiverHash ≠ hash)

/-- The holder of the credential has finished its cleanup. -/
def Entitled (id : String) (s : Parties) (hash : String) : Prop :=
  ∃ row, s.folderOf id = some row ∧ (row.receiverHash = hash ∧ s.linux.Finished ∨
    row.receiverHash ≠ hash ∧ (s.android hash).Finished)

/-- What an answer says holds at the relay. -/
def Reported (id : String) (s : Parties) (status : FolderExitStatus) : Prop :=
  status.requested = true → ∃ e, s.exitOf id = some e ∧
    (status.serverCleaned = true → e.serverCleaned = true) ∧
    (status.senderCleaned = true → e.senderCleaned = true) ∧
    (status.receiverCleaned = true → e.receiverCleaned = true)

/-- The relay has all three flags. -/
def AllDone (id : String) (s : Parties) : Prop :=
  ∃ e, s.exitOf id = some e ∧ e.serverCleaned = true ∧ e.senderCleaned = true ∧
    e.receiverCleaned = true

namespace Advanced

theorem seated (h : Advanced id s t) (hs : Seated id s role hash) : Seated id t role hash := by
  obtain ⟨row, hrow, hcase⟩ := hs
  obtain ⟨row', hrow', hlater⟩ := h.folder row hrow
  refine ⟨row', hrow', ?_⟩
  rw [hlater.receiver]
  exact hcase

theorem entitled (h : Advanced id s t) (hs : Entitled id s hash) : Entitled id t hash := by
  obtain ⟨row, hrow, hcase⟩ := hs
  obtain ⟨row', hrow', hlater⟩ := h.folder row hrow
  refine ⟨row', hrow', ?_⟩
  rw [hlater.receiver]
  exact hcase.imp (.imp_right h.linux) (.imp_right (h.android hash))

theorem reported {status : FolderExitStatus} (h : Advanced id s t) (hs : Reported id s status) :
    Reported id t status := by
  intro hrequested
  obtain ⟨e, he, hserver, hsender, hreceiver⟩ := hs hrequested
  obtain ⟨e', he', hle⟩ := h.exit e he
  exact ⟨e', he', hle.server ∘ hserver, hle.sender ∘ hsender, hle.receiver ∘ hreceiver⟩

theorem allDone (h : Advanced id s t) (hs : AllDone id s) : AllDone id t := by
  obtain ⟨e, he, hserver, hsender, hreceiver⟩ := hs
  obtain ⟨e', he', hle⟩ := h.exit e he
  exact ⟨e', he', hle.server hserver, hle.sender hsender, hle.receiver hreceiver⟩

end Advanced

/-- An exit row belongs to a revoked folder, and its flags are those of finished parties. -/
structure RelaySound (id : String) (s : Parties) : Prop where
  folder : ∀ e, s.exitOf id = some e → ∃ row, s.folderOf id = some row ∧ row.disconnected = true
  sender : ∀ e row, s.exitOf id = some e → s.folderOf id = some row → e.senderCleaned = true →
    ∀ h, row.senderHash = some h → (s.android h).Finished
  receiver : ∀ e, s.exitOf id = some e → e.receiverCleaned = true → s.linux.Finished

/-- A request at the relay has its role, and a receipt its cleanup. -/
def DispatchSound (id : String) (s : Parties) (d : Dispatch) : Prop :=
  Seated id s d.role d.request.hash ∧ (d.request.operation = .ack → Entitled id s d.request.hash)

/-- An answer is addressed to its role and stays true. -/
def ReplySound (id : String) (s : Parties) (r : ExitReply) : Prop :=
  Seated id s r.status.role r.request.hash ∧ Reported id s r.status

/-- A receipt is sent after the cleanup. -/
def RequestSound (id : String) (s : Parties) (q : ExitRequest) : Prop :=
  q.operation = .ack → Entitled id s q.hash

structure LinuxSound (id : String) (s : Parties) (c : LinuxClient) : Prop where
  receiving : c.operation = some .receive → c.retired = false
  runs : ∀ r ∈ c.runs, r.stage = .clean → Seated id s "receiver" r.hash
  cleaning : ∀ hash, c.operation = some (.cleaning hash) → Seated id s "receiver" hash
  receipt : ∀ hash, c.operation = some (.receipt hash) → c.Finished
  cleaned : c.connectionState.isCleaned = true → c.Finished
  exited : c.connectionState = .exited → AllDone id s

structure AndroidSound (id : String) (s : Parties) (hash : String) (c : AndroidClient) : Prop where
  cleaning : c.stage = .cleaning → Seated id s "sender" hash
  acknowledging : c.stage = .acknowledging → c.exitPhase.isCleaned = true
  cleaned : c.exitPhase.isCleaned = true → c.staged = []
  complete : c.exitPhase = .complete → AllDone id s

/-- Every message and every stored phase is backed by the parties it speaks of. -/
structure Sound (id : String) (s : Parties) : Prop where
  relay : RelaySound id s
  dispatches : ∀ d ∈ s.dispatches, DispatchSound id s d
  replies : ∀ r ∈ s.replies, ReplySound id s r
  sent : ∀ q ∈ s.sent, RequestSound id s q
  linux : LinuxSound id s s.linux
  android : ∀ h, AndroidSound id s h (s.android h)

namespace Advanced

theorem dispatchSound {d : Dispatch} (h : Advanced id s t) (hs : DispatchSound id s d) :
    DispatchSound id t d :=
  ⟨h.seated hs.1, fun hack => h.entitled (hs.2 hack)⟩

theorem replySound {r : ExitReply} (h : Advanced id s t) (hs : ReplySound id s r) :
    ReplySound id t r :=
  ⟨h.seated hs.1, h.reported hs.2⟩

theorem requestSound {q : ExitRequest} (h : Advanced id s t) (hs : RequestSound id s q) :
    RequestSound id t q :=
  fun hack => h.entitled (hs hack)

theorem linuxSound {c : LinuxClient} (h : Advanced id s t) (hs : LinuxSound id s c) :
    LinuxSound id t c :=
  ⟨hs.receiving, fun r hr hstage => h.seated (hs.runs r hr hstage),
    fun hash hop => h.seated (hs.cleaning hash hop), hs.receipt, hs.cleaned,
    fun hexited => h.allDone (hs.exited hexited)⟩

theorem androidSound {c : AndroidClient} (h : Advanced id s t) (hs : AndroidSound id s hash c) :
    AndroidSound id t hash c :=
  ⟨fun hstage => h.seated (hs.cleaning hstage), hs.acknowledging, hs.cleaned,
    fun hcomplete => h.allDone (hs.complete hcomplete)⟩

/-- The flags of a relay that did nothing are still backed. -/
theorem relaySound (h : Advanced id s t) (hdesk : t.desk = s.desk) (hs : RelaySound id s) :
    RelaySound id t where
  folder e he := by
    rw [exitOf, hdesk] at he
    rw [folderOf, hdesk]
    exact hs.folder e he
  sender e row he hrow hcleaned x hx := by
    rw [exitOf, hdesk] at he
    rw [folderOf, hdesk] at hrow
    exact h.android x (hs.sender e row he hrow hcleaned x hx)
  receiver e he hcleaned := by
    rw [exitOf, hdesk] at he
    exact h.linux (hs.receiver e he hcleaned)

end Advanced

/-- After a step only what is new has to be justified. -/
theorem Sound.next (h : Sound id s) (hadv : Advanced id s t) (hrelay : RelaySound id t)
    (hdispatches : ∀ d ∈ t.dispatches, d ∈ s.dispatches ∨ DispatchSound id s d)
    (hreplies : ∀ r ∈ t.replies, r ∈ s.replies ∨ ReplySound id t r)
    (hsent : ∀ q ∈ t.sent, q ∈ s.sent ∨ RequestSound id s q)
    (hlinux : LinuxSound id s t.linux) (handroid : ∀ x, AndroidSound id s x (t.android x)) :
    Sound id t where
  relay := hrelay
  dispatches d hd := hadv.dispatchSound ((hdispatches d hd).elim (h.dispatches d) fun hnew => hnew)
  replies r hr := (hreplies r hr).elim (fun hold => hadv.replySound (h.replies r hold)) fun hnew => hnew
  sent q hq := hadv.requestSound ((hsent q hq).elim (h.sent q) fun hnew => hnew)
  linux := hadv.linuxSound hlinux
  android x := hadv.androidSound (handroid x)

/-! ### Transactions -/

/-- Whatever the relay commits besides a receipt keeps what was said. -/
theorem advanced_of_seat {desk : Desk} (h : Database.SeatKept id s.desk.db desk.db) :
    Advanced id s { s with desk } where
  folder := h.folder
  exit e he := by
    obtain ⟨e', he', hsender, hreceiver, hserver⟩ := h.exit e he
    exact ⟨e', he', ⟨hserver, fun h => hsender.trans h, fun h => hreceiver.trans h⟩⟩
  linux h := h
  android _ h := h

theorem relaySound_of_seat {desk : Desk} (h : Database.SeatKept id s.desk.db desk.db)
    (hs : RelaySound id s) : RelaySound id { s with desk } := by
  have hback : ∀ e', desk.db.exitOf id = some e' →
      (∃ e row, s.exitOf id = some e ∧ s.folderOf id = some row ∧ row.disconnected = true ∧
        e'.senderCleaned = e.senderCleaned ∧ e'.receiverCleaned = e.receiverCleaned) ∨
      e'.receiverCleaned = false ∧ ∃ row', desk.db.findFolder id = some row' ∧
        row'.disconnected = true ∧ e'.senderCleaned = row'.senderHash.isNone := by
    intro e' he'
    cases he : s.desk.db.exitOf id with
    | none =>
      obtain ⟨-, hreceiver, hrow⟩ := h.begun he e' he'
      exact .inr ⟨hreceiver, hrow⟩
    | some e =>
      obtain ⟨row, hrow, hclosed⟩ := hs.folder e he
      obtain ⟨e'', he'', hsender, hreceiver, -⟩ := h.exit e he
      rw [he'] at he''
      cases Option.some.inj he''
      exact .inl ⟨e, row, he, hrow, hclosed, hsender, hreceiver⟩
  refine ⟨fun e' he' => ?_, fun e' row' he' hrow' hcleaned x hx => ?_, fun e' he' hcleaned => ?_⟩
  · rcases hback e' he' with ⟨e, row, -, hrow, hclosed, -⟩ | ⟨-, row', hrow', hclosed, -⟩
    · obtain ⟨row', hrow', hlater⟩ := h.folder row hrow
      exact ⟨row', hrow', (hlater.disconnected hclosed).1⟩
    · exact ⟨row', hrow', hclosed⟩
  · rcases hback e' he' with ⟨e, row, he, hrow, hclosed, hsender, -⟩ | ⟨-, row'', hrow'', -, hnone⟩
    · obtain ⟨row'', hrow'', hlater⟩ := h.folder row hrow
      have hsame : row' = row'' := Option.some.inj (hrow'.symm.trans hrow'')
      rw [hsame, (hlater.disconnected hclosed).2] at hx
      exact hs.sender e row he hrow (hsender.symm.trans hcleaned) x hx
    · have hsame : row' = row'' := Option.some.inj (hrow'.symm.trans hrow'')
      rw [hcleaned, ← hsame, hx] at hnone
      contradiction
  · rcases hback e' he' with ⟨e, -, he, -, -, -, hreceiver⟩ | ⟨hreceiver, -⟩
    · exact hs.receiver e he (hreceiver.symm.trans hcleaned)
    · rw [hreceiver] at hcleaned
      contradiction

/-- A transaction that is no receipt keeps everything backed. -/
theorem Sound.transaction {desk : Desk} {a : Transaction} (h : Sound id s)
    (hdesk : s.desk.perform maxFileSize a = some desk) (ha : a.isReceipt id = false) :
    Advanced id s { s with desk } ∧ Sound id { s with desk } := by
  have hseat := Desk.perform_seat hdesk ha
  have hadv : Advanced id s { s with desk } := advanced_of_seat hseat
  exact ⟨hadv, h.next hadv (relaySound_of_seat hseat h.relay) (fun _ => .inl) (fun _ => .inl)
    (fun _ => .inl) h.linux h.android⟩

/-- An accepted receipt is that of a party that has finished. -/
theorem Sound.receipt {desk : Desk} {d : Dispatch} (h : Sound id s) (hd : d ∈ s.dispatches)
    (hack : d.request.operation = .ack)
    (hdesk : s.desk.perform maxFileSize (.receiveExit id d.request.hash d.role) = some desk) :
    Advanced id s { s with desk } ∧ Sound id { s with desk } := by
  obtain ⟨⟨row₀, hrow₀, hauthorized⟩, hfolder, e, he, -, he'⟩ := Desk.perform_receipt hdesk
  obtain ⟨⟨row₁, hrow₁, hrole⟩, hentitled⟩ := h.dispatches d hd
  obtain ⟨row₂, hrow₂, hfinished⟩ := hentitled hack
  have hsame₁ : row₁ = row₀ := Option.some.inj (hrow₁.symm.trans hrow₀)
  have hsame₂ : row₂ = row₀ := Option.some.inj (hrow₂.symm.trans hrow₀)
  subst hsame₁ hsame₂
  have hadv : Advanced id s { s with desk } := by
    refine ⟨fun row hrow => ⟨row, hfolder row hrow, .refl row⟩, fun e₁ he₁ => ?_, fun h => h,
      fun _ h => h⟩
    have hsame : e₁ = e := Option.some.inj (he₁.symm.trans he)
    subst hsame
    refine ⟨_, he', ?_⟩
    split
    · exact ⟨fun h => h, fun _ => rfl, fun h => h⟩
    · exact ⟨fun h => h, fun h => h, fun _ => rfl⟩
  have hrelay : RelaySound id { s with desk } := by
    obtain ⟨row, hrow, hclosed⟩ := h.relay.folder e he
    refine ⟨fun _ _ => ⟨row, hfolder row hrow, hclosed⟩, fun e₁ row₁ he₁ hrow₁ hcleaned x hx => ?_,
      fun e₁ he₁ hcleaned => ?_⟩
    · have hrow' : row₁ = row₂ := Option.some.inj (hrow₁.symm.trans (hfolder row₂ hrow₂))
      subst hrow'
      have hnew := Option.some.inj (he₁.symm.trans he')
      rcases hrole with ⟨hrole, -⟩ | ⟨-, hother⟩
      · rw [if_neg (by rw [hrole]; decide)] at hnew
        rw [hnew] at hcleaned
        exact h.relay.sender e row₁ he hrow₂ hcleaned x hx
      · have hsender := hauthorized.resolve_left hother
        have hsame : x = d.request.hash := Option.some.inj (hx.symm.trans hsender)
        rw [hsame]
        exact (hfinished.resolve_left fun hreceiver => hother hreceiver.1).2
    · have hnew := Option.some.inj (he₁.symm.trans he')
      rcases hrole with ⟨-, hsame⟩ | ⟨hrole, -⟩
      · exact (hfinished.resolve_right fun hsender => hsender.1 hsame).2
      · rw [if_pos hrole] at hnew
        rw [hnew] at hcleaned
        exact h.relay.receiver e he hcleaned
  exact ⟨hadv, h.next hadv hrelay (fun _ => .inl) (fun _ => .inl) (fun _ => .inl) h.linux h.android⟩

/-! ### The volatile parts -/

/-- The same relay and the same stored phases. -/
theorem Sound.same (h : Sound id s) (hdesk : t.desk = s.desk) (hlinux : t.linux = s.linux)
    (handroid : t.android = s.android)
    (hdispatches : ∀ d ∈ t.dispatches, d ∈ s.dispatches ∨ DispatchSound id s d)
    (hreplies : ∀ r ∈ t.replies, r ∈ s.replies ∨ ReplySound id s r)
    (hsent : ∀ q ∈ t.sent, q ∈ s.sent ∨ RequestSound id s q) :
    Advanced id s t ∧ Sound id t := by
  have hadv : Advanced id s t := by
    refine .of_desk hdesk (fun h => ?_) fun x hx => ?_
    · rw [hlinux]
      exact h
    · rw [handroid]
      exact hx
  refine ⟨hadv, h.next hadv (hadv.relaySound hdesk h.relay) hdispatches
    (fun r hr => (hreplies r hr).imp_right hadv.replySound) hsent ?_ fun x => ?_⟩
  · rw [hlinux]
    exact h.linux
  · rw [handroid]
    exact h.android x

/-- A request goes on with the role it has. -/
theorem Sound.advance {d : Dispatch} {stage : DispatchStage} (h : Sound id s)
    (hd : d ∈ s.dispatches) : Advanced id s (s.advance d stage) ∧ Sound id (s.advance d stage) := by
  refine h.same rfl rfl rfl (fun d' hd' => ?_) (fun _ => .inl) fun _ => .inl
  rcases List.mem_cons.mp hd' with rfl | hd'
  · exact .inr (h.dispatches d hd)
  · exact .inl (List.mem_of_mem_erase hd')

/-- A request that is no receipt, or that of a finished party, may be sent. -/
theorem Sound.send {operation : ExitOperation} (h : Sound id s)
    (hack : operation = .ack → Entitled id s hash) :
    Advanced id s (s.send hash operation) ∧ Sound id (s.send hash operation) := by
  refine h.same rfl rfl rfl (fun _ => .inl) (fun _ => .inl) fun q hq => ?_
  rcases List.mem_cons.mp hq with rfl | hq
  · exact .inr hack
  · exact .inl hq

/-- The Linux client takes a step that its own conditions allow. -/
theorem Sound.setLinux {c : LinuxClient} (h : Sound id s)
    (hfinished : s.linux.Finished → c.Finished) (hc : LinuxSound id s c) :
    Advanced id s { s with linux := c } ∧ Sound id { s with linux := c } := by
  have hadv : Advanced id s { s with linux := c } := .of_desk rfl hfinished fun _ h => h
  exact ⟨hadv, h.next hadv (hadv.relaySound rfl h.relay) (fun _ => .inl) (fun _ => .inl)
    (fun _ => .inl) hc h.android⟩

/-- An Android client takes a step that its own conditions allow. -/
theorem Sound.setAndroid {c : AndroidClient} (h : Sound id s)
    (hfinished : (s.android hash).Finished → c.Finished) (hc : AndroidSound id s hash c) :
    Advanced id s (s.setAndroid hash c) ∧ Sound id (s.setAndroid hash c) := by
  have hadv : Advanced id s (s.setAndroid hash c) := by
    refine .of_desk rfl (fun h => h) fun x hx => ?_
    simp only [Parties.setAndroid]
    split
    · rename_i hsame
      rw [hsame] at hx
      exact hfinished hx
    · exact hx
  refine ⟨hadv, h.next hadv (hadv.relaySound rfl h.relay) (fun _ => .inl) (fun _ => .inl)
    (fun _ => .inl) h.linux fun x => ?_⟩
  simp only [Parties.setAndroid]
  split
  · rename_i hsame
    rw [hsame]
    exact hc
  · exact h.android x

/-- What an accepted answer tells. -/
theorem Sound.accepts {reply : ExitReply} {operation : ExitOperation} (h : Sound id s)
    (hreply : s.accepts reply hash role operation = true) :
    Seated id s role hash ∧ Reported id s reply.status ∧
      (operation ≠ .status → reply.status.requested = true ∧ reply.status.serverCleaned = true) := by
  simp only [Parties.accepts, Bool.and_eq_true, decide_eq_true_eq, beq_iff_eq] at hreply
  obtain ⟨⟨⟨hmem, hrequest⟩, hvalid⟩, hrole⟩ := hreply
  obtain ⟨hseated, hreported⟩ := h.replies reply hmem
  rw [hrole, hrequest] at hseated
  refine ⟨hseated, hreported, fun hmutation => ?_⟩
  simp only [ExitReply.valid, hrequest, Bool.and_eq_true, Bool.or_eq_true, beq_iff_eq] at hvalid
  exact hvalid.2.resolve_left hmutation

/-- A sender that has finished is entitled to its receipt. -/
theorem seated_sender_entitled (h : Seated id s "sender" hash) (hfinished : (s.android hash).Finished) :
    Entitled id s hash := by
  obtain ⟨row, hrow, hrole⟩ := h
  exact ⟨row, hrow, .inr ⟨(hrole.resolve_left fun hreceiver => absurd hreceiver.1 (by decide)).2,
    hfinished⟩⟩

/-- The stored phase of an exit that is requested or resumed. -/
theorem Sound.revoking (h : Sound id s) (hash : String) :
    Advanced id s (s.setAndroid hash { s.android hash with
      exitPhase := if (s.android hash).exitPhase = .none then .pending else (s.android hash).exitPhase
      stage := .revoking }) ∧
    Sound id (s.setAndroid hash { s.android hash with
      exitPhase := if (s.android hash).exitPhase = .none then .pending else (s.android hash).exitPhase
      stage := .revoking }) := by
  have ha := h.android hash
  cases hphase : (s.android hash).exitPhase with
  | none =>
    exact h.setAndroid (fun hfinished => absurd hfinished.1 (by rw [hphase]; decide))
      ⟨fun hstage => (by cases hstage), fun hstage => (by cases hstage),
        fun hcleaned => (by cases hcleaned), fun hcomplete => (by cases hcomplete)⟩
  | _ =>
    rw [if_neg (by decide), ← hphase]
    exact h.setAndroid (fun h => h) ⟨fun hstage => (by cases hstage),
      fun hstage => (by cases hstage), ha.cleaned, ha.complete⟩

/-! ### The steps -/

/-- A step of the relay keeps everything backed. -/
theorem Sound.performRelay {a : ExitStep} (h : Sound id s)
    (ht : s.performRelay maxFileSize id a = some t) : Advanced id s t ∧ Sound id t := by
  cases a with
  | transaction a =>
    simp only [Parties.performRelay] at ht
    split at ht
    · contradiction
    · rename_i ha
      obtain ⟨desk, hdesk, rfl⟩ := Option.map_eq_some_iff.mp ht
      exact h.transaction hdesk (Bool.eq_false_iff.mpr ha)
  | identify q =>
    simp only [Parties.performRelay] at ht
    split at ht
    · rename_i hsent
      split at ht
      · rename_i info hinfo
        rw [← Option.some.inj ht]
        refine h.same rfl rfl rfl (fun d hd => ?_) (fun _ => .inl) fun _ => .inl
        rcases List.mem_cons.mp hd with rfl | hd
        · exact .inr ⟨Database.identity_role hinfo, h.sent q hsent⟩
        · exact .inl hd
      · contradiction
    · contradiction
  | revoke d =>
    simp only [Parties.performRelay] at ht
    split at ht
    · rename_i hd
      obtain ⟨desk, hdesk, rfl⟩ := Option.map_eq_some_iff.mp ht
      obtain ⟨hadv, hsound⟩ := h.transaction hdesk rfl
      obtain ⟨hadv', hsound'⟩ := hsound.advance hd.1
      exact ⟨hadv.trans hadv', hsound'⟩
    · contradiction
  | remove d =>
    simp only [Parties.performRelay] at ht
    split at ht
    · rename_i hd
      obtain ⟨desk, hdesk, rfl⟩ := Option.map_eq_some_iff.mp ht
      obtain ⟨hadv, hsound⟩ := h.transaction hdesk rfl
      obtain ⟨hadv', hsound'⟩ := hsound.advance hd.1
      exact ⟨hadv.trans hadv', hsound'⟩
    · contradiction
  | receipt d =>
    simp only [Parties.performRelay] at ht
    split at ht
    · rename_i hd
      obtain ⟨desk, hdesk, rfl⟩ := Option.map_eq_some_iff.mp ht
      obtain ⟨hadv, hsound⟩ := h.receipt hd.1 hd.2.1 hdesk
      obtain ⟨hadv', hsound'⟩ := hsound.advance hd.1
      exact ⟨hadv.trans hadv', hsound'⟩
    · contradiction
  | answer d =>
    simp only [Parties.performRelay] at ht
    split at ht
    · rename_i hd
      rw [← Option.some.inj ht]
      refine h.same rfl rfl rfl (fun d' hd' => .inl (List.mem_of_mem_erase hd')) (fun r hr => ?_)
        fun _ => .inl
      rcases List.mem_cons.mp hr with rfl | hr
      · refine .inr ⟨(h.dispatches d hd.1).1, fun hrequested => ?_⟩
        obtain ⟨e, he⟩ := Option.isSome_iff_exists.mp hrequested
        exact ⟨e, he, by simp [Database.exitStatus, he], by simp [Database.exitStatus, he],
          by simp [Database.exitStatus, he]⟩
      · exact .inl hr
    · contradiction
  | relayRestart =>
    rw [← Option.some.inj ht]
    exact h.same rfl rfl rfl (fun d hd => absurd hd List.not_mem_nil) (fun _ => .inl) fun _ => .inl
  | _ => contradiction

/-- A step of the Linux client keeps everything backed. -/
theorem Sound.performLinux {a : ExitStep} (h : Sound id s) (ht : s.performLinux a = some t) :
    Advanced id s t ∧ Sound id t := by
  have hl := h.linux
  cases a with
  | linuxConnection c =>
    simp only [Parties.performLinux] at ht
    split at ht
    · rename_i hc
      rw [← Option.some.inj ht]
      have hopen : c.isCleaned = false ∧ c ≠ .exited := by
        have hmem := hc.2
        simp only [List.mem_cons, List.not_mem_nil, or_false] at hmem
        rcases hmem with rfl | rfl | rfl <;> decide
      refine h.setLinux (fun h => h) ⟨hl.receiving, hl.runs, hl.cleaning, hl.receipt, ?_, ?_⟩
      · intro hcleaned
        rw [hopen.1] at hcleaned
        contradiction
      · exact fun hexited => absurd hexited hopen.2
    · contradiction
  | linuxReceive =>
    simp only [Parties.performLinux] at ht
    split at ht
    · rename_i hc
      rw [← Option.some.inj ht]
      refine h.setLinux (fun h => h) ⟨fun _ => by simpa using hc.2.2, hl.runs, ?_, ?_, hl.cleaned,
        hl.exited⟩
      · intro hash hop
        cases Option.some.inj hop
      · intro hash hop
        cases Option.some.inj hop
    · contradiction
  | linuxFile name =>
    simp only [Parties.performLinux] at ht
    split at ht
    · rename_i hop
      rw [← Option.some.inj ht]
      have hopen : ¬s.linux.Finished := fun hfinished => by
        have hretired := hl.receiving hop
        rw [hfinished.1] at hretired
        contradiction
      exact h.setLinux (fun hfinished => absurd hfinished hopen) ⟨hl.receiving, hl.runs,
        hl.cleaning, fun hash hreceipt => absurd (hl.receipt hash hreceipt) hopen,
        fun hcleaned => absurd (hl.cleaned hcleaned) hopen, hl.exited⟩
    · contradiction
  | linuxReceived =>
    simp only [Parties.performLinux] at ht
    split at ht
    · rw [← Option.some.inj ht]
      refine h.setLinux (fun h => h) ⟨?_, hl.runs, ?_, ?_, hl.cleaned, hl.exited⟩
      · exact fun hop => absurd hop.symm (Option.some_ne_none _)
      · exact fun _ hop => absurd hop.symm (Option.some_ne_none _)
      · exact fun _ hop => absurd hop.symm (Option.some_ne_none _)
    · contradiction
  | linuxLoad hash =>
    simp only [Parties.performLinux] at ht
    split at ht
    · contradiction
    · rw [← Option.some.inj ht]
      refine h.setLinux (fun h => h) ⟨hl.receiving, fun r hr hstage => ?_, hl.cleaning, hl.receipt,
        hl.cleaned, hl.exited⟩
      rcases List.mem_cons.mp hr with rfl | hr
      · contradiction
      · exact hl.runs r hr hstage
  | linuxSave r =>
    simp only [Parties.performLinux] at ht
    split at ht
    · rename_i hr
      rw [← Option.some.inj ht]
      have hruns : ∀ r' ∈ ({ r with config := if r.config.isCleaned then r.config else .exitPending
                                    stage := .status } : LinuxRun) :: s.linux.runs.erase r,
          r'.stage = .clean → Seated id s "receiver" r'.hash := by
        intro r' hr' hstage
        rcases List.mem_cons.mp hr' with rfl | hr'
        · contradiction
        · exact hl.runs r' (List.mem_of_mem_erase hr') hstage
      have hstep := h.setLinux (c := { s.linux with
        connectionState := if r.config.isCleaned then s.linux.connectionState
          else if r.config.isCleaned then r.config else .exitPending
        runs := { r with config := if r.config.isCleaned then r.config else .exitPending
                         stage := .status } :: s.linux.runs.erase r }) (fun h => h)
        ⟨hl.receiving, hruns, hl.cleaning, hl.receipt, fun hcleaned => ?_, fun hexited => ?_⟩
      · obtain ⟨hadv, hsound⟩ := hstep
        have hsend : Advanced id _ (Parties.send _ r.hash .status) ∧ _ :=
          hsound.send fun hack => by cases hack
        exact ⟨hadv.trans hsend.1, hsend.2⟩
      · dsimp only at hcleaned
        cases hconfig : r.config.isCleaned <;> simp only [hconfig] at hcleaned
        · contradiction
        · exact hl.cleaned hcleaned
      · dsimp only at hexited
        cases hconfig : r.config.isCleaned <;> simp only [hconfig] at hexited
        · contradiction
        · exact hl.exited hexited
    · contradiction
  | linuxStatus r reply =>
    simp only [Parties.performLinux] at ht
    split at ht
    · rename_i hr
      rw [← Option.some.inj ht]
      have hseated := (h.accepts hr.2.2).1
      obtain ⟨hadv, hsound⟩ := h.setLinux (c := { s.linux with
        runs := { r with stage := .clean } :: s.linux.runs.erase r }) (fun h => h)
        ⟨hl.receiving, fun r' hr' hstage => by
          rcases List.mem_cons.mp hr' with rfl | hr'
          · exact hseated
          · exact hl.runs r' (List.mem_of_mem_erase hr') hstage,
        hl.cleaning, hl.receipt, hl.cleaned, hl.exited⟩
      have hsend : Advanced id _ (Parties.send _ r.hash .clean) ∧ _ :=
        hsound.send fun hack => by cases hack
      exact ⟨hadv.trans hsend.1, hsend.2⟩
    · contradiction
  | linuxRevoked r reply =>
    simp only [Parties.performLinux] at ht
    split at ht
    · rename_i hr
      have hruns : ∀ r' ∈ s.linux.runs.erase r, r'.stage = .clean →
          Seated id s "receiver" r'.hash :=
        fun r' hr' hstage => hl.runs r' (List.mem_of_mem_erase hr') hstage
      have hseated := (h.accepts hr.2.2.1).1
      split at ht
      · rename_i hcleaned
        rw [← Option.some.inj ht]
        have hfinished := hl.cleaned hcleaned
        obtain ⟨hadv, hsound⟩ := h.setLinux (c := { s.linux with
          runs := s.linux.runs.erase r, operation := some (.receipt r.hash) }) (fun h => h)
          ⟨(fun hop => by cases Option.some.inj hop), hruns, (fun hash hop => by cases Option.some.inj hop),
            fun _ _ => hfinished, hl.cleaned, hl.exited⟩
        obtain ⟨row, hrow, hreceiver⟩ := hadv.seated hseated
        have hentitled : Entitled id _ r.hash := ⟨row, hrow, .inl ⟨?_, hfinished⟩⟩
        · have hsend : Advanced id _ (Parties.send _ _ .ack) ∧ _ := hsound.send fun _ => hentitled
          exact ⟨hadv.trans hsend.1, hsend.2⟩
        · exact (hreceiver.resolve_right fun hsender => absurd hsender.1 (by decide)).2
      · rw [← Option.some.inj ht]
        refine h.setLinux (fun h => h) ⟨(fun hop => by cases Option.some.inj hop), hruns, ?_,
          (fun hash hop => by cases Option.some.inj hop), hl.cleaned, hl.exited⟩
        intro hash hop
        cases Option.some.inj hop
        exact hseated
    · contradiction
  | linuxRetire =>
    simp only [Parties.performLinux] at ht
    split at ht
    · rename_i hash hop
      rw [← Option.some.inj ht]
      refine h.setLinux (fun h => ⟨rfl, h.2⟩) ⟨?_, hl.runs, hl.cleaning,
        fun hash hreceipt => ⟨rfl, (hl.receipt hash hreceipt).2⟩,
        fun hcleaned => ⟨rfl, (hl.cleaned hcleaned).2⟩, hl.exited⟩
      intro hreceive
      rw [hop] at hreceive
      cases Option.some.inj hreceive
    · contradiction
  | linuxRemove =>
    have hkeep : s.linux.Finished → s.linux.retired = true ∧ s.linux.owned.tail = [] :=
      fun hfinished => ⟨hfinished.1, by rw [hfinished.2]; rfl⟩
    simp only [Parties.performLinux] at ht
    split at ht
    · split at ht
      · rw [← Option.some.inj ht]
        exact h.setLinux hkeep ⟨hl.receiving, hl.runs, hl.cleaning,
          fun hash hreceipt => hkeep (hl.receipt hash hreceipt),
          fun hcleaned => hkeep (hl.cleaned hcleaned), hl.exited⟩
      · contradiction
    · contradiction
  | linuxCleaned =>
    simp only [Parties.performLinux] at ht
    split at ht
    · rename_i hash hop
      split at ht
      · rename_i hfinished
        rw [← Option.some.inj ht]
        have hseated := hl.cleaning hash hop
        obtain ⟨hadv, hsound⟩ := h.setLinux (c := { s.linux with
          connectionState := .exitLocalCleaned, operation := some (.receipt hash) }) (fun h => h)
          ⟨(fun hop => by cases Option.some.inj hop), hl.runs, (fun hash hop => by cases Option.some.inj hop),
            fun _ _ => hfinished, fun _ => hfinished, (fun hexited => by cases hexited)⟩
        obtain ⟨row, hrow, hreceiver⟩ := hadv.seated hseated
        have hentitled : Entitled id _ hash := ⟨row, hrow, .inl ⟨?_, hfinished⟩⟩
        · have hsend : Advanced id _ (Parties.send _ _ .ack) ∧ _ := hsound.send fun _ => hentitled
          exact ⟨hadv.trans hsend.1, hsend.2⟩
        · exact (hreceiver.resolve_right fun hsender => absurd hsender.1 (by decide)).2
      · contradiction
    · contradiction
  | linuxReceipt reply =>
    simp only [Parties.performLinux] at ht
    split at ht
    · rename_i hash hop
      split at ht
      · rename_i hr
        rw [← Option.some.inj ht]
        obtain ⟨-, hreported, hmutation⟩ := h.accepts hr.1
        refine h.setLinux (fun h => h) ⟨?_, hl.runs, ?_, ?_, fun _ => hl.receipt hash hop,
          fun hexited => ?_⟩
        · exact fun hop => absurd hop.symm (Option.some_ne_none _)
        · exact fun _ hop => absurd hop.symm (Option.some_ne_none _)
        · exact fun _ hop => absurd hop.symm (Option.some_ne_none _)
        · dsimp only at hexited
          split at hexited
          · rename_i hcomplete
            simp only [FolderExitStatus.complete, Bool.and_eq_true] at hcomplete
            obtain ⟨e, he, hserver, hsender, hreceiver⟩ := hreported hcomplete.1.1.1
            exact ⟨e, he, hserver hcomplete.1.1.2, hsender hcomplete.1.2, hreceiver hcomplete.2⟩
          · exact hl.exited hexited
      · contradiction
    · contradiction
  | linuxFail r =>
    rw [← Option.some.inj ht]
    exact h.setLinux (fun h => h) ⟨hl.receiving,
      fun r' hr' hstage => hl.runs r' (List.mem_of_mem_erase hr') hstage, hl.cleaning, hl.receipt,
      hl.cleaned, hl.exited⟩
  | linuxRestart =>
    rw [← Option.some.inj ht]
    refine h.setLinux (fun h => h) ⟨?_, fun r hr => absurd hr List.not_mem_nil, ?_, ?_, hl.cleaned,
      hl.exited⟩
    · exact fun hop => absurd hop.symm (Option.some_ne_none _)
    · exact fun _ hop => absurd hop.symm (Option.some_ne_none _)
    · exact fun _ hop => absurd hop.symm (Option.some_ne_none _)
  | _ => contradiction

/-- A step of an Android client keeps everything backed. -/
theorem Sound.performAndroid {a : ExitStep} (h : Sound id s) (ht : s.performAndroid a = some t) :
    Advanced id s t ∧ Sound id t := by
  cases a with
  | androidStage hash name =>
    simp only [Parties.performAndroid] at ht
    split at ht
    · rename_i hc
      rw [← Option.some.inj ht]
      have ha := h.android hash
      have hopen : ¬(s.android hash).exitPhase.isCleaned = true := by
        rw [hc.1]
        decide
      exact h.setAndroid (fun hfinished => absurd hfinished.1 hopen)
        ⟨fun hstage => absurd hstage hc.2, ha.acknowledging, fun hcleaned => absurd hcleaned hopen,
          ha.complete⟩
    · contradiction
  | androidDiscover hash =>
    simp only [Parties.performAndroid] at ht
    split at ht
    · rw [← Option.some.inj ht]
      have ha := h.android hash
      obtain ⟨hadv, hsound⟩ := h.setAndroid (c := { s.android hash with stage := .discovering })
        (fun h => h) ⟨fun hstage => (by cases hstage), fun hstage => (by cases hstage), ha.cleaned,
          ha.complete⟩
      have hsend : Advanced id _ (Parties.send _ hash .status) ∧ _ :=
        hsound.send fun hack => by cases hack
      exact ⟨hadv.trans hsend.1, hsend.2⟩
    · contradiction
  | androidDiscovered hash reply =>
    simp only [Parties.performAndroid] at ht
    split at ht
    · have ha := h.android hash
      split at ht
      · rw [← Option.some.inj ht]
        obtain ⟨hadv, hsound⟩ := h.revoking hash
        have hsend : Advanced id _ (Parties.send _ hash .clean) ∧ _ :=
          hsound.send fun hack => by cases hack
        exact ⟨hadv.trans hsend.1, hsend.2⟩
      · rw [← Option.some.inj ht]
        exact h.setAndroid (fun h => h) ⟨fun hstage => (by cases hstage), fun hstage => (by cases hstage), ha.cleaned,
          ha.complete⟩
    · contradiction
  | androidBegin hash =>
    simp only [Parties.performAndroid] at ht
    split at ht
    · rw [← Option.some.inj ht]
      obtain ⟨hadv, hsound⟩ := h.revoking hash
      have hsend : Advanced id _ (Parties.send _ hash .clean) ∧ _ :=
        hsound.send fun hack => by cases hack
      exact ⟨hadv.trans hsend.1, hsend.2⟩
    · contradiction
  | androidRevoked hash reply =>
    simp only [Parties.performAndroid] at ht
    split at ht
    · rename_i hr
      have ha := h.android hash
      have hseated := (h.accepts hr.2.1).1
      split at ht
      · rename_i hphase
        rw [← Option.some.inj ht]
        have hcleaned : (s.android hash).exitPhase.isCleaned = true := by
          rw [hphase]
          rfl
        obtain ⟨hadv, hsound⟩ := h.setAndroid (c := { s.android hash with stage := .acknowledging })
          (fun h => h) ⟨fun hstage => (by cases hstage), fun _ => hcleaned, ha.cleaned, ha.complete⟩
        have hsend : Advanced id _ (Parties.send _ hash .ack) ∧ _ :=
          hsound.send fun _ => hadv.entitled
            (seated_sender_entitled hseated ⟨hcleaned, ha.cleaned hcleaned⟩)
        exact ⟨hadv.trans hsend.1, hsend.2⟩
      · rw [← Option.some.inj ht]
        exact h.setAndroid (fun h => h) ⟨fun _ => hseated, fun hstage => (by cases hstage), ha.cleaned,
          ha.complete⟩
    · contradiction
  | androidRemove hash =>
    simp only [Parties.performAndroid] at ht
    split at ht
    · rw [← Option.some.inj ht]
      have ha := h.android hash
      have hkeep : (s.android hash).staged = [] → (s.android hash).staged.tail = [] :=
        fun hstaged => by
          rw [hstaged]
          rfl
      exact h.setAndroid (fun hfinished => ⟨hfinished.1, hkeep hfinished.2⟩)
        ⟨ha.cleaning, ha.acknowledging, fun hcleaned => hkeep (ha.cleaned hcleaned), ha.complete⟩
    · contradiction
  | androidCleaned hash =>
    simp only [Parties.performAndroid] at ht
    split at ht
    · rename_i hc
      rw [← Option.some.inj ht]
      have hseated := (h.android hash).cleaning hc.1
      obtain ⟨hadv, hsound⟩ : Advanced id s (s.setAndroid hash { s.android hash with
          exitPhase := .localCleaned, stage := .acknowledging }) ∧ _ :=
        h.setAndroid (fun _ => ⟨rfl, hc.2⟩) ⟨fun hstage => (by cases hstage), fun _ => rfl,
          fun _ => hc.2, fun hcomplete => (by cases hcomplete)⟩
      have hfinished : ((s.setAndroid hash { s.android hash with
          exitPhase := .localCleaned, stage := .acknowledging }).android hash).Finished := by
        simp only [Parties.setAndroid, if_true]
        exact ⟨rfl, hc.2⟩
      have hsend : Advanced id _ (Parties.send _ hash .ack) ∧ _ :=
        hsound.send fun _ => seated_sender_entitled (hadv.seated hseated) hfinished
      exact ⟨hadv.trans hsend.1, hsend.2⟩
    · contradiction
  | androidReceipt hash reply =>
    simp only [Parties.performAndroid] at ht
    split at ht
    · rename_i hr
      rw [← Option.some.inj ht]
      have ha := h.android hash
      obtain ⟨-, hreported, hmutation⟩ := h.accepts hr.2.1
      obtain ⟨hrequested, hserver⟩ := hmutation (by decide)
      obtain ⟨e, he, hserver', hsender', hreceiver'⟩ := hreported hrequested
      have hcleaned := ha.acknowledging hr.1
      refine h.setAndroid (fun hfinished => ⟨?_, hfinished.2⟩) ⟨fun hstage => (by cases hstage),
        fun hstage => (by cases hstage), fun _ => ha.cleaned hcleaned, fun hcomplete => ?_⟩
      · dsimp only
        split
        · rfl
        · exact hfinished.1
      · dsimp only at hcomplete
        split at hcomplete
        · rename_i hreceiver
          exact ⟨e, he, hserver' hserver, hsender' hr.2.2, hreceiver' hreceiver⟩
        · exact ha.complete hcomplete
    · contradiction
  | androidRestart hash =>
    rw [← Option.some.inj ht]
    have ha := h.android hash
    exact h.setAndroid (fun h => h) ⟨fun hstage => (by cases hstage), fun hstage => (by cases hstage), ha.cleaned,
          ha.complete⟩
  | _ => contradiction

end Parties

end MiRelay

import MiRelay.Client.Tus

/-!
# Runs of the upload client

Whatever the server answers: bytes are sent only from the offset that its last
answer reported, and that offset grows from request to request. The resume file
goes only when an answer gave up the upload or confirmed all of it, and only such
a confirmation lets a run return a delivery.
-/

namespace MiRelay

open Proc TusProc

/-- The metadata that the server has to report; the extension of the content plays no part. -/
def UploadState.expectedMetadata (state : UploadState) : String :=
  directoryMetadataHeader state.originalName
    { size := state.size, sha256 := state.sha256, mediaType := state.mediaType, extension := "" }
    state.directory

namespace TusState

/-- The last answer says this of the upload. -/
def Reports (c : TusState) (remote : RemoteUpload) : Prop :=
  ∃ response, c.last = some (.ok response) ∧ remoteUpload response = .ok remote

/-- The last answer says that there is no such upload any more, or that its content was refused. -/
def Gone (c : TusState) : Prop :=
  ∃ response, c.last = some (.ok response) ∧ response.status ∈ [404, 410, 422]

/-- The last answer describes the upload of the resume state. -/
structure Agrees (c : TusState) (state : UploadState) (remote : RemoteUpload) : Prop where
  upload : c.upload = some state
  reports : c.Reports remote
  length : remote.length = state.size
  offset : remote.offset ≤ state.size
  metadata : remote.metadata = state.expectedMetadata
  complete : ∀ id, remote.deliveryId = some id → remote.offset = state.size

/-- The last answer confirms the delivery of the whole upload. -/
def Completed (c : TusState) (id : String) : Prop :=
  ∃ state remote, c.Agrees state remote ∧ remote.deliveryId = some id ∧
    remote.offset = state.size ∧ validateDeliveryId id = .ok ()

/-- What the last answer says, as the client reads it. -/
def Understood (c : TusState) : Except TusError RemoteUpload → Prop
  | .ok remote => c.Reports remote
  | .error e => e.shouldDiscard = true → c.Gone

end TusState

/-- A file of this size was inspected. -/
def TusSession.Inspected (s : TusSession) (size : Nat) : Prop :=
  ∃ n < s.position, ∃ source, (s.answers n).source = .ok source ∧ source.length = size

/-- A request sends the bytes that the file has at the offset which the server reported last. -/
def TusSession.Continues (cli : Tus.UploadRequest) (s : TusSession) (offset : Nat) (chunk : Bytes) :
    Prop :=
  ∃ state remote, s.core.resume = some state ∧ s.core.Agrees state remote ∧
    remote.offset = offset ∧ offset < state.size ∧ (∀ o ∈ s.core.patched, o < offset) ∧
    s.core.patched.length < state.size ∧ s.Inspected state.size ∧
    ∃ n source, s.position = n + 2 ∧ (s.answers n).source = .ok source ∧
      offset + min (state.size - offset) cli.chunkSizeBytes ≤ source.length ∧
      chunk = (source.drop offset).take (min (state.size - offset) cli.chunkSizeBytes)

/-- The condition on the steps of an upload. -/
def TusSession.Guard (cli : Tus.UploadRequest) (s : TusSession) : TusStep → Prop
  | .exchanged (.patch _ offset chunk) _ => s.Continues cli offset chunk
  | .saved _ => s.core.resume = none
  | .removed => s.core.Gone ∨ ∃ id, s.core.Completed id
  | _ => True

/-! ### What the client reads -/

/-- A result whose error is no reason to give up the upload. -/
def Harmless {α : Type} (x : Except TusError α) : Prop := ∀ e, x = .error e → e.shouldDiscard = false

theorem Harmless.bind {α β : Type} {x : Except TusError α} {f : α → Except TusError β}
    (hx : Harmless x) (hf : ∀ a, Harmless (f a)) : Harmless (x >>= f) := by
  intro e he
  cases x with
  | error e' =>
    cases he
    exact hx e rfl
  | ok a => exact hf a e he

theorem harmless_outside {α : Type} {text : String} {x : Except String α} :
    Harmless (outside text x) := by
  intro e he
  cases x with
  | error e' =>
    cases he
    rfl
  | ok a => contradiction

theorem harmless_ok {α : Type} {a : α} : Harmless (.ok a : Except TusError α) := by
  intro e he
  contradiction

theorem harmless_message {α : Type} {text : String} :
    Harmless (.error (.message text) : Except TusError α) := by
  intro e he
  cases he
  rfl

theorem harmless_requiredHeader {response : HttpResponse} {name : String} :
    Harmless (requiredHeader response name) := by
  unfold requiredHeader
  split
  · exact harmless_ok
  · exact harmless_message
  · exact harmless_message

theorem harmless_optionalHeader {response : HttpResponse} {name : String} :
    Harmless (optionalHeader response name) := by
  unfold optionalHeader
  split
  · exact harmless_ok
  · exact harmless_ok
  · exact harmless_message
  · exact harmless_message

theorem harmless_parseU64 {value field : String} : Harmless (parseU64 value field) := by
  unfold parseU64
  split
  · split
    · exact harmless_ok
    · exact harmless_message
  · exact harmless_message

theorem harmless_requireTusResponse {response : HttpResponse} :
    Harmless (requireTusResponse response) := by
  unfold requireTusResponse
  refine harmless_requiredHeader.bind fun value => ?_
  split
  · exact harmless_ok
  · exact harmless_message

theorem harmless_remoteUpload {response : HttpResponse} : Harmless (remoteUpload response) := by
  unfold remoteUpload
  refine harmless_requiredHeader.bind fun _ => harmless_parseU64.bind fun _ => ?_
  refine harmless_requiredHeader.bind fun _ => harmless_parseU64.bind fun _ => ?_
  exact harmless_requiredHeader.bind fun _ => harmless_optionalHeader.bind fun _ => harmless_ok

/-- Only the status itself is a reason to give up the upload. -/
theorem requireStatus_error {response : HttpResponse} {expected : List Nat} {operation : String}
    {e : TusError} (h : requireStatus response expected operation = .error e)
    (hdiscard : e.shouldDiscard = true) : response.status ∈ [404, 410, 422] := by
  unfold requireStatus at h
  split at h
  · contradiction
  · cases hdetail : outside "failed to read server error response" response.detail with
    | error e' =>
      rw [hdetail] at h
      cases h
      rw [harmless_outside e hdetail] at hdiscard
      contradiction
    | ok detail =>
      rw [hdetail] at h
      cases h
      simpa [TusError.shouldDiscard, or_assoc] using hdiscard

/-- An answer that passes the checks describes the upload. -/
theorem validateRemoteUpload_ok {state : UploadState} {expected : String} {remote : RemoteUpload}
    (h : validateRemoteUpload state expected remote = .ok ()) :
    remote.length = state.size ∧ remote.offset ≤ state.size ∧ remote.metadata = expected ∧
      ∀ id, remote.deliveryId = some id → remote.offset = state.size := by
  simp only [validateRemoteUpload, bind_eq_ok, ensure_eq_ok, beq_iff_eq, decide_eq_true_eq,
    Bool.or_eq_true] at h
  obtain ⟨_, hlength, _, hoffset, _, hmetadata, hcomplete⟩ := h
  refine ⟨hlength, hlength ▸ hoffset, hmetadata, fun id hid => ?_⟩
  rcases hcomplete with hnone | hsame
  · rw [hid] at hnone
    contradiction
  · exact hsame.trans hlength

/-! ### The steps of a session -/

namespace TusSession

variable {cli : Tus.UploadRequest} {s t u : TusSession}

/-- The same resume file, after requests that sent bytes at these offsets. -/
structure Follows (sent : List Nat) (s t : TusSession) : Prop where
  resume : t.core.resume = s.core.resume
  upload : t.core.upload = s.core.upload
  patched : t.core.patched = sent ++ s.core.patched
  answers : t.answers = s.answers
  position : s.position ≤ t.position

theorem Follows.trans {sent more : List Nat} (h : s.Follows sent t) (h' : t.Follows more u) :
    s.Follows (more ++ sent) u where
  resume := h'.resume.trans h.resume
  upload := h'.upload.trans h.upload
  patched := by rw [h'.patched, h.patched, List.append_assoc]
  answers := h'.answers.trans h.answers
  position := h.position.trans h'.position

/-- The session after the next answer was used up. -/
abbrev next (s : TusSession) : TusSession := s.apply .answered

/-- The session after a request was answered. -/
def exchanged (s : TusSession) (request : TusRequest) : TusSession :=
  s.next.apply (.exchanged request (s.answers s.position).response)

theorem follows_next : s.Follows [] s.next := ⟨rfl, rfl, rfl, rfl, Nat.le_succ _⟩

theorem follows_reported {event : UploadEvent} : s.Follows [] (s.apply (.reported event)).next :=
  ⟨rfl, rfl, rfl, rfl, Nat.le_succ _⟩

theorem follows_exchanged {request : TusRequest} :
    s.Follows (TusStep.sentAt (.exchanged request (s.answers s.position).response)).toList
      (s.exchanged request) :=
  ⟨rfl, rfl, rfl, rfl, Nat.le_succ _⟩

/-- What an inspected file says stays so. -/
theorem Inspected.follows {sent : List Nat} {size : Nat} (h : s.Inspected size)
    (hst : s.Follows sent t) : t.Inspected size := by
  obtain ⟨n, hn, source, hsource, hsize⟩ := h
  exact ⟨n, hn.trans_le hst.position, source, by rw [hst.answers]; exact hsource, hsize⟩

end TusSession

section Rules

variable {α β : Type} {cli : Tus.UploadRequest} {s : TusSession}

/-- Using up the next answer. -/
theorem Proc.Meets.next {f : TusAnswer → TusProc β} {Q : Except TusError β → TusSession → Prop}
    (hf : Meets (f (s.answers s.position)) s.next (TusSession.Guard cli) Q) :
    Meets (TusProc.ask >>= f) s (TusSession.Guard cli) Q := by
  have hask : Meets TusProc.ask s (TusSession.Guard cli) fun r t =>
      t = s.next ∧ r = .ok (s.answers s.position) := by
    refine Meets.read ?_
    refine Meets.step trivial ?_
    rw [meets_pure]
    exact ⟨rfl, rfl⟩
  rw [meets_bind]
  refine ⟨hask.1, ?_⟩
  rw [hask.2.2, hask.2.1]
  exact hf

theorem check_meets {x : Result α} {f : α → TusProc β} {post : β → TusSession → Prop}
    (hf : ∀ a, x = .ok a → Meets (f a) s (TusSession.Guard cli) (OnSuccess post)) :
    Meets (TusProc.check x >>= f) s (TusSession.Guard cli) (OnSuccess post) := by
  refine Meets.check fun a ha => hf a ?_
  cases x with
  | error e => contradiction
  | ok b => exact congrArg _ (Except.ok.inj ha)

theorem report_meets {event : UploadEvent} :
    Meets (report event) s (TusSession.Guard cli)
      (OnSuccess fun _ t => t = (s.apply (.reported event)).next) := by
  refine Meets.step trivial ?_
  refine Meets.next ?_
  rw [meets_pure, onSuccess_ok]

/-- The resume file is replaced or removed, or the run ends. -/
theorem replaceState_meets {e : TusStep} (hG : TusSession.Guard cli s.next e) :
    Meets (replaceState e) s (TusSession.Guard cli) (OnSuccess fun _ t => t = s.next.apply e) := by
  refine Meets.next ?_
  split
  · rw [meets_emit, onSuccess_ok]
    exact ⟨hG, rfl⟩
  · rw [meets_fail, onSuccess_error]
    trivial
  · refine Meets.step hG ?_
    rw [meets_fail, onSuccess_error]
    trivial

/-- A request, and what is done with its answer. -/
theorem exchange_meets {request : TusRequest} {text : String} {f : HttpResponse → TusProc β}
    {Q : Except TusError β → TusSession → Prop}
    (hG : TusSession.Guard cli s.next (.exchanged request (s.answers s.position).response))
    (hok : ∀ response, (s.answers s.position).response = .ok response →
      Meets (f response) (s.exchanged request) (TusSession.Guard cli) Q)
    (herror : ∀ e, e.shouldDiscard = false → Q (.error e) (s.exchanged request)) :
    Meets (exchange request text >>= f) s (TusSession.Guard cli) Q := by
  have hexchange : Meets (exchange request text) s (TusSession.Guard cli) fun r t =>
      t = s.exchanged request ∧ r = outside text (s.answers s.position).response := by
    refine Meets.next ?_
    refine Meets.step hG ?_
    rw [meets_ofExcept]
    exact ⟨rfl, rfl⟩
  rw [meets_bind]
  refine ⟨hexchange.1, ?_⟩
  rw [hexchange.2.1, hexchange.2.2]
  cases hresponse : (s.answers s.position).response with
  | error e => exact herror _ rfl
  | ok response => exact hok response hresponse

/-- A checked value that leaves the answers alone. -/
theorem outside_meets {x : Except String α} {text : String} {f : α → TusProc β}
    {post : β → TusSession → Prop}
    (hf : ∀ a, x = .ok a → Meets (f a) s (TusSession.Guard cli) (OnSuccess post)) :
    Meets (ofExcept (outside text x) >>= f) s (TusSession.Guard cli) (OnSuccess post) := by
  refine Meets.check fun a ha => hf a ?_
  cases x with
  | error e => contradiction
  | ok b => exact congrArg _ (Except.ok.inj ha)

theorem validUrl_meets {client : TusClient} {url : String} :
    Meets (validUrl client url) s (TusSession.Guard cli) (OnSuccess fun _ t => t = s) := by
  unfold validUrl
  rw [meets_ofExcept]
  exact fun _ _ => rfl

end Rules

/-! ### Requests -/

section Requests

variable {cli : Tus.UploadRequest} {s : TusSession} {url : String}

/-- A request whose answer the client understands. -/
def TusSession.Answered (sent : List Nat) (s : TusSession) (r : Except TusError RemoteUpload)
    (t : TusSession) : Prop :=
  s.Follows sent t ∧ t.core.Understood r

/-- The end of a request: the checks of an answer. -/
theorem answered_meets {request : TusRequest} {response : HttpResponse} {expected : List Nat}
    {operation : String} (hresponse : (s.answers s.position).response = .ok response) :
    Meets (do
      ofExcept (requireStatus response expected operation)
      ofExcept (requireTusResponse response)
      ofExcept (remoteUpload response) : TusProc RemoteUpload) (s.exchanged request) (TusSession.Guard cli)
      (s.Answered (TusStep.sentAt (.exchanged request (s.answers s.position).response)).toList) := by
  have hlast : (s.exchanged request).core.last = some (.ok response) := congrArg some hresponse
  refine Meets.decide (fun _ _ => ?_) fun e he =>
    ⟨TusSession.follows_exchanged, fun hdiscard => ⟨response, hlast, requireStatus_error he hdiscard⟩⟩
  refine Meets.decide (fun _ _ => ?_) fun e he => ⟨TusSession.follows_exchanged, fun hdiscard => ?_⟩
  · rw [meets_ofExcept]
    refine ⟨TusSession.follows_exchanged, ?_⟩
    cases hremote : remoteUpload response with
    | ok remote => exact ⟨response, hlast, hremote⟩
    | error e =>
      intro hdiscard
      rw [harmless_remoteUpload e hremote] at hdiscard
      contradiction
  · rw [harmless_requireTusResponse e he] at hdiscard
    contradiction

theorem head_meets : Meets (head url) s (TusSession.Guard cli) (s.Answered []) := by
  refine exchange_meets trivial (fun response hresponse => answered_meets hresponse) fun e he => ?_
  refine ⟨@TusSession.follows_exchanged s (.head url), fun hdiscard => ?_⟩
  rw [he] at hdiscard
  contradiction

/-- Sending bytes; a conflict is settled by asking for the offset. -/
theorem patch_meets {offset : Nat} {chunk : Bytes} (hG : s.next.Continues cli offset chunk) :
    Meets (patch url offset chunk) s (TusSession.Guard cli) (s.Answered [offset]) := by
  have hfollows := @TusSession.follows_exchanged s (.patch url offset chunk)
  refine exchange_meets hG (fun response hresponse => ?_) fun e he => ⟨hfollows, fun hdiscard => ?_⟩
  · rw [meets_ite]
    refine ⟨fun _ => ?_, fun _ => answered_meets hresponse⟩
    refine Meets.decide (fun _ _ => ?_) fun e he => ⟨hfollows, fun hdiscard => ?_⟩
    · refine Meets.decide (fun serverOffset _ => ?_) fun e he => ⟨hfollows, fun hdiscard => ?_⟩
      · rw [meets_bind]
        refine head_meets.mono (fun _ _ hG => hG) fun r t ht => ?_
        have hall : s.Follows [offset] t := hfollows.trans ht.1
        cases r with
        | error e => exact ⟨hall, ht.2⟩
        | ok recovered =>
          refine Meets.decide (fun _ _ => ?_) fun e he => ⟨hall, fun hdiscard => ?_⟩
          · rw [meets_pure]
            exact ⟨hall, ht.2⟩
          · unfold ensure at he
            split at he
            · contradiction
            · cases he
              contradiction
      · rw [harmless_requiredHeader.bind (fun _ => harmless_parseU64) e he] at hdiscard
        contradiction
    · rw [harmless_requireTusResponse e he] at hdiscard
      contradiction
  · rw [he] at hdiscard
    contradiction

/-- A request that goes wrong ends the run, and the resume file with it when the upload is gone. -/
theorem orDiscard_meets {p : TusProc RemoteUpload} {otherwise : TusError → TusError}
    {sent : List Nat} (hp : Meets p s (TusSession.Guard cli) (s.Answered sent)) :
    Meets (orDiscard p otherwise) s (TusSession.Guard cli)
      (OnSuccess fun remote t => s.Follows sent t ∧ t.core.Reports remote) := by
  unfold orDiscard
  rw [meets_bind, meets_attempt]
  refine hp.mono (fun _ _ hG => hG) fun r t ht => ?_
  cases r with
  | ok remote =>
    dsimp only
    rw [meets_pure, onSuccess_ok]
    exact ht
  | error e =>
    dsimp only
    rw [meets_ite]
    refine ⟨fun hdiscard => ?_, fun _ => ?_⟩
    · refine Meets.bind (replaceState_meets (.inl (ht.2 hdiscard))) fun _ u _ => ?_
      rw [meets_fail, onSuccess_error]
      trivial
    · rw [meets_fail, onSuccess_error]
      trivial

end Requests

/-! ### The loop -/

/-- Between two requests: the last answer describes the upload, up to an offset that grew. -/
structure TusSession.Ready (s : TusSession) (state : UploadState) (remote : RemoteUpload) : Prop where
  agrees : s.core.Agrees state remote
  resume : s.core.resume = some state
  below : ∀ o ∈ s.core.patched, o < remote.offset
  count : s.core.patched.length ≤ remote.offset
  inspected : s.Inspected state.size

section Loop

variable {cli : Tus.UploadRequest} {s t : TusSession} {state : UploadState} {remote : RemoteUpload}
  {url : String} {goOn : Bool}

/-- What the caller is told changes nothing. -/
theorem TusSession.Ready.follows (h : s.Ready state remote) (hst : s.Follows [] t)
    (hlast : t.core.last = s.core.last) : t.Ready state remote where
  agrees := { h.agrees with
    upload := hst.upload.trans h.agrees.upload
    reports := by
      obtain ⟨response, hresponse, hremote⟩ := h.agrees.reports
      exact ⟨response, hlast.trans hresponse, hremote⟩ }
  resume := hst.resume.trans h.resume
  below := by
    rw [hst.patched]
    exact h.below
  count := by
    rw [hst.patched]
    exact h.count
  inspected := h.inspected.follows hst

/-- How a run may end. -/
def TusSession.Ends (outcome : UploadOutcome) (s : TusSession) : Prop :=
  (∃ state, s.core.upload = some state ∧ outcome.size = state.size ∧
    outcome.sha256 = state.sha256) ∧
    ∀ id, outcome.deliveryId = some id → s.core.Completed id

/-- A pause confirms nothing. -/
theorem TusSession.Ready.ends_paused {uploaded : Nat} (h : s.Ready state remote) :
    s.Ends (uploadOutcome state uploaded none) :=
  ⟨⟨state, h.agrees.upload, rfl, rfl⟩, fun _ hid => by contradiction⟩

theorem report_ready {event : UploadEvent} (h : s.Ready state remote) :
    Meets (report event) s (TusSession.Guard cli) (OnSuccess fun _ t => t.Ready state remote) := by
  refine report_meets.imp fun _ t ht => ?_
  subst ht
  exact h.follows TusSession.follows_reported rfl

/-- The bytes that are read are those of the file. -/
theorem readChunk_meets {offset length : Nat} :
    Meets (readChunk offset length) s (TusSession.Guard cli) (OnSuccess fun chunk t => t = s.next ∧
      ∃ source, (s.answers s.position).source = .ok source ∧ offset + length ≤ source.length ∧
        chunk = (source.drop offset).take length) := by
  refine Meets.next ?_
  refine outside_meets fun source hsource => ?_
  rw [meets_ofExcept]
  intro chunk hchunk
  split at hchunk
  · rename_i hlength
    exact ⟨rfl, source, hsource, hlength, (Except.ok.inj hchunk).symm⟩
  · contradiction

/-- What is sent continues the upload. -/
theorem TusSession.Ready.continues {source chunk : Bytes} (h : s.Ready state remote)
    (hmore : remote.offset < state.size) (hsource : (s.answers s.position).source = .ok source)
    (hlength : remote.offset + min (state.size - remote.offset) cli.chunkSizeBytes ≤ source.length)
    (hchunk : chunk = (source.drop remote.offset).take
      (min (state.size - remote.offset) cli.chunkSizeBytes)) :
    s.next.next.Continues cli remote.offset chunk := by
  have hnext : s.next.next.Ready state remote :=
    (h.follows TusSession.follows_next rfl).follows TusSession.follows_next rfl
  exact ⟨state, remote, hnext.resume, hnext.agrees, rfl, hmore, hnext.below,
    hnext.count.trans_lt hmore, hnext.inspected, s.position, source, rfl, hsource, hlength, hchunk⟩

/-- An answer that advances the offset is where the next round begins. -/
theorem TusSession.Ready.advanced {next : RemoteUpload} (h : s.Ready state remote)
    (hst : s.Follows [remote.offset] t) (hreports : t.core.Reports next)
    (hvalid : validateRemoteUpload state state.expectedMetadata next = .ok ())
    (hnext : remote.offset < next.offset) : t.Ready state next := by
  obtain ⟨hlength, hoffset, hmetadata, hcomplete⟩ := validateRemoteUpload_ok hvalid
  refine ⟨⟨hst.upload.trans h.agrees.upload, hreports, hlength, hoffset, hmetadata, hcomplete⟩,
    hst.resume.trans h.resume, fun o ho => ?_, ?_, h.inspected.follows hst⟩
  · rw [hst.patched, List.singleton_append, List.mem_cons] at ho
    rcases ho with rfl | ho
    · exact hnext
    · exact (h.below o ho).trans hnext
  · have hcount := h.count
    rw [hst.patched, List.length_append, List.length_singleton]
    omega

/-- The loop ends with all bytes at the server or with a pause. -/
theorem sendChunks_meets {chunksSent : Nat} (h : s.Ready state remote) :
    Meets (sendChunks cli url state state.expectedMetadata goOn remote chunksSent) s
      (TusSession.Guard cli) (OnSuccess fun r t =>
        match r with
        | .inl remote => t.Ready state remote
        | .inr paused => t.Ends paused) := by
  induction hrest : state.size - remote.offset using Nat.strongRecOn
    generalizing remote chunksSent s with
  | ind rest ih =>
    rw [sendChunks]
    split
    · rename_i hmore
      refine Meets.bind (M := fun _ t => t.Ready state remote) ?_ fun continued t ht => ?_
      · cases goOn with
        | false =>
          rw [if_neg Bool.false_ne_true, meets_pure, onSuccess_ok]
          exact h
        | true =>
          rw [if_pos rfl]
          exact report_ready h
      rw [meets_ite]
      refine ⟨fun _ => ?_, fun _ => ?_⟩
      · refine Meets.bind readChunk_meets fun chunk u hu => ?_
        obtain ⟨rfl, source, hsource, hlength, hchunk⟩ := hu
        have hcontinues := ht.continues hmore hsource hlength hchunk
        refine Meets.bind (orDiscard_meets (patch_meets hcontinues)) fun next v hv => ?_
        refine check_meets fun _ hvalid => ?_
        split
        · rename_i hnext
          have hv' : v.Ready state next :=
            (ht.follows TusSession.follows_next rfl).advanced hv.1 hv.2 hvalid hnext
          rw [meets_ite]
          refine ⟨fun _ => ?_, fun _ => ?_⟩
          · refine Meets.bind (report_ready hv') fun _ w hw => ?_
            rw [meets_pure, onSuccess_ok]
            exact hw.ends_paused
          · exact ih (state.size - next.offset) (by omega) hv' rfl
        · rw [meets_fail, onSuccess_error]
          trivial
      · rw [meets_pure, onSuccess_ok]
        exact ht.ends_paused
    · rw [meets_pure, onSuccess_ok]
      exact h

/-- Removing the resume file leaves the confirmation. -/
theorem TusState.Completed.congr {c c' : TusState} {id : String} (h : c.Completed id)
    (hupload : c'.upload = c.upload) (hlast : c'.last = c.last) : c'.Completed id := by
  obtain ⟨state, remote, hagrees, hid, hend, hvalid⟩ := h
  obtain ⟨response, hresponse, hremote⟩ := hagrees.reports
  exact ⟨state, remote, { hagrees with
    upload := hupload.trans hagrees.upload
    reports := ⟨response, hlast.trans hresponse, hremote⟩ }, hid, hend, hvalid⟩

/-- The delivery is told once it is confirmed. -/
theorem confirmed_meets {id : String} (hupload : s.core.upload = some state)
    (h : s.core.Completed id) :
    Meets (do
      let _ ← report (.progress state.size state.size)
      return uploadOutcome state state.size (some id) : TusProc UploadOutcome) s
      (TusSession.Guard cli) (OnSuccess fun outcome t => t.Ends outcome) := by
  refine Meets.bind report_meets fun _ t ht => ?_
  subst ht
  rw [meets_pure, onSuccess_ok]
  refine ⟨⟨state, hupload, rfl, rfl⟩, fun id' hid' => ?_⟩
  obtain rfl : id = id' := Option.some.inj hid'
  exact h.congr rfl rfl

/-- The end: the delivery is confirmed before the resume file goes. -/
theorem finishUpload_meets (h : s.Ready state remote) :
    Meets (finishUpload cli url state state.expectedMetadata remote) s (TusSession.Guard cli)
      (OnSuccess fun outcome t => t.Ends outcome) := by
  unfold finishUpload
  refine Meets.bind (M := fun remote t => t.core.Agrees state remote) ?_ fun remote t ht => ?_
  · rw [meets_ite]
    refine ⟨fun _ => ?_, fun _ => ?_⟩
    · refine Meets.bind (orDiscard_meets head_meets) fun remote t ht => ?_
      refine check_meets fun _ hvalid => ?_
      rw [meets_pure, onSuccess_ok]
      obtain ⟨hlength, hoffset, hmetadata, hcomplete⟩ := validateRemoteUpload_ok hvalid
      exact ⟨ht.1.upload.trans h.agrees.upload, ht.2, hlength, hoffset, hmetadata, hcomplete⟩
    · rw [meets_pure, onSuccess_ok]
      exact h.agrees
  cases hid : remote.deliveryId with
  | none =>
    rw [meets_fail, onSuccess_error]
    trivial
  | some id =>
    dsimp only
    refine check_meets fun _ hvalid => ?_
    have hcompleted : t.core.Completed id := ⟨state, remote, ht, hid, ht.complete id hid, hvalid⟩
    rw [meets_ite]
    refine ⟨fun _ => ?_, fun _ => ?_⟩
    · refine Meets.bind (replaceState_meets (.inr ⟨id, hcompleted.congr rfl rfl⟩)) fun _ u hu => ?_
      subst hu
      exact confirmed_meets ht.upload (hcompleted.congr rfl rfl)
    · exact confirmed_meets ht.upload hcompleted

end Loop

/-! ### The run -/

section Run

variable {cli : Tus.UploadRequest} {client : TusClient} {sha256 : Bytes → String} {s : TusSession}
  {state : UploadState}

/-- An upload that can begin: the resume file names it and the file was inspected. -/
structure TusSession.Begun (x : UploadState × FileInspection × Bool) (s : TusSession) : Prop where
  resume : s.core.resume = some x.1
  upload : s.core.upload = some x.1
  patched : s.core.patched = []
  inspected : s.Inspected x.1.size
  metadata : directoryMetadataHeader x.1.originalName x.2.1 x.1.directory = x.1.expectedMetadata

theorem inspectSource_meets {maxSize : Nat} {otherwise : TusError → TusError} :
    Meets (inspectSource sha256 maxSize otherwise) s (TusSession.Guard cli)
      (OnSuccess fun inspection t => s.Follows [] t ∧ t.Inspected inspection.size) := by
  refine Meets.next ?_
  rw [meets_ofExcept]
  intro inspection hinspection
  refine ⟨TusSession.follows_next, s.position, Nat.lt_succ_self _, ?_⟩
  cases hsource : (s.answers s.position).source with
  | error e =>
    rw [hsource] at hinspection
    contradiction
  | ok source =>
    rw [hsource] at hinspection
    cases hinspect : inspectFile sha256 maxSize source with
    | error e =>
      simp only [outside, Except.mapError, bind, Except.bind, hinspect] at hinspection
      contradiction
    | ok found =>
      simp only [outside, Except.mapError, bind, Except.bind, hinspect] at hinspection
      obtain ⟨-, -, rfl⟩ := (inspectFile_ok sha256).mp hinspect
      exact ⟨source, hsource, congrArg FileInspection.size (Except.ok.inj hinspection)⟩

theorem discover_meets : Meets discover s (TusSession.Guard cli) (OnSuccess fun _ t =>
    s.Follows [] t) := by
  refine exchange_meets trivial (fun response _ => ?_) fun e _ => by rw [onSuccess_error]; trivial
  refine Meets.check fun _ _ => Meets.check fun _ _ => check_meets fun _ _ => ?_
  refine Meets.check fun _ _ => check_meets fun _ _ => ?_
  rw [meets_ofExcept]
  exact fun _ _ => @TusSession.follows_exchanged s .options

theorem create_meets {inspection : FileInspection} {metadata : String} :
    Meets (create client inspection metadata) s (TusSession.Guard cli) (OnSuccess fun _ t =>
      s.Follows [] t) := by
  refine exchange_meets trivial (fun response _ => ?_) fun e _ => by rw [onSuccess_error]; trivial
  refine Meets.check fun _ _ => Meets.check fun _ _ => Meets.check fun _ _ => ?_
  refine outside_meets fun url _ => ?_
  refine validUrl_meets.imp fun _ t ht => ?_
  rw [ht]
  exact @TusSession.follows_exchanged s (.create inspection.size metadata)

theorem beginUpload_meets (hresume : s.core.resume = none) (hpatched : s.core.patched = []) :
    Meets (beginUpload client sha256 cli) s (TusSession.Guard cli)
      (OnSuccess fun x t => t.Begun x) := by
  unfold beginUpload
  refine Meets.bind discover_meets fun maxSize t ht => ?_
  refine Meets.bind inspectSource_meets fun inspection u hu => ?_
  refine Meets.bind (M := fun _ v => v = u) ?_ fun name v hv => ?_
  · split
    · rw [meets_pure, onSuccess_ok]
    · rw [meets_pure, onSuccess_ok]
    · rw [meets_fail, onSuccess_error]
      trivial
  subst hv
  refine check_meets fun _ _ => ?_
  refine Meets.bind create_meets fun url w hw => ?_
  have hfollows := (ht.trans hu.1).trans hw
  refine Meets.bind (replaceState_meets (hfollows.resume.trans hresume)) fun _ x hx => ?_
  subst hx
  refine Meets.bind report_meets fun goOn y hy => ?_
  subst hy
  rw [meets_pure, onSuccess_ok]
  obtain ⟨n, hn, hsource⟩ := hu.2.follows hw
  exact ⟨rfl, rfl, hfollows.patched.trans hpatched,
    ⟨n, hn.trans_le ((Nat.le_succ _).trans (Nat.le_succ _)), hsource⟩, rfl⟩

theorem resumeUpload_meets (hresume : s.core.resume = some state)
    (hupload : s.core.upload = some state) (hpatched : s.core.patched = []) :
    Meets (resumeUpload client sha256 cli state) s (TusSession.Guard cli)
      (OnSuccess fun x t => t.Begun x) := by
  unfold resumeUpload
  refine Meets.next ?_
  refine outside_meets fun _ _ => ?_
  refine Meets.bind (M := fun _ t => t = s.next) ?_ fun _ t ht => ?_
  · refine check_meets fun _ _ => check_meets fun _ _ => ?_
    refine Meets.bind validUrl_meets fun _ t ht => ?_
    rw [meets_pure, onSuccess_ok]
    exact ht
  subst ht
  refine check_meets fun _ _ => ?_
  refine Meets.bind inspectSource_meets fun inspection t ht => ?_
  refine check_meets fun _ hsame => check_meets fun _ _ => ?_
  refine Meets.bind report_meets fun goOn u hu => ?_
  subst hu
  rw [meets_pure, onSuccess_ok]
  have hfollows := TusSession.follows_next.trans ht.1
  simp only [validateSourceState, bind_eq_ok, ensure_eq_ok, Bool.and_eq_true, beq_iff_eq] at hsame
  obtain ⟨_, ⟨⟨hsize, hsha256⟩, hmediaType⟩, -⟩ := hsame
  refine ⟨hfollows.resume.trans hresume, hfollows.upload.trans hupload,
    hfollows.patched.trans hpatched, hsize ▸ ht.2.follows TusSession.follows_reported, ?_⟩
  simp only [UploadState.expectedMetadata, directoryMetadataHeader, metadataHeader, hsha256,
    hmediaType]

/-- Every step of a run meets its condition, and a run that succeeds ends as it says. -/
theorem uploadWithEvents_meets {resume : Option UploadState} {answers : Nat → TusAnswer}
    {client : Except TusError TusClient} :
    Meets (uploadWithEvents sha256 cli client) (TusSession.start resume answers)
      (TusSession.Guard cli) (OnSuccess fun outcome t => t.Ends outcome) := by
  unfold uploadWithEvents
  refine check_meets fun _ _ => check_meets fun _ _ => check_meets fun _ _ => ?_
  refine Meets.check fun client _ => ?_
  refine Meets.next ?_
  refine outside_meets fun _ _ => ?_
  refine Meets.read ?_
  refine Meets.bind (M := fun x t => t.Begun x) ?_ fun x t ht => ?_
  · cases resume with
    | some state => exact resumeUpload_meets rfl rfl rfl
    | none => exact beginUpload_meets rfl rfl
  obtain ⟨state, inspection, goOn⟩ := x
  refine Meets.bind validUrl_meets fun url u hu => ?_
  subst hu
  refine Meets.bind (orDiscard_meets head_meets) fun remote v hv => ?_
  refine check_meets fun _ hvalid => ?_
  refine Meets.next ?_
  refine outside_meets fun _ _ => ?_
  rw [ht.metadata] at hvalid ⊢
  obtain ⟨hlength, hoffset, hmetadata, hcomplete⟩ := validateRemoteUpload_ok hvalid
  have hpatched : v.core.patched = [] := hv.1.patched.trans ht.patched
  have hready : v.Ready state remote :=
    { agrees := ⟨hv.1.upload.trans ht.upload, hv.2, hlength, hoffset, hmetadata, hcomplete⟩
      resume := hv.1.resume.trans ht.resume
      below := by
        rw [hpatched]
        exact fun o ho => absurd ho List.not_mem_nil
      count := by
        rw [hpatched]
        exact Nat.zero_le _
      inspected := ht.inspected.follows hv.1 }
  refine Meets.bind (sendChunks_meets (hready.follows TusSession.follows_next rfl))
    fun sent w hw => ?_
  cases sent with
  | inl remote => exact finishUpload_meets hw
  | inr paused =>
    rw [meets_pure, onSuccess_ok]
    exact hw

theorem TusStep.sentAt_eq_some {e : TusStep} {o : Nat} (h : e.sentAt = some o) :
    ∃ url chunk response, e = .exchanged (.patch url o chunk) response := by
  match e, h with
  | .exchanged (.patch url _ chunk) response, h =>
    exact ⟨url, chunk, response, by rw [← Option.some.inj h]⟩

/-- The bytes sent so far went out at growing offsets, one request for each byte at the most. -/
def TusSession.Counted (steps : List TusStep) (s : TusSession) : Prop :=
  (steps.filterMap TusStep.sentAt).reverse = s.core.patched ∧
    (steps.filterMap TusStep.sentAt).Pairwise (· < ·) ∧
    (s.core.patched ≠ [] → ∃ n source, (s.answers n).source = .ok source ∧
      s.core.patched.length ≤ source.length)

/-- What the condition on the steps says of a whole run. -/
theorem counted_step {steps : List TusStep} {e : TusStep} (h : s.Counted steps)
    (hG : TusSession.Guard cli s e) : (s.apply e).Counted (steps ++ [e]) := by
  obtain ⟨hpatched, hsorted, hcount⟩ := h
  have hsteps : (steps ++ [e]).filterMap TusStep.sentAt =
      steps.filterMap TusStep.sentAt ++ e.sentAt.toList := by
    rw [List.filterMap_append]
    cases hsent : e.sentAt with
    | none => rw [List.filterMap_cons_none hsent]; rfl
    | some o => rw [List.filterMap_cons_some hsent]; rfl
  have hcore : (s.apply e).core.patched = e.sentAt.toList ++ s.core.patched := rfl
  unfold TusSession.Counted
  rw [hsteps, hcore, List.reverse_append, hpatched]
  cases hsent : e.sentAt with
  | none =>
    rw [Option.toList_none, List.append_nil]
    exact ⟨rfl, hsorted, hcount⟩
  | some o =>
    obtain ⟨url, chunk, response, rfl⟩ := TusStep.sentAt_eq_some hsent
    obtain ⟨state, _, -, -, -, -, hbelow, hless, hinspected, -⟩ := hG
    obtain ⟨n, -, source, hsource, hsize⟩ := hinspected
    rw [← hpatched] at hbelow
    refine ⟨rfl, List.pairwise_append.mpr ⟨hsorted, List.pairwise_singleton _ _, ?_⟩, fun _ => ?_⟩
    · intro a ha b hb
      rw [List.mem_singleton.mp hb]
      exact hbelow a (List.mem_reverse.mpr ha)
    · refine ⟨n, source, hsource, ?_⟩
      rw [hsize]
      exact hless

/-- An upload ends whatever the server answers: every request that sends bytes continues with those
of the file at the growing offset that was reported last, there are at most as many as the file has
bytes, the resume file goes only after an answer that says so, and a delivery is returned only when
the last answer confirms the whole upload. -/
theorem upload_ends (sha256 : Bytes → String) (cli : Tus.UploadRequest)
    (client : Except TusError TusClient) (resume : Option UploadState) (answers : Nat → TusAnswer) :
    let s := TusSession.start resume answers
    let o := uploadWithEvents sha256 cli client s
    Guarded TusSession.apply (TusSession.Guard cli) s o.events ∧
      (∀ outcome, o.result = .ok outcome → (after TusSession.apply s o.events).Ends outcome) ∧
      (o.events.filterMap TusStep.sentAt).Pairwise (· < ·) ∧
      (o.events.filterMap TusStep.sentAt ≠ [] → ∃ n source, (answers n).source = .ok source ∧
        (o.events.filterMap TusStep.sentAt).length ≤ source.length) := by
  intro s o
  obtain ⟨hguarded, hends⟩ := @uploadWithEvents_meets cli sha256 resume answers client
  have hcounted := hguarded.history (I := fun steps t => TusSession.Counted steps t ∧ t.answers = answers)
    (m := []) ⟨⟨rfl, List.Pairwise.nil, fun h => absurd rfl h⟩, rfl⟩ fun _ _ _ ht hG =>
      ⟨counted_step ht.1 hG, ht.2⟩
  obtain ⟨⟨hpatched, hsorted, hcount⟩, hanswers⟩ := hcounted
  rw [List.nil_append] at hpatched hsorted
  rw [← hpatched, hanswers, List.length_reverse] at hcount
  exact ⟨hguarded, hends, hsorted, fun hne => hcount (List.reverse_eq_nil_iff.not.mpr hne)⟩

end Run

end MiRelay

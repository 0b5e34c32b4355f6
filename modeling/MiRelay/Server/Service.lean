import MiRelay.Server.Exit

/-!
# Runs of the relay

The operations the relay carries out one after the other, each with what others
do while it waits, and each cut off after some of its events: by a crash, by a
failing operation of the file system, or not at all. A run is a list of such
actions; its events are those of the actions in order.
-/

namespace MiRelay

/-- A request for an operation under the upload lock. -/
inductive UploadRequest
  | create (device : String) (upload : NewUpload) (candidates : List String) (now : Fin (2 ^ 63))
  | head (device uploadId : String) (c : ServerStore.Circumstances)
  | patch (device uploadId : String) (expectedOffset : Nat) (chunk : Bytes)
      (chunkLength torn : Nat) (first second : ServerStore.Circumstances)
  deriving DecidableEq, Repr

/-- One operation of the relay. -/
inductive Action
  /-- A transaction or an operation under the content lock. -/
  | outside (i : ServerStore.Interference)
  /-- An operation under the upload lock. -/
  | upload (request : UploadRequest) (between : List (List ServerStore.Interference)) (cut : Option Nat)
  /-- The second part of an exit that has begun, for the request that began it or when the
  relay starts again. -/
  | finishExit (id : String) (parts records : List String) (objects : List (String × String))
      (between : List (List Transaction)) (cut : Option Nat)
  deriving DecidableEq, Repr

namespace ServerStore

open Relay Proc

variable (store : ServerStore) (sha256 : Bytes → String)

/-- The operation of a request. -/
def performUpload (between : List (List Interference)) : UploadRequest → Task store sha256 Unit
  | .create device upload candidates now => do
    let _ ← store.createUpload sha256 device upload candidates now between
    return
  | .head device uploadId c => do
    let _ ← store.getUpload sha256 device uploadId between c
    return
  | .patch device uploadId expectedOffset chunk chunkLength torn first second => do
    let _ ← store.appendUpload sha256 device uploadId expectedOffset chunk chunkLength torn between
      first second
    return

/-- The operation of an action, as far as it gets. -/
def perform : Action → Task store sha256 Unit
  | .outside i => store.interfereOnce sha256 i
  | .upload request between cut => upTo (store.performUpload sha256 between request) cut
  | .finishExit id parts records objects between cut => do
    let s ← get
    -- This part is reached only after the transaction that began the exit.
    if s.db.exiting id then
      upTo (store.finishExit sha256 id parts records objects between) cut

/-- The events of a run. -/
def trace (s : Relay) : List Action → List Event
  | [] => []
  | a :: l =>
    (store.perform sha256 a s).events ++ trace ((store.perform sha256 a).final s) l

/-- The state a run reaches. -/
def run (s : Relay) (l : List Action) : Relay := replay store sha256 s (store.trace sha256 s l)

theorem run_cons (s : Relay) (a : Action) (l : List Action) :
    store.run sha256 s (a :: l) = store.run sha256 ((store.perform sha256 a).final s) l :=
  after_append ..

/-- The events of a longer run. -/
theorem trace_append (s : Relay) (l m : List Action) :
    store.trace sha256 s (l ++ m) =
      store.trace sha256 s l ++ store.trace sha256 (store.run sha256 s l) m := by
  induction l generalizing s with
  | nil => rfl
  | cons a l ih => rw [List.cons_append, trace, ih, run_cons, trace, List.append_assoc]

theorem run_append (s : Relay) (l m : List Action) :
    store.run sha256 s (l ++ m) = store.run sha256 (store.run sha256 s l) m := by
  rw [run, trace_append, replay, after_append]
  rfl

/-- The digests of the payloads `hi` and `hj` of the examples; no other payload occurs there. -/
def sampleDigest (bytes : Bytes) : String :=
  if bytes = [104, 106] then "ec77807ae750d94151d4ff049868ba2719ff6d24fd87d96ffef72fd56d58cf82"
  else "8f434346648f6b96df89dda901c5176b10a6d83961dd3c1ac88b59b2dc327aa4"

/-- A finalization with nobody else around. -/
def undisturbed : Circumstances := ⟨[], [], [], [], 20, false, false⟩

/-- A store for small payloads. -/
def sampleStore : ServerStore := ⟨1024, by decide, by decide⟩

end ServerStore

end MiRelay

import MiRelay.Server.Listing

/-!
# The scan of the HTTP source

The receiver reads the relay's pages one after the other, turns every item into
a delivery or an issue, and refuses repeated cursors and endless pagination. The
transport is taken to deliver the answer of the relay unchanged; a page request
that is retried is answered again.
-/

namespace MiRelay

/-- `SourceIssue`. -/
structure SourceIssue where
  item : String
  message : String
  deriving DecidableEq, Repr

/-- `SourceScan`. -/
structure SourceScan where
  deliveries : List Delivery
  issues : List SourceIssue
  deriving DecidableEq, Repr

namespace HttpSource

/-- `MAX_PAGES_PER_SCAN`. -/
def maxPagesPerScan : Nat := 100

/-- `MAX_DELIVERIES_PER_SCAN`. -/
def maxDeliveriesPerScan : Nat := 10000

/-- What the scan has gathered: `by_id`, `conflicts` and `seen_cursors` with their elements in the
order of arrival. -/
structure ScanState where
  issues : List SourceIssue
  byId : List Delivery
  conflicts : List String
  seenCursors : List String
  deriving DecidableEq, Repr

def ScanState.empty : ScanState := ⟨[], [], [], []⟩

/-- The delivery an item describes. -/
def ofDescriptor (wire : DeliveryDescriptor) : Delivery where
  schemaVersion := manifestSchemaVersion
  id := wire.deliveryId
  originalName := wire.originalName
  payload := ""
  size := wire.sizeBytes
  sha256 := wire.sha256
  mediaType := wire.mediaType
  createdAtUnix := wire.createdAtUnix

/-- One item of a page. -/
def readItem (maxFileSize page : Nat) (st : ScanState) (item : DeliveryDescriptor × Nat) :
    Result ScanState := do
  let index := item.2 + 1
  let name := s!"HTTP page {page}, item {index}"
  let delivery := ofDescriptor item.1
  match validateDeliveryMetadata delivery maxFileSize with
  | .error e => return { st with issues := st.issues ++ [⟨name, e.text⟩] }
  | .ok () =>
    let st :=
      match st.byId.find? (·.id == delivery.id) with
      | some previous => { st with
          conflicts := st.conflicts.insert delivery.id
          issues := st.issues ++ [⟨name, "duplicate delivery id " ++ delivery.id ++ " has digests " ++
            previous.sha256 ++ " and " ++ delivery.sha256⟩] }
      | none =>
        if delivery.id ∈ st.conflicts then st else { st with byId := st.byId ++ [delivery] }
    ensure (st.byId.length + st.conflicts.length ≤ maxDeliveriesPerScan)
      s!"server returned more than {maxDeliveriesPerScan} deliveries in one scan"
    return st

/-- The pages from number `page` on, of at most `remaining`, with the number of the last one;
`fetch` asks for the page of a number after a cursor. -/
def scanPages (maxFileSize : Nat) (fetch : Nat → Option String → Result IndexResponse) :
    Nat → Nat → Option String → ScanState → Result (ScanState × Nat)
  | 0, page, _, st => return (st, page)
  | remaining + 1, page, cursor, st => do
    let index ← fetch page cursor
    let st ← index.items.zipIdx.foldlM (readItem maxFileSize page) st
    match index.nextCursor with
    | none => return (st, page)
    | some next =>
      ensure (wellFormedCursor next) "server returned an invalid pagination cursor"
      ensure (!st.seenCursors.contains next) "server repeated a pagination cursor"
      ensure (remaining ≠ 0)
        s!"server pagination exceeded the {maxPagesPerScan} page safety limit"
      scanPages maxFileSize fetch remaining (page + 1) (some next)
        { st with seenCursors := next :: st.seenCursors }

/-- The order of a scan: by time, then by identity. -/
def scanOrder (a b : Delivery) : Bool :=
  a.createdAtUnix.getD 0 < b.createdAtUnix.getD 0 ||
    (a.createdAtUnix.getD 0 == b.createdAtUnix.getD 0 && a.id ≤ b.id)

/-- What the scan answers. -/
def ScanState.scan (st : ScanState) : SourceScan where
  deliveries := (st.byId.filter fun d => d.id ∉ st.conflicts).insertionSort
    fun a b => scanOrder a b = true
  issues := st.issues

/-- `scan_pending`, with the number of the last page. -/
def scanPending (maxFileSize : Nat) (fetch : Nat → Option String → Result IndexResponse) :
    Result (SourceScan × Nat) := do
  let (st, last) ← scanPages maxFileSize fetch maxPagesPerScan 1 none .empty
  return (st.scan, last)

end HttpSource

end MiRelay

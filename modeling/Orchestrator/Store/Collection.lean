import Orchestrator.Store.Operations
import Orchestrator.Library.Json

/-!
# Collection receipts

A run in collect mode hands its events out page by page. `CollectionReceipt` stores what a page
holds under a digest of it, and `AckDelivery` takes decisions on exactly that page. Neither belongs
to the operations of the store: here they are calls beside them.
-/
namespace Orchestrator.Store
open Library

/-- What `AckDelivery` answers beside the errors of the store. -/
inductive DeliveryError where
  | deliveryProofModeMismatch
  | store (e : CodeError)
  deriving DecidableEq, Repr

def DeliveryError.code : DeliveryError → String
  | .deliveryProofModeMismatch => "delivery_proof_mode_mismatch"
  | .store e => e.code

structure CollectionBinding where
  id : String
  revision : Int
  hash : String
  slot : String
  deriving DecidableEq, Repr

/-- A row of `collection_receipts`. The text of `bindings_json` is kept as what it is read as. -/
structure CollectionReceipt where
  id : String
  taskId : String
  proofHash : String
  bindings : List CollectionBinding
  deriving DecidableEq, Repr

structure Collection where
  store : State
  receipts : Table CollectionReceipt.id

def Collection.fresh (limits : ConcurrencyLimits) : Collection := ⟨State.fresh limits, .empty _⟩

/-! ## Pages -/

/-- The events of a page that are decided on. Diagnostics are not. -/
def actionable (e : Event) : Bool := e.actionSlot ≠ "" && e.kind ≠ .other "progress"

def eventBinding (e : Event) : CollectionBinding :=
  ⟨e.eventId, e.eventRevision, e.payloadHash, e.actionSlot⟩

def collectionBindings (events : List Event) : List CollectionBinding :=
  (events.filter actionable).map eventBinding

/-- `json.Marshal` of the bindings. -/
def marshalBindings (bindings : List CollectionBinding) : String :=
  String.ofList <| Json.array <| bindings.map fun b => Json.object
    [("id", Json.quote b.id), ("revision", Json.number b.revision), ("hash", Json.quote b.hash),
      ("slot", Json.quote b.slot)]

def Platform.collectionProof (p : Platform) (taskId : String) (bindings : List CollectionBinding) :
    String :=
  p.runtimeHash ("collection-v1\x00" ++ taskId ++ "\x00" ++ marshalBindings bindings)

/-! ## Calls -/

def State.deliveryMode (s : State) (taskId : String) : Option DeliveryMode :=
  (s.tasks.find? taskId).bind fun t => (s.runs.find? t.runId).map Run.deliveryMode

/-- The id and the proof of the page are empty where nothing is to be acknowledged. -/
def DB.collectionReceipt (d : DB) (c : Collection) (taskId : String) (events : List Event) :
    Except CodeError (Collection × String × String) := do
  let mode ← expect (c.store.deliveryMode taskId) .sql
  if mode ≠ .collect ∨ events = [] then .ok (c, "", "")
  else if collectionBindings events = [] then .ok (c, "", "")
  else
    let proof := d.collectionProof taskId (collectionBindings events)
    let row := ⟨"collection-" ++ proof, taskId, proof, collectionBindings events⟩
    -- on conflict, the row of the id stays
    .ok ({ c with receipts := (c.receipts.insert? row).getD c.receipts }, row.id, proof)

/-- The map of the bindings by event id: a later one replaces an earlier, and none is zero. -/
def expectedBinding (bindings : List CollectionBinding) (eventId : String) : CollectionBinding :=
  (bindings.reverse.find? (fun b => b.id = eventId)).getD ⟨"", 0, "", ""⟩

def AckDecision.binding (a : AckDecision) : CollectionBinding :=
  ⟨a.eventId, a.eventRevision, a.eventHash, a.actionSlot⟩

/-- `AckDecisions`, its effect on the store alone. -/
def DB.acknowledge (d : DB) (c : Collection) (taskId id proof : String) (as : List AckDecision) :
    Except DeliveryError Collection :=
  match d.ackDecisions c.store taskId id proof as with
  | .ok (s, _) => .ok { c with store := s }
  | .error e => .error (.store e)

def DB.ackDelivery (d : DB) (c : Collection) (taskId id historyProof collectionProof : String)
    (as : List AckDecision) : Except DeliveryError Collection := do
  let mode ← expect (c.store.deliveryMode taskId) (.store .sql)
  if mode = .native then
    require (collectionProof = "") .deliveryProofModeMismatch
    d.acknowledge c taskId id historyProof as
  else
    require (historyProof = "" ∧ validDigest collectionProof = true) .deliveryProofModeMismatch
    let row ← expect (c.receipts.find? id) (.store .conflict)
    require (row.taskId = taskId ∧ row.proofHash = d.toLower collectionProof) (.store .conflict)
    require (row.bindings.length = as.length) (.store .conflict)
    require (∀ a ∈ as, expectedBinding row.bindings a.eventId = a.binding) (.store .conflict)
    d.acknowledge c taskId id collectionProof as

inductive Call where
  | store (op : Op)
  | collectionReceipt (taskId : String) (events : List Event)
  | ackDelivery (taskId id historyProof collectionProof : String) (as : List AckDecision)

/-- The collection after a call; one that fails leaves it as it was. -/
def DB.serve (d : DB) (c : Collection) : Call → Collection
  | .store op => { c with store := d.step c.store op }
  | .collectionReceipt taskId events =>
    match d.collectionReceipt c taskId events with
    | .ok (c', _) => c'
    | .error _ => c
  | .ackDelivery taskId id historyProof collectionProof as =>
    match d.ackDelivery c taskId id historyProof collectionProof as with
    | .ok c' => c'
    | .error _ => c

/-- The collection after a series of calls. -/
def DB.served (d : DB) (c : Collection) (calls : List Call) : Collection :=
  Library.run d.serve c calls

end Orchestrator.Store

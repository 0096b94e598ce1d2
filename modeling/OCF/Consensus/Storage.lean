import OCF.Store.StateStore

/-!
# Raft log storage and the replicated state machine

The in-memory Raft log with its bookkeeping (`Inner`), and the state machine that applies committed
entries into a `StateStore`. A snapshot lists the collections that the state machine has written to
since the process started (`smCollections`): the store itself can only list one collection at a
time.

Store operations are taken to succeed. The bytes of a snapshot (JSON, compressed with zstd) and the
text of a leader id come from libraries; `SnapshotCodec` collects them with the one property relied
upon, that decoding inverts encoding.
-/

namespace OCF.Consensus

open Std Store

/-! ## Types -/

/-- A control-plane mutation replicated through the Raft log. -/
inductive KvCommand (V : Type*)
  | put (collection key : String) (value : V)
  | delete (collection key : String)

/-- The collection a command names. -/
def KvCommand.collection {V : Type*} : KvCommand V → String
  | .put c _ _ => c
  | .delete c _ => c

/-- The acknowledgement of a command. -/
structure KvResponse where
  applied : Bool
  deriving DecidableEq

/-- A leader of a term. -/
structure LeaderId where
  term : ℕ
  nodeId : ℕ
  deriving DecidableEq

/-- The id of a log entry. -/
structure LogId where
  leaderId : LeaderId
  index : ℕ
  deriving DecidableEq

/-- The order of log ids: by term, then leader, then index. -/
def LogId.lt (a b : LogId) : Bool :=
  a.leaderId.term < b.leaderId.term || (a.leaderId.term = b.leaderId.term &&
    (a.leaderId.nodeId < b.leaderId.nodeId ||
      (a.leaderId.nodeId = b.leaderId.nodeId && a.index < b.index)))

/-- A vote for a leader. -/
structure Vote where
  leaderId : LeaderId
  committed : Bool
  deriving DecidableEq

/-- A cluster configuration: the voter sets, and the address of every member. -/
structure Membership where
  configs : List (List ℕ)
  nodes : List (ℕ × String)
  deriving DecidableEq

/-- A membership with the log id it was stored at. -/
structure StoredMembership where
  logId : Option LogId
  membership : Membership
  deriving DecidableEq

/-- The membership before any was stored. -/
def StoredMembership.default : StoredMembership := ⟨none, ⟨[], []⟩⟩

/-- What an entry holds. -/
inductive EntryPayload (V : Type*)
  | blank
  | normal (cmd : KvCommand V)
  | membership (m : Membership)

/-- An entry of the log. -/
structure Entry (V : Type*) where
  logId : LogId
  payload : EntryPayload V

/-- The content of a snapshot: every key of every listed collection. -/
structure SnapshotPayload (V : Type*) where
  lastApplied : Option LogId
  lastMembership : StoredMembership
  data : BTreeMap String (BTreeMap String V)

/-- What a snapshot covers. -/
structure SnapshotMeta where
  lastLogId : Option LogId
  lastMembership : StoredMembership
  snapshotId : String
  deriving DecidableEq

/-- What the storage takes from libraries: the bytes of a snapshot and the text of a leader id. -/
structure SnapshotCodec (V : Type*) where
  Bytes : Type
  encode : SnapshotPayload V → Bytes
  decode : Bytes → Option (SnapshotPayload V)
  showLeader : LeaderId → String
  decode_encode : ∀ p, decode (encode p) = some p

/-- A snapshot retained in memory or sent to another node. -/
structure StoredSnapshot (B : Type*) where
  smeta : SnapshotMeta
  data : B

/-- The shared Raft log and state-machine bookkeeping. -/
structure Inner (V B : Type*) where
  log : BTreeMap ℕ (Entry V)
  vote : Option Vote
  committed : Option LogId
  lastPurged : Option LogId
  smLastApplied : Option LogId
  smLastMembership : StoredMembership
  /-- Collections this state machine has written to. -/
  smCollections : BTreeSet String
  currentSnapshot : Option (StoredSnapshot B)
  snapshotIdx : ℕ

/-- The state machine: the bookkeeping and the store it applies into. -/
structure StateMachineStore (V B : Type*) where
  inner : Inner V B
  store : StateStore V

/-- Fresh bookkeeping over a store, which may already hold keys. -/
def newStorage {V B : Type*} (store : StateStore V) : StateMachineStore V B :=
  ⟨⟨∅, none, none, none, none, .default, ∅, none, 0⟩, store⟩

/-! ## The log -/

namespace Inner

variable {V B : Type*}

/-- The entries in a range of indexes; `none` when the range makes the map panic. -/
def tryGetLogEntries (i : Inner V B) (lo hi : RangeBound ℕ) : Option (List (Entry V)) :=
  (BTreeMap.range i.log lo hi).map fun es => es.map Prod.snd

/-- The last purged and the last log id. -/
def getLogState (i : Inner V B) : Option LogId × Option LogId :=
  (i.lastPurged, (i.log.toList.getLast?.map fun e => e.2.logId).or i.lastPurged)

/-- Keep a vote. -/
def saveVote (i : Inner V B) (vote : Vote) : Inner V B := { i with vote := some vote }

/-- Keep the committed id. -/
def saveCommitted (i : Inner V B) (committed : Option LogId) : Inner V B :=
  { i with committed := committed }

/-- Put entries into the log, each at its index. -/
def append (i : Inner V B) (entries : List (Entry V)) : Inner V B :=
  { i with log := entries.foldl (fun log e => log.insert e.logId.index e) i.log }

/-- Drop the entries from an index on. -/
def truncate (i : Inner V B) (logId : LogId) : Inner V B :=
  let keys := (i.log.toList.map Prod.fst).filter fun k => logId.index ≤ k
  { i with log := keys.foldl (fun log k => log.erase k) i.log }

/-- Drop the entries up to an index. -/
def purge (i : Inner V B) (logId : LogId) : Inner V B :=
  let keys := (i.log.toList.map Prod.fst).filter fun k => k ≤ logId.index
  { i with
    log := keys.foldl (fun log k => log.erase k) i.log
    lastPurged := if (i.lastPurged.map (·.lt logId)).getD true then some logId else i.lastPurged }

end Inner

/-! ## The state machine -/

namespace StateMachineStore

variable {V B : Type*}

/-- Apply a command into the store, recording its collection. -/
def applyCommand (sm : StateMachineStore V B) (cmd : KvCommand V) : StateMachineStore V B :=
  match cmd with
  | .put c k v =>
    ⟨{ sm.inner with smCollections := sm.inner.smCollections.insert c }, sm.store.put c k v⟩
  | .delete c k =>
    ⟨{ sm.inner with smCollections := sm.inner.smCollections.insert c }, sm.store.delete c k⟩

/-- Apply one committed entry. -/
def applyEntry (sm : StateMachineStore V B) (entry : Entry V) :
    KvResponse × StateMachineStore V B :=
  let sm := { sm with inner := { sm.inner with smLastApplied := some entry.logId } }
  match entry.payload with
  | .blank => (⟨false⟩, sm)
  | .normal cmd => (⟨true⟩, sm.applyCommand cmd)
  | .membership m =>
    (⟨false⟩, { sm with inner :=
      { sm.inner with smLastMembership := ⟨some entry.logId, m⟩ } })

/-- Apply a batch of committed entries. -/
def apply (sm : StateMachineStore V B) :
    List (Entry V) → List KvResponse × StateMachineStore V B
  | [] => ([], sm)
  | e :: es =>
    let (r, sm) := sm.applyEntry e
    let (rs, sm) := sm.apply es
    (r :: rs, sm)

/-- The content of a snapshot of the store. -/
def buildPayload (sm : StateMachineStore V B) : SnapshotPayload V where
  lastApplied := sm.inner.smLastApplied
  lastMembership := sm.inner.smLastMembership
  data := sm.inner.smCollections.toList.foldl
    (fun data c => data.insert c (ExtTreeMap.ofList (sm.store.list c))) ∅

/-- Remove every key of a collection. -/
def clearCollection (store : StateStore V) (collection : String) : StateStore V :=
  (store.list collection).foldl (fun s e => s.delete collection e.1) store

/-- Load one collection of a snapshot. -/
def loadCollection (store : StateStore V) (e : String × BTreeMap String V) : StateStore V :=
  e.2.toList.foldl (fun s kv => s.put e.1 kv.1 kv.2) store

/-- Replace the contents of the store with those of a snapshot: clear the recorded collections,
then load the snapshot's. -/
def restorePayload (sm : StateMachineStore V B) (payload : SnapshotPayload V) :
    StateMachineStore V B where
  store := payload.data.toList.foldl loadCollection
    (sm.inner.smCollections.toList.foldl clearCollection sm.store)
  inner := { sm.inner with
    smCollections := payload.data.toList.foldl (fun cs e => cs.insert e.1) ∅
    smLastApplied := payload.lastApplied
    smLastMembership := payload.lastMembership }

variable (codec : SnapshotCodec V)

/-- The id of the next snapshot. -/
def snapshotId (lastApplied : Option LogId) (idx : ℕ) : String :=
  match lastApplied with
  | some last =>
    codec.showLeader last.leaderId ++ "-" ++ toString last.index ++ "-" ++ toString idx
  | none => "--" ++ toString idx

/-- Build a snapshot and retain it. -/
def buildSnapshot (sm : StateMachineStore V codec.Bytes) :
    StoredSnapshot codec.Bytes × StateMachineStore V codec.Bytes :=
  let payload := sm.buildPayload
  let idx := sm.inner.snapshotIdx + 1
  let snapshot : StoredSnapshot codec.Bytes :=
    { smeta := ⟨payload.lastApplied, payload.lastMembership,
        snapshotId codec payload.lastApplied idx⟩
      data := codec.encode payload }
  (snapshot, { sm with inner :=
    { sm.inner with snapshotIdx := idx, currentSnapshot := some snapshot } })

/-- Install a snapshot received from another node; `none` when its bytes do not decode. -/
def installSnapshot (sm : StateMachineStore V codec.Bytes) (snapshot : StoredSnapshot codec.Bytes) :
    Option (StateMachineStore V codec.Bytes) :=
  (codec.decode snapshot.data).map fun payload =>
    let sm := sm.restorePayload payload
    { sm with inner := { sm.inner with currentSnapshot := some snapshot } }

end StateMachineStore

end OCF.Consensus

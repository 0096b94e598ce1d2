import OCF.Consensus.Storage
import OCF.Fabric.Transport
import OCF.Foundations.Json

/-!
# Raft over the encrypted fabric

Each Raft call is serialized as JSON, sent to the peer as one exchange of the transport, decoded and
given to the peer's Raft node, and its typed result comes back the same way. An exchange is one sealed
message in each direction, and a message holds 65535 bytes with the tag, so both texts must fit.

The texts follow the derived serialization of the types: structures are objects, a variant is an object
with the variant's name, and a byte vector is an array of numbers, so that each byte of a value takes two
to four bytes of text. `exchange_delivers_iff` says what gets through; what does not fit does not get
through on any later attempt either.
-/

namespace OCF.Consensus

open OCF.Fabric Json

/-! ## Requests and responses -/

/-- The request envelope sent over the wire. -/
inductive RpcRequest
  | append (vote : Vote) (prevLogId : Option LogId) (entries : List (Entry Bytes))
      (leaderCommit : Option LogId)
  | vote (vote : Vote) (lastLogId : Option LogId)
  | snapshot (vote : Vote) (smeta : SnapshotMeta) (offset : ℕ) (data : Bytes) (done : Bool)

/-- How a follower answers the entries of a leader. -/
inductive AppendEntriesResponse
  | success
  | partialSuccess (matching : Option LogId)
  | conflict
  | higherVote (vote : Vote)

/-- How a node answers a request for its vote. -/
structure VoteResponse where
  vote : Vote
  voteGranted : Bool
  lastLogId : Option LogId

/-- How a follower answers a piece of a snapshot. -/
structure InstallSnapshotResponse where
  vote : Vote

/-- The response envelope: the result of the call on the peer. An error of the Raft library is kept as
the text it is serialized to. -/
inductive RpcResponse
  | append (result : Except Bytes AppendEntriesResponse)
  | vote (result : Except Bytes VoteResponse)
  | snapshot (result : Except Bytes InstallSnapshotResponse)
  /-- The Raft handle of the receiving node was not yet published. -/
  | notReady

/-! ## Their texts -/

/-- A leader, by term and node. -/
def LeaderId.json (l : LeaderId) : Bytes := object [("term", nat l.term), ("node_id", nat l.nodeId)]

/-- The id of a log entry. -/
def LogId.json (l : LogId) : Bytes := object [("leader_id", l.leaderId.json), ("index", nat l.index)]

/-- A vote. -/
def Vote.json (v : Vote) : Bytes :=
  object [("leader_id", v.leaderId.json), ("committed", bool v.committed)]

/-- A membership: its configurations, and the addresses of the nodes by their ids. -/
def Membership.json (m : Membership) : Bytes :=
  object [("configs", array (m.configs.map fun c => array (c.map nat))),
    ("nodes", object (m.nodes.map fun n => (toString n.1, object [("addr", string n.2)])))]

/-- A membership with the entry that it comes from. -/
def StoredMembership.json (m : StoredMembership) : Bytes :=
  object [("log_id", option LogId.json m.logId), ("membership", m.membership.json)]

/-- What a snapshot covers. -/
def SnapshotMeta.json (m : SnapshotMeta) : Bytes :=
  object [("last_log_id", option LogId.json m.lastLogId), ("last_membership", m.lastMembership.json),
    ("snapshot_id", string m.snapshotId)]

/-- A command to the store; a value is an array of bytes. -/
def KvCommand.json : KvCommand Bytes → Bytes
  | .put collection key value => object [("Put", object [("collection", string collection),
      ("key", string key), ("value", byteArray value)])]
  | .delete collection key =>
    object [("Delete", object [("collection", string collection), ("key", string key)])]

/-- What an entry holds. -/
def EntryPayload.json : EntryPayload Bytes → Bytes
  | .blank => string "Blank"
  | .normal cmd => object [("Normal", cmd.json)]
  | .membership m => object [("Membership", m.json)]

/-- An entry of the log. -/
def Entry.json (e : Entry Bytes) : Bytes :=
  object [("log_id", e.logId.json), ("payload", e.payload.json)]

/-- The text of a request. -/
def RpcRequest.json : RpcRequest → Bytes
  | .append v prevLogId entries leaderCommit => object [("Append", object [("vote", v.json),
      ("prev_log_id", option LogId.json prevLogId), ("entries", array (entries.map Entry.json)),
      ("leader_commit", option LogId.json leaderCommit)])]
  | .vote v lastLogId =>
    object [("Vote", object [("vote", v.json), ("last_log_id", option LogId.json lastLogId)])]
  | .snapshot v smeta offset data done => object [("Snapshot", object [("vote", v.json),
      ("meta", smeta.json), ("offset", nat offset), ("data", byteArray data), ("done", bool done)])]

/-- The answer to entries. -/
def AppendEntriesResponse.json : AppendEntriesResponse → Bytes
  | .success => string "Success"
  | .partialSuccess matching => object [("PartialSuccess", option LogId.json matching)]
  | .conflict => string "Conflict"
  | .higherVote vote => object [("HigherVote", vote.json)]

/-- The answer to a request for a vote. -/
def VoteResponse.json (r : VoteResponse) : Bytes :=
  object [("vote", r.vote.json), ("vote_granted", bool r.voteGranted),
    ("last_log_id", option LogId.json r.lastLogId)]

/-- The answer to a piece of a snapshot. -/
def InstallSnapshotResponse.json (r : InstallSnapshotResponse) : Bytes := object [("vote", r.vote.json)]

/-- A result, as the derived encoding of `Result` tags it. -/
def resultJson {α : Type*} (write : α → Bytes) : Except Bytes α → Bytes
  | .ok a => object [("Ok", write a)]
  | .error e => object [("Err", e)]

/-- The text of a response. -/
def RpcResponse.json : RpcResponse → Bytes
  | .append result => object [("Append", resultJson AppendEntriesResponse.json result)]
  | .vote result => object [("Vote", resultJson VoteResponse.json result)]
  | .snapshot result => object [("Snapshot", resultJson InstallSnapshotResponse.json result)]
  | .notReady => string "NotReady"

/-! ## The exchange -/

/-- How the library reads the texts back. -/
structure RpcDecoder where
  request : Bytes → Except String RpcRequest
  response : Bytes → Except String RpcResponse

/-- Give a request to the Raft node whose handle is in the cell. A request that does not decode is
answered like one that comes too early. -/
def dispatch (decoder : RpcDecoder) (cell : Option (RpcRequest → RpcResponse)) (bytes : Bytes) :
    RpcResponse :=
  match cell with
  | none => .notReady
  | some raft =>
    match decoder.request bytes with
    | .error _ => .notReady
    | .ok request => raft request

/-- What a node's server does with the bytes of a request. -/
def serveRaft (decoder : RpcDecoder) (cell : Option (RpcRequest → RpcResponse)) (bytes : Bytes) :
    Bytes := (dispatch decoder cell bytes).json

/-- The peer as a dialable node: the transport knows it by its address. -/
def peerNode (addr : String) : FabricNode := FabricNode.new ⟨addr⟩ [] [addr]

variable {H : Type*} (net : Network H) (decoder : RpcDecoder)

/-- Serialize the request, exchange it with the peer at the address and read the response: the result,
who was given the request, and the transport afterwards. -/
def exchange (t : NoiseTransport H) (addr : String) (req : RpcRequest) :
    Except String RpcResponse × Option H × NoiseTransport H :=
  match t.request net (peerNode addr) req.json with
  | (.error e, host, t) => (.error ("transport: " ++ e.display), host, t)
  | (.ok reply, host, t) =>
    match decoder.response reply with
    | .error e => (.error ("decode: " ++ e), host, t)
    | .ok response => (.ok response, host, t)

/-- Attempts at the same request, one after the other, each in the network as it is by then: the result
of each, and who was given the request. -/
def attempts (addr : String) (req : RpcRequest) :
    List (Network H) → NoiseTransport H → List (Except String RpcResponse × Option H)
  | [], _ => []
  | net :: nets, t =>
    let (r, host, t) := exchange net decoder t addr req
    (r, host) :: attempts addr req nets t

/-! ## The sizes of requests -/

/-- The length of the JSON text of a leader. -/
def LeaderId.jsonSize (l : LeaderId) : ℕ :=
  objectSize [("term", natSize l.term), ("node_id", natSize l.nodeId)]

/-- The length of the JSON text of an entry id. -/
def LogId.jsonSize (l : LogId) : ℕ :=
  objectSize [("leader_id", l.leaderId.jsonSize), ("index", natSize l.index)]

/-- The length of the JSON text of a vote. -/
def Vote.jsonSize (v : Vote) : ℕ :=
  objectSize [("leader_id", v.leaderId.jsonSize), ("committed", boolSize v.committed)]

/-- The length of the JSON text of a membership. -/
def Membership.jsonSize (m : Membership) : ℕ :=
  objectSize [("configs", arraySize (m.configs.map fun c => arraySize (c.map natSize))),
    ("nodes", objectSize (m.nodes.map fun n =>
      (toString n.1, objectSize [("addr", stringSize n.2)])))]

/-- The length of the JSON text of a stored membership. -/
def StoredMembership.jsonSize (m : StoredMembership) : ℕ :=
  objectSize [("log_id", optionSize LogId.jsonSize m.logId), ("membership", m.membership.jsonSize)]

/-- The length of the JSON text of what a snapshot covers. -/
def SnapshotMeta.jsonSize (m : SnapshotMeta) : ℕ :=
  objectSize [("last_log_id", optionSize LogId.jsonSize m.lastLogId),
    ("last_membership", m.lastMembership.jsonSize), ("snapshot_id", stringSize m.snapshotId)]

/-- The length of the JSON text of a command. -/
def KvCommand.jsonSize : KvCommand Bytes → ℕ
  | .put collection key value => objectSize [("Put", objectSize [("collection",
      stringSize collection), ("key", stringSize key), ("value", byteArraySize value)])]
  | .delete collection key => objectSize [("Delete", objectSize [("collection",
      stringSize collection), ("key", stringSize key)])]

/-- The length of the JSON text of a payload. -/
def EntryPayload.jsonSize : EntryPayload Bytes → ℕ
  | .blank => stringSize "Blank"
  | .normal cmd => objectSize [("Normal", cmd.jsonSize)]
  | .membership m => objectSize [("Membership", m.jsonSize)]

/-- The length of the JSON text of an entry. -/
def Entry.jsonSize (e : Entry Bytes) : ℕ :=
  objectSize [("log_id", e.logId.jsonSize), ("payload", e.payload.jsonSize)]

/-- The size of the text of a request, from the numbers, strings and bytes it carries. -/
def RpcRequest.jsonSize : RpcRequest → ℕ
  | .append v prevLogId entries leaderCommit => objectSize [("Append", objectSize [
      ("vote", v.jsonSize), ("prev_log_id", optionSize LogId.jsonSize prevLogId),
      ("entries", arraySize (entries.map Entry.jsonSize)),
      ("leader_commit", optionSize LogId.jsonSize leaderCommit)])]
  | .vote v lastLogId => objectSize [("Vote", objectSize [("vote", v.jsonSize),
      ("last_log_id", optionSize LogId.jsonSize lastLogId)])]
  | .snapshot v smeta offset data done => objectSize [("Snapshot", objectSize [
      ("vote", v.jsonSize), ("meta", smeta.jsonSize), ("offset", natSize offset),
      ("data", byteArraySize data), ("done", boolSize done)])]

@[simp] theorem length_json_leaderId (l : LeaderId) : l.json.length = l.jsonSize := by
  simp [LeaderId.json, LeaderId.jsonSize]

@[simp] theorem length_json_logId (l : LogId) : l.json.length = l.jsonSize := by
  simp [LogId.json, LogId.jsonSize]

@[simp] theorem length_option_logId (l : Option LogId) :
    (option LogId.json l).length = optionSize LogId.jsonSize l :=
  length_option length_json_logId l

@[simp] theorem length_json_vote (v : Vote) : v.json.length = v.jsonSize := by
  simp [Vote.json, Vote.jsonSize]

@[simp] theorem length_json_membership (m : Membership) : m.json.length = m.jsonSize := by
  simp [Membership.json, Membership.jsonSize, Function.comp_def]

@[simp] theorem length_json_storedMembership (m : StoredMembership) :
    m.json.length = m.jsonSize := by
  simp [StoredMembership.json, StoredMembership.jsonSize]

@[simp] theorem length_json_snapshotMeta (m : SnapshotMeta) : m.json.length = m.jsonSize := by
  simp [SnapshotMeta.json, SnapshotMeta.jsonSize]

@[simp] theorem length_json_kvCommand (cmd : KvCommand Bytes) : cmd.json.length = cmd.jsonSize := by
  cases cmd with
  | put collection key value => simp [KvCommand.json, KvCommand.jsonSize]
  | delete collection key => simp [KvCommand.json, KvCommand.jsonSize]

@[simp] theorem length_json_entryPayload (p : EntryPayload Bytes) : p.json.length = p.jsonSize := by
  cases p with
  | blank => simp [EntryPayload.json, EntryPayload.jsonSize]
  | normal cmd => simp [EntryPayload.json, EntryPayload.jsonSize]
  | membership m => simp [EntryPayload.json, EntryPayload.jsonSize]

@[simp] theorem length_json_entry (e : Entry Bytes) : e.json.length = e.jsonSize := by
  simp [Entry.json, Entry.jsonSize]

/-- The text of a request has the size that follows from its data. -/
theorem length_json_rpcRequest (req : RpcRequest) : req.json.length = req.jsonSize := by
  cases req with
  | append v prevLogId entries leaderCommit =>
    simp [RpcRequest.json, RpcRequest.jsonSize, Function.comp_def]
  | vote v lastLogId => simp [RpcRequest.json, RpcRequest.jsonSize]
  | snapshot v smeta offset data done => simp [RpcRequest.json, RpcRequest.jsonSize]

/-! ## The bytes a request carries -/

/-- The bytes of the value that a command carries. -/
def KvCommand.carried : KvCommand Bytes → ℕ
  | .put _ _ value => value.length
  | .delete _ _ => 0

/-- The bytes of the value that a payload carries. -/
def EntryPayload.carried : EntryPayload Bytes → ℕ
  | .normal cmd => cmd.carried
  | _ => 0

/-- How many bytes of values, or of a snapshot, a request carries. -/
def RpcRequest.carried : RpcRequest → ℕ
  | .append _ _ entries _ => (entries.map fun e => e.payload.carried).sum
  | .vote _ _ => 0
  | .snapshot _ _ _ data _ => data.length

theorem KvCommand.two_mul_carried_le (cmd : KvCommand Bytes) : 2 * cmd.carried ≤ cmd.jsonSize := by
  cases cmd with
  | put collection key value =>
    calc 2 * value.length ≤ byteArraySize value := (two_mul_length_lt_byteArraySize value).le
      _ ≤ objectSize [("collection", stringSize collection), ("key", stringSize key),
            ("value", byteArraySize value)] := le_objectSize "value" (by simp)
      _ ≤ (KvCommand.put collection key value).jsonSize := le_objectSize "Put" (by simp)
  | delete collection key => exact Nat.zero_le _

theorem Entry.two_mul_carried_le (e : Entry Bytes) : 2 * e.payload.carried ≤ e.jsonSize := by
  have hentry : e.payload.jsonSize ≤ e.jsonSize := le_objectSize "payload" (by simp)
  refine le_trans ?_ hentry
  cases e.payload with
  | blank => exact Nat.zero_le _
  | normal cmd => exact cmd.two_mul_carried_le.trans (le_objectSize "Normal" (by simp))
  | membership m => exact Nat.zero_le _

theorem two_mul_sum_carried_le (entries : List (Entry Bytes)) :
    2 * (entries.map fun e => e.payload.carried).sum ≤ (entries.map Entry.jsonSize).sum := by
  induction entries with
  | nil => exact le_rfl
  | cons e entries ih =>
    have he := e.two_mul_carried_le
    simp only [List.map_cons, List.sum_cons]
    omega

/-- Each byte that a request carries takes at least two bytes of its text. -/
theorem RpcRequest.two_mul_carried_le (req : RpcRequest) : 2 * req.carried ≤ req.jsonSize := by
  cases req with
  | append v prevLogId entries leaderCommit =>
    have hbody : arraySize (entries.map Entry.jsonSize) ≤ objectSize [("vote", v.jsonSize),
        ("prev_log_id", optionSize LogId.jsonSize prevLogId),
        ("entries", arraySize (entries.map Entry.jsonSize)),
        ("leader_commit", optionSize LogId.jsonSize leaderCommit)] :=
      le_objectSize "entries" (by simp)
    calc 2 * (entries.map fun e => e.payload.carried).sum
        ≤ (entries.map Entry.jsonSize).sum := two_mul_sum_carried_le entries
      _ ≤ arraySize (entries.map Entry.jsonSize) := sum_le_arraySize _
      _ ≤ _ := hbody
      _ ≤ (RpcRequest.append v prevLogId entries leaderCommit).jsonSize :=
        le_objectSize "Append" (by simp)
  | vote v lastLogId => exact Nat.zero_le _
  | snapshot v smeta offset data done =>
    have hbody : byteArraySize data ≤ objectSize [("vote", v.jsonSize), ("meta", smeta.jsonSize),
        ("offset", natSize offset), ("data", byteArraySize data), ("done", boolSize done)] :=
      le_objectSize "data" (by simp)
    calc 2 * data.length ≤ byteArraySize data := (two_mul_length_lt_byteArraySize data).le
      _ ≤ _ := hbody
      _ ≤ (RpcRequest.snapshot v smeta offset data done).jsonSize :=
        le_objectSize "Snapshot" (by simp)

/-! ## The sizes of replies -/

/-- Term and node fit into 64 bits. -/
def LeaderId.InRange (l : LeaderId) : Prop := l.term < 2 ^ 64 ∧ l.nodeId < 2 ^ 64

/-- The leader and the index fit into 64 bits. -/
def LogId.InRange (l : LogId) : Prop := l.leaderId.InRange ∧ l.index < 2 ^ 64

/-- The reply is the result of a call that succeeded. Terms, node ids and indexes are 64-bit
numbers. -/
def RpcResponse.Succeeds : RpcResponse → Prop
  | .append (.ok (.partialSuccess matching)) => ∀ l ∈ matching, l.InRange
  | .append (.ok (.higherVote v)) => v.leaderId.InRange
  | .append (.ok _) => True
  | .vote (.ok r) => r.vote.leaderId.InRange ∧ ∀ l ∈ r.lastLogId, l.InRange
  | .snapshot (.ok r) => r.vote.leaderId.InRange
  | _ => False

theorem LeaderId.InRange.jsonSize_le {l : LeaderId} (h : l.InRange) : l.jsonSize ≤ 60 := by
  have hterm := natSize_le_of_lt h.1
  have hid := natSize_le_of_lt h.2
  have hnames : stringSize "term" = 6 ∧ stringSize "node_id" = 9 := by decide
  simp only [LeaderId.jsonSize, objectSize_cons_cons, objectSize_singleton, hnames]
  omega

theorem LogId.InRange.jsonSize_le {l : LogId} (h : l.InRange) : l.jsonSize ≤ 103 := by
  have hleader := h.1.jsonSize_le
  have hindex := natSize_le_of_lt h.2
  have hnames : stringSize "leader_id" = 11 ∧ stringSize "index" = 7 := by decide
  simp only [LogId.jsonSize, objectSize_cons_cons, objectSize_singleton, hnames]
  omega

theorem optionSize_logId_le {o : Option LogId} (h : ∀ l ∈ o, l.InRange) :
    optionSize LogId.jsonSize o ≤ 103 := by
  cases o with
  | none => exact (by decide : 4 ≤ 103)
  | some l => exact (h l rfl).jsonSize_le

theorem Vote.jsonSize_le {v : Vote} (h : v.leaderId.InRange) : v.jsonSize ≤ 92 := by
  have hleader := h.jsonSize_le
  have hbool := boolSize_le v.committed
  have hnames : stringSize "leader_id" = 11 ∧ stringSize "committed" = 11 := by decide
  simp only [Vote.jsonSize, objectSize_cons_cons, objectSize_singleton, hnames]
  omega

/-- The result of a call that succeeded fits a message: it consists of a vote and a log id at most. -/
theorem RpcResponse.Succeeds.length_json_le {response : RpcResponse} (h : response.Succeeds) :
    response.json.length ≤ 65519 := by
  have hwrap : stringSize "Ok" = 4 ∧ stringSize "Append" = 8 ∧ stringSize "Vote" = 6 ∧
      stringSize "Snapshot" = 10 := by decide
  have hnames : stringSize "Success" = 9 ∧ stringSize "PartialSuccess" = 16 ∧
      stringSize "Conflict" = 10 ∧ stringSize "HigherVote" = 12 ∧ stringSize "vote" = 6 ∧
      stringSize "vote_granted" = 14 ∧ stringSize "last_log_id" = 13 := by decide
  match response, h with
  | .append (.ok .success), _ => decide
  | .append (.ok (.partialSuccess matching)), h =>
    have hlog := optionSize_logId_le h
    simp [RpcResponse.json, resultJson, AppendEntriesResponse.json, objectSize_singleton, hwrap,
      hnames]
    omega
  | .append (.ok .conflict), _ => decide
  | .append (.ok (.higherVote v)), h =>
    have hvote := Vote.jsonSize_le h
    simp [RpcResponse.json, resultJson, AppendEntriesResponse.json, objectSize_singleton, hwrap,
      hnames]
    omega
  | .vote (.ok r), h =>
    have hvote := Vote.jsonSize_le h.1
    have hlog := optionSize_logId_le h.2
    have hbool := boolSize_le r.voteGranted
    simp [RpcResponse.json, resultJson, VoteResponse.json, objectSize_cons_cons,
      objectSize_singleton, hwrap, hnames]
    omega
  | .snapshot (.ok r), h =>
    have hvote := Vote.jsonSize_le h
    simp [RpcResponse.json, resultJson, InstallSnapshotResponse.json, objectSize_singleton, hwrap,
      hnames]
    omega

/-! ## What gets through -/

variable {net}

/-- The peer at the address accepts connections and serves its Raft node, and the transport has no
session to it or an open one. -/
structure Healthy (net : Network H) (decoder : RpcDecoder) (t : NoiseTransport H) (addr : String)
    (h : H) (raft : RpcRequest → RpcResponse) : Prop where
  dial : net.dial addr = .ok h
  serves : net.handler h = serveRaft decoder (some raft)
  session : ∀ conn, t.conns.lookup ⟨addr⟩ = some conn → conn = ⟨h, false⟩

/-- The peer is given the request, and its reply is returned. -/
def Delivered (net : Network H) (decoder : RpcDecoder) (t : NoiseTransport H) (addr : String) (h : H)
    (raft : RpcRequest → RpcResponse) (req : RpcRequest) : Prop :=
  (exchange net decoder t addr req).1 = .ok (raft req) ∧
    (exchange net decoder t addr req).2.1 = some h

/-- A text fits a message up to 65519 bytes. -/
theorem sealable_iff {bytes : Bytes} : Sealable bytes ↔ bytes.length ≤ 65519 := by
  unfold Sealable tagLen maxNoiseMsg
  omega

theorem exchange_error {t : NoiseTransport H} {addr : String} {req : RpcRequest} {e : Error}
    (h : (t.request net (peerNode addr) req.json).1 = .error e) :
    (exchange net decoder t addr req).1 = .error ("transport: " ++ e.display) ∧
      (exchange net decoder t addr req).2.1 = (t.request net (peerNode addr) req.json).2.1 := by
  unfold exchange
  generalize t.request net (peerNode addr) req.json = r at h ⊢
  obtain ⟨r, host, t'⟩ := r
  subst h
  exact ⟨rfl, rfl⟩

theorem exchange_ok {t : NoiseTransport H} {addr : String} {req : RpcRequest} {reply : Bytes}
    {response : RpcResponse} (h : (t.request net (peerNode addr) req.json).1 = .ok reply)
    (hresp : decoder.response reply = .ok response) :
    (exchange net decoder t addr req).1 = .ok response ∧
      (exchange net decoder t addr req).2.1 = (t.request net (peerNode addr) req.json).2.1 := by
  unfold exchange
  generalize t.request net (peerNode addr) req.json = r at h ⊢
  obtain ⟨r, host, t'⟩ := r
  subst h
  simp [hresp]

/-- A request whose text is too long fails on every attempt, whatever becomes of the network and of
the peer meanwhile. -/
theorem attempts_fail {addr : String} {req : RpcRequest} (hlong : 65519 < req.jsonSize)
    (nets : List (Network H)) (t : NoiseTransport H) :
    ∀ r ∈ attempts decoder addr req nets t, (∃ e, r.1 = .error e) ∧ r.2 = none := by
  have hp : ¬Sealable req.json := by
    rw [sealable_iff, length_json_rpcRequest]
    omega
  induction nets generalizing t with
  | nil =>
    intro r hr
    exact absurd hr List.not_mem_nil
  | cons net nets ih =>
    have hreq : (∃ e, (t.request net (peerNode addr) req.json).1 = .error e) ∧
        (t.request net (peerNode addr) req.json).2.1 = none := NoiseTransport.request_unsealable hp
    obtain ⟨⟨e, he⟩, hhost⟩ := hreq
    obtain ⟨herr, hnobody⟩ := exchange_error decoder he
    rw [hhost] at hnobody
    rw [attempts, List.forall_mem_cons]
    exact ⟨⟨⟨_, herr⟩, hnobody⟩, ih _⟩

section Healthy

variable {decoder} {t : NoiseTransport H} {addr : String} {h : H} {raft : RpcRequest → RpcResponse}
  {req : RpcRequest}

/-- A request that its Raft node can read is answered with the text of that node's reply. -/
theorem Healthy.handler_eq (hpeer : Healthy net decoder t addr h raft)
    (hreq : decoder.request req.json = .ok req) :
    net.handler h req.json = (raft req).json := by
  rw [hpeer.serves, serveRaft, dispatch, hreq]

theorem Healthy.request_eq (hpeer : Healthy net decoder t addr h raft) (p : Bytes) :
    (t.request net (peerNode addr) p).1 = (Conn.exchange net ⟨h, false⟩ p).1 ∧
      (t.request net (peerNode addr) p).2.1 = (Conn.exchange net ⟨h, false⟩ p).2.1 :=
  NoiseTransport.request_open rfl hpeer.dial hpeer.session p

/-- A healthy peer is given a request and its reply returned exactly when both texts fit. -/
theorem Healthy.delivered_iff (hpeer : Healthy net decoder t addr h raft)
    (hreq : decoder.request req.json = .ok req)
    (hresp : decoder.response (raft req).json = .ok (raft req)) :
    Delivered net decoder t addr h raft req ↔ Sealable req.json ∧ Sealable (raft req).json := by
  obtain ⟨hres, hhost⟩ := hpeer.request_eq req.json
  have hhandler := hpeer.handler_eq hreq
  constructor
  · rintro ⟨hok, -⟩
    by_contra hfit
    have herr : ∃ e, (Conn.exchange net ⟨h, false⟩ req.json).1 = .error e := by
      by_cases hp : Sealable req.json
      · have hr : ¬Sealable (net.handler h req.json) := by
          rw [hhandler]
          exact fun hr => hfit ⟨hp, hr⟩
        simp [Conn.exchange, hp, hr]
      · simp [Conn.exchange, hp]
    obtain ⟨e, he⟩ := herr
    rw [(exchange_error decoder (hres.trans he)).1] at hok
    cases hok
  · rintro ⟨hp, hr⟩
    rw [← hhandler] at hr
    rw [NoiseTransport.exchange_open hp hr, hhandler] at hres hhost
    obtain ⟨hok, hto⟩ := exchange_ok decoder hres hresp
    exact ⟨hok, hto.trans hhost⟩

/-- **What the fabric delivers of Raft.** A healthy peer is given a request and its reply is returned
exactly when the text of the request and the text of the reply have at most 65519 bytes each; the
reply of a call that succeeds always does, so the request decides. A longer request fails on every
attempt from then on, and a request is longer as soon as it carries 32760 bytes of values or of a
snapshot. -/
theorem exchange_delivers_iff (hpeer : Healthy net decoder t addr h raft)
    (hreq : decoder.request req.json = .ok req)
    (hresp : decoder.response (raft req).json = .ok (raft req)) :
    (Delivered net decoder t addr h raft req ↔
      req.jsonSize ≤ 65519 ∧ (raft req).json.length ≤ 65519) ∧
    ((raft req).Succeeds → (Delivered net decoder t addr h raft req ↔ req.jsonSize ≤ 65519)) ∧
    (65519 < req.jsonSize → ∀ (nets : List (Network H)) (t' : NoiseTransport H),
      ∀ r ∈ attempts decoder addr req nets t', (∃ e, r.1 = .error e) ∧ r.2 = none) ∧
    (32760 ≤ req.carried → 65519 < req.jsonSize) := by
  have hiff := hpeer.delivered_iff hreq hresp
  rw [sealable_iff, sealable_iff, length_json_rpcRequest] at hiff
  refine ⟨hiff, fun hsucc => ?_, attempts_fail decoder, fun hcarried => ?_⟩
  · rw [hiff]
    exact and_iff_left hsucc.length_json_le
  · have hsize := req.two_mul_carried_le
    omega

end Healthy

/-- The leader replicates one command, which puts the value under a key. -/
def putRequest (value : Bytes) : RpcRequest :=
  .append ⟨⟨1, 1⟩, true⟩ none [⟨⟨⟨1, 1⟩, 1⟩, .normal (.put "workloads" "w1" value)⟩] none

/-- A node that accepts all it is given. -/
def accepting : RpcRequest → RpcResponse := fun _ => .append (.ok .success)

/-- The library on the texts of the request and of the reply. -/
def decoderFor (req : RpcRequest) : RpcDecoder where
  request bytes := if bytes = req.json then .ok req else .error "expected value at line 1 column 1"
  response bytes :=
    if bytes = (accepting req).json then .ok (accepting req)
    else .error "expected value at line 1 column 1"

/-- One peer, which serves such a node. -/
def onePeer (req : RpcRequest) : Network Unit where
  dial endpoint :=
    if endpoint = "10.0.0.2:7000" then .ok ()
    else .error (noiseErr ("dial " ++ endpoint) "connection refused")
  handler _ := serveRaft (decoderFor req) (some accepting)
  report ctx := if ctx = "seal" then "input error" else "early eof"

theorem decoderFor_request (req : RpcRequest) : (decoderFor req).request req.json = .ok req :=
  if_pos rfl

theorem decoderFor_response (req : RpcRequest) :
    (decoderFor req).response (accepting req).json = .ok (accepting req) := by
  simp only [decoderFor, if_true]

theorem carried_putRequest (value : Bytes) : (putRequest value).carried = value.length := rfl

theorem onePeer_healthy (req : RpcRequest) :
    Healthy (onePeer req) (decoderFor req) .new "10.0.0.2:7000" () accepting where
  dial := rfl
  serves := rfl
  session conn hconn := by cases hconn

/-- A value of three bytes is replicated. -/
theorem exchange_delivers_iff_smallPut :
    Delivered (onePeer (putRequest [1, 20, 255])) (decoderFor (putRequest [1, 20, 255])) .new
      "10.0.0.2:7000" () accepting (putRequest [1, 20, 255]) :=
  ((exchange_delivers_iff (onePeer_healthy _) (decoderFor_request _) (decoderFor_response _)).2.1 trivial).2
    (by decide +kernel)

/-- A value of 32760 zeros is not, and it fails on every later attempt. -/
theorem large_put_fails :
    Healthy (onePeer (putRequest (List.replicate 32760 0)))
      (decoderFor (putRequest (List.replicate 32760 0))) .new "10.0.0.2:7000" () accepting ∧
    ¬Delivered (onePeer (putRequest (List.replicate 32760 0)))
      (decoderFor (putRequest (List.replicate 32760 0))) .new "10.0.0.2:7000" () accepting
      (putRequest (List.replicate 32760 0)) ∧
    ∀ (nets : List (Network Unit)) (t : NoiseTransport Unit),
      ∀ r ∈ attempts (decoderFor (putRequest (List.replicate 32760 0))) "10.0.0.2:7000"
        (putRequest (List.replicate 32760 0)) nets t, (∃ e, r.1 = .error e) ∧ r.2 = none := by
  generalize hreq : putRequest (List.replicate 32760 0) = req
  have hcarried : req.carried = 32760 := by
    rw [← hreq, carried_putRequest, List.length_replicate]
  have hlong : 65519 < req.jsonSize := by
    have hsize := req.two_mul_carried_le
    omega
  refine ⟨onePeer_healthy req, fun hdel => ?_, attempts_fail _ hlong⟩
  have hfit := ((onePeer_healthy req).delivered_iff (decoderFor_request req)
    (decoderFor_response req)).1 hdel
  rw [sealable_iff, length_json_rpcRequest] at hfit
  omega

end OCF.Consensus

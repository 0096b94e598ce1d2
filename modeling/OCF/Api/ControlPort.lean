import OCF.Api.Join
import OCF.Consensus.FabricNet
import OCF.Topology.Store

/-!
# The control port and the Raft port

A node listens for its peers on two ports. Both speak Noise, so the server knows the static key of
every client, and gives it to the handler with each request. The control port answers `latency` with
the node's measurements, takes `join` requests, and echoes everything else; the Raft port gives every
request that decodes to the Raft node. The Raft library and how it and the join requests are read are
parameters.

Neither handler looks at the key. `deliverAll_outsiders` says what follows for every sequence of
messages: it comes to the same whoever the clients are, and what clients from outside the fleet leave
untouched is decided by what they send.
-/

namespace OCF.Api

open OCF.Consensus OCF.Fabric OCF.Store OCF.Topology

/-! ## The Raft node -/

/-- The Raft library on a node with state `σ`: what it knows, the calls of its peers, and the changes
of its membership. -/
structure RaftCore (σ : Type*) where
  isLeader : σ → Bool
  voters : σ → Finset UInt64
  storage : σ → StateMachineStore Bytes Bytes
  appendEntries : Vote → Option LogId → List (Entry Bytes) → Option LogId → σ →
    Except Bytes AppendEntriesResponse × σ
  vote : Vote → Option LogId → σ → Except Bytes VoteResponse × σ
  installSnapshot : Vote → SnapshotMeta → ℕ → Bytes → Bool → σ →
    Except Bytes InstallSnapshotResponse × σ
  addLearner : UInt64 → String → σ → Result Unit × σ
  changeMembership : Finset UInt64 → σ → Result Unit × σ

/-- What is to stay as it is: the voters, the vote, the log and the state store. -/
structure RaftView where
  voters : Finset UInt64
  vote : Option Vote
  log : BTreeMap ℕ (Entry Bytes)
  store : StateStore Bytes

namespace RaftCore

variable {σ : Type*} (core : RaftCore σ)

/-- What a message may not change from outside the fleet. -/
def view (s : σ) : RaftView :=
  ⟨core.voters s, (core.storage s).inner.vote, (core.storage s).inner.log, (core.storage s).store⟩

/-- Give a request of a peer to the Raft node. -/
def handle : RpcRequest → σ → RpcResponse × σ
  | .append vote prevLogId entries leaderCommit, s =>
    let (r, s) := core.appendEntries vote prevLogId entries leaderCommit s
    (.append r, s)
  | .vote vote lastLogId, s =>
    let (r, s) := core.vote vote lastLogId s
    (.vote r, s)
  | .snapshot vote smeta offset data done, s =>
    let (r, s) := core.installSnapshot vote smeta offset data done s
    (.snapshot r, s)

end RaftCore

/-! ## The handlers -/

/-- A node as its peers reach it: the machines it knows, the text of its measurements, whether the
handle of its Raft node is published, and the Raft node. -/
structure ControlNode (σ : Type*) where
  machines : List Machine
  latencyJson : Bytes
  published : Bool
  raft : σ

/-- How the requests are read. -/
structure ControlDecoder extends RpcDecoder where
  join : Bytes → Option JoinRequest

/-- The two ports. -/
inductive FabricPort
  | control
  | raft
  deriving DecidableEq

/-- A request on one of the ports, with the static key that the client has proved to hold. -/
structure FabricMessage where
  port : FabricPort
  peerKey : Bytes
  payload : Bytes
  deriving DecidableEq

namespace ControlNode

variable {σ : Type*} (core : RaftCore σ) (decoder : ControlDecoder)

/-- Admit a node that asks to join: only the leader does, first as a learner and then as a voter. -/
def handleJoin (body : Bytes) (n : ControlNode σ) : Bytes × ControlNode σ :=
  match decoder.join body with
  | none => (utf8 "error", n)
  | some req =>
    if !core.isLeader n.raft then (utf8 "notleader", n)
    else
      match core.addLearner req.raftId req.raftAddr n.raft with
      | (.error _, s) => (utf8 "error", { n with raft := s })
      | (.ok _, s) =>
        match core.changeMembership (insert req.raftId (core.voters s)) s with
        | (.error _, s) => (utf8 "error", { n with raft := s })
        | (.ok _, s) => (utf8 "ok", { n with raft := s })

/-- What the control server does with a request. -/
def serveControl (_peerKey req : Bytes) (n : ControlNode σ) : Bytes × ControlNode σ :=
  if req = utf8 "latency" then (n.latencyJson, n)
  else
    match (utf8 "join ").isPrefixOf? req with
    | some body => n.handleJoin core decoder body
    | none => (req, n)

/-- Give a request to the Raft node whose handle is published. -/
def dispatch (bytes : Bytes) (n : ControlNode σ) : RpcResponse × ControlNode σ :=
  if !n.published then (.notReady, n)
  else
    match decoder.request bytes with
    | .error _ => (.notReady, n)
    | .ok request =>
      let (response, s) := core.handle request n.raft
      (response, { n with raft := s })

/-- What the Raft server does with a request. -/
def serveRaft (_peerKey bytes : Bytes) (n : ControlNode σ) : Bytes × ControlNode σ :=
  let (response, n) := n.dispatch core decoder bytes
  (response.json, n)

/-- Deliver one message. -/
def deliver (n : ControlNode σ) (m : FabricMessage) : Bytes × ControlNode σ :=
  match m.port with
  | .control => n.serveControl core decoder m.peerKey m.payload
  | .raft => n.serveRaft core decoder m.peerKey m.payload

/-- Deliver messages one after the other: the replies, and the node afterwards. -/
def deliverAll : ControlNode σ → List FabricMessage → List Bytes × ControlNode σ
  | n, [] => ([], n)
  | n, m :: ms =>
    let (reply, n) := n.deliver core decoder m
    let (replies, n) := deliverAll n ms
    (reply :: replies, n)

/-- The answers on the Raft port are those of the exchange over the fabric. -/
theorem dispatch_fst (bytes : Bytes) (n : ControlNode σ) :
    (n.dispatch core decoder bytes).1 = Consensus.dispatch decoder.toRpcDecoder
      (if n.published then some fun req => (core.handle req n.raft).1 else none) bytes := by
  unfold dispatch Consensus.dispatch
  cases n.published with
  | false => rfl
  | true =>
    dsimp only [Bool.not_true, Bool.false_eq_true, if_false, if_true]
    cases decoder.request bytes <;> rfl

/-! ## Clients from outside the fleet -/

variable (publicKeyOf : String → Bytes)

/-- The client's key is not the key of any machine that the node knows. -/
def Outsider (n : ControlNode σ) (m : FabricMessage) : Prop :=
  ∀ machine ∈ n.machines, m.peerKey ≠ publicKeyOf machine.metadata.name

/-- A message reaches the Raft node: a join that decodes, at the leader, or a call that decodes, once
the handle is published. -/
def ReachesRaft (n : ControlNode σ) (m : FabricMessage) : Prop :=
  match m.port with
  | .control => core.isLeader n.raft ∧ ∃ body req, m.payload = utf8 "join " ++ body ∧
      decoder.join body = some req
  | .raft => n.published ∧ ∃ req, decoder.request m.payload = .ok req

variable {core decoder} {n : ControlNode σ}

/-- A message that does not reach the Raft node changes nothing. -/
theorem deliver_snd {m : FabricMessage} (h : ¬n.ReachesRaft core decoder m) :
    (n.deliver core decoder m).2 = n := by
  obtain ⟨port, key, payload⟩ := m
  cases port with
  | control =>
    dsimp only [deliver, serveControl]
    split_ifs
    · rfl
    split
    · next body hbody =>
      have hpayload : payload = utf8 "join " ++ body :=
        (List.isPrefixOf?_eq_some_iff_append_eq.1 hbody).symm
      unfold handleJoin
      split
      · rfl
      · next req hreq =>
        split_ifs with hleader
        · rfl
        · exact absurd ⟨by simpa using hleader, body, req, hpayload, hreq⟩ h
    · rfl
  | raft =>
    dsimp only [deliver, serveRaft, dispatch]
    split_ifs with hpublished
    · rfl
    split
    · rfl
    · next req hreq => exact absurd ⟨by simpa using hpublished, req, hreq⟩ h

theorem deliverAll_snd {ms : List FabricMessage} (h : ∀ m ∈ ms, ¬n.ReachesRaft core decoder m) :
    (n.deliverAll core decoder ms).2 = n := by
  induction ms with
  | nil => rfl
  | cons m ms ih =>
    dsimp only [deliverAll]
    rw [deliver_snd (h m (List.mem_cons_self ..))]
    exact ih fun m' hm' => h m' (List.mem_cons_of_mem _ hm')

/-- The key of a client changes nothing. -/
theorem deliver_key (m : FabricMessage) (key : Bytes) :
    n.deliver core decoder { m with peerKey := key } = n.deliver core decoder m := by
  obtain ⟨port, _, payload⟩ := m
  cases port <;> rfl

theorem deliverAll_keys (keys : FabricMessage → Bytes) (ms : List FabricMessage) :
    n.deliverAll core decoder (ms.map fun m => { m with peerKey := keys m }) =
      n.deliverAll core decoder ms := by
  induction ms generalizing n with
  | nil => rfl
  | cons m ms ih =>
    rw [List.map_cons, deliverAll, deliverAll, deliver_key m (keys m)]
    simp only [ih]

theorem deliverAll_concat_snd (n : ControlNode σ) (ms : List FabricMessage) (m : FabricMessage) :
    (n.deliverAll core decoder (ms ++ [m])).2 =
      ((n.deliverAll core decoder ms).2.deliver core decoder m).2 := by
  induction ms generalizing n with
  | nil => rfl
  | cons m' ms ih => exact ih (n.deliver core decoder m').2

/-- **Messages from outside the fleet.** In every sequence of messages, one from a client whose key no
machine of the topology has leaves the voters, the vote, the log and the store untouched unless it
reaches the Raft node; so a sequence of such messages does. Neither needs that the client is from
outside: the same holds of a member's messages. Those that reach the Raft node are treated as those of a
member: replies and state are the same with any other keys in place of the clients' own. -/
theorem deliverAll_outsiders (core : RaftCore σ) (decoder : ControlDecoder)
    (publicKeyOf : String → Bytes) (n : ControlNode σ) (ms : List FabricMessage) :
    (∀ i m, ms[i]? = some m →
      (n.deliverAll core decoder (ms.take i)).2.Outsider publicKeyOf m →
      ¬(n.deliverAll core decoder (ms.take i)).2.ReachesRaft core decoder m →
      core.view (n.deliverAll core decoder (ms.take (i + 1))).2.raft =
        core.view (n.deliverAll core decoder (ms.take i)).2.raft) ∧
    ((∀ m ∈ ms, n.Outsider publicKeyOf m ∧ ¬n.ReachesRaft core decoder m) →
      core.view (n.deliverAll core decoder ms).2.raft = core.view n.raft) ∧
    ∀ keys : FabricMessage → Bytes,
      n.deliverAll core decoder (ms.map fun m => { m with peerKey := keys m }) =
        n.deliverAll core decoder ms := by
  refine ⟨fun i m hm _ hraft => ?_, fun h => ?_, fun keys => deliverAll_keys keys ms⟩
  · rw [List.take_add_one, hm, Option.toList_some, deliverAll_concat_snd, deliver_snd hraft]
  · rw [deliverAll_snd fun m hm => (h m hm).2]

end ControlNode

/-! ## A message that reaches the Raft node -/

/-- A Raft node alone, as far as a vote and a join go. -/
structure LoneRaft where
  isLeader : Bool
  voters : Finset UInt64
  storage : StateMachineStore Bytes Bytes

/-- A vote of a higher term is granted and kept, and a leader of one changes its membership at once. -/
def loneRaft : RaftCore LoneRaft where
  isLeader := LoneRaft.isLeader
  voters := LoneRaft.voters
  storage := LoneRaft.storage
  appendEntries _ _ _ _ s := (.error [], s)
  vote v _ s :=
    let current := s.storage.inner.vote
    if (current.map fun c => c.leaderId.term).getD 0 < v.leaderId.term then
      (.ok ⟨v, true, none⟩, { s with storage :=
        { s.storage with inner := s.storage.inner.saveVote v } })
    else (.ok ⟨current.getD v, false, none⟩, s)
  installSnapshot _ _ _ _ _ s := (.error [], s)
  addLearner _ _ s := (.ok (), s)
  changeMembership voters s := (.ok (), { s with voters := voters })

/-- The vote that an outsider asks for, and the request to join that it sends. -/
def strayVote : Vote := ⟨⟨7, 666⟩, false⟩

/-- The request to join. -/
def strayJoin : JoinRequest := ⟨666, "203.0.113.9:51901"⟩

/-- Its text. -/
def strayJoinJson : Bytes :=
  Json.object [("raft_id", Json.nat 666), ("raft_addr", Json.string "203.0.113.9:51901")]

/-- A reader for these two requests. -/
def strayDecoder : ControlDecoder where
  request bytes :=
    if bytes = (RpcRequest.vote strayVote none).json then .ok (.vote strayVote none)
    else .error "expected value"
  response _ := .error "expected value"
  join bytes := if bytes = strayJoinJson then some strayJoin else none

/-- The one machine that the nodes below know: their own. -/
def loneMachine : Machine :=
  ⟨.named "node-1", ⟨"us-east"⟩, ⟨"dc-1"⟩, ⟨"rack-a1"⟩, some 1, some "10.0.0.1", .none, .running,
    .healthy⟩

/-- A node that was just started and is in no cluster yet. -/
def joiningNode : ControlNode LoneRaft :=
  ⟨[loneMachine], Json.object [], true, ⟨false, ∅, newStorage .empty⟩⟩

/-- A node that leads a cluster of one. -/
def loneNode : ControlNode LoneRaft :=
  ⟨[loneMachine], Json.object [], true,
    ⟨true, {1}, ⟨(newStorage .empty).inner.saveVote ⟨⟨1, 1⟩, true⟩, .empty⟩⟩⟩

/-- The two requests, from a client with a key of its own; keys are spelled by names here. -/
def strayVoteMessage : FabricMessage :=
  ⟨.raft, utf8 "stranger", (RpcRequest.vote strayVote none).json⟩

/-- The message with the request to join. -/
def strayJoinMessage : FabricMessage := ⟨.control, utf8 "stranger", utf8 "join " ++ strayJoinJson⟩

/-- A client from outside the fleet takes the vote of one node, and makes itself a voter of the
other's cluster. -/
theorem outsider_changes_vote_and_voters :
    joiningNode.Outsider utf8 strayVoteMessage ∧ loneNode.Outsider utf8 strayJoinMessage ∧
      (loneRaft.view joiningNode.raft).vote = none ∧
      (loneRaft.view (joiningNode.deliver loneRaft strayDecoder strayVoteMessage).2.raft).vote =
        some strayVote ∧
      (loneRaft.view loneNode.raft).voters = {1} ∧
      (loneRaft.view (loneNode.deliver loneRaft strayDecoder strayJoinMessage).2.raft).voters =
        {666, 1} := by
  have hkey : utf8 "stranger" ≠ utf8 "node-1" := by decide +kernel
  refine ⟨fun machine hm => ?_, fun machine hm => ?_, rfl, by decide +kernel, rfl,
    by decide +kernel⟩
  · obtain rfl := List.mem_singleton.1 hm
    exact hkey
  · obtain rfl := List.mem_singleton.1 hm
    exact hkey

end OCF.Api

import OCF.Fabric.Session

/-!
# The transport and its relays

A transport keeps one session per peer, under the peer's node id, and runs each request as one
exchange on it. A relay forwards an envelope by dialing the endpoint that the envelope names; it
gives every target the same node id, so all of them share one session, and this session leads to
the target of the first envelope.

Exchanges are whole here: `exchange_refines` shows that each is a run of the session of
`OCF.Fabric.Session` in which nothing is dropped. `relay_delivers_iff` says when a sequence of
envelopes is delivered as addressed.
-/

namespace OCF.Fabric

/-- What the transport finds outside: who accepts the connection at an endpoint and completes the
handshake, how the listeners respond, and what the libraries report about a failure. -/
structure Network (H : Type*) where
  dial : String → Result H
  handler : H → Bytes → Bytes
  report : String → String

/-- A cached connection: who accepted it, and whether they have ended it. -/
structure Conn (H : Type*) where
  peer : H
  closed : Bool

variable {H : Type*} (net : Network H)

/-- One exchange: the result, who was given the payload, and the connection afterwards. A response
that does not fit a message makes the peer end the connection. -/
def Conn.exchange (conn : Conn H) (payload : Bytes) : Result Bytes × Option H × Conn H :=
  if ¬Sealable payload then (.error (noiseErr "seal" (net.report "seal")), none, conn)
  else if conn.closed then (.error (noiseErr "read len" (net.report "read len")), none, conn)
  else
    let response := net.handler conn.peer payload
    if Sealable response then (.ok response, some conn.peer, conn)
    else
      (.error (noiseErr "read len" (net.report "read len")), some conn.peer,
        { conn with closed := true })

/-! ## Exchanges as runs of a session -/

/-- The session is at rest, in step with the peer or ended by it. -/
def Represents (s : Session) (conn : Conn H) : Prop :=
  if conn.closed then s.peer = .closed ∧ s.active = none ∧ s.toClient = []
  else ∃ n calls, s = ⟨n, n, none, calls, [], [], .reading, n, n⟩

variable {net}

/-- A call that cannot seal its payload returns at once. -/
theorem run_unsealable {s : Session} {c : ℕ} {p : Bytes} {e : String} {handler : Bytes → Bytes}
    (hact : s.active = none) (hc : c ∉ s.calls) (hp : ¬Sealable p) :
    run (Session.step handler) s [.request c p, .acquire c e] =
      some { s with
        calls := (s.calls.insert c (.queued p)).insert c
          (.returned p (.error (noiseErr "seal" e))) } := by
  simp [run_cons, Session.step, hc, hact, hp]

/-- A session at rest brings a call to the peer's handler. -/
theorem run_handled (handler : Bytes → Bytes) (n : ℕ) {calls : HashMap ℕ CallState} {c : ℕ}
    {p : Bytes} (hc : c ∉ calls) (hp : Sealable p) (as : List SessionAction) :
    run (Session.step handler) ⟨n, n, none, calls, [], [], .reading, n, n⟩
      (.request c p :: .acquire c "" :: .writeAll :: .peerRead :: as) =
    run (Session.step handler) ⟨n + 1, n, some ⟨c, p, .waiting⟩,
      (calls.insert c (.queued p)).insert c (.exchanging p), [], [], .handling p, n, n + 1⟩ as := by
  simp [run_cons, Session.step, Session.push, hc, hp]

/-- A reply that can be sealed takes the session back to rest. -/
theorem run_replied {handler : Bytes → Bytes} (n : ℕ) (calls : HashMap ℕ CallState) (c : ℕ)
    {p : Bytes} (hr : Sealable (handler p)) :
    run (Session.step handler) ⟨n + 1, n, some ⟨c, p, .waiting⟩, calls, [], [], .handling p, n, n + 1⟩
      [.peerReply, .readAll 0 false ""] =
        some ⟨n + 1, n + 1, none, calls.insert c (.returned p (.ok (handler p))), [], [], .reading,
          n + 1, n + 1⟩ := by
  simp [run_cons, Session.step, Session.recvOpened, Session.finish, hr]

/-- A reply that cannot be sealed ends the session. -/
theorem run_refused {handler : Bytes → Bytes} (n : ℕ) (calls : HashMap ℕ CallState) (c : ℕ)
    {p : Bytes} (e : String) (hr : ¬Sealable (handler p)) :
    ∃ s, run (Session.step handler)
        ⟨n + 1, n, some ⟨c, p, .waiting⟩, calls, [], [], .handling p, n, n + 1⟩
        [.peerReply, .fail "read len" e] = some s ∧
      s.calls.lookup c = some (.returned p (.error (noiseErr "read len" e))) ∧
      s.peer = .closed ∧ s.active = none ∧ s.toClient = [] := by
  refine ⟨_, by simp [run_cons, Session.step, Session.close, hr]; rfl, ?_⟩
  simp [Session.finish, Session.leave]

/-- **An exchange is a run of the session** of the connection, with no call dropped: it takes a new
call to the result of the exchange. -/
theorem exchange_refines {s : Session} {conn : Conn H} (h : Represents s conn) {c : ℕ}
    (hc : c ∉ s.calls) (p : Bytes) :
    ∃ as s', run (Session.step (net.handler conn.peer)) s as = some s' ∧
      (∀ i, .drop i ∉ as) ∧
      s'.calls.lookup c = some (.returned p (conn.exchange net p).1) ∧
      Represents s' (conn.exchange net p).2.2 := by
  obtain ⟨host, closed⟩ := conn
  by_cases hp : Sealable p
  swap
  · have hact : s.active = none := by
      cases closed with
      | true => exact h.2.1
      | false =>
        obtain ⟨n, calls, rfl⟩ := h
        rfl
    refine ⟨_, _, run_unsealable (e := net.report "seal") hact hc hp, by simp, ?_, ?_⟩
    · simp [Conn.exchange, hp]
    · simp only [Conn.exchange, hp, not_false_eq_true, if_true]
      cases closed with
      | true => exact h
      | false =>
        obtain ⟨n, calls, rfl⟩ := h
        exact ⟨n, _, rfl⟩
  cases closed with
  | true =>
    obtain ⟨hpeer, hact, hcl⟩ : s.peer = .closed ∧ s.active = none ∧ s.toClient = [] := h
    refine ⟨[.request c p, .acquire c "", .writeAll, .fail "read len" (net.report "read len")], _,
      by simp [run_cons, Session.step, Session.push, hc, hact, hp, hpeer, hcl]; rfl, by simp, ?_, ?_⟩
    · simp [Conn.exchange, hp, Session.finish, Session.leave]
    · simp [Conn.exchange, hp, Represents, Session.finish, Session.leave]
  | false =>
    obtain ⟨n, calls, rfl⟩ := h
    have hhandled := run_handled (net.handler host) n hc hp
    by_cases hr : Sealable (net.handler host p)
    · refine ⟨_, _, (hhandled _).trans (run_replied n _ c hr), by simp, ?_, ?_⟩
      · simp [Conn.exchange, hp, hr]
      · simp only [Conn.exchange, hp, hr]
        exact ⟨n + 1, _, rfl⟩
    · obtain ⟨s, hs, hreturned, hclosed⟩ := run_refused n
        ((calls.insert c (.queued p)).insert c (.exchanging p)) c (net.report "read len") hr
      refine ⟨_, s, (hhandled _).trans hs, by simp, ?_, ?_⟩
      · simpa [Conn.exchange, hp, hr] using hreturned
      · simpa [Conn.exchange, hp, hr, Represents] using hclosed

variable (net)

/-! ## The transport -/

/-- The sessions of a transport, by peer. -/
structure NoiseTransport (H : Type*) where
  conns : HashMap NodeId (Conn H)

/-- A request to a relay: forward the payload to the node at the endpoint. -/
structure RelayEnvelope where
  targetEndpoint : String
  targetPubkey : Bytes
  payload : Bytes
  deriving DecidableEq

namespace NoiseTransport

/-- A transport without any session. -/
def new : NoiseTransport H := ⟨∅⟩

/-- Establish, or reuse, a session to a node. -/
def connect (t : NoiseTransport H) (node : FabricNode) : Result Unit × NoiseTransport H :=
  match node.primaryEndpoint with
  | none => (.error (.invalidArgument ("node " ++ node.nodeId.name ++ " has no endpoint")), t)
  | some endpoint =>
    if node.nodeId ∈ t.conns then (.ok (), t)
    else
      match net.dial endpoint with
      | .error e => (.error e, t)
      | .ok host => (.ok (), ⟨t.conns.insert node.nodeId ⟨host, false⟩⟩)

/-- Send a payload to a node: the result, who was given the payload, and the transport
afterwards. -/
def request (t : NoiseTransport H) (node : FabricNode) (payload : Bytes) :
    Result Bytes × Option H × NoiseTransport H :=
  match t.connect net node with
  | (.error e, t) => (.error e, none, t)
  | (.ok _, t) =>
    match t.conns.lookup node.nodeId with
    | none => (.error (.internal "noise session vanished"), none, t)
    | some conn =>
      let (r, host, conn) := conn.exchange net payload
      (r, host, ⟨t.conns.insert node.nodeId conn⟩)

/-- Forward an envelope that was received as a request. -/
def forwardRelayed (decode : Bytes → Except String RelayEnvelope) (t : NoiseTransport H)
    (requestBytes : Bytes) : Result Bytes × Option H × NoiseTransport H :=
  match decode requestBytes with
  | .error e => (.error (.invalidArgument ("decode relay envelope: " ++ e)), none, t)
  | .ok envelope =>
    let target := FabricNode.new ⟨"relayed-target"⟩ envelope.targetPubkey [envelope.targetEndpoint]
    t.request net target envelope.payload

/-- Forward envelopes one after the other: the result of each, and who was given its payload. -/
def forwardAll (decode : Bytes → Except String RelayEnvelope) :
    NoiseTransport H → List Bytes → List (Result Bytes × Option H)
  | _, [] => []
  | t, bytes :: rest =>
    let (r, host, t) := t.forwardRelayed net decode bytes
    (r, host) :: forwardAll decode t rest

variable {net} {decode : Bytes → Except String RelayEnvelope} {host : String → H}

/-- What does not fit a message is given to nobody, whatever the network and the sessions. -/
theorem request_unsealable {t : NoiseTransport H} {node : FabricNode} {p : Bytes}
    (hp : ¬Sealable p) :
    (∃ e, (t.request net node p).1 = .error e) ∧ (t.request net node p).2.1 = none := by
  unfold request
  split
  · exact ⟨⟨_, rfl⟩, rfl⟩
  · split
    · exact ⟨⟨_, rfl⟩, rfl⟩
    · simp [Conn.exchange, hp]

/-- A request to a node that can be dialed is an exchange on an open session to it, unless there is
another session under its id. -/
theorem request_open {t : NoiseTransport H} {node : FabricNode} {endpoint : String} {h : H}
    (hnode : node.primaryEndpoint = some endpoint) (hdial : net.dial endpoint = .ok h)
    (hsession : ∀ conn, t.conns.lookup node.nodeId = some conn → conn = ⟨h, false⟩) (p : Bytes) :
    (t.request net node p).1 = (Conn.exchange net ⟨h, false⟩ p).1 ∧
      (t.request net node p).2.1 = (Conn.exchange net ⟨h, false⟩ p).2.1 := by
  by_cases hmem : node.nodeId ∈ t.conns
  · obtain ⟨conn, hconn⟩ := HashMap.mem_iff_exists_lookup.1 hmem
    obtain rfl := hsession conn hconn
    simp [request, connect, hnode, hmem, hconn]
  · simp [request, connect, hnode, hmem, hdial]

/-- What is to become of an envelope: the payload goes to the node at the envelope's own endpoint,
and the result is that node's reply. -/
def delivered (net : Network H) (host : String → H) (e : RelayEnvelope) : Result Bytes × Option H :=
  (.ok (net.handler (host e.targetEndpoint) e.payload), some (host e.targetEndpoint))

/-- The payload and the reply of an envelope each fit a message. -/
def Fits (net : Network H) (host : String → H) (e : RelayEnvelope) : Prop :=
  Sealable e.payload ∧ Sealable (net.handler (host e.targetEndpoint) e.payload)

/-- The node under which a relay keeps its session. -/
def relayedTarget : NodeId := ⟨"relayed-target"⟩

/-- With the relay's session in place, an envelope is an exchange on it. -/
theorem forwardRelayed_cached {t : NoiseTransport H} {conn : Conn H} {bytes : Bytes}
    {e : RelayEnvelope} (hconn : t.conns.lookup relayedTarget = some conn)
    (hdec : decode bytes = .ok e) :
    t.forwardRelayed net decode bytes = ((conn.exchange net e.payload).1,
      (conn.exchange net e.payload).2.1,
      ⟨t.conns.insert relayedTarget (conn.exchange net e.payload).2.2⟩) := by
  have hmem : relayedTarget ∈ t.conns := HashMap.mem_iff_exists_lookup.2 ⟨conn, hconn⟩
  unfold relayedTarget at *
  simp only [forwardRelayed, hdec, request, connect, FabricNode.new, FabricNode.primaryEndpoint,
    List.head?_cons, hmem, if_true, hconn]

/-- The first envelope establishes the session, to the node at its endpoint. -/
theorem forwardRelayed_first {t : NoiseTransport H} (ht : relayedTarget ∉ t.conns) {bytes : Bytes}
    {e : RelayEnvelope} (hdec : decode bytes = .ok e)
    (hdial : net.dial e.targetEndpoint = .ok (host e.targetEndpoint)) :
    t.forwardRelayed net decode bytes = NoiseTransport.forwardRelayed net decode
      ⟨t.conns.insert relayedTarget ⟨host e.targetEndpoint, false⟩⟩ bytes := by
  unfold relayedTarget at *
  simp [forwardRelayed, hdec, request, connect, FabricNode.new, FabricNode.primaryEndpoint, ht,
    hdial]

theorem exchange_open {h : H} {p : Bytes} (hp : Sealable p) (hr : Sealable (net.handler h p)) :
    Conn.exchange net ⟨h, false⟩ p = (.ok (net.handler h p), some h, ⟨h, false⟩) := by
  simp [Conn.exchange, hp, hr]

/-- On an open session to `h`, an envelope is delivered as addressed exactly when it is for `h` and
fits. -/
theorem exchange_delivered_iff {h : H} {e : RelayEnvelope} :
    ((Conn.exchange net ⟨h, false⟩ e.payload).1, (Conn.exchange net ⟨h, false⟩ e.payload).2.1) =
      delivered net host e ↔ host e.targetEndpoint = h ∧ Fits net host e := by
  unfold delivered Fits
  constructor
  · intro heq
    obtain ⟨hres, hto⟩ := Prod.mk.inj heq
    by_cases hp : Sealable e.payload
    · by_cases hr : Sealable (net.handler h e.payload)
      · rw [exchange_open hp hr] at hto
        obtain rfl := Option.some.inj hto
        exact ⟨rfl, hp, hr⟩
      · simp [Conn.exchange, hp, hr] at hres
    · simp [Conn.exchange, hp] at hres
  · rintro ⟨rfl, hp, hr⟩
    rw [exchange_open hp hr]

/-- On an open session to `h`, envelopes are delivered as addressed exactly when they are all for
`h` and fit. -/
theorem forwardAll_eq_iff {t : NoiseTransport H} {h : H}
    (hconn : t.conns.lookup relayedTarget = some ⟨h, false⟩) {reqs : List Bytes}
    {envs : List RelayEnvelope} (hdec : reqs.map decode = envs.map .ok) :
    t.forwardAll net decode reqs = envs.map (delivered net host) ↔
      ∀ e ∈ envs, host e.targetEndpoint = h ∧ Fits net host e := by
  induction envs generalizing t reqs with
  | nil =>
    obtain rfl := List.map_eq_nil_iff.1 hdec
    simp [forwardAll]
  | cons e envs ih =>
    obtain ⟨bytes, rest, rfl, hb, hrest⟩ := List.map_eq_cons_iff.1 hdec
    rw [forwardAll, forwardRelayed_cached hconn hb, List.map_cons, List.cons.injEq,
      List.forall_mem_cons, exchange_delivered_iff]
    refine and_congr_right fun hfits => ?_
    -- the envelope was delivered, so the session is still open
    obtain ⟨rfl, hp, hr⟩ := hfits
    refine ih ?_ hrest
    rw [exchange_open hp hr]
    exact AList.lookup_insert _

end NoiseTransport

open NoiseTransport

/-- **Relayed delivery.** A relay that starts without a session and is handed a sequence of
envelopes, all of whose endpoints can be dialed, delivers each payload to the node at its own
endpoint and returns that node's reply, for the whole sequence, if and only if all the endpoints
lead to the same node and every payload and reply fits one message. -/
theorem relay_delivers_iff (net : Network H) (decode : Bytes → Except String RelayEnvelope)
    (host : String → H) (reqs : List Bytes) (envs : List RelayEnvelope)
    (hdec : reqs.map decode = envs.map .ok)
    (hdial : ∀ e ∈ envs, net.dial e.targetEndpoint = .ok (host e.targetEndpoint)) :
    NoiseTransport.new.forwardAll net decode reqs = envs.map (delivered net host) ↔
      (∀ e ∈ envs, ∀ e' ∈ envs, host e.targetEndpoint = host e'.targetEndpoint) ∧
        ∀ e ∈ envs, Sealable e.payload ∧
          Sealable (net.handler (host e.targetEndpoint) e.payload) := by
  cases envs with
  | nil =>
    obtain rfl := List.map_eq_nil_iff.1 hdec
    simp [forwardAll]
  | cons e envs =>
    obtain ⟨bytes, rest, rfl, hb, hrest⟩ := List.map_eq_cons_iff.1 hdec
    have hfirst := forwardRelayed_first (t := .new) (AList.notMem_empty _) hb
      (hdial e (List.mem_cons_self ..))
    rw [forwardAll, hfirst, ← forwardAll]
    refine (forwardAll_eq_iff (AList.lookup_insert _) hdec).trans ?_
    constructor
    · intro h
      exact ⟨fun x hx y hy => (h x hx).1.trans (h y hy).1.symm, fun x hx => (h x hx).2⟩
    · rintro ⟨hsame, hfits⟩ x hx
      exact ⟨hsame x hx e (List.mem_cons_self ..), hfits x hx⟩

/-- The bytes of an ASCII text. -/
def ascii (s : String) : Bytes := s.toList.map fun c => UInt8.ofNat c.toNat

/-- An envelope for each of two nodes, and its encoding. -/
def envelopeA : RelayEnvelope := ⟨"a:1", [], [7]⟩

/-- An envelope for the other target. -/
def envelopeB : RelayEnvelope := ⟨"b:1", [], [8]⟩

/-- The text of the first envelope. -/
def encodedA : Bytes :=
  ascii "\x7b\"target_endpoint\":\"a:1\",\"target_pubkey\":[],\"payload\":[7]\x7d"

/-- The text of the second one. -/
def encodedB : Bytes :=
  ascii "\x7b\"target_endpoint\":\"b:1\",\"target_pubkey\":[],\"payload\":[8]\x7d"

/-- A reader for these two texts. -/
def decodeSample (bytes : Bytes) : Except String RelayEnvelope :=
  if bytes = encodedA then .ok envelopeA
  else if bytes = encodedB then .ok envelopeB
  else .error "expected value at line 1 column 1"

/-- Two nodes that prepend their own number to what they are given. -/
def twoNodes : Network ℕ where
  dial endpoint :=
    if endpoint = "a:1" then .ok 0 else if endpoint = "b:1" then .ok 1
    else .error (noiseErr ("dial " ++ endpoint) "connection refused")
  handler h p := UInt8.ofNat h :: p
  report _ := "early eof"

/-- Both envelopes are for the same node and short, so both are delivered. -/
theorem relay_delivers_iff_sameTarget :
    NoiseTransport.new.forwardAll twoNodes decodeSample [encodedA, encodedA] =
      [(.ok [0, 7], some 0), (.ok [0, 7], some 0)] :=
  (relay_delivers_iff twoNodes decodeSample (fun ep => if ep = "a:1" then 0 else 1)
    [encodedA, encodedA] [envelopeA, envelopeA] rfl (by decide)).2 (by decide)

/-- The second envelope is for another node, which can be dialed; its payload goes to the node of
the first all the same, and the reply comes from there. -/
theorem second_target_gets_nothing :
    twoNodes.dial envelopeA.targetEndpoint = .ok 0 ∧
      twoNodes.dial envelopeB.targetEndpoint = .ok 1 ∧
      twoNodes.handler 1 envelopeB.payload = [1, 8] ∧
      NoiseTransport.new.forwardAll twoNodes decodeSample [encodedA, encodedB] =
        [(.ok [0, 7], some 0), (.ok [0, 8], some 0)] :=
  ⟨rfl, rfl, rfl, rfl⟩

end OCF.Fabric

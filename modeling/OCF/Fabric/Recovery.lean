import OCF.Fabric.Transport

/-!
# Recovering a session

A transport caches the session of a node and never drops it. When the peer ends the connection (it
restarts, the network is cut, or it gives up on a reply that does not fit a message) the cached
session stays, and every later request to that node runs on it and fails, also when the node listens
again.

A history of a transport is any sequence of requests, each made in the network as it is at the time,
and of connections that are closed or reset. `session_recovers_iff` says which histories leave a
node that listens reachable.
-/

namespace OCF.Fabric

variable {H : Type*}

/-- A listener answers: some payload fits a message, and so does the reply to it. -/
def Network.Answers (net : Network H) (h : H) : Prop :=
  ∃ p, Sealable p ∧ Sealable (net.handler h p)

namespace NoiseTransport

/-- Who is at the other end of the session that a request to a node would use: the peer of the
cached session, or else whoever listens at the node's endpoint. -/
def sessionPeer (t : NoiseTransport H) (net : Network H) (node : FabricNode) : Option H :=
  node.primaryEndpoint.bind fun endpoint =>
    match t.conns.lookup node.nodeId with
    | some conn => some conn.peer
    | none => (net.dial endpoint).toOption

section Request

variable {net : Network H} {t : NoiseTransport H} {node : FabricNode} {endpoint : String}
  {payload : Bytes}

/-! ## What a request does -/

/-- With a cached session, a request is an exchange on it. -/
theorem request_cached (hep : node.primaryEndpoint = some endpoint) {conn : Conn H}
    (h : t.conns.lookup node.nodeId = some conn) :
    t.request net node payload = ((conn.exchange net payload).1, (conn.exchange net payload).2.1,
      ⟨t.conns.insert node.nodeId (conn.exchange net payload).2.2⟩) := by
  have hmem : node.nodeId ∈ t.conns := HashMap.mem_iff_exists_lookup.2 ⟨conn, h⟩
  simp only [request, connect, hep, hmem, if_true, h]

/-- Without one, a session is established first, to whoever listens. -/
theorem request_dialed (hep : node.primaryEndpoint = some endpoint) (h : node.nodeId ∉ t.conns)
    {host : H} (hdial : net.dial endpoint = .ok host) :
    t.request net node payload =
      request net ⟨t.conns.insert node.nodeId ⟨host, false⟩⟩ node payload := by
  simp [request, connect, hep, h, hdial]

variable (payload) in
/-- When nobody listens, or the node has no endpoint, a request fails and nothing changes. -/
theorem request_unreached (h : t.sessionPeer net node = none) :
    ∃ e, t.request net node payload = (.error e, none, t) := by
  cases hep : node.primaryEndpoint with
  | none => simp [request, connect, hep]
  | some endpoint =>
    simp only [sessionPeer, hep, Option.bind_some] at h
    cases hl : t.conns.lookup node.nodeId with
    | some conn => simp [hl] at h
    | none =>
      have hmem : node.nodeId ∉ t.conns := AList.lookup_eq_none.1 hl
      rw [hl] at h
      cases hd : net.dial endpoint with
      | ok host => simp [hd, Except.toOption] at h
      | error e => simp [request, connect, hep, hmem, hd]

variable (payload) in
/-- The session of a node after a request to it that reached a peer. -/
theorem lookup_request {h : H} (hpeer : t.sessionPeer net node = some h) :
    ∃ conn, conn.peer = h ∧
      (t.conns.lookup node.nodeId = some conn ∨
        node.nodeId ∉ t.conns ∧ conn = ⟨h, false⟩) ∧
      (t.request net node payload).1 = (conn.exchange net payload).1 ∧
      ∀ id, (t.request net node payload).2.2.conns.lookup id =
        if id = node.nodeId then some (conn.exchange net payload).2.2 else t.conns.lookup id := by
  cases hep : node.primaryEndpoint with
  | none => simp [sessionPeer, hep] at hpeer
  | some endpoint =>
    simp only [sessionPeer, hep, Option.bind_some] at hpeer
    cases hl : t.conns.lookup node.nodeId with
    | some conn =>
      rw [hl] at hpeer
      rw [request_cached hep hl]
      exact ⟨conn, Option.some.inj hpeer, .inl rfl, rfl,
        fun id => HashMap.lookup_insert_eq ..⟩
    | none =>
      have hmem : node.nodeId ∉ t.conns := AList.lookup_eq_none.1 hl
      rw [hl] at hpeer
      cases hd : net.dial endpoint with
      | error e => simp [hd, Except.toOption] at hpeer
      | ok host =>
        obtain rfl : host = h := by simpa [hd, Except.toOption] using hpeer
        have hnew : (t.conns.insert node.nodeId ⟨host, false⟩).lookup node.nodeId =
            some ⟨host, false⟩ := AList.lookup_insert _
        rw [request_dialed hep hmem hd, request_cached
          (t := ⟨t.conns.insert node.nodeId ⟨host, false⟩⟩) hep hnew]
        refine ⟨_, rfl, .inr ⟨hmem, rfl⟩, rfl, fun id => ?_⟩
        rw [HashMap.lookup_insert_eq, HashMap.lookup_insert_eq]
        split_ifs <;> rfl

end Request

/-! ## Histories -/

end NoiseTransport

/-- What happens to a transport. -/
inductive TransportEvent (H : Type*)
  /-- A request is made, in the network as it is then. -/
  | request (net : Network H) (node : FabricNode) (payload : Bytes)
  /-- The connection that is cached for a node is closed or reset. -/
  | reset (id : NodeId)

namespace NoiseTransport

def step (t : NoiseTransport H) : TransportEvent H → Option (NoiseTransport H)
  | .request net node payload => some (t.request net node payload).2.2
  | .reset id =>
    match t.conns.lookup id with
    | none => some t
    | some conn => some ⟨t.conns.insert id { conn with closed := true }⟩

/-- Requests to a node, one after the other. -/
def requests (net : Network H) (node : FabricNode) (t : NoiseTransport H) (payloads : List Bytes) :
    NoiseTransport H :=
  payloads.foldl (fun t p => (t.request net node p).2.2) t

/-- When the node listens and the listeners answer, some later request to it succeeds. -/
def Recovers (t : NoiseTransport H) (node : FabricNode) : Prop :=
  ∀ (net : Network H) (endpoint : String) (host : H), node.primaryEndpoint = some endpoint →
    net.dial endpoint = .ok host → (∀ h, net.Answers h) →
    ∃ payloads payload r, ((t.requests net node payloads).request net node payload).1 = .ok r

/-- The cached session of the node, if there is one, is open. -/
def SessionOpen (node : FabricNode) (t : NoiseTransport H) : Prop :=
  ∀ conn, t.conns.lookup node.nodeId = some conn → conn.closed = false

/-- The event does not end the cached session of the node: its connection is not closed or reset,
and no reply on it is too long for a message. -/
def KeepsSession (node : FabricNode) (t : NoiseTransport H) : TransportEvent H → Prop
  | .request net n payload => n.nodeId = node.nodeId → ∀ h, t.sessionPeer net n = some h →
      Sealable payload → Sealable (net.handler h payload)
  | .reset id => id = node.nodeId → id ∉ t.conns

variable {t t' : NoiseTransport H} {node : FabricNode}

theorem exchange_closed (net : Network H) {conn : Conn H} (h : conn.closed) (p : Bytes) :
    (∃ e, (conn.exchange net p).1 = .error e) ∧ (conn.exchange net p).2.2 = conn := by
  by_cases hp : Sealable p <;> simp [Conn.exchange, hp, h]

/-- An exchange on an open session leaves it open unless the reply does not fit. -/
theorem exchange_closed_iff {net : Network H} {conn : Conn H} (h : conn.closed = false) (p : Bytes) :
    (conn.exchange net p).2.2.closed = false ↔
      (Sealable p → Sealable (net.handler conn.peer p)) := by
  by_cases hp : Sealable p <;> by_cases hr : Sealable (net.handler conn.peer p) <;>
    simp [Conn.exchange, hp, hr, h]

/-- On an ended session every request fails and leaves it as it is. -/
theorem request_ended (net : Network H) {conn : Conn H}
    (hconn : t.conns.lookup node.nodeId = some conn) (hclosed : conn.closed) (p : Bytes) :
    (∃ e, (t.request net node p).1 = .error e) ∧
      (t.request net node p).2.2.conns.lookup node.nodeId = some conn := by
  cases hep : node.primaryEndpoint with
  | none => simp [request, connect, hep, hconn]
  | some endpoint =>
    obtain ⟨hres, hsame⟩ := exchange_closed net hclosed p
    rw [request_cached hep hconn]
    exact ⟨hres, (AList.lookup_insert _).trans (congrArg some hsame)⟩

theorem requests_ended (net : Network H) {conn : Conn H}
    (hconn : t.conns.lookup node.nodeId = some conn) (hclosed : conn.closed)
    (payloads : List Bytes) :
    (t.requests net node payloads).conns.lookup node.nodeId = some conn :=
  List.foldlRecOn (motive := fun u : NoiseTransport H => u.conns.lookup node.nodeId = some conn)
    payloads _ hconn fun _ hu p _ => (request_ended net hu hclosed p).2

/-- **A node is reachable again exactly when no ended session is cached for it.** -/
theorem recovers_iff {endpoint : String} (hep : node.primaryEndpoint = some endpoint) :
    t.Recovers node ↔ SessionOpen node t := by
  constructor
  · intro h conn hconn
    by_contra hclosed
    -- the node listens, and everybody echoes
    let net : Network H := ⟨fun _ => .ok conn.peer, fun _ p => p, fun _ => ""⟩
    have hnil : Sealable [] := by decide
    obtain ⟨payloads, payload, r, hr⟩ := h net endpoint conn.peer hep rfl
      fun _ => ⟨[], hnil, hnil⟩
    obtain ⟨⟨e, he⟩, -⟩ := request_ended net
      (requests_ended net hconn (by simpa using hclosed) payloads) (by simpa using hclosed)
      payload
    rw [he] at hr
    contradiction
  · intro hopen net endpoint' host hep' hdial hans
    obtain ⟨h, hpeer⟩ : ∃ h, t.sessionPeer net node = some h := by
      cases hl : t.conns.lookup node.nodeId with
      | some conn => exact ⟨conn.peer, by simp [sessionPeer, hep', hl]⟩
      | none => exact ⟨host, by simp [sessionPeer, hep', hl, hdial, Except.toOption]⟩
    obtain ⟨p, hp, hr⟩ := hans h
    obtain ⟨⟨peer, closed⟩, rfl, hconn, hres, -⟩ := lookup_request p hpeer
    have hclosed : closed = false := by
      obtain hconn | ⟨-, hconn⟩ := hconn
      · exact hopen _ hconn
      · exact congrArg Conn.closed hconn
    subst hclosed
    refine ⟨[], p, net.handler peer p, hres.trans ?_⟩
    rw [exchange_open hp hr]

/-- A request keeps the session open exactly when it meets the condition. -/
theorem sessionOpen_request_iff (h : SessionOpen node t) (net : Network H) (n : FabricNode)
    (p : Bytes) : SessionOpen node (t.request net n p).2.2 ↔ KeepsSession node t (.request net n p) := by
  cases hpeer : t.sessionPeer net n with
  | none =>
    obtain ⟨e, he⟩ := request_unreached p hpeer
    rw [he]
    exact ⟨fun _ _ x hx => by simp [hpeer] at hx, fun _ => h⟩
  | some x =>
    obtain ⟨conn, rfl, hconn, -, hlook⟩ := lookup_request p hpeer
    by_cases hid : n.nodeId = node.nodeId
    · have hopen : conn.closed = false := by
        obtain hconn | ⟨-, hconn⟩ := hconn
        · exact h conn (hid ▸ hconn)
        · exact congrArg Conn.closed hconn
      have hafter : SessionOpen node (t.request net n p).2.2 ↔
          (conn.exchange net p).2.2.closed = false := by
        unfold SessionOpen
        simp [hlook, hid]
      rw [hafter, exchange_closed_iff hopen]
      simp [KeepsSession, hid, hpeer]
    · constructor
      · exact fun _ hid' => absurd hid' hid
      · intro _ c hc
        rw [hlook, if_neg (Ne.symm hid)] at hc
        exact h c hc

/-- **A step keeps the session open exactly when it meets the condition.** -/
theorem sessionOpen_step_iff (h : SessionOpen node t) {e : TransportEvent H}
    (hs : t.step e = some t') : SessionOpen node t' ↔ KeepsSession node t e := by
  cases e with
  | request net n p =>
    obtain rfl := Option.some.inj hs
    exact sessionOpen_request_iff h net n p
  | reset id =>
    simp only [step] at hs
    cases hl : t.conns.lookup id with
    | none =>
      rw [hl] at hs
      obtain rfl := Option.some.inj hs
      exact ⟨fun _ _ => AList.lookup_eq_none.1 hl, fun _ => h⟩
    | some conn =>
      rw [hl] at hs
      obtain rfl := Option.some.inj hs
      have hmem : id ∈ t.conns := HashMap.mem_iff_exists_lookup.2 ⟨conn, hl⟩
      simp only [SessionOpen, HashMap.lookup_insert_eq, KeepsSession, not_true_eq_false, hmem]
      by_cases hid : id = node.nodeId
      · simp [hid]
      · simp [hid, Ne.symm hid]
        exact h

theorem sessionOpen_new (node : FabricNode) :
    SessionOpen node (NoiseTransport.new : NoiseTransport H) := by
  intro conn hconn
  simp [NoiseTransport.new] at hconn

end NoiseTransport

open NoiseTransport

/-- **Session recovery.** Along a history of requests and of connections that are closed or reset, a
node that listens can be reached again from every state if and only if no event of the history ends
the session that is cached for the node. -/
theorem session_recovers_iff (node : FabricNode) (endpoint : String)
    (hep : node.primaryEndpoint = some endpoint) (es : List (TransportEvent H)) (t : NoiseTransport H)
    (hrun : run NoiseTransport.step .new es = some t) :
    (∀ n u, run NoiseTransport.step .new (es.take n) = some u → u.Recovers node) ↔
      Guarded NoiseTransport.step (KeepsSession node) .new es :=
  (Guarded.iff_forall_states (I := SessionOpen node) (fun _ h => (recovers_iff hep).2 h)
    (fun _ _ _ h hg hs => (sessionOpen_step_iff h hs).2 hg)
    (fun _ _ _ h hs hr => (sessionOpen_step_iff h hs).1 ((recovers_iff hep).1 hr))
    (sessionOpen_new node) hrun).symm

/-- The node that listens at `a:1`. -/
def nodeA : FabricNode := .new ⟨"a"⟩ [] ["a:1"]

/-- Nobody listens. -/
def cutOff : Network ℕ := { twoNodes with
  dial := fun endpoint => .error (noiseErr ("dial " ++ endpoint) "connection refused") }

/-- The node cannot be dialed at first, and is reached later. -/
def lateStart : List (TransportEvent ℕ) :=
  [.request cutOff nodeA [7], .request twoNodes nodeA [7], .request twoNodes nodeA [8]]

/-- No session ends, so the node is reachable throughout. -/
theorem session_recovers_iff_lateStart :
    ∃ t, run NoiseTransport.step .new lateStart = some t ∧ nodeA.nodeId ∈ t.conns ∧
      ∀ n u, run NoiseTransport.step .new (lateStart.take n) = some u → u.Recovers nodeA := by
  refine ⟨_, rfl, by decide, (session_recovers_iff nodeA "a:1" rfl lateStart _ rfl).2 ?_⟩
  refine .cons ?_ rfl (.cons ?_ rfl (.cons ?_ rfl trivial))
  · intro _ h hh
    simp [sessionPeer, cutOff, nodeA, FabricNode.new, FabricNode.primaryEndpoint, Except.toOption,
      NoiseTransport.new] at hh
  · intro _ h hh _
    obtain rfl : 0 = h := Option.some.inj hh
    decide
  · intro _ h hh _
    obtain rfl : 0 = h := Option.some.inj hh
    decide

/-- The node is reached, and then it restarts. -/
def peerRestarts : List (TransportEvent ℕ) := [.request twoNodes nodeA [7], .reset ⟨"a"⟩]

/-- The node listens again and echoes, but no request to it ever succeeds. -/
theorem restarted_peer_is_lost :
    ∃ t, run NoiseTransport.step .new peerRestarts = some t ∧
      twoNodes.dial "a:1" = .ok 0 ∧ (∀ h, twoNodes.Answers h) ∧
      (∀ payloads payload, ∃ e,
        ((t.requests twoNodes nodeA payloads).request twoNodes nodeA payload).1 = .error e) ∧
      ¬t.Recovers nodeA := by
  have hdead : ∀ payloads payload, ∃ e, ((NoiseTransport.requests twoNodes nodeA
      ⟨(∅ : HashMap NodeId (Conn ℕ)).insert ⟨"a"⟩ ⟨0, true⟩⟩ payloads).request twoNodes nodeA
        payload).1 = .error e :=
    fun payloads payload =>
      (request_ended _ (requests_ended _ rfl rfl payloads) rfl payload).1
  have hans : ∀ h, twoNodes.Answers h := fun h => by
    refine ⟨[], by decide, ?_⟩
    simp only [twoNodes, Sealable, List.length_cons, List.length_nil]
    decide
  refine ⟨_, rfl, rfl, hans, hdead, fun h => ?_⟩
  obtain ⟨payloads, payload, r, hr⟩ := h twoNodes "a:1" 0 rfl rfl hans
  obtain ⟨e, he⟩ := hdead payloads payload
  exact absurd (he.symm.trans hr) (by simp)

end OCF.Fabric

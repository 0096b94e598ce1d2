import OCF.Fabric.Recovery

/-!
# The handshake and who it is completed with

Dialing a node connects to its endpoint and runs the Noise XX handshake as the initiator. The
handshake proves that the responder holds the secret of the static key it presents, and the session
knows this key; but neither the handshake, nor `connect`, nor `request` compares it with the public
key of the node that was asked for. A relay does not compare it with the key of its envelope either.

`responder_authenticated_iff` says when a payload is sealed only to a party that holds the key asked
for: this is decided by who answers at the endpoint, or who did when the cached session was
established.
-/

namespace OCF.Fabric

/-- The Noise library, as the initiator uses it: `HS` is a handshake in progress and `TS` an
established session. -/
structure Noise (HS TS : Type) where
  localPrivateKey : Bytes → Except String Bytes
  buildInitiator : Bytes → Except String HS
  writeMessage : HS → Except String (Bytes × HS)
  readMessage : HS → Bytes → Except String HS
  intoTransportMode : HS → Except String TS
  /-- The static key that the responder presented. -/
  getRemoteStatic : TS → Option Bytes

/-- The sockets: who accepts a connection, and what becomes of the frames on it. What the other side
sends depends on the frames written so far. -/
structure Sockets (H : Type) where
  connect : String → Except String H
  writeFrame : H → List Bytes → Bytes → Result Unit
  readFrame : H → List Bytes → Result Bytes
  handler : H → Bytes → Bytes
  report : String → String

/-- What the library reports, as an error of the transport. -/
def reported {α : Type} (ctx : String) (r : Except String α) : Result α := r.mapError (noiseErr ctx)

variable {H HS TS : Type} (noise : Noise HS TS) (sockets : Sockets H)

/-- The Noise XX handshake on the dialing side. -/
def clientHandshake (localPrivate : Bytes) (host : H) : Result TS := do
  let key ← reported "local_private_key" (noise.localPrivateKey localPrivate)
  let hs ← reported "build_initiator" (noise.buildInitiator key)
  -- `-> e`, `<- e, ee, s, es`, `-> s, se`
  let (first, hs) ← reported "handshake write" (noise.writeMessage hs)
  sockets.writeFrame host [] first
  let answer ← sockets.readFrame host [first]
  let hs ← reported "handshake read" (noise.readMessage hs answer)
  let (last, hs) ← reported "handshake write" (noise.writeMessage hs)
  sockets.writeFrame host [first] last
  reported "into_transport" (noise.intoTransportMode hs)

/-- Connect to an endpoint and run the handshake: who is there, and the session with them. -/
def dialEndpoint (localPrivate : Bytes) (endpoint : String) : Result (H × TS) := do
  let host ← reported ("dial " ++ endpoint) (sockets.connect endpoint)
  let session ← clientHandshake noise sockets localPrivate host
  return (host, session)

/-- The network of a transport that presents the given key. -/
def noiseNetwork (localPrivate : Bytes) : Network (H × TS) where
  dial := dialEndpoint noise sockets localPrivate
  handler peer := sockets.handler peer.1
  report := sockets.report

theorem dialEndpoint_eq_ok {localPrivate : Bytes} {endpoint : String} {host : H} {session : TS} :
    dialEndpoint noise sockets localPrivate endpoint = .ok (host, session) ↔
      sockets.connect endpoint = .ok host ∧
        clientHandshake noise sockets localPrivate host = .ok session := by
  unfold dialEndpoint reported
  cases hc : sockets.connect endpoint with
  | error e => simp [Except.mapError, bind, Except.bind]
  | ok h =>
    cases hs : clientHandshake noise sockets localPrivate h with
    | error e =>
      simp only [Except.mapError, bind, Except.bind, hs, reduceCtorEq, false_iff, not_and]
      rintro hh hok
      obtain rfl := Except.ok.inj hh
      rw [hs] at hok
      contradiction
    | ok ts =>
      simp only [Except.mapError, bind, Except.bind, hs, pure, Except.pure, Except.ok.injEq,
        Prod.mk.injEq]
      constructor
      · rintro ⟨rfl, rfl⟩
        exact ⟨rfl, hs⟩
      · rintro ⟨rfl, hok⟩
        exact ⟨rfl, Except.ok.inj (hs.symm.trans hok)⟩

namespace NoiseTransport

variable {P : Type*}

/-- Whom a request seals its payload to: the peer of the session that `connect` leaves for the
node, unless the payload does not fit a message. -/
def sealedTo (net : Network P) (t : NoiseTransport P) (node : FabricNode) (payload : Bytes) :
    Option P :=
  match t.connect net node with
  | (.error _, _) => none
  | (.ok _, t) => (t.conns.lookup node.nodeId).bind fun conn =>
      if Sealable payload then some conn.peer else none

/-- Whom a relay seals the payload of an envelope to. -/
def forwardedTo (net : Network P) (decode : Bytes → Except String RelayEnvelope)
    (t : NoiseTransport P) (requestBytes : Bytes) : Option P :=
  match decode requestBytes with
  | .error _ => none
  | .ok e =>
    t.sealedTo net (.new ⟨"relayed-target"⟩ e.targetPubkey [e.targetEndpoint]) e.payload

variable {net : Network P} {t : NoiseTransport P} {node : FabricNode} {payload : Bytes}

theorem sealedTo_eq : t.sealedTo net node payload =
    if Sealable payload then t.sessionPeer net node else none := by
  unfold sealedTo sessionPeer connect
  cases hep : node.primaryEndpoint with
  | none => simp
  | some endpoint =>
    dsimp only [Option.bind_some]
    cases hl : t.conns.lookup node.nodeId with
    | some conn =>
      have hmem : node.nodeId ∈ t.conns := HashMap.mem_iff_exists_lookup.2 ⟨conn, hl⟩
      simp [hmem, hl]
    | none =>
      have hmem : node.nodeId ∉ t.conns := AList.lookup_eq_none.1 hl
      cases net.dial endpoint <;> simp [hmem, Except.toOption]

/-- Whoever is given the payload is the one it was sealed to. -/
theorem request_recipient_sealed {peer : P} (h : (t.request net node payload).2.1 = some peer) :
    t.sealedTo net node payload = some peer := by
  have hconn : ∀ conn : Conn P, (conn.exchange net payload).2.1 = some peer →
      Sealable payload ∧ conn.peer = peer := by
    intro conn hx
    by_cases hp : Sealable payload <;> by_cases hr : Sealable (net.handler conn.peer payload) <;>
      cases hc : conn.closed <;> simp [Conn.exchange, hp, hr, hc] at hx
    all_goals exact ⟨hp, hx⟩
  unfold request at h
  unfold sealedTo
  rcases hr : t.connect net node with ⟨_ | _, t'⟩ <;> simp only [hr] at h ⊢
  · contradiction
  · cases hl : t'.conns.lookup node.nodeId with
    | none => simp [hl] at h
    | some conn =>
      rw [hl] at h
      obtain ⟨hp, rfl⟩ := hconn conn h
      simp [hp]

/-- A request succeeds only when the payload was sealed to somebody. -/
theorem request_ok_sealed {r : Bytes} (h : (t.request net node payload).1 = .ok r) :
    ∃ peer, t.sealedTo net node payload = some peer := by
  rw [sealedTo_eq]
  cases hpeer : t.sessionPeer net node with
  | none =>
    obtain ⟨e, he⟩ := request_unreached payload hpeer
    rw [he] at h
    contradiction
  | some peer =>
    obtain ⟨conn, -, -, hres, -⟩ := lookup_request payload hpeer
    by_cases hp : Sealable payload
    · exact ⟨peer, if_pos hp⟩
    · rw [hres] at h
      simp [Conn.exchange, hp] at h

end NoiseTransport

open NoiseTransport

section Authentication

variable (holds : H → Bytes → Prop)

/-- The payload goes only to a holder of the key, and there is no success without one. -/
def Authentic (key : Bytes) (result : Result Bytes) (recipient : Option (H × TS)) : Prop :=
  (∀ peer, recipient = some peer → holds peer.1 key) ∧
    ∀ r, result = .ok r → ∃ peer, recipient = some peer ∧ holds peer.1 key

/-- Whoever can be sealed to holds the node's key: the peer of the cached session, or else any party
that accepts at the node's endpoint and completes the handshake. -/
def AnsweredByHolder (localPrivate : Bytes) (t : NoiseTransport (H × TS)) (node : FabricNode)
    (payload : Bytes) : Prop :=
  ∀ endpoint, node.primaryEndpoint = some endpoint → Sealable payload →
    match t.conns.lookup node.nodeId with
    | some conn => holds conn.peer.1 node.publicKey
    | none => ∀ host session, sockets.connect endpoint = .ok host →
        clientHandshake noise sockets localPrivate host = .ok session → holds host node.publicKey

variable {noise sockets holds}

theorem answeredByHolder_iff {localPrivate : Bytes} {t : NoiseTransport (H × TS)}
    {node : FabricNode} {payload : Bytes} :
    AnsweredByHolder noise sockets holds localPrivate t node payload ↔
      ∀ peer, t.sealedTo (noiseNetwork noise sockets localPrivate) node payload = some peer →
        holds peer.1 node.publicKey := by
  unfold AnsweredByHolder
  rw [sealedTo_eq]
  unfold sessionPeer
  cases hep : node.primaryEndpoint with
  | none => simp
  | some endpoint =>
    simp only [Option.some.injEq, forall_eq', Option.bind_some]
    by_cases hp : Sealable payload
    · rw [if_pos hp]
      simp only [hp, true_imp_iff]
      cases t.conns.lookup node.nodeId with
      | some conn => simp
      | none =>
        dsimp only
        constructor
        · rintro h ⟨host, session⟩ hd
          have hdial : dialEndpoint noise sockets localPrivate endpoint = .ok (host, session) := by
            cases hd' : (noiseNetwork noise sockets localPrivate).dial endpoint with
            | error e => simp [hd', Except.toOption] at hd
            | ok peer =>
              rw [hd'] at hd
              exact hd'.trans (congrArg _ (Option.some.inj hd))
          obtain ⟨hc, hs⟩ := (dialEndpoint_eq_ok noise sockets).1 hdial
          exact h host session hc hs
        · intro h host session hc hs
          refine h (host, session) ?_
          have hdial := (dialEndpoint_eq_ok noise sockets).2 ⟨hc, hs⟩
          rw [show (noiseNetwork noise sockets localPrivate).dial endpoint = _ from hdial]
          rfl
    · simp [hp]

/-- A request is authentic exactly when a holder of the node's key answers, or answered. -/
theorem authentic_request_iff {localPrivate : Bytes} {t : NoiseTransport (H × TS)}
    (node : FabricNode) {payload : Bytes} :
    Authentic holds node.publicKey
        (t.request (noiseNetwork noise sockets localPrivate) node payload).1
        (t.sealedTo (noiseNetwork noise sockets localPrivate) node payload) ↔
      AnsweredByHolder noise sockets holds localPrivate t node payload := by
  rw [answeredByHolder_iff]
  constructor
  · exact And.left
  · intro h
    refine ⟨h, fun r hr => ?_⟩
    obtain ⟨peer, hpeer⟩ := request_ok_sealed hr
    exact ⟨peer, hpeer, h peer hpeer⟩

end Authentication

/-- **Responder authentication.** A request seals its payload only to holders of the node's key, and
succeeds with nobody else, if and only if the peer of the cached session holds this key or, when no
session is cached, any party that accepts at the node's endpoint and completes the handshake does;
unless there is nothing to seal. For an envelope, a relay does the same with respect to the key that
the envelope names, whatever session it keeps. -/
theorem responder_authenticated_iff (noise : Noise HS TS) (sockets : Sockets H)
    (holds : H → Bytes → Prop) (localPrivate : Bytes) (t : NoiseTransport (H × TS))
    (decode : Bytes → Except String RelayEnvelope) :
    (∀ node payload, Authentic holds node.publicKey
        (t.request (noiseNetwork noise sockets localPrivate) node payload).1
        (t.sealedTo (noiseNetwork noise sockets localPrivate) node payload) ↔
      AnsweredByHolder noise sockets holds localPrivate t node payload) ∧
    ∀ bytes e, decode bytes = .ok e → (Authentic holds e.targetPubkey
        (t.forwardRelayed (noiseNetwork noise sockets localPrivate) decode bytes).1
        (t.forwardedTo (noiseNetwork noise sockets localPrivate) decode bytes) ↔
      AnsweredByHolder noise sockets holds localPrivate t
        (.new relayedTarget e.targetPubkey [e.targetEndpoint]) e.payload) := by
  refine ⟨fun node payload => authentic_request_iff node, fun bytes e hdec => ?_⟩
  rw [forwardRelayed, forwardedTo, hdec]
  exact authentic_request_iff (.new relayedTarget e.targetPubkey [e.targetEndpoint])

/-! ## An impostor -/

/-- The static key of a party. -/
def keyOf (party : ℕ) : Bytes := List.replicate 32 (UInt8.ofNat party)

/-- A handshake in which the responder presents its static key, which the initiator learns. -/
def presentingNoise : Noise (Option Bytes) (Option Bytes) where
  localPrivateKey key := .ok key
  buildInitiator _ := .ok none
  writeMessage hs := .ok ([], hs)
  readMessage _ msg := .ok (some msg)
  intoTransportMode hs := .ok hs
  getRemoteStatic ts := ts

/-- Every endpoint is answered by one party, which presents its own key and echoes. -/
def answeredBy (party : ℕ) : Sockets ℕ where
  connect _ := .ok party
  writeFrame _ _ _ := .ok ()
  readFrame h _ := .ok (keyOf h)
  handler _ p := p
  report e := e

/-- The node whose key is that of party `1`. -/
def nodeOne : FabricNode := .new ⟨"one"⟩ (keyOf 1) ["a:1"]

/-- An envelope for this node, whatever the bytes are. -/
def decodeForOne (_ : Bytes) : Except String RelayEnvelope := .ok ⟨"a:1", keyOf 1, [7]⟩

/-- The node itself answers, so both requests are authentic. -/
theorem responder_authenticated_iff_owner :
    Authentic (fun h k => k = keyOf h) nodeOne.publicKey
        (NoiseTransport.new.request (noiseNetwork presentingNoise (answeredBy 1) []) nodeOne [7]).1
        (NoiseTransport.new.sealedTo (noiseNetwork presentingNoise (answeredBy 1) []) nodeOne [7]) ∧
      Authentic (fun h k => k = keyOf h) (keyOf 1)
        (NoiseTransport.new.forwardRelayed (noiseNetwork presentingNoise (answeredBy 1) [])
          decodeForOne []).1
        (NoiseTransport.new.forwardedTo (noiseNetwork presentingNoise (answeredBy 1) [])
          decodeForOne []) := by
  have h := responder_authenticated_iff presentingNoise (answeredBy 1) (fun h k => k = keyOf h) []
    .new decodeForOne
  refine ⟨(h.1 nodeOne [7]).2 ?_, (h.2 [] ⟨"a:1", keyOf 1, [7]⟩ rfl).2 ?_⟩
  · intro endpoint _ _ host session hc _
    rw [← Except.ok.inj hc]
    rfl
  · intro endpoint _ _ host session hc _
    rw [← Except.ok.inj hc]
    rfl

/-- Party `2` answers at the node's endpoint. It presents its own key, which it holds, and not the
node's; the request succeeds and its payload is sealed to this party, and so it is with an envelope
that names the node's key. -/
theorem impostor_is_given_payload :
    nodeOne.publicKey.length = 32 ∧
      (∀ host session key, clientHandshake presentingNoise (answeredBy 2) [] host = .ok session →
        presentingNoise.getRemoteStatic session = some key → key = keyOf host) ∧
      nodeOne.publicKey ≠ keyOf 2 ∧
      (NoiseTransport.new.request (noiseNetwork presentingNoise (answeredBy 2) []) nodeOne
        [7]).1 = .ok [7] ∧
      NoiseTransport.new.sealedTo (noiseNetwork presentingNoise (answeredBy 2) []) nodeOne [7] =
        some (2, some (keyOf 2)) ∧
      (NoiseTransport.new.forwardRelayed (noiseNetwork presentingNoise (answeredBy 2) [])
        decodeForOne []).1 = .ok [7] ∧
      NoiseTransport.new.forwardedTo (noiseNetwork presentingNoise (answeredBy 2) [])
        decodeForOne [] = some (2, some (keyOf 2)) := by
  refine ⟨rfl, fun host session key hs hk => ?_, by decide, rfl, rfl, rfl, rfl⟩
  have hsession : some (keyOf host) = session := Except.ok.inj hs
  rw [← hsession] at hk
  exact (Option.some.inj hk).symm

end OCF.Fabric

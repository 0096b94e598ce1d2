import OCF.Fabric.Node
import OCF.Foundations.Run

/-!
# Requests on a cached session

One connection to a peer: the client's calls of `request` share it under a lock, the peer serves it
with a loop that opens a request, runs the handler and seals the reply. Both sides number the frames
they seal, and a frame opens only under the number that its reader expects next.

A call can be dropped wherever it waits. What it leaves behind depends on the place: a number that
no frame will bear, a frame of which only a part was written, one of which only a part was read, or
a whole request whose reply nobody waits for. The first three break the session (`Gone`): every
later call fails. The last does not, and the next call is given the reply of the dropped one.
`DropGuard` excludes it, and `replies_match` is the result for every run under it.

Frames are symbolic: a sealed frame is its number and its payload, and what is left of a frame in
part (`torn`) never opens, nor does whatever a reader takes in from there on.
-/

namespace OCF.Fabric

/-! ## The wire -/

/-- Largest single Noise message. -/
def maxNoiseMsg : ℕ := 65535

/-- What sealing adds to a payload. -/
def tagLen : ℕ := 16

/-- The payload fits a message. -/
def Sealable (payload : Bytes) : Prop := payload.length + tagLen ≤ maxNoiseMsg

instance (payload : Bytes) : Decidable (Sealable payload) :=
  inferInstanceAs (Decidable (_ ≤ _))

/-- An error of the transport, with what the library reports. -/
def noiseErr (ctx e : String) : Error := .provider "noise" (ctx ++ ": " ++ e)

/-- What stands on the wire. -/
inductive WireItem
  | sealed (nonce : ℕ) (payload : Bytes)
  /-- The bytes of a frame of which a part is missing. -/
  | torn
  deriving DecidableEq

/-! ## The two sides -/

/-- Where the call that holds the session is. -/
inductive ActivePhase
  /-- Its request is sealed and not completely written; `started` when a part is. -/
  | writing (started : Bool)
  /-- Its request is written, and nothing of a reply is read. -/
  | waiting
  /-- A part of the item is read. -/
  | reading (item : WireItem)
  deriving DecidableEq

/-- The call that holds the session. -/
structure Active where
  call : ℕ
  payload : Bytes
  phase : ActivePhase
  deriving DecidableEq

/-- How far a call has come. -/
inductive CallState
  | queued (payload : Bytes)
  | exchanging (payload : Bytes)
  | returned (payload : Bytes) (result : Result Bytes)
  | dropped (payload : Bytes)

/-- Where the peer's loop is. -/
inductive PeerPhase
  | reading
  | handling (request : Bytes)
  | closed
  deriving DecidableEq

/-- A connection with the calls on it and the peer that serves it. -/
structure Session where
  sendNonce : ℕ
  recvNonce : ℕ
  active : Option Active
  calls : HashMap ℕ CallState
  toPeer : List WireItem
  toClient : List WireItem
  peer : PeerPhase
  peerSend : ℕ
  peerRecv : ℕ

/-- What can happen next. -/
inductive SessionAction
  /-- A call is issued; it is on its way to the session's lock. -/
  | request (c : ℕ) (payload : Bytes)
  /-- The call gets the lock and seals its payload; `e` is the library's message if it fails. -/
  | acquire (c : ℕ) (e : String)
  | writePart
  | writeAll
  | readPart
  /-- The rest of an item is read and opened. A reader that starts within a frame takes in `skip` of
  the items behind it, and `cut` when it ends within one. -/
  | readAll (skip : ℕ) (cut : Bool) (e : String)
  /-- Writing or reading fails. -/
  | fail (ctx e : String)
  | drop (c : ℕ)
  | peerRead
  | peerReply
  /-- The connection breaks; `keep` items still reach the client. -/
  | reset (keep : ℕ)

namespace Session

/-- A session right after the handshake. -/
def established : Session := ⟨0, 0, none, ∅, [], [], .reading, 0, 0⟩

/-- The call that holds the session returns and gives it free. -/
def finish (s : Session) (a : Active) (r : Result Bytes) : Session :=
  { s with active := none, calls := s.calls.insert a.call (.returned a.payload r) }

/-- Bytes for the peer, which get nowhere when it has closed. -/
def push (s : Session) (item : WireItem) : Session :=
  if s.peer = .closed then s else { s with toPeer := s.toPeer ++ [item] }

/-- The peer ends the connection. -/
def close (s : Session) : Session := { s with peer := .closed, toPeer := [] }

/-- What a call leaves on the wire when it stops. -/
def leave (s : Session) : ActivePhase → Session
  | .writing true => s.push .torn
  | .writing false => s
  | .waiting => s
  | .reading _ => { s with toClient := .torn :: s.toClient }

/-- Open what was read: the frame with the expected number, and nothing else. -/
def recvOpened (s : Session) (a : Active) (skip : ℕ) (cut : Bool) (e : String) :
    WireItem → Session
  | .sealed n r =>
    if n = s.recvNonce then { s with recvNonce := s.recvNonce + 1 }.finish a (.ok r)
    else s.finish a (.error (noiseErr "open" e))
  | .torn =>
    let rest := s.toClient.drop skip
    { s with toClient := if cut then .torn :: rest else rest }.finish a
      (.error (noiseErr "open" e))

variable (handler : Bytes → Bytes)

/-- One action. -/
def step (s : Session) : SessionAction → Option Session
  | .request c p =>
    if c ∈ s.calls then none else some { s with calls := s.calls.insert c (.queued p) }
  | .acquire c e =>
    match s.active, s.calls.lookup c with
    | none, some (.queued p) =>
      if Sealable p then
        some { s with
          sendNonce := s.sendNonce + 1
          active := some ⟨c, p, .writing false⟩
          calls := s.calls.insert c (.exchanging p) }
      else some { s with calls := s.calls.insert c (.returned p (.error (noiseErr "seal" e))) }
    | _, _ => none
  | .writePart =>
    match s.active with
    | some ⟨c, p, .writing _⟩ => some { s with active := some ⟨c, p, .writing true⟩ }
    | _ => none
  | .writeAll =>
    match s.active with
    | some ⟨c, p, .writing _⟩ =>
      some ({ s with active := some ⟨c, p, .waiting⟩ }.push (.sealed (s.sendNonce - 1) p))
    | _ => none
  | .readPart =>
    match s.active, s.toClient with
    | some ⟨c, p, .waiting⟩, item :: rest =>
      some { s with active := some ⟨c, p, .reading item⟩, toClient := rest }
    | _, _ => none
  | .readAll skip cut e =>
    match s.active, s.toClient with
    | some ⟨c, p, .waiting⟩, item :: rest =>
      some ({ s with toClient := rest }.recvOpened ⟨c, p, .waiting⟩ skip cut e item)
    | some ⟨c, p, .reading item⟩, _ => some (s.recvOpened ⟨c, p, .reading item⟩ skip cut e item)
    | _, _ => none
  | .fail ctx e =>
    match s.active with
    | some ⟨c, p, .writing b⟩ =>
      some ((s.leave (.writing b)).finish ⟨c, p, .writing b⟩ (.error (noiseErr ctx e)))
    | some a =>
      -- a read fails only at the end of what a closed connection delivers
      if s.peer = .closed ∧ s.toClient = [] then
        some ((s.leave a.phase).finish a (.error (noiseErr ctx e)))
      else none
    | none => none
  | .drop c =>
    match s.calls.lookup c, s.active with
    | some (.queued p), _ => some { s with calls := s.calls.insert c (.dropped p) }
    | some (.exchanging p), some a =>
      if a.call = c then
        some { s.leave a.phase with active := none, calls := s.calls.insert c (.dropped p) }
      else none
    | _, _ => none
  | .peerRead =>
    match s.peer, s.toPeer with
    | .reading, .sealed n p :: rest =>
      if n = s.peerRecv then
        some { s with peer := .handling p, peerRecv := s.peerRecv + 1, toPeer := rest }
      else some s.close
    | .reading, .torn :: _ => some s.close
    | _, _ => none
  | .peerReply =>
    match s.peer with
    | .handling p =>
      if Sealable (handler p) then
        some { s with
          peer := .reading
          toClient := s.toClient ++ [.sealed s.peerSend (handler p)]
          peerSend := s.peerSend + 1 }
      else some s.close
    | _ => none
  | .reset keep => some { s.close with toClient := s.toClient.take keep }

/-! ## What each action does -/

variable {handler} {s s' : Session}

theorem request_cases {c : ℕ} {p : Bytes} (h : s.step handler (.request c p) = some s') :
    s' = { s with calls := s.calls.insert c (.queued p) } := by
  simp only [step] at h
  split_ifs at h
  exact (Option.some.inj h).symm

/-- A queued call takes the free session, or its request cannot be sealed. -/
theorem acquire_cases {c : ℕ} {e : String} (h : s.step handler (.acquire c e) = some s') :
    ∃ p, s.active = none ∧ s.calls.lookup c = some (.queued p) ∧
      (s' = { s with
          sendNonce := s.sendNonce + 1
          active := some ⟨c, p, .writing false⟩
          calls := s.calls.insert c (.exchanging p) } ∨
        s' = { s with calls := s.calls.insert c (.returned p (.error (noiseErr "seal" e))) }) := by
  simp only [step] at h
  split at h
  · next p ha hq =>
    split_ifs at h
    · exact ⟨p, ha, hq, .inl (Option.some.inj h).symm⟩
    · exact ⟨p, ha, hq, .inr (Option.some.inj h).symm⟩
  · cases h

theorem writePart_cases (h : s.step handler .writePart = some s') :
    ∃ c p b, s.active = some ⟨c, p, .writing b⟩ ∧
      s' = { s with active := some ⟨c, p, .writing true⟩ } := by
  simp only [step] at h
  split at h
  · next c p b ha => exact ⟨c, p, b, ha, (Option.some.inj h).symm⟩
  · cases h

theorem writeAll_cases (h : s.step handler .writeAll = some s') :
    ∃ c p b, s.active = some ⟨c, p, .writing b⟩ ∧
      s' = { s with active := some ⟨c, p, .waiting⟩ }.push (.sealed (s.sendNonce - 1) p) := by
  simp only [step] at h
  split at h
  · next c p b ha => exact ⟨c, p, b, ha, (Option.some.inj h).symm⟩
  · cases h

theorem readPart_cases (h : s.step handler .readPart = some s') :
    ∃ c p item rest, s.active = some ⟨c, p, .waiting⟩ ∧ s.toClient = item :: rest ∧
      s' = { s with active := some ⟨c, p, .reading item⟩, toClient := rest } := by
  simp only [step] at h
  split at h
  · next c p item rest ha hc => exact ⟨c, p, item, rest, ha, hc, (Option.some.inj h).symm⟩
  · cases h

/-- What is opened is the head of the wire or the item of which a part was read. -/
theorem readAll_cases {skip : ℕ} {cut : Bool} {e : String}
    (h : s.step handler (.readAll skip cut e) = some s') :
    (∃ c p item rest, s.active = some ⟨c, p, .waiting⟩ ∧ s.toClient = item :: rest ∧
      s' = { s with toClient := rest }.recvOpened ⟨c, p, .waiting⟩ skip cut e item) ∨
    ∃ c p item, s.active = some ⟨c, p, .reading item⟩ ∧
      s' = s.recvOpened ⟨c, p, .reading item⟩ skip cut e item := by
  simp only [step] at h
  split at h
  · next c p item rest ha hc =>
    exact .inl ⟨c, p, item, rest, ha, hc, (Option.some.inj h).symm⟩
  · next ha => exact .inr ⟨_, _, _, ha, (Option.some.inj h).symm⟩
  · cases h

/-- A write can fail at any time, a read only at the end of what a closed connection delivers. -/
theorem fail_cases {ctx e : String} (h : s.step handler (.fail ctx e) = some s') :
    ∃ a, s.active = some a ∧
      ((∃ b, a.phase = .writing b) ∨ s.peer = .closed ∧ s.toClient = []) ∧
      s' = (s.leave a.phase).finish a (.error (noiseErr ctx e)) := by
  simp only [step] at h
  split at h
  · next c p b ha => exact ⟨_, ha, .inl ⟨b, rfl⟩, (Option.some.inj h).symm⟩
  · next a _ ha =>
    split_ifs at h with hend
    exact ⟨a, ha, .inr hend, (Option.some.inj h).symm⟩
  · cases h

/-- Dropping a call removes it from the queue, or it stops the one that holds the session. -/
theorem drop_cases {c : ℕ} (h : s.step handler (.drop c) = some s') :
    (∃ p, s' = { s with calls := s.calls.insert c (.dropped p) }) ∨
      ∃ a p, s.active = some a ∧ a.call = c ∧
        s' = { s.leave a.phase with active := none, calls := s.calls.insert c (.dropped p) } := by
  simp only [step] at h
  split at h
  · exact .inl ⟨_, (Option.some.inj h).symm⟩
  · next p a _ ha =>
    split_ifs at h with hc
    exact .inr ⟨a, p, ha, hc, (Option.some.inj h).symm⟩
  · cases h

/-- The peer opens the next request, or closes when there is another one at the head. -/
theorem peerRead_cases (h : s.step handler .peerRead = some s') :
    (∃ p rest, s.peer = .reading ∧ s.toPeer = .sealed s.peerRecv p :: rest ∧
      s' = { s with peer := .handling p, peerRecv := s.peerRecv + 1, toPeer := rest }) ∨
    s' = s.close := by
  simp only [step] at h
  split at h
  · next n p rest hp ht =>
    split_ifs at h with hn
    · exact .inl ⟨p, rest, hp, hn ▸ ht, (Option.some.inj h).symm⟩
    · exact .inr (Option.some.inj h).symm
  · exact .inr (Option.some.inj h).symm
  · cases h

theorem peerReply_cases (h : s.step handler .peerReply = some s') :
    ∃ p, s.peer = .handling p ∧
      (s' = { s with
          peer := .reading
          toClient := s.toClient ++ [.sealed s.peerSend (handler p)]
          peerSend := s.peerSend + 1 } ∨
        s' = s.close) := by
  simp only [step] at h
  split at h
  · next p hp =>
    split_ifs at h
    · exact ⟨p, hp, .inl (Option.some.inj h).symm⟩
    · exact ⟨p, hp, .inr (Option.some.inj h).symm⟩
  · cases h

/-! ## What a step does -/

/-- The exchange with the number is under way: as a request, in the handler, as a reply, or as a
reply of which a part is read. -/
inductive InFlight (s : Session) : ℕ → Prop
  | toPeer {k : ℕ} {p : Bytes} (h : .sealed k p ∈ s.toPeer) : InFlight s k
  | handling {p : Bytes} (h : s.peer = .handling p) : InFlight s s.peerSend
  | toClient {k : ℕ} {r : Bytes} (h : .sealed k r ∈ s.toClient) : InFlight s k
  | reading {c k : ℕ} {p r : Bytes} (h : s.active = some ⟨c, p, .reading (.sealed k r)⟩) :
    InFlight s k

/-- The call that holds the session has not written its whole request. -/
def Writing (s : Session) : Prop := ∃ c p b, s.active = some ⟨c, p, .writing b⟩

/-- What every step keeps to: the only new exchange is the one that is written, frames are numbered
upwards, a closed peer stays closed, and a call returns a reply only by opening the next one. -/
structure Effect (s s' : Session) : Prop where
  inFlight : ∀ k, s'.InFlight k →
    s.InFlight k ∨ s.peer ≠ .closed ∧ s.Writing ∧ k = s.sendNonce - 1
  recvNonce : s'.recvNonce = s.recvNonce ∨ s.InFlight s.recvNonce
  sendNonce : s.sendNonce ≤ s'.sendNonce
  writing : s'.Writing → s'.sendNonce = s.sendNonce ∧ s.Writing ∨ s'.sendNonce = s.sendNonce + 1
  closed : s.peer = .closed → s'.peer = .closed
  returned : ∀ c p r, s'.calls.lookup c = some (.returned p (.ok r)) →
    s.calls.lookup c = some (.returned p (.ok r)) ∨ ∃ ph, s.active = some ⟨c, p, ph⟩ ∧
      s.InFlight s.recvNonce ∧
        (ph = .reading (.sealed s.recvNonce r) ∨
          ph = .waiting ∧ s.toClient.head? = some (.sealed s.recvNonce r))

/-- Flights of a step that starts none. -/
theorem InFlight.mono {k : ℕ} (h : s'.InFlight k)
    (hp : ∀ p, .sealed k p ∈ s'.toPeer → s.InFlight k)
    (hh : ∀ p, s'.peer = .handling p → s.peer = .handling p ∧ s'.peerSend = s.peerSend)
    (hc : ∀ r, .sealed k r ∈ s'.toClient → s.InFlight k)
    (ha : ∀ c p r, s'.active = some ⟨c, p, .reading (.sealed k r)⟩ → s.InFlight k) :
    s.InFlight k := by
  cases h with
  | toPeer h => exact hp _ h
  | handling h =>
    obtain ⟨h, hs⟩ := hh _ h
    rw [hs]
    exact .handling h
  | toClient h => exact hc _ h
  | reading h => exact ha _ _ _ h

/-- A call that does not return a reply adds none. -/
theorem returned_insert {calls : HashMap ℕ CallState} {c c' : ℕ} {p : Bytes} {r : Bytes}
    {st : CallState} (hst : ∀ p r, st ≠ .returned p (.ok r))
    (h : (calls.insert c st).lookup c' = some (.returned p (.ok r))) :
    calls.lookup c' = some (.returned p (.ok r)) := by
  rw [HashMap.lookup_insert_eq] at h
  split_ifs at h
  · exact absurd (Option.some.inj h) (hst p r)
  · exact h

theorem mem_toPeer_push {item x : WireItem} (h : x ∈ (s.push item).toPeer) :
    x ∈ s.toPeer ∨ s.peer ≠ .closed ∧ x = item := by
  unfold push at h
  split_ifs at h with hc
  · exact .inl h
  · obtain h | h := List.mem_append.1 h
    · exact .inl h
    · exact .inr ⟨hc, List.mem_singleton.1 h⟩

theorem push_frame (item : WireItem) :
    (s.push item).sendNonce = s.sendNonce ∧ (s.push item).recvNonce = s.recvNonce ∧
      (s.push item).active = s.active ∧ (s.push item).calls = s.calls ∧
      (s.push item).toClient = s.toClient ∧ (s.push item).peer = s.peer ∧
      (s.push item).peerSend = s.peerSend ∧ (s.push item).peerRecv = s.peerRecv := by
  unfold push
  split_ifs <;> exact ⟨rfl, rfl, rfl, rfl, rfl, rfl, rfl, rfl⟩

/-- What a call leaves behind is in pieces; the rest of the session stays. -/
theorem leave_frame (ph : ActivePhase) :
    (∀ n p, .sealed n p ∈ (s.leave ph).toPeer → .sealed n p ∈ s.toPeer) ∧
      (∀ n p, .sealed n p ∈ (s.leave ph).toClient → .sealed n p ∈ s.toClient) ∧
      (s.leave ph).sendNonce = s.sendNonce ∧ (s.leave ph).recvNonce = s.recvNonce ∧
      (s.leave ph).calls = s.calls ∧ (s.leave ph).peer = s.peer ∧
      (s.leave ph).peerSend = s.peerSend ∧ (s.leave ph).peerRecv = s.peerRecv := by
  unfold leave
  split
  · obtain ⟨h₁, h₂, -, h₄, h₅, h₆⟩ := s.push_frame .torn
    refine ⟨fun n p h => ?_, fun n p h => h₅ ▸ h, h₁, h₂, h₄, h₆⟩
    obtain h | ⟨-, h⟩ := mem_toPeer_push h
    · exact h
    · cases h
  · exact ⟨fun n p h => h, fun n p h => h, rfl, rfl, rfl, rfl, rfl, rfl⟩
  · exact ⟨fun n p h => h, fun n p h => h, rfl, rfl, rfl, rfl, rfl, rfl⟩
  · refine ⟨fun n p h => h, fun n p h => ?_, rfl, rfl, rfl, rfl, rfl, rfl⟩
    obtain h | h := List.mem_cons.1 h
    · cases h
    · exact h

/-- A call stops without a reply and gives the session free. -/
theorem effect_stop (a : Active) (st : CallState) (hst : ∀ p r, st ≠ .returned p (.ok r)) :
    Effect s { s.leave a.phase with active := none, calls := s.calls.insert a.call st } := by
  obtain ⟨hp, hc, hs, hr, -, hpeer, hps, -⟩ := s.leave_frame a.phase
  refine ⟨fun k h => .inl ?_, .inl hr, Nat.le_of_eq hs.symm, ?_, fun h => hpeer.trans h, ?_⟩
  · refine h.mono (fun p hm => .toPeer (hp k p hm)) (fun p hm => ⟨hpeer ▸ hm, hps⟩)
      (fun r hm => .toClient (hc k r hm)) (fun _ _ _ hm => by cases hm)
  · rintro ⟨_, _, _, h⟩
    cases h
  · exact fun c p r h => .inl (returned_insert hst h)

/-- Flights when a call has given the session free. -/
theorem InFlight.of_released {k : ℕ} (h : s'.InFlight k) (ha : s'.active = none)
    (hp : s'.toPeer = s.toPeer) (hpeer : s'.peer = s.peer) (hps : s'.peerSend = s.peerSend)
    (hc : ∀ n r, .sealed n r ∈ s'.toClient → .sealed n r ∈ s.toClient) : s.InFlight k :=
  h.mono (fun _ hm => .toPeer (hp ▸ hm)) (fun _ hm => ⟨hpeer ▸ hm, hps⟩)
    (fun r hm => .toClient (hc k r hm)) (fun _ _ _ hm => by simp [ha] at hm)

theorem not_writing_of_released (ha : s.active = none) : ¬s.Writing := by
  rintro ⟨_, _, _, h⟩
  simp [ha] at h

/-- A call opens the item it has read, from its own hands or from the head of the wire. -/
theorem effect_recvOpened {rest : List WireItem} {c : ℕ} {p : Bytes} {ph : ActivePhase}
    {item : WireItem} (skip : ℕ) (cut : Bool) (e : String) (hact : s.active = some ⟨c, p, ph⟩)
    (hrest : ∀ x ∈ rest, x ∈ s.toClient)
    (hitem : ph = .reading item ∨ ph = .waiting ∧ s.toClient.head? = some item) :
    Effect s ({ s with toClient := rest }.recvOpened ⟨c, p, ph⟩ skip cut e item) := by
  cases item with
  | sealed n r =>
    have hin : s.InFlight n := by
      obtain rfl | ⟨rfl, hh⟩ := hitem
      · exact .reading hact
      · exact .toClient (List.mem_of_mem_head? hh)
    simp only [recvOpened]
    split_ifs with hn
    · subst hn
      refine ⟨fun k h => .inl (h.of_released rfl rfl rfl rfl fun n r h => hrest _ h), .inr hin,
        le_rfl, fun h => absurd h (not_writing_of_released rfl), fun h => h, fun c' p' r' h => ?_⟩
      simp only [finish] at h
      rw [HashMap.lookup_insert_eq] at h
      split_ifs at h with hc
      · obtain ⟨rfl, hr⟩ := CallState.returned.inj (Option.some.inj h)
        obtain rfl := Except.ok.inj hr
        exact .inr ⟨ph, hc ▸ hact, hin, hitem⟩
      · exact .inl h
    · exact ⟨fun k h => .inl (h.of_released rfl rfl rfl rfl fun n r h => hrest _ h), .inl rfl,
        le_rfl, fun h => absurd h (not_writing_of_released rfl), fun h => h,
        fun c' p' r' h => .inl (returned_insert (by simp) h)⟩
  | torn =>
    simp only [recvOpened]
    refine ⟨fun k h => .inl (h.of_released rfl rfl rfl rfl fun n r h => ?_), .inl rfl, le_rfl,
      fun h => absurd h (not_writing_of_released rfl), fun h => h,
      fun c' p' r' h => .inl (returned_insert (by simp) h)⟩
    simp only [finish] at h
    split_ifs at h
    · obtain h | h := List.mem_cons.1 h
      · cases h
      · exact hrest _ (List.mem_of_mem_drop h)
    · exact hrest _ (List.mem_of_mem_drop h)

theorem effect_close : Effect s s.close where
  inFlight _ h := .inl (h.mono (fun _ hm => by cases hm) (fun _ hm => by cases hm)
    (fun _ hm => .toClient hm) fun _ _ _ hm => .reading hm)
  recvNonce := .inl rfl
  sendNonce := le_rfl
  writing h := .inl ⟨rfl, h⟩
  closed _ := rfl
  returned _ _ _ h := .inl h

/-- A step that touches the calls only, and returns no reply. -/
theorem effect_calls {c : ℕ} {st : CallState} (hst : ∀ p r, st ≠ .returned p (.ok r)) :
    Effect s { s with calls := s.calls.insert c st } where
  inFlight _ h := .inl (h.mono (fun _ hm => .toPeer hm) (fun _ hm => ⟨hm, rfl⟩)
    (fun _ hm => .toClient hm) fun _ _ _ hm => .reading hm)
  recvNonce := .inl rfl
  sendNonce := le_rfl
  writing h := .inl ⟨rfl, h⟩
  closed h := h
  returned _ _ _ h := .inl (returned_insert hst h)

/-- The peer has opened as many requests as it has sealed replies, and one more while the handler
runs. -/
def Aligned (s : Session) : Prop :=
  match s.peer with
  | .reading => s.peerSend = s.peerRecv
  | .handling _ => s.peerRecv = s.peerSend + 1
  | .closed => True

/-- A call takes the session and uses up the next number. -/
theorem effect_acquire (c : ℕ) (p : Bytes) :
    Effect s { s with
      sendNonce := s.sendNonce + 1
      active := some ⟨c, p, .writing false⟩
      calls := s.calls.insert c (.exchanging p) } := by
  refine ⟨fun k h => .inl ?_, .inl rfl, Nat.le_succ _, fun _ => .inr rfl, fun h => h,
    fun c' p' r' h => .inl (returned_insert (by simp) h)⟩
  exact h.mono (fun _ hm => .toPeer hm) (fun _ hm => ⟨hm, rfl⟩) (fun _ hm => .toClient hm)
    (fun _ _ _ hm => by cases hm)

/-- The whole request is written: the one step that starts an exchange. -/
theorem effect_writeAll {c : ℕ} {p : Bytes} {b : Bool}
    (ha : s.active = some ⟨c, p, .writing b⟩) :
    Effect s ({ s with active := some ⟨c, p, .waiting⟩ }.push (.sealed (s.sendNonce - 1) p)) := by
  obtain ⟨h₁, h₂, h₃, h₄, h₅, h₆, h₇, -⟩ :=
    push_frame (s := { s with active := some ⟨c, p, .waiting⟩ }) (.sealed (s.sendNonce - 1) p)
  refine ⟨fun k h => ?_, .inl h₂, Nat.le_of_eq h₁.symm, ?_, fun h => h₆.trans h,
    fun _ _ _ h => .inl (h₄ ▸ h)⟩
  · by_cases hk : s.peer ≠ .closed ∧ k = s.sendNonce - 1
    · exact .inr ⟨hk.1, ⟨c, p, b, ha⟩, hk.2⟩
    · refine .inl (h.mono (fun q hm => ?_) (fun _ hm => ⟨h₆ ▸ hm, h₇⟩)
        (fun _ hm => .toClient (h₅ ▸ hm)) (fun _ _ _ hm => by rw [h₃] at hm; cases hm))
      obtain hm | ⟨hne, hm⟩ := mem_toPeer_push hm
      · exact .toPeer hm
      · exact absurd ⟨hne, (WireItem.sealed.inj hm).1⟩ hk
  · rintro ⟨_, _, _, hw⟩
    rw [h₃] at hw
    cases hw

/-- A part of what is at the head of the wire is taken from it. -/
theorem effect_readPart {c : ℕ} {p : Bytes} {item : WireItem} {rest : List WireItem}
    (hc : s.toClient = item :: rest) :
    Effect s { s with active := some ⟨c, p, .reading item⟩, toClient := rest } := by
  refine ⟨fun k h => .inl ?_, .inl rfl, le_rfl, ?_, fun h => h, fun _ _ _ h => .inl h⟩
  · refine h.mono (fun _ hm => .toPeer hm) (fun _ hm => ⟨hm, rfl⟩) (fun r hm => ?_)
      (fun c' p' r hm => ?_)
    · exact .toClient (r := r) (hc ▸ List.mem_cons_of_mem _ hm)
    · cases hm
      exact .toClient (r := r) (hc ▸ List.mem_cons_self ..)
  · rintro ⟨_, _, _, hw⟩
    cases hw

/-- The peer opens the next request. As many are answered as are opened, so that the number of the
reply is the number of the request. -/
theorem effect_peerRead {p : Bytes} {rest : List WireItem} (hal : s.Aligned)
    (hp : s.peer = .reading) (ht : s.toPeer = .sealed s.peerRecv p :: rest) :
    Effect s { s with peer := .handling p, peerRecv := s.peerRecv + 1, toPeer := rest } := by
  have hsend : s.peerSend = s.peerRecv := by simpa [Aligned, hp] using hal
  have hflight : s.InFlight s.peerSend :=
    .toPeer (p := p) (by rw [hsend, ht]; exact List.mem_cons_self ..)
  refine ⟨fun k h => .inl ?_, .inl rfl, le_rfl, fun h => .inl ⟨rfl, h⟩, ?_,
    fun _ _ _ h => .inl h⟩
  · cases h with
    | toPeer hm => exact .toPeer (by rw [ht]; exact List.mem_cons_of_mem _ hm)
    | handling _ => exact hflight
    | toClient hm => exact .toClient hm
    | reading hm => exact .reading hm
  · intro hcl
    rw [hp] at hcl
    cases hcl

/-- The peer replies to the request in its hands. -/
theorem effect_peerReply {p : Bytes} (r : Bytes) (hp : s.peer = .handling p) :
    Effect s { s with
      peer := .reading
      toClient := s.toClient ++ [.sealed s.peerSend r]
      peerSend := s.peerSend + 1 } := by
  refine ⟨fun k h => .inl ?_, .inl rfl, le_rfl, fun h => .inl ⟨rfl, h⟩, ?_,
    fun _ _ _ h => .inl h⟩
  · refine h.mono (fun _ hm => .toPeer hm) (fun _ hm => by cases hm) (fun r hm => ?_)
      (fun _ _ _ hm => .reading hm)
    obtain hm | hm := List.mem_append.1 hm
    · exact .toClient hm
    · obtain ⟨rfl, -⟩ := WireItem.sealed.inj (List.mem_singleton.1 hm)
      exact .handling hp
  · intro hcl
    rw [hp] at hcl
    cases hcl

theorem effect_writePart {c : ℕ} {p : Bytes} {b : Bool} (ha : s.active = some ⟨c, p, .writing b⟩) :
    Effect s { s with active := some ⟨c, p, .writing true⟩ } := by
  refine ⟨fun k h => .inl ?_, .inl rfl, le_rfl, fun _ => .inl ⟨rfl, c, p, b, ha⟩, fun h => h,
    fun _ _ _ h => .inl h⟩
  exact h.mono (fun _ hm => .toPeer hm) (fun _ hm => ⟨hm, rfl⟩) (fun _ hm => .toClient hm)
    (fun _ _ _ hm => by cases hm)

/-- The connection is cut: what is on its way to the peer is lost. -/
theorem effect_reset (keep : ℕ) : Effect s { s.close with toClient := s.toClient.take keep } := by
  refine ⟨fun k h => .inl ?_, .inl rfl, le_rfl, fun h => .inl ⟨rfl, h⟩, fun _ => rfl,
    fun _ _ _ h => .inl h⟩
  exact h.mono (fun _ hm => by cases hm) (fun _ hm => by cases hm)
    (fun _ hm => .toClient (List.mem_of_mem_take hm)) fun _ _ _ hm => .reading hm

/-- **Every step** keeps to `Effect`. -/
theorem effect_step (hal : s.Aligned) {a : SessionAction} (h : s.step handler a = some s') :
    Effect s s' := by
  cases a with
  | request c p =>
    rw [request_cases h]
    exact effect_calls (by simp)
  | acquire c e =>
    obtain ⟨p, -, -, rfl | rfl⟩ := acquire_cases h
    · exact effect_acquire c p
    · exact effect_calls (by simp)
  | writePart =>
    obtain ⟨c, p, b, ha, rfl⟩ := writePart_cases h
    exact effect_writePart ha
  | writeAll =>
    obtain ⟨c, p, b, ha, rfl⟩ := writeAll_cases h
    exact effect_writeAll ha
  | readPart =>
    obtain ⟨c, p, item, rest, -, hc, rfl⟩ := readPart_cases h
    exact effect_readPart hc
  | readAll skip cut e =>
    obtain ⟨c, p, item, rest, ha, hc, rfl⟩ | ⟨c, p, item, ha, rfl⟩ := readAll_cases h
    · exact effect_recvOpened skip cut e ha (fun x hx => hc ▸ List.mem_cons_of_mem _ hx)
        (.inr ⟨rfl, by rw [hc]; rfl⟩)
    · exact effect_recvOpened skip cut e ha (fun x hx => hx) (.inl rfl)
  | fail ctx e =>
    obtain ⟨a, -, -, rfl⟩ := fail_cases h
    have hstop := effect_stop (s := s) a (.returned a.payload (.error (noiseErr ctx e))) (by simp)
    rwa [← (s.leave_frame a.phase).2.2.2.2.1] at hstop
  | drop c =>
    obtain ⟨p, rfl⟩ | ⟨a, p, -, rfl, rfl⟩ := drop_cases h
    · exact effect_calls (by simp)
    · exact effect_stop a _ (by simp)
  | peerRead =>
    obtain ⟨p, rest, hp, ht, rfl⟩ | rfl := peerRead_cases h
    · exact effect_peerRead hal hp ht
    · exact effect_close
  | peerReply =>
    obtain ⟨p, hp, rfl | rfl⟩ := peerReply_cases h
    · exact effect_peerReply _ hp
    · exact effect_close
  | reset keep =>
    obtain rfl := Option.some.inj h
    exact effect_reset keep

/-! ## In step, and out of step -/

/-- The next reply that the client would open is not under way and never will be: the peer is gone,
or the number was used up by a request that got lost. -/
def Broken (s : Session) : Prop :=
  ¬s.InFlight s.recvNonce ∧
    (s.peer = .closed ∨ s.recvNonce < s.sendNonce ∧ (s.Writing → s.recvNonce + 1 < s.sendNonce))

/-- A broken session stays broken. -/
theorem Broken.step (h : s.Broken) (he : Effect s s') : s'.Broken := by
  obtain ⟨hflight, hrest⟩ := h
  have hrecv : s'.recvNonce = s.recvNonce := he.recvNonce.resolve_right hflight
  refine ⟨fun hf => ?_, ?_⟩
  · rw [hrecv] at hf
    obtain hf | ⟨hopen, hw, hk⟩ := he.inFlight _ hf
    · exact hflight hf
    · obtain hcl | ⟨-, hlt⟩ := hrest
      · exact hopen hcl
      · have := hlt hw
        omega
  · obtain hcl | ⟨hlt, hw⟩ := hrest
    · exact .inl (he.closed hcl)
    · have := he.sendNonce
      refine .inr ⟨by omega, fun hw' => ?_⟩
      obtain ⟨heq, hw''⟩ | heq := he.writing hw'
      · have := hw hw''
        omega
      · omega

/-- The states of a session whose two sides are in step. -/
inductive Synced (handler : Bytes → Bytes) : Session → Prop
  | idle (n : ℕ) (calls : HashMap ℕ CallState) :
    Synced handler ⟨n, n, none, calls, [], [], .reading, n, n⟩
  | writing (n : ℕ) (calls : HashMap ℕ CallState) (c : ℕ) (p : Bytes) (b : Bool) :
    Synced handler ⟨n + 1, n, some ⟨c, p, .writing b⟩, calls, [], [], .reading, n, n⟩
  | sent (n : ℕ) (calls : HashMap ℕ CallState) (c : ℕ) (p : Bytes) :
    Synced handler ⟨n + 1, n, some ⟨c, p, .waiting⟩, calls, [.sealed n p], [], .reading, n, n⟩
  | handling (n : ℕ) (calls : HashMap ℕ CallState) (c : ℕ) (p : Bytes) :
    Synced handler ⟨n + 1, n, some ⟨c, p, .waiting⟩, calls, [], [], .handling p, n, n + 1⟩
  | replied (n : ℕ) (calls : HashMap ℕ CallState) (c : ℕ) (p : Bytes) (peer : PeerPhase)
    (hpeer : ∀ q, peer ≠ .handling q) :
    Synced handler ⟨n + 1, n, some ⟨c, p, .waiting⟩, calls, [], [.sealed n (handler p)], peer,
      n + 1, n + 1⟩
  | reading (n : ℕ) (calls : HashMap ℕ CallState) (c : ℕ) (p : Bytes) (peer : PeerPhase)
    (hpeer : ∀ q, peer ≠ .handling q) :
    Synced handler ⟨n + 1, n, some ⟨c, p, .reading (.sealed n (handler p))⟩, calls, [], [], peer,
      n + 1, n + 1⟩

/-- The condition on a step: a call that waits for its reply is dropped only when that reply will
not come. -/
def DropGuard (s : Session) : SessionAction → Prop
  | .drop c => ∀ p, s.active = some ⟨c, p, .waiting⟩ → ¬s.InFlight s.recvNonce
  | _ => True

/-- No exchange is under way when both wires hold pieces only, no handler runs and no reply is being
read. -/
theorem not_inFlight {k : ℕ} (hp : ∀ p, .sealed k p ∉ s.toPeer)
    (hh : ∀ p, s.peer ≠ .handling p) (hc : ∀ r, .sealed k r ∉ s.toClient)
    (ha : ∀ c p r, s.active ≠ some ⟨c, p, .reading (.sealed k r)⟩) : ¬s.InFlight k := by
  intro h
  cases h with
  | toPeer h => exact hp _ h
  | handling h => exact hh _ h
  | toClient h => exact hc _ h
  | reading h => exact ha _ _ _ h

/-- A session is broken once its call has stopped with its exchange neither on the wires nor in the
handler. -/
theorem broken_stop (ph : ActivePhase) (calls : HashMap ℕ CallState)
    (hlt : s.recvNonce < s.sendNonce) (hp : ∀ p, .sealed s.recvNonce p ∉ s.toPeer)
    (hh : ∀ p, s.peer ≠ .handling p) (hc : ∀ r, .sealed s.recvNonce r ∉ s.toClient) :
    Broken { s.leave ph with active := none, calls := calls } := by
  obtain ⟨hp', hc', hs, hr, -, hpeer, -⟩ := s.leave_frame ph
  refine ⟨not_inFlight (fun p h => ?_) (fun p h => hh p (hpeer ▸ h)) (fun r h => ?_) (by simp),
    .inr ⟨?_, fun h => absurd h (not_writing_of_released rfl)⟩⟩
  · exact hp p (hr ▸ hp' _ p h)
  · exact hc r (hr ▸ hc' _ r h)
  · change (s.leave ph).recvNonce < (s.leave ph).sendNonce
    omega

theorem broken_reset (s : Session) (hact : ∀ c p r, s.active ≠ some ⟨c, p, .reading r⟩) :
    Broken { s.close with toClient := [] } :=
  ⟨not_inFlight (by simp [close]) (by simp [close]) (by simp) fun c p r => hact c p _, .inl rfl⟩

section

variable {n : ℕ} {calls : HashMap ℕ CallState} {c : ℕ} {p : Bytes} {b : Bool} {peer : PeerPhase}
  {a : SessionAction}

theorem synced_idle_step
    (hs : step handler ⟨n, n, none, calls, [], [], .reading, n, n⟩ a = some s') :
    s'.Broken ∨ Synced handler s' := by
  cases a with
  | request c p =>
    rw [request_cases hs]
    exact .inr (.idle ..)
  | acquire c e =>
    obtain ⟨p, -, -, rfl | rfl⟩ := acquire_cases hs
    · exact .inr (.writing ..)
    · exact .inr (.idle ..)
  | drop c =>
    obtain ⟨p, rfl⟩ | ⟨a, p, ha, -⟩ := drop_cases hs
    · exact .inr (.idle ..)
    · cases ha
  | reset keep =>
    obtain rfl := Option.some.inj hs
    rw [List.take_nil]
    exact .inl (broken_reset _ (by simp))
  | _ => simp [step] at hs

theorem synced_writing_step
    (hs : step handler ⟨n + 1, n, some ⟨c, p, .writing b⟩, calls, [], [], .reading, n, n⟩ a =
      some s') : s'.Broken ∨ Synced handler s' := by
  cases a with
  | request c' q =>
    rw [request_cases hs]
    exact .inr (.writing ..)
  | writePart =>
    obtain rfl := Option.some.inj hs
    exact .inr (.writing ..)
  | writeAll =>
    obtain rfl := Option.some.inj hs
    exact .inr (.sent ..)
  | fail ctx e =>
    obtain rfl := Option.some.inj hs
    exact .inl (broken_stop _ _ (Nat.lt_succ_self n) (by simp) (by simp) (by simp))
  | drop c' =>
    obtain ⟨q, rfl⟩ | ⟨a, q, ha, -, rfl⟩ := drop_cases hs
    · exact .inr (.writing ..)
    · exact .inl (broken_stop _ _ (Nat.lt_succ_self n) (by simp) (by simp) (by simp))
  | reset keep =>
    obtain rfl := Option.some.inj hs
    rw [List.take_nil]
    exact .inl (broken_reset _ (by simp))
  | _ => simp [step] at hs

theorem synced_sent_step
    (hg : DropGuard ⟨n + 1, n, some ⟨c, p, .waiting⟩, calls, [.sealed n p], [], .reading, n, n⟩ a)
    (hs : step handler ⟨n + 1, n, some ⟨c, p, .waiting⟩, calls, [.sealed n p], [], .reading, n, n⟩
      a = some s') : s'.Broken ∨ Synced handler s' := by
  cases a with
  | request c' q =>
    rw [request_cases hs]
    exact .inr (.sent ..)
  | drop c' =>
    obtain ⟨q, rfl⟩ | ⟨a, q, ha, rfl, -⟩ := drop_cases hs
    · exact .inr (.sent ..)
    · obtain rfl := Option.some.inj ha
      exact absurd (.toPeer (List.mem_singleton.2 rfl)) (hg p rfl)
  | peerRead =>
    simp only [step, if_true] at hs
    obtain rfl := Option.some.inj hs
    exact .inr (.handling ..)
  | reset keep =>
    obtain rfl := Option.some.inj hs
    rw [List.take_nil]
    exact .inl (broken_reset _ (by simp))
  | _ => simp [step] at hs

theorem synced_handling_step
    (hg : DropGuard ⟨n + 1, n, some ⟨c, p, .waiting⟩, calls, [], [], .handling p, n, n + 1⟩ a)
    (hs : step handler ⟨n + 1, n, some ⟨c, p, .waiting⟩, calls, [], [], .handling p, n, n + 1⟩ a =
      some s') : s'.Broken ∨ Synced handler s' := by
  cases a with
  | request c' q =>
    rw [request_cases hs]
    exact .inr (.handling ..)
  | drop c' =>
    obtain ⟨q, rfl⟩ | ⟨a, q, ha, rfl, -⟩ := drop_cases hs
    · exact .inr (.handling ..)
    · obtain rfl := Option.some.inj ha
      exact absurd (.handling rfl) (hg p rfl)
  | peerReply =>
    simp only [step] at hs
    split_ifs at hs
    · obtain rfl := Option.some.inj hs
      exact .inr (.replied _ _ _ _ _ (by simp))
    · obtain rfl := Option.some.inj hs
      exact .inl (broken_reset ⟨n + 1, n, some ⟨c, p, .waiting⟩, calls, [], [], .handling p, n,
        n + 1⟩ (by simp))
  | reset keep =>
    obtain rfl := Option.some.inj hs
    rw [List.take_nil]
    exact .inl (broken_reset _ (by simp))
  | _ => simp [step] at hs

/-- Once the reply is opened the session is idle again, or dead when the peer is gone. -/
theorem broken_or_synced_opened (calls : HashMap ℕ CallState) (hpeer : ∀ q, peer ≠ .handling q) :
    Broken ⟨n + 1, n + 1, none, calls, [], [], peer, n + 1, n + 1⟩ ∨
      Synced handler ⟨n + 1, n + 1, none, calls, [], [], peer, n + 1, n + 1⟩ := by
  cases peer with
  | reading => exact .inr (.idle ..)
  | handling q => exact absurd rfl (hpeer q)
  | closed => exact .inl ⟨not_inFlight (by simp) (by simp) (by simp) (by simp), .inl rfl⟩

theorem synced_replied_step (hpeer : ∀ q, peer ≠ .handling q)
    (hg : DropGuard ⟨n + 1, n, some ⟨c, p, .waiting⟩, calls, [], [.sealed n (handler p)], peer,
      n + 1, n + 1⟩ a)
    (hs : step handler ⟨n + 1, n, some ⟨c, p, .waiting⟩, calls, [], [.sealed n (handler p)], peer,
      n + 1, n + 1⟩ a = some s') : s'.Broken ∨ Synced handler s' := by
  cases a with
  | request c' q =>
    rw [request_cases hs]
    exact .inr (.replied _ _ _ _ _ hpeer)
  | readPart =>
    obtain rfl := Option.some.inj hs
    exact .inr (.reading _ _ _ _ _ hpeer)
  | readAll skip cut e =>
    simp only [step, recvOpened, if_true, finish] at hs
    obtain rfl := Option.some.inj hs
    exact broken_or_synced_opened _ hpeer
  | drop c' =>
    obtain ⟨q, rfl⟩ | ⟨a, q, ha, rfl, -⟩ := drop_cases hs
    · exact .inr (.replied _ _ _ _ _ hpeer)
    · obtain rfl := Option.some.inj ha
      exact absurd (.toClient (List.mem_singleton.2 rfl)) (hg p rfl)
  | reset keep =>
    obtain rfl := Option.some.inj hs
    cases keep with
    | zero =>
      rw [List.take_zero]
      exact .inl (broken_reset _ (by simp))
    | succ keep =>
      rw [List.take_succ_cons, List.take_nil]
      exact .inr (.replied _ _ _ _ _ (by simp [close]))
  | _ => simp [step] at hs

theorem synced_reading_step (hpeer : ∀ q, peer ≠ .handling q)
    (hs : step handler ⟨n + 1, n, some ⟨c, p, .reading (.sealed n (handler p))⟩, calls, [], [],
      peer, n + 1, n + 1⟩ a = some s') : s'.Broken ∨ Synced handler s' := by
  cases a with
  | request c' q =>
    rw [request_cases hs]
    exact .inr (.reading _ _ _ _ _ hpeer)
  | readAll skip cut e =>
    simp only [step, recvOpened, if_true, finish] at hs
    obtain rfl := Option.some.inj hs
    exact broken_or_synced_opened _ hpeer
  | fail ctx e =>
    simp only [step] at hs
    split_ifs at hs
    obtain rfl := Option.some.inj hs
    exact .inl (broken_stop _ _ (Nat.lt_succ_self n) (by simp) hpeer (by simp))
  | drop c' =>
    obtain ⟨q, rfl⟩ | ⟨a, q, ha, -, rfl⟩ := drop_cases hs
    · exact .inr (.reading _ _ _ _ _ hpeer)
    · exact .inl (broken_stop _ _ (Nat.lt_succ_self n) (by simp) hpeer (by simp))
  | reset keep =>
    obtain rfl := Option.some.inj hs
    rw [List.take_nil]
    exact .inr (.reading _ _ _ _ _ (by simp [close]))
  | _ => simp [step] at hs

end

/-- **A session in step** stays in step or breaks. -/
theorem Synced.step (h : Synced handler s) {a : SessionAction} (hg : s.DropGuard a)
    (hs : s.step handler a = some s') : s'.Broken ∨ Synced handler s' := by
  cases h with
  | idle => exact synced_idle_step hs
  | writing => exact synced_writing_step hs
  | sent => exact synced_sent_step hg hs
  | handling => exact synced_handling_step hg hs
  | replied n calls c p peer hpeer => exact synced_replied_step hpeer hg hs
  | reading n calls c p peer hpeer => exact synced_reading_step hpeer hs

theorem Aligned.congr (h : s.Aligned) (hp : s'.peer = s.peer) (hs : s'.peerSend = s.peerSend)
    (hr : s'.peerRecv = s.peerRecv) : s'.Aligned := by
  unfold Aligned at *
  rwa [hp, hs, hr]

theorem recvOpened_peer (a : Active) (skip : ℕ) (cut : Bool) (e : String) (item : WireItem) :
    (s.recvOpened a skip cut e item).peer = s.peer ∧
      (s.recvOpened a skip cut e item).peerSend = s.peerSend ∧
      (s.recvOpened a skip cut e item).peerRecv = s.peerRecv := by
  unfold recvOpened
  split
  · split_ifs <;> exact ⟨rfl, rfl, rfl⟩
  · exact ⟨rfl, rfl, rfl⟩

/-- Only the peer's own steps touch its numbers. -/
theorem Aligned.step (h : s.Aligned) {a : SessionAction} (hs : s.step handler a = some s') :
    s'.Aligned := by
  cases a with
  | request c p =>
    rw [request_cases hs]
    exact h
  | acquire c e =>
    obtain ⟨p, -, -, rfl | rfl⟩ := acquire_cases hs
    · exact h
    · exact h
  | writePart =>
    obtain ⟨c, p, b, -, rfl⟩ := writePart_cases hs
    exact h
  | writeAll =>
    obtain ⟨c, p, b, -, rfl⟩ := writeAll_cases hs
    obtain ⟨-, -, -, -, -, hp, hps, hpr⟩ := push_frame (s := { s with active := _ }) _
    exact h.congr hp hps hpr
  | readPart =>
    obtain ⟨c, p, item, rest, -, -, rfl⟩ := readPart_cases hs
    exact h
  | readAll skip cut e =>
    obtain ⟨c, p, item, rest, -, -, rfl⟩ | ⟨c, p, item, -, rfl⟩ := readAll_cases hs
    · obtain ⟨hp, hps, hpr⟩ := recvOpened_peer (s := { s with toClient := rest }) _ skip cut e item
      exact h.congr hp hps hpr
    · obtain ⟨hp, hps, hpr⟩ := recvOpened_peer (s := s) _ skip cut e item
      exact h.congr hp hps hpr
  | fail ctx e =>
    obtain ⟨a, -, -, rfl⟩ := fail_cases hs
    obtain ⟨-, -, -, -, -, hp, hps, hpr⟩ := s.leave_frame a.phase
    exact h.congr hp hps hpr
  | drop c =>
    obtain ⟨q, rfl⟩ | ⟨a, q, -, -, rfl⟩ := drop_cases hs
    · exact h
    · obtain ⟨-, -, -, -, -, hp, hps, hpr⟩ := s.leave_frame a.phase
      exact h.congr hp hps hpr
  | peerRead =>
    obtain ⟨p, rest, hp, -, rfl⟩ | rfl := peerRead_cases hs
    · have hsend : s.peerSend = s.peerRecv := by simpa [Aligned, hp] using h
      simp [Aligned, hsend]
    · trivial
  | peerReply =>
    obtain ⟨p, hp, rfl | rfl⟩ := peerReply_cases hs
    · have hrecv : s.peerRecv = s.peerSend + 1 := by simpa [Aligned, hp] using h
      simp [Aligned, hrecv]
    · trivial
  | reset keep =>
    obtain rfl := Option.some.inj hs
    trivial

/-- In a session in step, the reply a call opens next is the response to its own payload. -/
theorem Synced.reply (h : Synced handler s) {c : ℕ} {p r : Bytes} {ph : ActivePhase}
    (hact : s.active = some ⟨c, p, ph⟩)
    (hitem : ph = .reading (.sealed s.recvNonce r) ∨
      ph = .waiting ∧ s.toClient.head? = some (.sealed s.recvNonce r)) : r = handler p := by
  cases h with
  | idle => cases hact
  | writing => cases hact; obtain h | ⟨h, -⟩ := hitem <;> cases h
  | sent => cases hact; obtain h | ⟨-, h⟩ := hitem <;> cases h
  | handling => cases hact; obtain h | ⟨-, h⟩ := hitem <;> cases h
  | replied =>
    cases hact
    obtain h | ⟨-, h⟩ := hitem
    · cases h
    · cases h
      rfl
  | reading =>
    cases hact
    obtain h | ⟨h, -⟩ := hitem
    · cases h
      rfl
    · cases h

/-- The two sides are in step or the session is broken, and every reply returned is the handler's
response to the call's own payload. -/
structure Matched (handler : Bytes → Bytes) (s : Session) : Prop where
  aligned : s.Aligned
  synced : s.Broken ∨ Synced handler s
  returned : ∀ c p r, s.calls.lookup c = some (.returned p (.ok r)) → r = handler p

theorem matched_established : Matched handler established where
  aligned := rfl
  synced := .inr (.idle ..)
  returned c p r h := by simp [established] at h

/-- **Every step under the condition** keeps replies and requests matched. -/
theorem Matched.step (h : Matched handler s) {a : SessionAction} (hg : s.DropGuard a)
    (hs : s.step handler a = some s') : Matched handler s' := by
  have he := effect_step h.aligned hs
  refine ⟨h.aligned.step hs, ?_, fun c p r hc => ?_⟩
  · obtain hb | hsync := h.synced
    · exact .inl (hb.step he)
    · exact hsync.step hg hs
  · obtain hold | ⟨ph, hact, hflight, hitem⟩ := he.returned c p r hc
    · exact h.returned c p r hold
    · obtain hb | hsync := h.synced
      · exact absurd hflight hb.1
      · exact hsync.reply hact hitem

end Session

/-! ## Runs -/

open Session

/-- **Replies match requests.** On a fresh session, whatever the handler: in every state of a run in
which no call is dropped while its reply is under way, a call that has returned a reply has returned
the handler's response to its own payload. -/
theorem replies_match (handler : Bytes → Bytes) (as : List SessionAction) (s : Session)
    (hg : Guarded (Session.step handler) DropGuard established as)
    (hrun : run (Session.step handler) established as = some s) (c : ℕ) (payload reply : Bytes)
    (hc : s.calls.lookup c = some (.returned payload (.ok reply))) : reply = handler payload :=
  (hg.invariant (I := Matched handler) (fun _ _ _ h hgd hs => h.step hgd hs) matched_established
    hrun).returned c payload reply hc

/-- A call is answered, and the next one is dropped while it writes. -/
def droppedWriter : List SessionAction :=
  [.request 0 [1], .acquire 0 "", .writeAll, .peerRead, .peerReply, .readAll 0 false "",
    .request 1 [2], .acquire 1 "", .writePart, .drop 1]

/-- No reply is under way when the second call is dropped, so the run is covered. -/
theorem replies_match_droppedWriter :
    ∃ s, run (Session.step List.reverse) established droppedWriter = some s ∧
      s.calls.lookup 0 = some (.returned [1] (.ok [1])) ∧ ([1] : Bytes) = List.reverse [1] := by
  have hg : Guarded (Session.step List.reverse) DropGuard established droppedWriter := by
    refine .cons trivial rfl (.cons trivial rfl (.cons trivial rfl (.cons trivial rfl (.cons trivial
      rfl (.cons trivial rfl (.cons trivial rfl (.cons trivial rfl (.cons trivial rfl (.cons ?_ rfl
      trivial)))))))))
    intro p h
    cases h
  exact ⟨_, rfl, rfl, replies_match List.reverse droppedWriter _ hg rfl 0 [1] [1] rfl⟩

/-- A call is dropped after its request was written, before its reply was read; another follows. -/
def droppedWaiter : List SessionAction :=
  [.request 0 [1], .request 1 [2], .acquire 0 "", .writeAll, .drop 0, .acquire 1 "", .writeAll,
    .peerRead, .peerReply, .peerRead, .peerReply, .readAll 0 false ""]

/-- With a handler that echoes, the second call is given the echo of the first. -/
theorem dropped_waiter_shifts_replies :
    ∃ s, run (Session.step id) established droppedWaiter = some s ∧
      s.calls.lookup 1 = some (.returned [2] (.ok [1])) ∧ ([1] : Bytes) ≠ id [2] :=
  ⟨_, rfl, rfl, by decide⟩

end OCF.Fabric

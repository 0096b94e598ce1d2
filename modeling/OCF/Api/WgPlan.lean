import OCF.Api.Wireguard
import OCF.Foundations.Lists
import OCF.Foundations.Text
import Mathlib.Data.Finset.Dedup

/-!
# The peer plan of a plane

`planWgPeers` builds the entries of a plane peer by peer: a peer that can be reached directly updates
its own entry, a private peer of a private node only adds its address to the entry of its next hop,
which may not have been its turn yet. An entry is made by whichever of the two comes first.

The invariant `Planned` says what the entries are after any part of the list: each entry carries the
addresses of the peers that have it as their carrier, and an entry whose owner had its turn has the
owner's endpoint and keepalive. It does not mention the order, so neither does what the whole list
gives (`planWgPeers_spec`).
-/

namespace OCF.Api

open OCF.Fabric WgNode

/-- The overlay address of a peer, the way it is routed. -/
def WgPeer.cidr (plane : WgPlane) (p : WgPeer) : String := plane.ip p.index ++ "/32"

/-- The two nodes can peer directly. -/
def WgPeer.Direct (selfReach : Reachability) (p : WgPeer) : Prop :=
  ¬(p.reach = .priv ∧ selfReach = .priv)

instance (selfReach : Reachability) (p : WgPeer) : Decidable (p.Direct selfReach) :=
  inferInstanceAs (Decidable (¬_))

/-- The key of the entry that carries the address of the peer: its own if it is reached directly, else
that of its next hop. -/
def WgPeer.carrier (selfReach : Reachability) (p : WgPeer) : Option String :=
  if p.Direct selfReach then some p.publicKey else p.via

/-- What the peer does to the entry that carries its address. -/
def WgPeer.touch (plane : WgPlane) (selfReach : Reachability) (p : WgPeer) (spec : WgPeerSpec) :
    WgPeerSpec :=
  if p.Direct selfReach then
    addCidr (p.cidr plane)
      { spec with
        endpoint := (wgDirectEndpointKeepalive selfReach p.reach p.addr plane.port).1
        keepalive := (wgDirectEndpointKeepalive selfReach p.reach p.addr plane.port).2 }
  else addCidr (p.cidr plane) spec

/-- The endpoint, the keepalive and the set of addresses of the entry of a key. -/
def planEntry (specs : List WgPeerSpec) (key : String) :
    Option (Option String × UInt16 × Finset String) :=
  (specs.find? fun spec => spec.publicKey = key).map fun spec =>
    (spec.endpoint, spec.keepalive, spec.allowedIps.toFinset)

/-! ## One entry -/

section Upsert

variable {key : String} {f : WgPeerSpec → WgPeerSpec} {specs : List WgPeerSpec} {spec : WgPeerSpec}

theorem map_publicKey_upsert (hf : ∀ spec, (f spec).publicKey = spec.publicKey) :
    (upsert key f specs).map WgPeerSpec.publicKey =
      if key ∈ specs.map WgPeerSpec.publicKey then specs.map WgPeerSpec.publicKey
      else specs.map WgPeerSpec.publicKey ++ [key] := by
  induction specs with
  | nil => simp [upsert, hf]
  | cons s specs ih =>
    rw [upsert]
    split_ifs with hs hmem hmem
    · simp [hf]
    · simp [hs] at hmem
    · rw [List.map_cons, ih, if_pos ((List.mem_cons.1 hmem).resolve_left (Ne.symm hs))]
      rfl
    · rw [List.map_cons, ih, if_neg fun h => hmem (List.mem_cons_of_mem _ h)]
      rfl

theorem nodup_upsert (hf : ∀ spec, (f spec).publicKey = spec.publicKey)
    (h : (specs.map WgPeerSpec.publicKey).Nodup) :
    ((upsert key f specs).map WgPeerSpec.publicKey).Nodup := by
  rw [map_publicKey_upsert hf]
  split_ifs with hmem
  · exact h
  · rw [List.nodup_append]
    exact ⟨h, List.nodup_singleton key, fun a ha b hb => by
      rw [List.mem_singleton.1 hb]
      rintro rfl
      exact hmem ha⟩

/-- An entry after the change: one of another key, the changed one, or a new one. -/
theorem mem_upsert (h : (specs.map WgPeerSpec.publicKey).Nodup) :
    spec ∈ upsert key f specs ↔ (spec ∈ specs ∧ spec.publicKey ≠ key) ∨
      (∃ old ∈ specs, old.publicKey = key ∧ spec = f old) ∨
      (∀ old ∈ specs, old.publicKey ≠ key) ∧ spec = f ⟨key, none, [], 0⟩ := by
  induction specs with
  | nil => simp [upsert]
  | cons s specs ih =>
    rw [List.map_cons, List.nodup_cons, List.mem_map] at h
    rw [upsert]
    split_ifs with hs
    · -- the keys are distinct, so the rest keeps other keys
      have hrest : ∀ t ∈ specs, t.publicKey ≠ key := by
        intro t ht heq
        exact h.1 ⟨t, ht, heq.trans hs.symm⟩
      grind
    · rw [List.mem_cons, ih h.2]
      grind

end Upsert

/-! ## One peer -/

section Peer

variable {plane : WgPlane} {selfReach : Reachability} {p : WgPeer} {specs : List WgPeerSpec}

theorem planWgPeer_eq :
    planWgPeer plane selfReach specs p =
      ((p.carrier selfReach).elim specs fun key => upsert key (p.touch plane selfReach) specs) := by
  unfold WgPeer.carrier
  by_cases h : p.Direct selfReach
  · have hreach : ¬(p.reach = .priv ∧ selfReach = .priv) := h
    have htouch : p.touch plane selfReach = fun spec => addCidr (p.cidr plane)
        { spec with
          endpoint := (wgDirectEndpointKeepalive selfReach p.reach p.addr plane.port).1
          keepalive := (wgDirectEndpointKeepalive selfReach p.reach p.addr plane.port).2 } :=
      funext fun spec => if_pos h
    rw [if_pos h, htouch, planWgPeer, if_pos hreach]
    rfl
  · have hreach : ¬¬(p.reach = .priv ∧ selfReach = .priv) := h
    have htouch : p.touch plane selfReach = addCidr (p.cidr plane) :=
      funext fun spec => if_neg h
    rw [if_neg h, htouch, planWgPeer, if_neg hreach]
    cases p.via with
    | none => rfl
    | some via => rfl

theorem mem_addCidr {cidr x : String} {spec : WgPeerSpec} :
    x ∈ (addCidr cidr spec).allowedIps ↔ x ∈ spec.allowedIps ∨ x = cidr := by
  unfold addCidr
  split_ifs with h
  · refine ⟨.inl, fun hx => hx.elim id ?_⟩
    rintro rfl
    exact h
  · simp

theorem addCidr_frame (cidr : String) (spec : WgPeerSpec) :
    (addCidr cidr spec).publicKey = spec.publicKey ∧ (addCidr cidr spec).endpoint = spec.endpoint ∧
      (addCidr cidr spec).keepalive = spec.keepalive := by
  unfold addCidr
  split_ifs
  · exact ⟨rfl, rfl, rfl⟩
  · exact ⟨rfl, rfl, rfl⟩

theorem touch_publicKey (spec : WgPeerSpec) :
    (p.touch plane selfReach spec).publicKey = spec.publicKey := by
  unfold WgPeer.touch
  split_ifs
  · exact (addCidr_frame ..).1
  · exact (addCidr_frame ..).1

theorem mem_touch {x : String} {spec : WgPeerSpec} :
    x ∈ (p.touch plane selfReach spec).allowedIps ↔ x ∈ spec.allowedIps ∨ x = p.cidr plane := by
  unfold WgPeer.touch
  split_ifs
  · exact mem_addCidr
  · exact mem_addCidr

theorem touch_of_direct (h : p.Direct selfReach) (spec : WgPeerSpec) :
    ((p.touch plane selfReach spec).endpoint, (p.touch plane selfReach spec).keepalive) =
      wgDirectEndpointKeepalive selfReach p.reach p.addr plane.port := by
  rw [WgPeer.touch, if_pos h, (addCidr_frame ..).2.1, (addCidr_frame ..).2.2]

theorem touch_of_not_direct (h : ¬ p.Direct selfReach) (spec : WgPeerSpec) :
    (p.touch plane selfReach spec).endpoint = spec.endpoint ∧
      (p.touch plane selfReach spec).keepalive = spec.keepalive := by
  rw [WgPeer.touch, if_neg h]
  exact (addCidr_frame ..).2

end Peer

/-! ## The whole list -/

/-- What the entries carry after the turns of some peers, of whatever keys. -/
structure Entered (plane : WgPlane) (selfReach : Reachability) (peers : List WgPeer)
    (specs : List WgPeerSpec) : Prop where
  nodup : (specs.map WgPeerSpec.publicKey).Nodup
  routed : ∀ key x, RoutedTo specs key x ↔
    ∃ p ∈ peers, p.carrier selfReach = some key ∧ x = p.cidr plane
  nonempty : ∀ spec ∈ specs, spec.allowedIps ≠ []

/-- What the entries are after the turns of some peers of distinct keys. -/
structure Planned (plane : WgPlane) (selfReach : Reachability) (peers : List WgPeer)
    (specs : List WgPeerSpec) : Prop extends Entered plane selfReach peers specs where
  direct : ∀ p ∈ peers, p.Direct selfReach → ∀ spec ∈ specs, spec.publicKey = p.publicKey →
    (spec.endpoint, spec.keepalive) = wgDirectEndpointKeepalive selfReach p.reach p.addr plane.port

section Planned

variable {plane : WgPlane} {selfReach : Reachability} {p : WgPeer} {peers : List WgPeer}
  {specs : List WgPeerSpec} {spec : WgPeerSpec} {key x : String}

theorem carrier_of_direct (h : p.Direct selfReach) : p.carrier selfReach = some p.publicKey :=
  if_pos h

theorem routedTo_upsert_touch (h : (specs.map WgPeerSpec.publicKey).Nodup) {key' : String} :
    RoutedTo (upsert key (p.touch plane selfReach) specs) key' x ↔
      RoutedTo specs key' x ∨ key' = key ∧ x = p.cidr plane := by
  constructor
  · rintro ⟨spec, hspec, rfl, hx⟩
    obtain ⟨hspec, -⟩ | ⟨old, hold, hkey, rfl⟩ | ⟨-, rfl⟩ := (mem_upsert h).1 hspec
    · exact .inl ⟨spec, hspec, rfl, hx⟩
    · rw [touch_publicKey]
      exact (mem_touch.1 hx).imp (fun hx => ⟨old, hold, rfl, hx⟩) fun hx => ⟨hkey, hx⟩
    · rw [touch_publicKey]
      exact .inr ⟨rfl, (mem_touch.1 hx).resolve_left List.not_mem_nil⟩
  · rintro (hold | ⟨rfl, rfl⟩)
    · obtain ⟨spec, hspec, rfl, hx⟩ := hold
      by_cases hkey : spec.publicKey = key
      · exact ⟨_, (mem_upsert h).2 (.inr (.inl ⟨spec, hspec, hkey, rfl⟩)), touch_publicKey spec,
          mem_touch.2 (.inl hx)⟩
      · exact ⟨spec, (mem_upsert h).2 (.inl ⟨hspec, hkey⟩), rfl, hx⟩
    · by_cases hex : ∃ old ∈ specs, old.publicKey = key'
      · obtain ⟨old, hold, hkey⟩ := hex
        exact ⟨_, (mem_upsert h).2 (.inr (.inl ⟨old, hold, hkey, rfl⟩)),
          (touch_publicKey old).trans hkey, mem_touch.2 (.inr rfl)⟩
      · push Not at hex
        exact ⟨_, (mem_upsert h).2 (.inr (.inr ⟨hex, rfl⟩)), touch_publicKey _,
          mem_touch.2 (.inr rfl)⟩

theorem entered_nil : Entered plane selfReach [] [] where
  nodup := List.nodup_nil
  routed key x := by simp [RoutedTo]
  nonempty := by simp

/-- The turn of one more peer. -/
theorem Entered.planWgPeer (h : Entered plane selfReach peers specs) (p : WgPeer) :
    Entered plane selfReach (peers ++ [p]) (Api.planWgPeer plane selfReach specs p) := by
  rw [planWgPeer_eq]
  cases hc : p.carrier selfReach with
  | none =>
    refine ⟨h.nodup, fun key x => ?_, h.nonempty⟩
    simp [h.routed, hc, or_and_right, exists_or]
  | some key =>
    refine ⟨nodup_upsert touch_publicKey h.nodup, fun key' x => ?_, fun spec hspec => ?_⟩
    · simp [routedTo_upsert_touch h.nodup, h.routed, hc, or_and_right, exists_or, eq_comm]
    · obtain ⟨hspec, -⟩ | ⟨old, -, -, rfl⟩ | ⟨-, rfl⟩ := (mem_upsert h.nodup).1 hspec
      · exact h.nonempty spec hspec
      · exact List.ne_nil_of_mem (mem_touch.2 (.inr rfl))
      · exact List.ne_nil_of_mem (mem_touch.2 (.inr rfl))

theorem entered_planWgPeers (peers : List WgPeer) :
    Entered plane selfReach peers (planWgPeers plane selfReach peers) := by
  induction peers using List.reverseRecOn with
  | nil => exact entered_nil
  | append_singleton peers p ih =>
    rw [planWgPeers, List.foldl_append]
    exact ih.planWgPeer p

theorem planned_nil : Planned plane selfReach [] [] where
  toEntered := entered_nil
  direct := by simp

namespace Planned

/-- The turn of one more peer, of another key than the ones before. -/
theorem planWgPeer (h : Planned plane selfReach peers specs)
    (hnew : ∀ q ∈ peers, q.publicKey ≠ p.publicKey) :
    Planned plane selfReach (peers ++ [p]) (Api.planWgPeer plane selfReach specs p) := by
  refine ⟨h.toEntered.planWgPeer p, fun q hq hd spec hspec hkey => ?_⟩
  rw [planWgPeer_eq] at hspec
  cases hc : p.carrier selfReach with
  | none =>
    rw [hc] at hspec
    rcases List.mem_append.1 hq with hq | hq
    · exact h.direct q hq hd spec hspec hkey
    · obtain rfl := List.mem_singleton.1 hq
      rw [carrier_of_direct hd] at hc
      cases hc
  | some key =>
    rw [hc] at hspec
    rcases List.mem_append.1 hq with hq | hq
    · -- an earlier peer: its entry keeps the endpoint, whoever adds to it
      have hother : key = q.publicKey → ¬ p.Direct selfReach := fun heq hpd => by
        rw [carrier_of_direct hpd] at hc
        exact hnew q hq ((Option.some.inj hc).trans heq).symm
      obtain ⟨hspec, -⟩ | ⟨old, hold, hkey', rfl⟩ | ⟨hnone, rfl⟩ := (mem_upsert h.nodup).1 hspec
      · exact h.direct q hq hd spec hspec hkey
      · rw [touch_publicKey] at hkey
        have hframe : (p.touch plane selfReach old).endpoint = old.endpoint ∧
            (p.touch plane selfReach old).keepalive = old.keepalive :=
          touch_of_not_direct (hother (hkey'.symm.trans hkey)) old
        rw [hframe.1, hframe.2]
        exact h.direct q hq hd old hold hkey
      · rw [touch_publicKey] at hkey
        obtain ⟨s, hs, hskey, -⟩ := (h.routed q.publicKey (q.cidr plane)).2
          ⟨q, hq, carrier_of_direct hd, rfl⟩
        exact absurd (hskey.trans hkey.symm) (hnone s hs)
    · -- the peer itself: it sets the endpoint of its own entry
      obtain rfl := List.mem_singleton.1 hq
      obtain rfl := Option.some.inj (hc.symm.trans (carrier_of_direct hd))
      obtain ⟨-, hne⟩ | ⟨old, -, -, rfl⟩ | ⟨-, rfl⟩ := (mem_upsert h.nodup).1 hspec
      · exact absurd hkey hne
      · exact touch_of_direct hd old
      · exact touch_of_direct hd _

end Planned

theorem planned_planWgPeers (hkeys : (peers.map WgPeer.publicKey).Nodup) :
    Planned plane selfReach peers (planWgPeers plane selfReach peers) := by
  induction peers using List.reverseRecOn with
  | nil => exact planned_nil
  | append_singleton peers p ih =>
    rw [List.map_append, List.nodup_append] at hkeys
    rw [planWgPeers, List.foldl_append]
    refine (ih hkeys.1).planWgPeer fun q hq => ?_
    exact hkeys.2.2 _ (List.mem_map_of_mem hq) _ (List.mem_singleton_self _)

/-! ## What the plan is -/

theorem cidr_inj {q : WgPeer} : p.cidr plane = q.cidr plane ↔ p.index = q.index := by
  constructor
  · intro h
    rw [WgPeer.cidr, WgPeer.cidr, String.append_left_inj, WgPlane.ip, WgPlane.ip,
      String.append_right_inj] at h
    exact Nat.succ_injective (Text.toString_injective h)
  · intro h
    rw [WgPeer.cidr, WgPeer.cidr, h]

/-- Entries of one key are one entry. -/
theorem eq_of_publicKey_eq (h : (specs.map WgPeerSpec.publicKey).Nodup) {spec' : WgPeerSpec}
    (hs : spec ∈ specs) (hs' : spec' ∈ specs) (hkey : spec.publicKey = spec'.publicKey) :
    spec = spec' :=
  List.inj_on_of_nodup_map h hs hs' hkey

namespace Entered

theorem mem_allowedIps (h : Entered plane selfReach peers specs) (hspec : spec ∈ specs) :
    x ∈ spec.allowedIps ↔
      ∃ p ∈ peers, p.carrier selfReach = some spec.publicKey ∧ x = p.cidr plane := by
  rw [← h.routed]
  refine ⟨fun hx => ⟨spec, hspec, rfl, hx⟩, fun ⟨t, ht, hkey, hx⟩ => ?_⟩
  rwa [eq_of_publicKey_eq h.nodup hspec ht hkey.symm]

/-- Every entry belongs to a peer that is reached directly: a next hop is not private. -/
theorem exists_owner (h : Entered plane selfReach peers specs)
    (hvia : ∀ p ∈ peers, ∀ v, p.via = some v → ∃ q ∈ peers, q.publicKey = v ∧ q.reach ≠ .priv)
    (hspec : spec ∈ specs) :
    ∃ q ∈ peers, q.Direct selfReach ∧ q.publicKey = spec.publicKey := by
  obtain ⟨x, hx⟩ := List.exists_mem_of_ne_nil _ (h.nonempty spec hspec)
  obtain ⟨p, hp, hc, -⟩ := (h.mem_allowedIps hspec).1 hx
  unfold WgPeer.carrier at hc
  split_ifs at hc with hd
  · exact ⟨p, hp, hd, Option.some.inj hc⟩
  · obtain ⟨q, hq, hkey, hreach⟩ := hvia p hp _ hc
    exact ⟨q, hq, fun hboth => hreach hboth.1, hkey⟩

/-- The address of a peer stands in the entry of its carrier and in no other. -/
theorem exists_unique_spec (h : Entered plane selfReach peers specs)
    (hidx : (peers.map WgPeer.index).Nodup) (hp : p ∈ peers) (hc : p.carrier selfReach = some key) :
    ∃ spec ∈ specs, spec.publicKey = key ∧ p.cidr plane ∈ spec.allowedIps ∧
      ∀ spec' ∈ specs, p.cidr plane ∈ spec'.allowedIps → spec' = spec := by
  obtain ⟨spec, hspec, hkey, hx⟩ := (h.routed key (p.cidr plane)).2 ⟨p, hp, hc, rfl⟩
  refine ⟨spec, hspec, hkey, hx, fun spec' hspec' hx' => ?_⟩
  obtain ⟨q, hq, hcq, hcidr⟩ := (h.mem_allowedIps hspec').1 hx'
  obtain rfl := List.inj_on_of_nodup_map hidx hp hq (cidr_inj.1 hcidr)
  exact eq_of_publicKey_eq h.nodup hspec' hspec
    ((Option.some.inj (hcq.symm.trans hc)).trans hkey.symm)

end Entered

/-- Two plans for the same peers have the same entries. -/
theorem Planned.exists_same_entry {peers' : List WgPeer} {specs' : List WgPeerSpec}
    (h : Planned plane selfReach peers specs) (h' : Planned plane selfReach peers' specs')
    (hmem : ∀ p, p ∈ peers ↔ p ∈ peers')
    (hvia : ∀ p ∈ peers, ∀ v, p.via = some v → ∃ q ∈ peers, q.publicKey = v ∧ q.reach ≠ .priv)
    (hspec : spec ∈ specs) :
    ∃ spec' ∈ specs', spec'.publicKey = spec.publicKey ∧ spec'.endpoint = spec.endpoint ∧
      spec'.keepalive = spec.keepalive ∧ spec'.allowedIps.toFinset = spec.allowedIps.toFinset := by
  obtain ⟨q, hq, hd, hkey⟩ := h.exists_owner hvia hspec
  obtain ⟨spec', hspec', hkey', -⟩ := (h'.routed spec.publicKey (q.cidr plane)).2
    ⟨q, (hmem q).1 hq, hkey ▸ carrier_of_direct hd, rfl⟩
  have he := h.direct q hq hd spec hspec hkey.symm
  have he' := h'.direct q ((hmem q).1 hq) hd spec' hspec' (hkey'.trans hkey.symm)
  obtain ⟨hend, hkeep⟩ := Prod.mk.inj (he'.trans he.symm)
  refine ⟨spec', hspec', hkey', hend, hkeep, Finset.ext fun x => ?_⟩
  rw [List.mem_toFinset, List.mem_toFinset, h.mem_allowedIps hspec, h'.mem_allowedIps hspec', hkey']
  simp only [hmem]

theorem planEntry_eq_some (h : (specs.map WgPeerSpec.publicKey).Nodup) (hspec : spec ∈ specs) :
    planEntry specs spec.publicKey =
      some (spec.endpoint, spec.keepalive, spec.allowedIps.toFinset) := by
  rw [planEntry, find?_eq_some_of_nodup h hspec, Option.map_some]

theorem planEntry_eq_none (h : ∀ spec ∈ specs, spec.publicKey ≠ key) : planEntry specs key = none := by
  rw [planEntry, Option.map_eq_none_iff, List.find?_eq_none]
  exact fun spec hspec => by simpa using h spec hspec

/-- **The peer plan.** For peers with distinct keys and indexes whose next hops are peers of the list
that are not private: the entries have distinct keys, the address of every peer that is reached stands
in the entry of its carrier and in no other, no other address appears, every entry has the endpoint and
the keepalive of its owner, and the order of the peers does not matter. -/
theorem planWgPeers_spec (plane : WgPlane) (selfReach : Reachability) (peers : List WgPeer)
    (hkeys : (peers.map WgPeer.publicKey).Nodup) (hidx : (peers.map WgPeer.index).Nodup)
    (hvia : ∀ p ∈ peers, ∀ v, p.via = some v → ∃ q ∈ peers, q.publicKey = v ∧ q.reach ≠ .priv) :
    ((planWgPeers plane selfReach peers).map WgPeerSpec.publicKey).Nodup ∧
    (∀ p ∈ peers, ∀ key, p.carrier selfReach = some key →
      ∃ spec ∈ planWgPeers plane selfReach peers, spec.publicKey = key ∧
        p.cidr plane ∈ spec.allowedIps ∧
        ∀ spec' ∈ planWgPeers plane selfReach peers, p.cidr plane ∈ spec'.allowedIps → spec' = spec) ∧
    (∀ spec ∈ planWgPeers plane selfReach peers, ∀ x ∈ spec.allowedIps,
      ∃ p ∈ peers, p.carrier selfReach = some spec.publicKey ∧ x = p.cidr plane) ∧
    (∀ spec ∈ planWgPeers plane selfReach peers, ∃ p ∈ peers, p.publicKey = spec.publicKey ∧
      (spec.endpoint, spec.keepalive) =
        wgDirectEndpointKeepalive selfReach p.reach p.addr plane.port) ∧
    ∀ peers', peers.Perm peers' →
      planEntry (planWgPeers plane selfReach peers') = planEntry (planWgPeers plane selfReach peers) := by
  have h : Planned plane selfReach peers _ := planned_planWgPeers hkeys
  refine ⟨h.nodup, fun p hp key hc => h.exists_unique_spec hidx hp hc,
    fun spec hspec x hx => (h.mem_allowedIps hspec).1 hx, fun spec hspec => ?_,
    fun peers' hperm => ?_⟩
  · obtain ⟨q, hq, hd, hkey⟩ := h.exists_owner hvia hspec
    exact ⟨q, hq, hkey, h.direct q hq hd spec hspec hkey.symm⟩
  · have h' : Planned plane selfReach peers' _ :=
      planned_planWgPeers ((hperm.map WgPeer.publicKey).nodup_iff.1 hkeys)
    have hvia' : ∀ p ∈ peers', ∀ v, p.via = some v →
        ∃ q ∈ peers', q.publicKey = v ∧ q.reach ≠ .priv := by
      simpa only [hperm.mem_iff] using hvia
    funext key
    by_cases hex : ∃ spec ∈ planWgPeers plane selfReach peers, spec.publicKey = key
    · obtain ⟨spec, hspec, rfl⟩ := hex
      obtain ⟨spec', hspec', hkey, hend, hkeep, hset⟩ :=
        h.exists_same_entry h' (fun p => hperm.mem_iff) hvia hspec
      rw [planEntry_eq_some h.nodup hspec, ← hkey, planEntry_eq_some h'.nodup hspec', hend, hkeep,
        hset]
    · push Not at hex
      rw [planEntry_eq_none hex, planEntry_eq_none]
      intro spec' hspec' hkey'
      obtain ⟨spec, hspec, hkey, -⟩ :=
        h'.exists_same_entry h (fun p => hperm.mem_iff.symm) hvia' hspec'
      exact hex spec hspec (hkey.trans hkey')

/-- A private peer behind a relay that comes after it, and a public peer. -/
def samplePeers : List WgPeer :=
  [⟨.priv, 0, none, "a", some "r"⟩, ⟨.relay, 1, some "192.0.2.1", "r", none⟩,
    ⟨.pub, 2, some "192.0.2.2", "p", none⟩]

theorem planWgPeers_spec_samplePeers :
    (∃ spec ∈ planWgPeers wgMgmt .priv samplePeers, spec.publicKey = "r" ∧
      "10.255.0.1/32" ∈ spec.allowedIps ∧
      ∀ spec' ∈ planWgPeers wgMgmt .priv samplePeers,
        "10.255.0.1/32" ∈ spec'.allowedIps → spec' = spec) ∧
    planEntry (planWgPeers wgMgmt .priv samplePeers.reverse) =
      planEntry (planWgPeers wgMgmt .priv samplePeers) := by
  obtain ⟨-, hcarried, -, -, hperm⟩ := planWgPeers_spec wgMgmt .priv samplePeers (by decide)
    (by decide) (by decide)
  exact ⟨hcarried ⟨.priv, 0, none, "a", some "r"⟩ (by decide) "r" rfl,
    hperm _ (List.reverse_perm _).symm⟩

end Planned

end OCF.Api

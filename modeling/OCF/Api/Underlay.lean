import OCF.Api.RelayDelivery
import OCF.Foundations.Cryptokey
import OCF.Foundations.Run

/-!
# The planes over a history

A node programs its WireGuard planes when it starts and whenever the membership changes, from the
machines its topology has at that time. Programming runs `ip` and `wg`: an address is added to the
interface of each plane and the peers of the plan are set. Nothing removes an address or a peer. A
machine that is put into the topology meanwhile shifts the indexes of the machines that come after it
by name.

`underlay_converged_iff` says for which histories the interfaces always agree with the plan they were
programmed from last.
-/

namespace OCF.Api

open OCF.Fabric OCF.Topology WgNode

/-! ## The commands -/

/-- The arguments of `wg` that set a peer. -/
def wgSetPeerArgs (iface publicKey : String) (endpoint : Option String) (allowedIps : String)
    (keepalive : UInt16) : List String :=
  ["set", iface, "peer", publicKey] ++
    (match endpoint with
      | some ep => ["endpoint", ep]
      | none => []) ++
    ["allowed-ips", allowedIps, "persistent-keepalive", toString keepalive.toNat]

/-- The interface of a plane, as it is driven with `ip` and `wg`. -/
structure WireguardUnderlay where
  iface : String
  listenPort : UInt16

namespace WireguardUnderlay

variable (wg : WireguardUnderlay)

/-- Bring up the interface with an address: the commands, all of which succeed. The key file stands in
the temporary directory. -/
def ensureInterface (tempDir addressCidr : String) : List Command :=
  [("modprobe", ["wireguard"]),
    ("ip", ["link", "add", wg.iface, "type", "wireguard"]),
    ("wg", ["set", wg.iface, "private-key", tempDir ++ "/ocf-" ++ wg.iface ++ ".key",
      "listen-port", toString wg.listenPort.toNat]),
    ("ip", ["addr", "add", addressCidr, "dev", wg.iface]),
    ("ip", ["link", "set", wg.iface, "up"])]

def setPeer (publicKey : String) (endpoint : Option String) (allowedIps : String)
    (keepalive : UInt16) : Command :=
  ("wg", wgSetPeerArgs wg.iface publicKey endpoint allowedIps keepalive)

end WireguardUnderlay

/-- The planes in the order in which they are programmed. -/
def wgPlanes : List WgPlane := [wgMgmt, wgData, wgLb]

section Commands

variable (publicKeyOf : String → Bytes) (tempDir : String)

/-- The commands that program a plane. -/
def WgNode.planeCommands (n : WgNode) (order : List NodeId) (plane : WgPlane) : List Command :=
  let wg : WireguardUnderlay := ⟨plane.iface, plane.port⟩
  wg.ensureInterface tempDir (n.ownIp plane ++ "/16") ++
    (n.programPlane publicKeyOf order plane).map fun spec =>
      wg.setPeer spec.publicKey spec.endpoint (",".intercalate spec.allowedIps) spec.keepalive

/-- The commands that program all planes; without any machine there are none. -/
def WgNode.wireguardCommands (n : WgNode) (order : List NodeId) : List Command :=
  if n.machinePlan = [] then [] else wgPlanes.flatMap (n.planeCommands publicKeyOf tempDir order)

end Commands

/-! ## The interfaces -/

/-- The interfaces by name. -/
abbrev Interfaces := String → Cryptokey String String

/-- The addresses of an argument of `wg`. -/
def splitIps (s : String) : List String := (s.toList.splitOn ',').map String.ofList

/-- The allowed addresses among the options of a peer. -/
def allowedIpsArg : List String → Option (List String)
  | "allowed-ips" :: ips :: _ => some (splitIps ips)
  | _ :: _ :: rest => allowedIpsArg rest
  | _ => none

/-- What a command does to the interfaces. -/
def Interfaces.exec (k : Interfaces) : Command → Interfaces
  | ("ip", ["addr", "add", cidr, "dev", iface]) =>
    Function.update k iface ((k iface).addAddress cidr)
  | ("wg", "set" :: iface :: "peer" :: key :: options) =>
    match allowedIpsArg options with
    | some ips => Function.update k iface ((k iface).setPeer (key, ips))
    | none => k
  | _ => k

/-! ## Histories -/

/-- What a node has: its topology, the interfaces of its host, and what the planes were programmed
from last. -/
structure Underlay where
  topology : InMemoryTopology
  interfaces : Interfaces
  programmed : Option (WgNode × List NodeId)

/-- An event of the history. Programming reads the machines in some order, and uses what is known of
the members and their latencies at that time. -/
inductive UnderlayAct
  | putMachine (m : Machine)
  | program (machines : List Machine) (membership : Membership)
      (peerLatency : HashMap NodeId (BTreeMap String ℚ)) (order : List NodeId)

variable (publicKeyOf : String → Bytes) (tempDir name : String)

/-- One event on the node of a name. -/
def Underlay.step (u : Underlay) : UnderlayAct → Option Underlay
  | .putMachine m => some { u with topology := u.topology.putMachine m }
  | .program machines membership peerLatency order =>
    if machines.Perm u.topology.allMachines then
      let n : WgNode := ⟨name, machines, membership, peerLatency⟩
      some { u with
        interfaces := (n.wireguardCommands publicKeyOf tempDir order).foldl Interfaces.exec
          u.interfaces
        programmed := if n.machinePlan = [] then u.programmed else some (n, order) }
    else none

/-- A node before its planes are programmed for the first time. -/
def Underlay.start (topology : InMemoryTopology) : Underlay := ⟨topology, fun _ => .empty, none⟩

/-- The interface of a plane has the node's own address and no other, and its peers have the addresses
of the plan and no others. -/
def Converged (n : WgNode) (order : List NodeId) (plane : WgPlane) (d : Cryptokey String String) :
    Prop :=
  d.addresses = [n.ownIp plane ++ "/16"] ∧
    ∀ key x, d.allowed x = some key ↔ RoutedTo (n.programPlane publicKeyOf order plane) key x

/-- Every interface agrees with what it was programmed from last. -/
def Underlay.Agrees (u : Underlay) : Prop :=
  ∀ n order, u.programmed = some (n, order) →
    ∀ plane ∈ wgPlanes, Converged publicKeyOf n order plane (u.interfaces plane.iface)

/-- Programming after an earlier time: the node's own address is the same, and a peer that is no longer
in the plan had only addresses that the new plan gives to some peer. -/
def SamePlace (n : WgNode) (order : List NodeId) (n' : WgNode) (order' : List NodeId) : Prop :=
  ∀ plane ∈ wgPlanes, n'.ownIp plane = n.ownIp plane ∧
    ∀ key x, RoutedTo (n.programPlane publicKeyOf order plane) key x →
      (∃ key', RoutedTo (n'.programPlane publicKeyOf order' plane) key' x) ∨
        ∃ x', RoutedTo (n'.programPlane publicKeyOf order' plane) key x'

/-- The event keeps what was programmed before in its place. -/
def Underlay.Keeps (u : Underlay) : UnderlayAct → Prop
  | .putMachine _ => True
  | .program machines membership peerLatency order' =>
    machines ≠ [] → ∀ n order, u.programmed = some (n, order) →
      SamePlace publicKeyOf n order ⟨name, machines, membership, peerLatency⟩ order'

/-! ## What the commands do -/

variable {publicKeyOf tempDir name}

/-- Addresses that are joined by commas are cut where they were joined. -/
theorem splitIps_intercalate {ips : List String} (hips : ∀ x ∈ ips, ',' ∉ x.toList) (hne : ips ≠ []) :
    splitIps (",".intercalate ips) = ips := by
  have hsplit : (List.intercalate [','] (ips.map String.toList)).splitOn ',' =
      ips.map String.toList :=
    List.splitOn_intercalate ',' (by simpa using hips) (by simpa using hne)
  rw [splitIps, String.toList_intercalate, show ",".toList = [','] from rfl, hsplit, List.map_map]
  simp [Function.comp_def]

theorem allowedIpsArg_wgSetPeerArgs (endpoint : Option String) (ips : String) (keepalive : UInt16) :
    allowedIpsArg ((match endpoint with
      | some ep => ["endpoint", ep]
      | none => []) ++ ["allowed-ips", ips, "persistent-keepalive", toString keepalive.toNat]) =
        some (splitIps ips) := by
  cases endpoint with
  | none => rfl
  | some ep => rfl

theorem exec_setPeer (k : Interfaces) (wg : WireguardUnderlay) (key : String)
    (endpoint : Option String) {ips : List String} (keepalive : UInt16)
    (hips : ∀ x ∈ ips, ',' ∉ x.toList) (hne : ips ≠ []) :
    k.exec (wg.setPeer key endpoint (",".intercalate ips) keepalive) =
      Function.update k wg.iface ((k wg.iface).setPeer (key, ips)) := by
  have harg := allowedIpsArg_wgSetPeerArgs endpoint (",".intercalate ips) keepalive
  rw [splitIps_intercalate hips hne] at harg
  simp only [WireguardUnderlay.setPeer, wgSetPeerArgs, List.cons_append, List.nil_append,
    Interfaces.exec]
  rw [harg]

theorem foldl_exec_ensureInterface (k : Interfaces) (wg : WireguardUnderlay)
    (tempDir addressCidr : String) :
    (wg.ensureInterface tempDir addressCidr).foldl Interfaces.exec k =
      Function.update k wg.iface ((k wg.iface).addAddress addressCidr) := rfl

/-- The peers of a plan with their addresses. -/
def peerTable (specs : List WgPeerSpec) : List (String × List String) :=
  specs.map fun spec => (spec.publicKey, spec.allowedIps)

theorem foldl_exec_setPeer (k : Interfaces) (wg : WireguardUnderlay) {specs : List WgPeerSpec}
    (hspecs : ∀ spec ∈ specs, spec.allowedIps ≠ [] ∧ ∀ x ∈ spec.allowedIps, ',' ∉ x.toList) :
    (specs.map fun spec => wg.setPeer spec.publicKey spec.endpoint (",".intercalate spec.allowedIps)
        spec.keepalive).foldl Interfaces.exec k =
      Function.update k wg.iface ((k wg.iface).setPeers (peerTable specs)) := by
  induction specs generalizing k with
  | nil => exact (Function.update_eq_self _ _).symm
  | cons spec specs ih =>
    obtain ⟨hne, hips⟩ := hspecs spec List.mem_cons_self
    rw [List.map_cons, List.foldl_cons, exec_setPeer k wg spec.publicKey spec.endpoint spec.keepalive
      hips hne, ih _ fun s hs => hspecs s (List.mem_cons_of_mem spec hs), Function.update_self,
      Function.update_idem]
    rfl

theorem mem_peerTable {specs : List WgPeerSpec} {key x : String} :
    (∃ e ∈ peerTable specs, e.1 = key ∧ x ∈ e.2) ↔ RoutedTo specs key x := by
  simp [peerTable, RoutedTo]

theorem serves_peerTable {d : Cryptokey String String} {specs : List WgPeerSpec} :
    d.Serves (peerTable specs) ↔ ∀ key x, d.allowed x = some key ↔ RoutedTo specs key x :=
  forall₂_congr fun key x => by rw [mem_peerTable]

/-! ## The plan of a node -/

section Plan

variable {n : WgNode} {order : List NodeId} {plane : WgPlane}

/-- The candidate peers of a node. -/
def WgNode.candidates (publicKeyOf : String → Bytes) (n : WgNode) (order : List NodeId) :
    List WgPeer :=
  (n.machinePlan.filter fun e => e.2.1 ≠ n.nodeId).map (n.wgPeer publicKeyOf order)

theorem entered_programPlane : Entered plane n.selfReach (n.candidates publicKeyOf order)
    (n.programPlane publicKeyOf order plane) := by
  have hentered : Entered plane n.selfReach (n.candidates publicKeyOf order) _ :=
    entered_planWgPeers _
  have hfilter : n.programPlane publicKeyOf order plane =
      planWgPeers plane n.selfReach (n.candidates publicKeyOf order) := by
    rw [programPlane, ← candidates, List.filter_eq_self]
    intro spec hspec
    simpa using hentered.nonempty spec hspec
  rw [hfilter]
  exact hentered

theorem nodup_candidates_index : ((n.candidates publicKeyOf order).map WgPeer.index).Nodup := by
  rw [candidates, List.map_map]
  exact n.nodup_plan_indexes.sublist (List.filter_sublist.map _)

/-- Every peer and every address stands in the plan once. -/
theorem disjoint_programPlane (publicKeyOf : String → Bytes) (n : WgNode) (order : List NodeId)
    (plane : WgPlane) :
    Cryptokey.Disjoint (peerTable (n.programPlane publicKeyOf order plane)) := by
  have hentered : Entered plane n.selfReach (n.candidates publicKeyOf order) _ :=
    entered_programPlane
  refine ⟨by simpa [peerTable, Function.comp_def] using hentered.nodup, ?_⟩
  intro e he e' he' x hx hx'
  obtain ⟨spec, hspec, rfl⟩ := List.mem_map.1 he
  obtain ⟨spec', hspec', rfl⟩ := List.mem_map.1 he'
  obtain ⟨p, hp, hkey, hcidr⟩ := (hentered.routed _ x).1 ⟨spec, hspec, rfl, hx⟩
  obtain ⟨q, hq, hkey', hcidr'⟩ := (hentered.routed _ x).1 ⟨spec', hspec', rfl, hx'⟩
  obtain rfl := List.inj_on_of_nodup_map nodup_candidates_index hp hq
    (cidr_inj.1 (hcidr.symm.trans hcidr'))
  rw [eq_of_publicKey_eq hentered.nodup hspec hspec' (Option.some.inj (hkey.symm.trans hkey'))]

/-- The address of a peer on one of the planes has no comma. -/
theorem comma_notMem_cidr (hplane : plane ∈ wgPlanes) (p : WgPeer) : ',' ∉ (p.cidr plane).toList := by
  have haddr : ',' ∉ plane.addrPrefix.toList := by
    revert plane
    decide
  have hdigits : ',' ∉ (toString (p.index + 1)).toList := by
    intro h
    have hdigit : ','.isDigit = true := by
      refine Nat.isDigit_of_mem_toDigits (b := 10) (n := p.index + 1) (by decide) (by decide) ?_
      simpa [toString, Nat.repr] using h
    exact absurd hdigit (by decide)
  simp only [WgPeer.cidr, WgPlane.ip, String.toList_append, List.mem_append, not_or]
  exact ⟨⟨⟨haddr, by decide⟩, hdigits⟩, by decide⟩

/-- **What programming a plane does to its interface.** -/
theorem foldl_exec_planeCommands (k : Interfaces) (hplane : plane ∈ wgPlanes) :
    (n.planeCommands publicKeyOf tempDir order plane).foldl Interfaces.exec k =
      Function.update k plane.iface (((k plane.iface).addAddress (n.ownIp plane ++ "/16")).setPeers
        (peerTable (n.programPlane publicKeyOf order plane))) := by
  have hentered : Entered plane n.selfReach (n.candidates publicKeyOf order) _ :=
    entered_programPlane
  rw [planeCommands, List.foldl_append, foldl_exec_ensureInterface, foldl_exec_setPeer,
    Function.update_self, Function.update_idem]
  intro spec hspec
  refine ⟨hentered.nonempty spec hspec, fun x hx => ?_⟩
  obtain ⟨p, -, -, rfl⟩ := (hentered.routed _ x).1 ⟨spec, hspec, rfl, hx⟩
  exact comma_notMem_cidr hplane p

/-- What programming all planes does to the interface of each. -/
theorem foldl_exec_wireguardCommands (publicKeyOf : String → Bytes) (tempDir : String)
    (order : List NodeId) (k : Interfaces) (hplan : n.machinePlan ≠ [])
    (hplane : plane ∈ wgPlanes) :
    ((n.wireguardCommands publicKeyOf tempDir order).foldl Interfaces.exec k) plane.iface =
      ((k plane.iface).addAddress (n.ownIp plane ++ "/16")).setPeers
        (peerTable (n.programPlane publicKeyOf order plane)) := by
  have hflat : wgPlanes.flatMap (n.planeCommands publicKeyOf tempDir order) =
      n.planeCommands publicKeyOf tempDir order wgMgmt ++
        (n.planeCommands publicKeyOf tempDir order wgData ++
          n.planeCommands publicKeyOf tempDir order wgLb) := by
    simp [wgPlanes]
  rw [wireguardCommands, if_neg hplan, hflat, List.foldl_append, List.foldl_append,
    foldl_exec_planeCommands _ (by simp [wgPlanes]), foldl_exec_planeCommands _ (by simp [wgPlanes]),
    foldl_exec_planeCommands _ (by simp [wgPlanes])]
  -- the interfaces of the planes have different names
  simp only [wgPlanes, List.mem_cons, List.not_mem_nil, or_false] at hplane
  obtain rfl | rfl | rfl := hplane
  · rw [Function.update_of_ne (by decide), Function.update_of_ne (by decide), Function.update_self]
  · rw [Function.update_of_ne (by decide), Function.update_self, Function.update_of_ne (by decide)]
  · rw [Function.update_self, Function.update_of_ne (by decide), Function.update_of_ne (by decide)]

/-- Programming a plane for the first time. -/
theorem converged_empty : Converged publicKeyOf n order plane
    ((Cryptokey.empty.addAddress (n.ownIp plane ++ "/16")).setPeers
      (peerTable (n.programPlane publicKeyOf order plane))) := by
  refine ⟨?_, fun key x => ?_⟩
  · rw [Cryptokey.setPeers_addresses]
    rfl
  · rw [← mem_peerTable]
    refine (Cryptokey.serves_setPeers_iff (disjoint_programPlane publicKeyOf n order plane)).2 ?_ key x
    simp [Cryptokey.empty, Cryptokey.addAddress_allowed]

/-- **Programming a plane again.** -/
theorem converged_iff (n' : WgNode) (order' : List NodeId) {d : Cryptokey String String}
    (hd : Converged publicKeyOf n order plane d) :
    Converged publicKeyOf n' order' plane
        ((d.addAddress (n'.ownIp plane ++ "/16")).setPeers
          (peerTable (n'.programPlane publicKeyOf order' plane))) ↔
      n'.ownIp plane = n.ownIp plane ∧
        ∀ key x, RoutedTo (n.programPlane publicKeyOf order plane) key x →
          (∃ key', RoutedTo (n'.programPlane publicKeyOf order' plane) key' x) ∨
            ∃ x', RoutedTo (n'.programPlane publicKeyOf order' plane) key x' := by
  obtain ⟨haddresses, hallowed⟩ := hd
  refine and_congr ?_ ?_
  · rw [Cryptokey.setPeers_addresses, Cryptokey.addAddress, haddresses]
    by_cases hsame : n'.ownIp plane = n.ownIp plane
    · simp [hsame, haddresses]
    · have hne : n'.ownIp plane ++ "/16" ∉ [n.ownIp plane ++ "/16"] := by
        rwa [List.mem_singleton, String.append_left_inj]
      rw [if_neg hne]
      simp [hsame]
  · rw [← serves_peerTable, Cryptokey.serves_setPeers_iff (disjoint_programPlane _ n' order' plane),
      Cryptokey.addAddress_allowed]
    refine forall₂_congr fun key x => imp_congr (hallowed key x) (or_congr ?_ ?_)
    · simp [peerTable, RoutedTo]
    · -- a peer of the plan has an address
      constructor
      · rintro ⟨e, he, rfl⟩
        obtain ⟨spec, hspec, rfl⟩ := List.mem_map.1 he
        obtain ⟨x', hx'⟩ := List.exists_mem_of_ne_nil _ (entered_programPlane.nonempty spec hspec)
        exact ⟨x', spec, hspec, rfl, hx'⟩
      · rintro ⟨x', spec, hspec, rfl, -⟩
        exact ⟨_, List.mem_map_of_mem hspec, rfl⟩

end Plan

/-! ## The history -/

/-- What holds while every event keeps what was programmed in its place. -/
def Underlay.Sound (publicKeyOf : String → Bytes) (u : Underlay) : Prop :=
  u.Agrees publicKeyOf ∧
    (u.programmed = none → ∀ plane ∈ wgPlanes, u.interfaces plane.iface = .empty)

variable {u u' : Underlay} {a : UnderlayAct}

theorem machinePlan_eq_nil {n : WgNode} : n.machinePlan = [] ↔ n.machines = [] := by
  rw [machinePlan_eq, List.map_eq_nil_iff, List.zipIdx_eq_nil_iff, ← List.length_eq_zero_iff,
    ← List.length_eq_zero_iff, n.byName_perm.length_eq]

/-- **One event.** What was programmed agrees after it if and only if it was kept in its place. -/
theorem Underlay.Sound.step (hu : u.Sound publicKeyOf)
    (h : u.step publicKeyOf tempDir name a = some u') :
    (u.Keeps publicKeyOf name a → u'.Sound publicKeyOf) ∧
      (u'.Agrees publicKeyOf → u.Keeps publicKeyOf name a) := by
  obtain ⟨hagrees, hfirst⟩ := hu
  cases a with
  | putMachine m =>
    obtain rfl := Option.some.inj h
    exact ⟨fun _ => ⟨hagrees, hfirst⟩, fun _ => trivial⟩
  | program machines membership peerLatency order' =>
    simp only [Underlay.step] at h
    split_ifs at h with hperm hnil
    · -- without any machine nothing is done
      obtain rfl := Option.some.inj h
      simp only [wireguardCommands, if_pos hnil, List.foldl_nil]
      exact ⟨fun _ => ⟨hagrees, hfirst⟩, fun _ hne => absurd (machinePlan_eq_nil.1 hnil) hne⟩
    · obtain rfl := Option.some.inj h
      have hcmd := fun (plane : WgPlane) (hplane : plane ∈ wgPlanes) =>
        foldl_exec_wireguardCommands publicKeyOf tempDir order' u.interfaces hnil hplane
      cases hprog : u.programmed with
      | none =>
        refine ⟨fun _ => ⟨?_, by simp⟩, fun _ _ n order hn => ?_⟩
        · rintro n order hn plane hplane
          obtain ⟨rfl, rfl⟩ := Prod.mk.inj (Option.some.inj hn)
          dsimp only
          rw [hcmd plane hplane, hfirst hprog plane hplane]
          exact converged_empty
        · rw [hprog] at hn
          cases hn
      | some prev =>
        obtain ⟨n, order⟩ := prev
        have hiff := fun plane hplane => converged_iff ⟨name, machines, membership, peerLatency⟩ order'
          (hagrees n order hprog plane hplane)
        refine ⟨fun hkeeps => ⟨?_, by simp⟩, fun hnew hne m morder hm => ?_⟩
        · rintro n' order'' hn plane hplane
          obtain ⟨rfl, rfl⟩ := Prod.mk.inj (Option.some.inj hn)
          dsimp only
          rw [hcmd plane hplane, hiff plane hplane]
          exact hkeeps (fun he => hnil (machinePlan_eq_nil.2 he)) n order hprog plane hplane
        · obtain ⟨rfl, rfl⟩ := Prod.mk.inj (Option.some.inj (hprog.symm.trans hm))
          intro plane hplane
          rw [← hiff plane hplane, ← hcmd plane hplane]
          exact hnew _ _ rfl plane hplane

/-- **Convergence of the underlay.** For every history of a node, from any topology: the interfaces of
all planes agree with the plan after every programming if and only if every programming after the
first one finds the node's own address unchanged, and gives to some peer every address of a peer that
is no longer in the plan. -/
theorem underlay_converged_iff (publicKeyOf : String → Bytes) (tempDir name : String)
    (topology : InMemoryTopology) (acts : List UnderlayAct) (u : Underlay)
    (hrun : run (Underlay.step publicKeyOf tempDir name) (.start topology) acts = some u) :
    (∀ i t, run (Underlay.step publicKeyOf tempDir name) (.start topology) (acts.take i) = some t →
      t.Agrees publicKeyOf) ↔
      Guarded (Underlay.step publicKeyOf tempDir name) (Underlay.Keeps publicKeyOf name)
        (.start topology) acts := by
  have hstart : (Underlay.start topology).Sound publicKeyOf :=
    ⟨by simp [Underlay.Agrees, Underlay.start], fun _ plane _ => rfl⟩
  refine (Guarded.iff_forall_states (I := Underlay.Sound publicKeyOf)
    (fun _ hs => hs.1) ?_ ?_ hstart hrun).symm
  · exact fun s a s' hs hkeeps hstep => (hs.step hstep).1 hkeeps
  · exact fun s a s' hs hstep hagrees => (hs.step hstep).2 hagrees

/-! ## Machines that are added -/

/-- A node with public machines and no measurements. -/
def plainNode (self : String) (names : List String) : WgNode :=
  ⟨self, names.map fun name => labelledMachine name "public", .new (nodeIdOf spelledKey self), ∅⟩

/-- Program the planes from public machines. -/
def programFrom (self : String) (names : List String) : UnderlayAct :=
  .program (plainNode self names).machines (plainNode self names).membership ∅ []

/-- A topology with one machine. -/
def oneMachine (self : String) : InMemoryTopology :=
  InMemoryTopology.new.putMachine (labelledMachine self "public")

/-- A node programs its planes, a machine is added, and the node programs them again. -/
def addedMachine (self added : String) : List UnderlayAct :=
  [programFrom self [self], .putMachine (labelledMachine added "public"),
    programFrom self [self, added]]

theorem step_programFrom {self first : String} {rest : List String}
    (hperm : (plainNode self (first :: rest)).machines.Perm u.topology.allMachines) :
    u.step spelledKey "/tmp" self (programFrom self (first :: rest)) = some { u with
      interfaces := ((plainNode self (first :: rest)).wireguardCommands spelledKey "/tmp" []).foldl
        Interfaces.exec u.interfaces
      programmed := some (plainNode self (first :: rest), []) } := by
  have hplan : (plainNode self (first :: rest)).machinePlan ≠ [] := by
    rw [Ne, machinePlan_eq_nil]
    simp [plainNode]
  rw [programFrom, Underlay.step, if_pos hperm]
  exact congrArg some (congrArg (Underlay.mk _ _) (if_neg hplan))

theorem run_addedMachine {self added : String} (hperm : (plainNode self [self, added]).machines.Perm
      ((oneMachine self).putMachine (labelledMachine added "public")).allMachines) :
    run (Underlay.step spelledKey "/tmp" self) (.start (oneMachine self)) (addedMachine self added) =
      some ⟨(oneMachine self).putMachine (labelledMachine added "public"),
        ((plainNode self [self, added]).wireguardCommands spelledKey "/tmp" []).foldl Interfaces.exec
          (((plainNode self [self]).wireguardCommands spelledKey "/tmp" []).foldl Interfaces.exec
            fun _ => .empty),
        some (plainNode self [self, added], [])⟩ := by
  rw [addedMachine, run_cons, step_programFrom (.refl _), Option.bind_some,
    run_cons, Underlay.step, Option.bind_some, run_cons, step_programFrom hperm]
  rfl

/-- A machine that comes later by name: the planes agree with the plan all the time. -/
theorem underlay_converged_iff_later :
    ∃ u, run (Underlay.step spelledKey "/tmp" "a") (.start (oneMachine "a"))
        (addedMachine "a" "b") = some u ∧
      ∀ i t, run (Underlay.step spelledKey "/tmp" "a") (.start (oneMachine "a"))
        ((addedMachine "a" "b").take i) = some t → t.Agrees spelledKey := by
  have hperm : (plainNode "a" ["a", "b"]).machines.Perm
      ((oneMachine "a").putMachine (labelledMachine "b" "public")).allMachines := .swap ..
  have hrun := run_addedMachine hperm
  refine ⟨_, hrun, (underlay_converged_iff spelledKey "/tmp" "a" (oneMachine "a") _ _ hrun).2 ?_⟩
  refine .cons ?_ (step_programFrom (.refl _)) (.cons trivial rfl ⟨?_, fun _ _ => trivial⟩)
  · exact fun _ n order hn => by cases hn
  · intro _ n order hn plane hplane
    obtain ⟨rfl, rfl⟩ := Prod.mk.inj (Option.some.inj hn)
    have hown : ∀ plane ∈ wgPlanes,
        (plainNode "a" ["a", "b"]).ownIp plane = (plainNode "a" ["a"]).ownIp plane := by
      decide +kernel
    refine ⟨hown plane hplane, fun key x hrouted => ?_⟩
    -- there was no other machine, so there was no peer
    obtain ⟨spec, hspec, -⟩ := hrouted
    cases hspec

/-- A machine that comes earlier by name: it is given the address that the node still has. -/
theorem own_address_is_kept :
    ∃ u n order, run (Underlay.step spelledKey "/tmp" "b") (.start (oneMachine "b"))
        (addedMachine "b" "a") = some u ∧ u.programmed = some (n, order) ∧
      (u.interfaces "wg-mgmt").addresses = ["10.255.0.1/16", "10.255.0.2/16"] ∧
      RoutedTo (n.programPlane spelledKey order wgMgmt) (wireguardKeyOf spelledKey "a")
        "10.255.0.1/32" ∧
      ¬u.Agrees spelledKey := by
  have hperm : (plainNode "b" ["b", "a"]).machines.Perm
      ((oneMachine "b").putMachine (labelledMachine "a" "public")).allMachines := .swap ..
  have haddresses : ((((plainNode "b" ["b", "a"]).wireguardCommands spelledKey "/tmp" []).foldl
      Interfaces.exec (((plainNode "b" ["b"]).wireguardCommands spelledKey "/tmp" []).foldl
        Interfaces.exec fun _ => .empty)) "wg-mgmt").addresses =
      ["10.255.0.1/16", "10.255.0.2/16"] := by decide +kernel
  have hrouted : ∃ spec ∈ (plainNode "b" ["b", "a"]).programPlane spelledKey [] wgMgmt,
      spec.publicKey = wireguardKeyOf spelledKey "a" ∧ "10.255.0.1/32" ∈ spec.allowedIps := by
    decide +kernel
  refine ⟨_, _, _, run_addedMachine hperm, rfl, haddresses, hrouted, fun hagrees => ?_⟩
  obtain ⟨hone, -⟩ := hagrees _ _ rfl wgMgmt (List.mem_cons_self ..)
  have hlength := congrArg List.length (haddresses.symm.trans hone)
  simp at hlength

end OCF.Api

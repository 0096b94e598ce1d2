import OCF.Api.Addressing
import OCF.Foundations.LastWrite
import OCF.Foundations.Utf8
import OCF.Network.Backend

/-!
# The tunnel mesh of Open vSwitch hosts

A host with Open vSwitch gets, for every VPC, one VXLAN port per other machine. The remote end of a
port is the machine's address on the data plane, and the port is named after the VPC's network
identifier and the first ten characters of that address. All addresses begin with `10.254.0.`, which
is nine characters: of the machine's number only the first digit is left in the name.

`tunnelMesh_iff` says when the ports form the mesh: when the numbers of the other machines begin
with different digits and, as soon as there is one, the network identifier has at most two digits.
-/

namespace OCF.Network

open Text

/-! ## The commands -/

/-- The part of a port's name that stands for the peer. -/
def ovsPeerSuffix (peer : String) : String := String.ofList ((sanitize peer).toList.take 10)

/-- The bridge of a VPC. -/
def ovsBridge (vpc : Vpc) : String := "ovs-" ++ toString vpc.vni.toNat

/-- The port of a VPC towards a peer. -/
def ovsTunnelPort (vpc : Vpc) (peer : String) : String :=
  "vx" ++ toString vpc.vni.toNat ++ "-" ++ ovsPeerSuffix peer

/-- Create the port towards a peer. -/
def addTunnelPort (vpc : Vpc) (peer : String) : Command :=
  let port := ovsTunnelPort vpc peer
  ⟨"ovs-vsctl", ["--may-exist", "add-port", ovsBridge vpc, port, "--", "set", "interface", port,
    "type=vxlan", "options:key=" ++ toString vpc.vni.toNat, "options:remote_ip=" ++ peer]⟩

/-- `OvsBackend::apply_vpc_peers`. -/
def OvsBackend.applyVpcPeers (vpc : Vpc) (peerVteps : List String) : List Command :=
  peerVteps.map (addTunnelPort vpc)

/-! ## The switch -/

/-- The configuration of a switch: the bridge of each port, and the columns of each interface. -/
structure Ovsdb where
  bridgeOf : String → Option String
  column : String → String → Option String

namespace Ovsdb

/-- Set a column of an interface to a value, both written as one argument. -/
def set (iface : String) (db : Ovsdb) (setting : String) : Option Ovsdb :=
  (splitOnce '=' setting.toList).map fun (name, value) =>
    { db with
      column := Function.update db.column iface
        (Function.update (db.column iface) (String.ofList name) (some (String.ofList value))) }

/-- `ovs-vsctl` on the command that creates a port. A port that is on the bridge already stays, one
of that name on another bridge is an error. -/
def exec (db : Ovsdb) (c : Command) : Option Ovsdb :=
  match c.args with
  | "--may-exist" :: "add-port" :: bridge :: port :: "--" :: "set" :: "interface" :: iface ::
      settings =>
    if ∀ b ∈ db.bridgeOf port, b = bridge then
      run (set iface) { db with bridgeOf := Function.update db.bridgeOf port (some bridge) }
        settings
    else none
  | _ => none

/-- The remote end of a tunnel port. -/
def remoteIp (db : Ovsdb) (port : String) : Option String := db.column port "options:remote_ip"

/-- No port of the VPC is on a bridge other than the VPC's. -/
def Free (vpc : Vpc) (db : Ovsdb) : Prop :=
  ∀ peer, ∀ b ∈ db.bridgeOf (ovsTunnelPort vpc peer), b = ovsBridge vpc

/-- A switch with no ports. -/
def empty : Ovsdb := ⟨fun _ => none, fun _ _ => none⟩

end Ovsdb

/-- **The tunnel mesh**: the ports towards the peers have distinct names that fit an interface name,
and after the commands there is a port for every peer whose remote end is that peer, and no other
new port. -/
structure TunnelMesh (vpc : Vpc) (peers : List String) : Prop where
  names : (peers.map (ovsTunnelPort vpc)).Nodup
  short : ∀ peer ∈ peers, (utf8 (ovsTunnelPort vpc peer)).length ≤ 15
  each : ∀ db, db.Free vpc → ∃ db',
    run Ovsdb.exec db (OvsBackend.applyVpcPeers vpc peers) = some db' ∧
    (∀ peer ∈ peers, db'.bridgeOf (ovsTunnelPort vpc peer) = some (ovsBridge vpc) ∧
      db'.remoteIp (ovsTunnelPort vpc peer) = some peer) ∧
    ∀ port, port ∉ peers.map (ovsTunnelPort vpc) → db'.bridgeOf port = db.bridgeOf port

section Switch

variable {vpc : Vpc} {db db' : Ovsdb} {peer : String} {peers : List String}

theorem Ovsdb.set_append {name value iface : String} (h : '=' ∉ name.toList) :
    Ovsdb.set iface db (name ++ "=" ++ value) = some
      { db with
        column := Function.update db.column iface
          (Function.update (db.column iface) name (some value)) } := by
  have hsplit : splitOnce '=' (name ++ "=" ++ value).toList = some (name.toList, value.toList) := by
    rw [String.toList_append, String.toList_append, List.append_assoc]
    exact splitOnce_append h
  rw [Ovsdb.set, hsplit]
  simp

/-- The configuration with the port towards a peer. -/
def Ovsdb.withTunnel (vpc : Vpc) (db : Ovsdb) (peer : String) : Ovsdb :=
  let port := ovsTunnelPort vpc peer
  { bridgeOf := Function.update db.bridgeOf port (some (ovsBridge vpc))
    column := Function.update db.column port <|
      Function.update (Function.update (Function.update (db.column port) "type" (some "vxlan"))
        "options:key" (some (toString vpc.vni.toNat))) "options:remote_ip" (some peer) }

theorem exec_addTunnelPort (vpc : Vpc) (db : Ovsdb) (peer : String) :
    db.exec (addTunnelPort vpc peer) =
      if ∀ b ∈ db.bridgeOf (ovsTunnelPort vpc peer), b = ovsBridge vpc then
        some (db.withTunnel vpc peer)
      else none := by
  have htype : "type=vxlan" = "type" ++ "=" ++ "vxlan" := rfl
  have hkey : "options:key=" ++ toString vpc.vni.toNat =
      "options:key" ++ "=" ++ toString vpc.vni.toNat := rfl
  have hremote : "options:remote_ip=" ++ peer = "options:remote_ip" ++ "=" ++ peer := rfl
  simp only [Ovsdb.exec, addTunnelPort]
  rw [htype, hkey, hremote]
  simp only [run_cons, run_nil, Ovsdb.set_append (by decide : '=' ∉ "type".toList),
    Ovsdb.set_append (by decide : '=' ∉ "options:key".toList),
    Ovsdb.set_append (by decide : '=' ∉ "options:remote_ip".toList), Option.bind_some,
    Function.update_self, Function.update_idem]
  rfl

theorem bridgeOf_withTunnel (port : String) : (db.withTunnel vpc peer).bridgeOf port =
    if port = ovsTunnelPort vpc peer then some (ovsBridge vpc) else db.bridgeOf port :=
  Function.update_apply ..

theorem remoteIp_withTunnel (port : String) : (db.withTunnel vpc peer).remoteIp port =
    if port = ovsTunnelPort vpc peer then some peer else db.remoteIp port := by
  unfold Ovsdb.remoteIp Ovsdb.withTunnel
  by_cases hport : port = ovsTunnelPort vpc peer
  · simp [hport]
  · simp [hport]

theorem free_withTunnel (peer : String) (h : db.Free vpc) : (db.withTunnel vpc peer).Free vpc := by
  intro q b hb
  rw [bridgeOf_withTunnel] at hb
  split_ifs at hb with hq
  · exact (Option.mem_some_iff.1 hb).symm
  · exact h q b hb

/-- The commands succeed on a switch that has none of the ports on another bridge. -/
theorem exists_run_applyVpcPeers (peers : List String) (h : db.Free vpc) :
    ∃ db', run Ovsdb.exec db (OvsBackend.applyVpcPeers vpc peers) = some db' := by
  induction peers generalizing db with
  | nil => exact ⟨db, rfl⟩
  | cons peer peers ih =>
    obtain ⟨db', hdb'⟩ := ih (free_withTunnel peer h)
    refine ⟨db', run_cons_eq_some.2 ⟨db.withTunnel vpc peer, ?_, hdb'⟩⟩
    rw [exec_addTunnelPort, if_pos (h peer)]

/-- Peer by peer, a command sets the port towards the peer and no other. -/
theorem read_applyVpcPeers {V : Type*} (read : Ovsdb → String → Option V) {val : String → Option V}
    (hread : ∀ db peer port, read (db.withTunnel vpc peer) port =
      if port = ovsTunnelPort vpc peer then val peer else read db port)
    (h : run Ovsdb.exec db (OvsBackend.applyVpcPeers vpc peers) = some db') (port : String) :
    read db' port = (lastWith (ovsTunnelPort vpc) peers port).elim (read db port) val := by
  have hpeers : run (fun db peer => run Ovsdb.exec db [addTunnelPort vpc peer]) db peers =
      some db' := by
    rw [run_flatMap, ← List.map_eq_flatMap]
    exact h
  refine run_read read (fun db peer t ht port => ?_) hpeers port
  obtain ⟨u, hu, hnil⟩ := run_cons_eq_some.1 ht
  obtain rfl := Option.some.inj hnil
  rw [exec_addTunnelPort] at hu
  split_ifs at hu
  rw [← Option.some.inj hu, hread]

theorem bridgeOf_applyVpcPeers
    (h : run Ovsdb.exec db (OvsBackend.applyVpcPeers vpc peers) = some db') (port : String) :
    db'.bridgeOf port =
      if port ∈ peers.map (ovsTunnelPort vpc) then some (ovsBridge vpc) else db.bridgeOf port := by
  rw [read_applyVpcPeers Ovsdb.bridgeOf (fun db q port => bridgeOf_withTunnel port) h]
  split_ifs with hport
  · obtain ⟨peer, hmem, rfl⟩ := List.mem_map.1 hport
    obtain ⟨q, hlast, -⟩ : ∃ q,
        lastWith (ovsTunnelPort vpc) peers (ovsTunnelPort vpc peer) = some q ∧ _ := lastWith_of_mem hmem
    rw [hlast]
    rfl
  · have hlast : lastWith (ovsTunnelPort vpc) peers port = none :=
      lastWith_eq_none.2 fun peer hmem e => hport (List.mem_map.2 ⟨peer, hmem, e⟩)
    rw [hlast]
    rfl

theorem remoteIp_applyVpcPeers (hnames : (peers.map (ovsTunnelPort vpc)).Nodup)
    (hmem : peer ∈ peers) (h : run Ovsdb.exec db (OvsBackend.applyVpcPeers vpc peers) = some db') :
    db'.remoteIp (ovsTunnelPort vpc peer) = some peer := by
  have hlast : lastWith (ovsTunnelPort vpc) peers (ovsTunnelPort vpc peer) = some peer :=
    lastWith_eq_of_unique hmem fun q hq e => List.inj_on_of_nodup_map hnames hq hmem e
  rw [read_applyVpcPeers Ovsdb.remoteIp (fun db q port => remoteIp_withTunnel port) h, hlast]
  rfl

/-- Ports with distinct names that fit form the mesh. -/
theorem tunnelMesh_iff_names : TunnelMesh vpc peers ↔ (peers.map (ovsTunnelPort vpc)).Nodup ∧
    ∀ peer ∈ peers, (utf8 (ovsTunnelPort vpc peer)).length ≤ 15 := by
  constructor
  · intro h
    exact ⟨h.names, h.short⟩
  · rintro ⟨hnames, hshort⟩
    refine ⟨hnames, hshort, fun db hfree => ?_⟩
    obtain ⟨db', hdb'⟩ := exists_run_applyVpcPeers peers hfree
    refine ⟨db', hdb', fun peer hmem => ⟨?_, remoteIp_applyVpcPeers hnames hmem hdb'⟩,
      fun port hport => ?_⟩
    · rw [bridgeOf_applyVpcPeers hdb', if_pos (List.mem_map_of_mem hmem)]
    · rw [bridgeOf_applyVpcPeers hdb', if_neg hport]

end Switch

end OCF.Network

namespace OCF.Api

open OCF.Network

/-! ## The mesh of a fleet -/

namespace WgNode

variable (n : WgNode)

/-- The data-plane addresses of the other machines. -/
def peerVteps : List String :=
  (n.machinePlan.filter fun e => e.2.1 ≠ n.nodeId).map fun e => wgData.ip e.2.2.1

/-- The numbers of the other machines: their places in the list of machines by name, from one. -/
def otherHosts : List ℕ :=
  (n.machinePlan.filter fun e => e.2.1 ≠ n.nodeId).map fun e => e.2.2.1 + 1

end WgNode

/-- The first digit of a number. -/
def leadingDigit (n : ℕ) : Option Char := (Nat.toDigits 10 n).head?

theorem isSome_leadingDigit (n : ℕ) : (leadingDigit n).isSome :=
  List.isSome_head?.2 Nat.toDigits_ne_nil

/-- Of an address on the data plane the name of a port keeps the first digit of the last octet. -/
theorem ovsPeerSuffix_ip (i : ℕ) : (ovsPeerSuffix (wgData.ip i)).toList =
    "10_254_0_".toList ++ (leadingDigit (i + 1)).toList := by
  have hip : (wgData.ip i).toList = "10.254.0.".toList ++ Nat.toDigits 10 (i + 1) := by
    simp [WgPlane.ip, wgData, toString, Nat.repr]
  have hdigits : (Nat.toDigits 10 (i + 1)).map (fun c => if c.isAlphanum then c else '_') =
      Nat.toDigits 10 (i + 1) := by
    rw [List.map_congr_left (g := id), List.map_id]
    intro c hc
    have hc' : c.isDigit := Nat.isDigit_of_mem_toDigits (by decide) (by decide) hc
    simp [Char.isAlphanum, hc']
  have htake : (Nat.toDigits 10 (i + 1)).take 1 = (leadingDigit (i + 1)).toList := by
    rw [leadingDigit]
    cases Nat.toDigits 10 (i + 1) <;> rfl
  rw [ovsPeerSuffix, sanitize, hip, String.toList_ofList, String.toList_ofList, List.map_append,
    hdigits, ← htake]
  rfl

theorem val_le_of_isDigit {c : Char} (h : c.isDigit) : c.val ≤ 127 := by
  simp only [Char.isDigit, Bool.and_eq_true, decide_eq_true_eq] at h
  exact UInt32.le_trans h.2 (by decide)

theorem toList_ovsTunnelPort (vpc : Vpc) (i : ℕ) : (ovsTunnelPort vpc (wgData.ip i)).toList =
    "vx".toList ++ Nat.toDigits 10 vpc.vni.toNat ++ "-10_254_0_".toList ++
      (leadingDigit (i + 1)).toList := by
  simp [ovsTunnelPort, ovsPeerSuffix_ip, toString, Nat.repr]

/-- The length of a port's name. -/
theorem length_utf8_ovsTunnelPort (vpc : Vpc) (i : ℕ) :
    (utf8 (ovsTunnelPort vpc (wgData.ip i))).length =
      13 + (Nat.toDigits 10 vpc.vni.toNat).length := by
  have hascii : ∀ c ∈ (ovsTunnelPort vpc (wgData.ip i)).toList, c.val ≤ 127 := by
    have hliteral : ("vx".toList ++ "-10_254_0_".toList).all (fun c => c.val ≤ 127) := by decide
    simp only [List.all_eq_true, List.mem_append, decide_eq_true_eq] at hliteral
    intro c hc
    simp only [toList_ovsTunnelPort, List.mem_append, Option.mem_toList] at hc
    obtain ((hvx | hvni) | haddr) | hlead := hc
    · exact hliteral c (.inl hvx)
    · exact val_le_of_isDigit (Nat.isDigit_of_mem_toDigits (by decide) (by decide) hvni)
    · exact hliteral c (.inr haddr)
    · exact val_le_of_isDigit (Text.isDigit_head_toDigits hlead)
  rw [length_utf8_of_ascii hascii, toList_ovsTunnelPort]
  obtain ⟨d, hd⟩ := Option.isSome_iff_exists.1 (isSome_leadingDigit (i + 1))
  simp [hd]
  omega

/-- The name of the port towards a machine, given the first digit of its number. -/
def portOfDigit (vpc : Vpc) (d : Option Char) : String :=
  String.ofList ("vx".toList ++ Nat.toDigits 10 vpc.vni.toNat ++ "-10_254_0_".toList ++ d.toList)

theorem portOfDigit_injective (vpc : Vpc) : Function.Injective (portOfDigit vpc) := by
  intro d e h
  have hlists := List.append_cancel_left (String.ofList_injective h)
  cases d <;> cases e <;> simp_all

theorem map_ovsTunnelPort_peerVteps (n : WgNode) (vpc : Vpc) :
    n.peerVteps.map (ovsTunnelPort vpc) =
      (n.otherHosts.map leadingDigit).map (portOfDigit vpc) := by
  simp only [WgNode.peerVteps, WgNode.otherHosts, List.map_map]
  refine List.map_congr_left fun e _ => ?_
  rw [Function.comp_apply, ← String.ofList_toList (s := ovsTunnelPort vpc (wgData.ip e.2.2.1)),
    toList_ovsTunnelPort]
  rfl

theorem short_iff (n : WgNode) (vpc : Vpc) :
    (∀ peer ∈ n.peerVteps, (utf8 (ovsTunnelPort vpc peer)).length ≤ 15) ↔
      n.otherHosts = [] ∨ vpc.vni < 100 := by
  have hlength : ∀ i, (utf8 (ovsTunnelPort vpc (wgData.ip i))).length ≤ 15 ↔ vpc.vni < 100 := by
    intro i
    have hdigits : (Nat.toDigits 10 vpc.vni.toNat).length ≤ 2 ↔ vpc.vni.toNat < 10 ^ 2 :=
      Nat.length_toDigits_le_iff (by decide) (by decide)
    rw [length_utf8_ovsTunnelPort, UInt32.lt_iff_toNat_lt]
    show _ ↔ vpc.vni.toNat < 100
    omega
  rw [WgNode.peerVteps, WgNode.otherHosts, List.map_eq_nil_iff]
  cases hothers : n.machinePlan.filter fun e => e.2.1 ≠ n.nodeId with
  | nil => simp
  | cons e es =>
    constructor
    · intro h
      exact .inr ((hlength e.2.2.1).1 (h _ (List.mem_cons_self ..)))
    · rintro (hnil | hvni) peer hmem
      · cases hnil
      · obtain ⟨f, -, rfl⟩ := List.mem_map.1 hmem
        exact (hlength f.2.2.1).2 hvni

/-- **The tunnel mesh.** The ports of a VPC towards the other machines form the mesh if and only if
the numbers of these machines begin with different digits, and there is no other machine or the
network identifier has at most two digits. -/
theorem tunnelMesh_iff (n : WgNode) (vpc : Vpc) : TunnelMesh vpc n.peerVteps ↔
    (n.otherHosts.map leadingDigit).Nodup ∧ (n.otherHosts = [] ∨ vpc.vni < 100) := by
  rw [tunnelMesh_iff_names, map_ovsTunnelPort_peerVteps,
    List.nodup_map_iff (portOfDigit_injective vpc), short_iff]

/-- The fleet of the machines with the given names, seen from one of them. -/
def fleetOf (nodeId : String) (names : List String) : WgNode :=
  ⟨nodeId, names.map plainMachine, .new ⟨""⟩, ∅⟩

/-- Three machines and the network identifier 42. -/
theorem tunnelMesh_three_machines :
    TunnelMesh ⟨.named "prod", "10.0.0.0/16", 42⟩ (fleetOf "b" ["a", "b", "c"]).peerVteps :=
  (tunnelMesh_iff _ _).2 ⟨by decide, .inr (by decide)⟩

def elevenMachines : WgNode :=
  fleetOf "b" ["a", "b", "c", "d", "e", "f", "g", "h", "i", "j", "k"]

/-- Among eleven machines the ports towards `10.254.0.1`, `10.254.0.10` and `10.254.0.11` are one,
and its remote end is the last of them; with the network identifier 1001 the name of a port has 17
bytes. -/
theorem not_tunnelMesh_eleven_machines :
    (run Ovsdb.exec .empty
      (OvsBackend.applyVpcPeers ⟨.named "prod", "10.0.0.0/16", 42⟩ elevenMachines.peerVteps)).bind
        (fun db => db.remoteIp "vx42-10_254_0_1") = some "10.254.0.11" ∧
    ¬TunnelMesh ⟨.named "prod", "10.0.0.0/16", 42⟩ elevenMachines.peerVteps ∧
    ¬TunnelMesh ⟨.named "prod", "10.0.0.0/16", 1001⟩ (fleetOf "a" ["a", "b"]).peerVteps := by
  refine ⟨?_, fun h => ?_, fun h => ?_⟩
  · have hfree : Ovsdb.empty.Free ⟨.named "prod", "10.0.0.0/16", 42⟩ := by
      intro peer b hb
      cases hb
    obtain ⟨db', hdb'⟩ := exists_run_applyVpcPeers elevenMachines.peerVteps hfree
    rw [hdb', Option.bind_some,
      read_applyVpcPeers Ovsdb.remoteIp (fun _ _ port => remoteIp_withTunnel port) hdb']
    decide +kernel
  · have hnames := h.names
    rw [map_ovsTunnelPort_peerVteps] at hnames
    exact absurd hnames.of_map (by decide)
  · have hshort := (short_iff _ _).1 h.short
    exact absurd hshort (by decide)

end OCF.Api

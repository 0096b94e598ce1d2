import OCF.Api.RelayDelivery
import OCF.Network.Ipam

/-!
# The overlay address plan

On each plane a machine gets the address whose last octet is one more than its index in the plan,
written as text without looking at the octet's range. A node that is not in the plan takes the host
254. `soundPlan_iff` says for how many machines these addresses are as they should be: for at most
253.
-/

namespace OCF.Api

open OCF.Network OCF.Text OCF.Topology

/-- The address a node takes on a plane when it is not in the plan. -/
def WgPlane.fallbackIp (plane : WgPlane) : String := plane.addrPrefix ++ ".254"

/-- The addresses of the plan on a plane: each is a dotted quad inside the /16 of the plane, no two
are the same, and none is the one of a node outside the plan. -/
structure SoundPlan (n : WgNode) (plane : WgPlane) : Prop where
  inside : ∀ e ∈ n.machinePlan, ∃ addr net, parseIpv4 (plane.ip e.2.2.1) = some addr ∧
    parseIpv4 (plane.addrPrefix ++ ".0") = some net ∧ addr >>> 16 = net >>> 16
  distinct : (n.machinePlan.map fun e => parseIpv4 (plane.ip e.2.2.1)).Nodup
  fallback : ∀ e ∈ n.machinePlan, parseIpv4 (plane.ip e.2.2.1) ≠ parseIpv4 plane.fallbackIp

/-- The hosts of a plane: the first three octets are fixed, the last one is the host. -/
theorem exists_parse_host {plane : WgPlane} (hplane : plane ∈ [wgMgmt, wgData, wgLb]) :
    ∃ net, ∀ host < 256, ∃ addr, parseIpv4 (plane.addrPrefix ++ "." ++ toString host) = some addr ∧
      addr.toNat = net * 65536 + host := by
  obtain ⟨second, o₁, ho₁, htext⟩ : ∃ second o₁, parseUnsigned 256 o₁ = some second ∧
      plane.addrPrefix ++ "." = String.ofList (['1', '0'] ++ '.' :: (o₁ ++ ['.', '0', '.'])) := by
    simp only [List.mem_cons, List.not_mem_nil, or_false] at hplane
    obtain rfl | rfl | rfl := hplane
    · exact ⟨255, ['2', '5', '5'], by decide, by decide⟩
    · exact ⟨254, ['2', '5', '4'], by decide, by decide⟩
    · exact ⟨253, ['2', '5', '3'], by decide, by decide⟩
  refine ⟨10 * 256 + second, fun host hhost => ?_⟩
  have hquad : plane.addrPrefix ++ "." ++ toString host =
      String.ofList (quad ['1', '0'] o₁ ['0'] (Nat.toDigits 10 host)) := by
    rw [htext, quad]
    apply String.toList_inj.1
    simp [toString, Nat.repr]
  have ho₀ : parseUnsigned 256 ['1', '0'] = some 10 := by decide
  have ho₂ : parseUnsigned 256 ['0'] = some 0 := by decide
  obtain ⟨addr, haddr, hval⟩ := parseIpv4_quad ho₀ ho₁ ho₂ (parseUnsigned_toDigits hhost)
  exact ⟨addr, by rw [hquad, haddr], by rw [hval]; omega⟩

variable {n : WgNode} {plane : WgPlane}

/-- The indexes of the plan are the numbers below its length. -/
theorem exists_index_iff {i : ℕ} : (∃ e ∈ n.machinePlan, e.2.2.1 = i) ↔ i < n.machines.length := by
  rw [← n.byName_perm.length_eq, n.machinePlan_eq]
  constructor
  · rintro ⟨e, he, rfl⟩
    obtain ⟨⟨m, i⟩, hm, rfl⟩ := List.mem_map.1 he
    exact (List.getElem?_eq_some_iff.1 (List.mem_zipIdx_iff_getElem?.1 hm)).1
  · intro hi
    have hmem : (n.byName[i], i) ∈ n.byName.zipIdx :=
      List.mem_zipIdx_iff_getElem?.2 (List.getElem?_eq_getElem hi)
    exact ⟨_, List.mem_map_of_mem hmem, rfl⟩

/-- The machine after the 253rd has the address of a node outside the plan. -/
theorem SoundPlan.length_le (h : SoundPlan n plane) : n.machines.length ≤ 253 := by
  by_contra hlt
  obtain ⟨e, he, hi⟩ := exists_index_iff.2 (not_le.1 hlt)
  refine h.fallback e he ?_
  rw [hi, WgPlane.ip, WgPlane.fallbackIp, String.append_assoc]
  rfl

/-- **The overlay address plan.** On every plane, the addresses of the plan are dotted quads inside
the /16 of the plane, pairwise different and different from the address of a node outside the plan,
if and only if there are at most 253 machines. -/
theorem soundPlan_iff (n : WgNode) (plane : WgPlane) (hplane : plane ∈ [wgMgmt, wgData, wgLb]) :
    SoundPlan n plane ↔ n.machines.length ≤ 253 := by
  refine ⟨SoundPlan.length_le, fun hlen => ?_⟩
  obtain ⟨net, hhost⟩ := exists_parse_host hplane
  have hindex : ∀ e ∈ n.machinePlan, e.2.2.1 < 253 := fun e he =>
    (exists_index_iff.1 ⟨e, he, rfl⟩).trans_le hlen
  have hread : ∀ e ∈ n.machinePlan, ∃ addr, parseIpv4 (plane.ip e.2.2.1) = some addr ∧
      addr.toNat = net * 65536 + (e.2.2.1 + 1) := fun e he =>
    hhost (e.2.2.1 + 1) (by have := hindex e he; omega)
  have htext : ∀ host : ℕ, plane.addrPrefix ++ "." ++ toString host =
      plane.addrPrefix ++ ("." ++ toString host) := fun host => String.append_assoc
  refine ⟨fun e he => ?_, ?_, fun e he hfallback => ?_⟩
  · obtain ⟨addr, haddr, hval⟩ := hread e he
    obtain ⟨base, hbase, hval'⟩ := hhost 0 (by decide)
    refine ⟨addr, base, haddr, by rw [← hbase, htext]; rfl, UInt32.toNat_inj.1 ?_⟩
    have hlt := hindex e he
    rw [UInt32.toNat_shiftRight, UInt32.toNat_shiftRight, hval, hval', Nat.shiftRight_eq_div_pow,
      Nat.shiftRight_eq_div_pow, show (16 : UInt32).toNat % 32 = 16 from rfl]
    omega
  · have hindexes := n.nodup_plan_indexes
    rw [List.Nodup, List.pairwise_map] at hindexes ⊢
    refine hindexes.imp_of_mem fun {e e'} he he' hne hsame => hne ?_
    obtain ⟨addr, haddr, hval⟩ := hread e he
    obtain ⟨addr', haddr', hval'⟩ := hread e' he'
    rw [haddr, haddr', Option.some.injEq] at hsame
    rw [hsame] at hval
    omega
  · obtain ⟨addr, haddr, hval⟩ := hread e he
    obtain ⟨last, hlast, hval'⟩ := hhost 254 (by decide)
    have hsame : addr = last := by
      rw [htext] at hlast
      exact Option.some.inj (haddr.symm.trans (hfallback.trans hlast))
    have hlt := hindex e he
    rw [hsame, hval'] at hval
    omega

/-- The plan of a node with three machines, on the load-balancer plane. -/
theorem soundPlan_iff_three :
    SoundPlan ⟨"m0", [plainMachine "m1", plainMachine "m2", plainMachine "m3"], .new ⟨"m0"⟩, ∅⟩
      wgLb :=
  (soundPlan_iff _ wgLb (by simp)).2 (by decide)

/-- A fleet with some number of machines, as a node sees it. -/
def numberedFleet (k : ℕ) : WgNode :=
  ⟨"m0", (List.range k).map fun i => plainMachine (toString i), .new ⟨"m0"⟩, ∅⟩

/-- With 254 machines the last one has the address of a node outside the plan. -/
theorem plan_overflows :
    (numberedFleet 254).machines.length = 254 ∧ ¬SoundPlan (numberedFleet 254) wgMgmt := by
  have hlen : (numberedFleet 254).machines.length = 254 := by simp [numberedFleet]
  refine ⟨hlen, fun h => ?_⟩
  have hle := h.length_le
  omega

end OCF.Api

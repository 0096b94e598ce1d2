import OCF.Foundations.Rotation
import OCF.Lb.Routing
import Mathlib.Data.Nat.ModEq

/-!
# Fairness of the round-robin policy

The cursor of the round-robin policy is one counter for the whole process: a request to any load
balancer advances it. A run is a list of requests, in the order in which they take the cursor.

A load balancer sees the cursor only at its own requests. `roundRobin_fair_iff` says when its
candidates get their share all the same: when in each complete round of requests to it, one for every
candidate, the numbers of requests made before are different modulo the number of candidates. A
load balancer that is called alone always meets this; two with two candidates each, called in turn,
do not.
-/

namespace OCF.Lb

/-- A request that is resolved. -/
structure ResolveCall where
  id : Id
  client : ClientContext
  backends : List Backend

/-- Resolve requests one after the other. Each answer comes with the load balancer that was asked. -/
def LoadBalancerController.resolveAll (c : LoadBalancerController) (cursor : UInt64) :
    List ResolveCall → List (Id × Result (Option Backend))
  | [] => []
  | q :: qs =>
    let r := c.resolve cursor q.id q.client q.backends
    (q.id, r.1) :: c.resolveAll r.2 qs

/-- The backends chosen by the requests to one load balancer. -/
def chosenFor (id : Id) (answers : List (Id × Result (Option Backend))) : List Backend :=
  answers.filterMap fun a => if a.1 = id then a.2.toOption.join else none

/-- The requests are to load balancers with the round-robin policy, each with its fixed candidates. -/
structure FixedCandidates (c : LoadBalancerController) (cands : Id → List Backend)
    (calls : List ResolveCall) : Prop where
  stored : ∀ q ∈ calls, ∃ lb, c.loadBalancers.lookup q.id = some lb ∧ lb.policy = .roundRobin ∧
    lb.candidates q.client q.backends = cands q.id
  nodup : ∀ id, (cands id).Nodup

/-- How far a request to a load balancer moves the cursor: one step if there is a candidate. -/
def advance (cands : Id → List Backend) (id : Id) : ℕ := if (cands id).isEmpty then 0 else 1

/-- For each request to a load balancer, the number of steps the cursor has made before it. -/
def turns (cands : Id → List Backend) (id : Id) : ℕ → List ResolveCall → List ℕ
  | _, [] => []
  | n, q :: qs =>
    if q.id = id then n :: turns cands id (n + advance cands q.id) qs
    else turns cands id (n + advance cands q.id) qs

variable {c : LoadBalancerController} {cands : Id → List Backend} {calls : List ResolveCall}

theorem FixedCandidates.tail {q : ResolveCall} (h : FixedCandidates c cands (q :: calls)) :
    FixedCandidates c cands calls :=
  ⟨fun q' hq' => h.stored q' (List.mem_cons_of_mem _ hq'), h.nodup⟩

theorem advance_le_one (cands : Id → List Backend) (id : Id) : advance cands id ≤ 1 := by
  unfold advance
  split_ifs <;> omega

/-- One request: the candidate the cursor points at, and the cursor one step further. -/
theorem resolve_eq_of_fixed {q : ResolveCall} (h : FixedCandidates c cands (q :: calls))
    (cursor : UInt64) :
    c.resolve cursor q.id q.client q.backends =
      (.ok (cands q.id)[cursor.toNat % (cands q.id).length]?,
        cursor + UInt64.ofNat (advance cands q.id)) := by
  obtain ⟨lb, hlb, hpolicy, hcands⟩ := h.stored q List.mem_cons_self
  have hsel : selectBackend cursor lb.policy (q.backends.filter lb.admits) q.client =
      pickRoundRobin cursor (cands q.id) := by
    unfold selectBackend
    rw [ingressLocalCandidates_eq, hpolicy]
    split_ifs with hempty
    · have hnil : cands q.id = [] := by
        rw [← hcands, LoadBalancer.candidates, List.isEmpty_iff.1 hempty]
        rfl
      rw [hnil]
      rfl
    · simp only [← hcands, LoadBalancer.candidates]
  simp only [LoadBalancerController.resolve, LoadBalancerController.get, hlb, hsel, pickRoundRobin,
    advance]
  split_ifs with hempty
  · simp [List.isEmpty_iff.1 hempty]
  · rfl

/-- The steps the cursor makes in a run. -/
def advances (cands : Id → List Backend) (calls : List ResolveCall) : ℕ :=
  (calls.map fun q => advance cands q.id).sum

/-- As long as the cursor does not wrap around, the `t`-th step of the cursor picks the candidate
whose number is `t` modulo the number of candidates. -/
theorem chosenFor_resolveAll (id : Id) (hk : 0 < (cands id).length) (cursor : UInt64) (start n : ℕ)
    (hcursor : advances cands calls ≠ 0 → cursor.toNat = start + n)
    (h : FixedCandidates c cands calls) (hwrap : start + n + advances cands calls ≤ 2 ^ 64) :
    chosenFor id (c.resolveAll cursor calls) =
      (turns cands id n calls).map fun t =>
        (cands id).get ⟨(start + t) % (cands id).length, Nat.mod_lt _ hk⟩ := by
  induction calls generalizing cursor n with
  | nil => rfl
  | cons q qs ih =>
    have hle := advance_le_one cands q.id
    have hsum : advances cands (q :: qs) = advance cands q.id + advances cands qs := by
      simp [advances]
    rw [hsum] at hcursor hwrap
    -- the cursor can only wrap around at the last step, and then nobody looks at it again
    have hnext : advances cands qs ≠ 0 →
        (cursor + UInt64.ofNat (advance cands q.id)).toNat = start + (n + advance cands q.id) := by
      intro hqs
      rw [UInt64.toNat_add, UInt64.toNat_ofNat', hcursor (by omega)]
      omega
    have hrest := ih _ _ hnext h.tail (by omega)
    simp only [LoadBalancerController.resolveAll, resolve_eq_of_fixed h, turns]
    split_ifs with hid
    · obtain rfl := hid
      have hone : advance cands q.id = 1 := by
        simp [advance, List.isEmpty_iff, List.ne_nil_of_length_pos hk]
      have hlt : (start + n) % (cands q.id).length < (cands q.id).length := Nat.mod_lt _ hk
      rw [List.map_cons, ← hrest, hcursor (by omega)]
      simp [chosenFor, List.getElem?_eq_getElem hlt, Except.toOption]
    · rw [← hrest]
      simp [chosenFor, hid]

/-- **Fairness of the round-robin policy.** In every run of requests to load balancers with the
round-robin policy and fixed candidates, in any order, before the cursor wraps around: after any
number `n` of requests to a load balancer with `k` candidates each candidate has been chosen at least
`n / k` times by them, if and only if in each complete round of `k` requests to it the numbers of
steps the cursor made before are pairwise different modulo `k`. -/
theorem roundRobin_fair_iff (c : LoadBalancerController) (cands : Id → List Backend)
    (cursor : UInt64) (calls : List ResolveCall) (h : FixedCandidates c cands calls)
    (hwrap : cursor.toNat + advances cands calls ≤ 2 ^ 64) (id : Id) :
    FairTo (cands id) (chosenFor id (c.resolveAll cursor calls)) ↔
      ∀ m, (m + 1) * (cands id).length ≤ (turns cands id 0 calls).length →
        ((pickBlock (cands id).length m (turns cands id 0 calls)).map
          (· % (cands id).length)).Nodup := by
  rcases Nat.eq_zero_or_pos (cands id).length with hk | hk
  · have hnil := List.eq_nil_of_length_eq_zero hk
    simp [hnil, FairTo, pickBlock]
  · have hpicks := chosenFor_resolveAll id hk cursor cursor.toNat 0 (fun _ => rfl) h hwrap
    have hmem : ∀ b ∈ chosenFor id (c.resolveAll cursor calls), b ∈ cands id := by
      rw [hpicks]
      simp only [List.mem_map]
      rintro b ⟨t, -, rfl⟩
      exact List.get_mem _ _
    rw [fairTo_iff (h.nodup id) hmem, hpicks, List.length_map]
    refine forall_congr' fun m => imp_congr Iff.rfl ?_
    rw [pickBlock_map, List.Nodup, List.Nodup, List.pairwise_map, List.pairwise_map]
    refine List.Pairwise.iff fun a b => not_congr ?_
    rw [(h.nodup id).get_inj_iff, Fin.mk.injEq]
    exact ⟨fun hab => Nat.ModEq.add_left_cancel' _ hab, fun hab => Nat.ModEq.add_left _ hab⟩

/-- A round-robin load balancer without placement. -/
def rotating (name : String) : LoadBalancer :=
  ⟨Metadata.named name, .tcp, [⟨80, false⟩], ∅, .roundRobin, none, false, []⟩

def twoRotating : LoadBalancerController :=
  ⟨AList.insert ⟨"b"⟩ (rotating "b") (AList.insert ⟨"a"⟩ (rotating "a") ∅)⟩

/-- Two backends, the same for both load balancers. -/
def pairOfBackends : List Backend := [Backend.new ⟨"x"⟩ "x" .fleet, Backend.new ⟨"y"⟩ "y" .fleet]

/-- A request to each of the named load balancers. -/
def callsTo (names : List String) : List ResolveCall :=
  names.map fun name => ⟨⟨name⟩, anyClient, pairOfBackends⟩

theorem callsTo_fixed (names : List String) (hnames : ∀ name ∈ names, name = "a" ∨ name = "b") :
    FixedCandidates twoRotating (fun _ => pairOfBackends) (callsTo names) := by
  refine ⟨?_, fun _ => by decide⟩
  simp only [callsTo, List.mem_map]
  rintro q ⟨name, hname, rfl⟩
  rcases hnames name hname with rfl | rfl
  · exact ⟨rotating "a", rfl, rfl, rfl⟩
  · exact ⟨rotating "b", rfl, rfl, rfl⟩

/-- When each load balancer is called twice in a row, both are fair. -/
theorem roundRobin_fair_iff_in_rows :
    FairTo pairOfBackends
      (chosenFor ⟨"a"⟩ (twoRotating.resolveAll 0 (callsTo ["a", "a", "b", "b"]))) ∧
    FairTo pairOfBackends
      (chosenFor ⟨"b"⟩ (twoRotating.resolveAll 0 (callsTo ["a", "a", "b", "b"]))) := by
  have hfixed := callsTo_fixed ["a", "a", "b", "b"] (by decide)
  -- two requests to each make one complete round
  have hround : ∀ m, (m + 1) * 2 ≤ 2 → m = 0 := fun m hm => by omega
  refine ⟨(roundRobin_fair_iff _ _ 0 _ hfixed (by decide) _).2 fun m hm => ?_,
    (roundRobin_fair_iff _ _ 0 _ hfixed (by decide) _).2 fun m hm => ?_⟩
  · obtain rfl := hround m hm
    decide
  · obtain rfl := hround m hm
    decide

/-- When the two are called in turn, the first always gets the same backend. -/
theorem roundRobin_unfair_in_turn :
    ∃ id, FixedCandidates twoRotating (fun _ => pairOfBackends) (callsTo ["a", "b", "a", "b"]) ∧
      (0 : UInt64).toNat + advances (fun _ => pairOfBackends) (callsTo ["a", "b", "a", "b"]) ≤
        2 ^ 64 ∧
      ¬FairTo pairOfBackends
        (chosenFor id (twoRotating.resolveAll 0 (callsTo ["a", "b", "a", "b"]))) := by
  refine ⟨⟨"a"⟩, callsTo_fixed _ (by decide), by decide, fun hfair => ?_⟩
  have hle := hfair 2 (by decide) (Backend.new ⟨"y"⟩ "y" .fleet) (by decide)
  revert hle
  decide

end OCF.Lb

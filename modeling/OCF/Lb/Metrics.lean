import OCF.Lb.Routing
import Mathlib.Data.Nat.Cast.Order.Basic

/-!
# Metrics that are not numbers

A load or a latency may be NaN, which compares with nothing. The selection is meant to treat it as
the worst value, so that it never wins. Its comparison puts the earlier of two candidates above the
later one when one of them is NaN: a NaN drives out what was kept before it, and is itself driven
out by the next candidate.

`nan_never_wins_iff` says for which candidates the selection is right all the same: those in which a
candidate with the least value comes after every NaN.
-/

namespace OCF.Lb

/-- The number a float stands for, if there is one. -/
def F64.value : F64 → Option (WithBot (WithTop ℚ))
  | .nan => none
  | .num v => some v

/-- The comparison of a selection puts the earlier float above the later one when it has the greater
number, and also when one of the two has none. -/
theorem F64.partialCmp_gt_iff_value (x y : F64) :
    (partialCmp x y).getD .gt = .gt ↔ ∀ v ∈ x.value, ∀ w ∈ y.value, w < v := by
  cases x with
  | nan => simp [partialCmp, value]
  | num v =>
    cases y with
    | nan => simp [partialCmp, value]
    | num w =>
      rw [partialCmp_gt_iff (by simp) (by simp)]
      simp [value, val]

namespace RoutingPolicy

/-- The metric a policy minimizes. -/
def metric : RoutingPolicy → Backend → F64
  | .leastLoad => Backend.load
  | _ => Backend.latencyMs

/-- The backends among which a policy minimizes: those of the ingress scope if there are some, and
of these, for the geographic policy, those of the client's geography if there are some. -/
def pool (policy : RoutingPolicy) (client : ClientContext) (backends : List Backend) :
    List Backend :=
  match policy with
  | .geo => prefer client.sameGeo (prefer client.inIngress backends)
  | _ => prefer client.inIngress backends

end RoutingPolicy

/-- A policy other than round-robin picks the minimum of its metric. -/
theorem selectBackend_eq_pickMinBy {policy : RoutingPolicy} (hpolicy : policy ≠ .roundRobin)
    (cursor : UInt64) (backends : List Backend) (client : ClientContext) :
    (selectBackend cursor policy backends client).1 =
      pickMinBy (policy.pool client backends) policy.metric := by
  rw [selectBackend_eq]
  cases policy with
  | roundRobin => exact absurd rfl hpolicy
  | leastLoad => rfl
  | latency => rfl
  | geo => rfl

/-- For every policy that minimizes a metric and all candidates of which one has a number for it: the
selected backend has a number, and the least one, if and only if some candidate with the least
number comes after all candidates without a number. -/
theorem nan_never_wins_iff (cursor : UInt64) (policy : RoutingPolicy) (backends : List Backend)
    (client : ClientContext) (hpolicy : policy ≠ .roundRobin)
    (hnum : ∃ b ∈ policy.pool client backends, (policy.metric b).value ≠ none) :
    (∃ b, (selectBackend cursor policy backends client).1 = some b ∧
        IsLeastKey (fun c => (policy.metric c).value) (policy.pool client backends) b) ↔
      ∃ before b after, policy.pool client backends = before ++ b :: after ∧
        IsLeastKey (fun c => (policy.metric c).value) (policy.pool client backends) b ∧
        ∀ c ∈ after, (policy.metric c).value ≠ none := by
  obtain ⟨b, hb, -⟩ := hnum
  rw [selectBackend_eq_pickMinBy hpolicy]
  exact minBy_isLeastKey_iff (fun a b => F64.partialCmp_gt_iff_value (policy.metric a)
    (policy.metric b)) (List.ne_nil_of_mem hb)

/-- A backend with a load, or with none that is a number. -/
def loaded (address : String) (load : Option ℚ) : Backend :=
  { Backend.new ⟨address⟩ address .fleet with
    load := load.elim .nan fun v => .num ((v : WithTop ℚ) : WithBot (WithTop ℚ)) }

/-- A NaN in front of the others does no harm. -/
theorem nan_never_wins_iff_first :
    ∃ b, (selectBackend 0 .leastLoad [loaded "a" none, loaded "b" (some 2), loaded "c" (some 1)]
        anyClient).1 = some b ∧ b = loaded "c" (some 1) ∧
      IsLeastKey (fun c => c.load.value)
        [loaded "a" none, loaded "b" (some 2), loaded "c" (some 1)] b := by
  have hleast : IsLeastKey (fun c => c.load.value)
      [loaded "a" none, loaded "b" (some 2), loaded "c" (some 1)] (loaded "c" (some 1)) := by
    refine ⟨((1 : ℚ) : WithTop ℚ), rfl, ?_⟩
    simp [loaded, F64.value]
  obtain ⟨b, hb, hb'⟩ := (nan_never_wins_iff 0 .leastLoad
    [loaded "a" none, loaded "b" (some 2), loaded "c" (some 1)] anyClient (by decide)
    ⟨loaded "b" (some 2), by decide, by decide⟩).2
    ⟨[loaded "a" none, loaded "b" (some 2)], loaded "c" (some 1), [], by decide, hleast, by simp⟩
  exact ⟨b, hb, Option.some.inj (hb.symm.trans (by decide)), hb'⟩

/-- A NaN at the end wins. -/
theorem nan_wins_at_end :
    (selectBackend 0 .leastLoad [loaded "a" (some 1), loaded "b" none] anyClient).1 =
        some (loaded "b" none) ∧
      (RoutingPolicy.leastLoad.metric (loaded "a" (some 1))).value ≠ none ∧
      ¬∃ b, (selectBackend 0 .leastLoad [loaded "a" (some 1), loaded "b" none] anyClient).1 = some b ∧
        IsLeastKey (fun c => (RoutingPolicy.leastLoad.metric c).value)
          [loaded "a" (some 1), loaded "b" none] b := by
  have hsel : (selectBackend 0 .leastLoad [loaded "a" (some 1), loaded "b" none] anyClient).1 =
      some (loaded "b" none) := by decide
  refine ⟨hsel, by decide, ?_⟩
  rintro ⟨b, hb, v, hv, -⟩
  obtain rfl := Option.some.inj (hsel.symm.trans hb)
  cases hv

end OCF.Lb

import OCF.Foundations.Binary64
import OCF.Foundations.BTreeMap
import OCF.Foundations.Clamp

/-!
# The autoscaler

An autoscaler has rules on metrics and two bounds. `evaluate` adds up the changes of the rules that
fire, applies the sum to the number of replicas and puts the result between the bounds. The caller
evaluates again and again, each time on the number of replicas it was told last and on the metrics
of the moment (`replicas`).

The metrics may be anything in any round. Over a whole history, the number of replicas is the number
at the start plus all changes, put between two bounds that depend on the history alone
(`replicas_eq_clampTo`). Under metrics that do not change, it goes to one of the bounds in equal
steps and stays there (`replicas_steady`).

The changes are 32-bit integers and their sum a 64-bit one. The sum is an integer here: by
`abs_delta_le` it takes more than `2 ^ 32` rules to leave the range of 64 bits. A metric and a
threshold are 64-bit floats, with `none` for NaN. The text of the reason is the list of what it is
written from.
-/

namespace OCF.Runtime

/-- A double, with no value for NaN. -/
abbrev Float64 := Option Binary64

/-- How a rule compares a metric to its threshold. -/
inductive Comparison
  | gt
  | lt
  deriving DecidableEq

/-- No comparison with NaN holds. -/
def Comparison.matches : Comparison → Float64 → Float64 → Bool
  | .gt, some value, some threshold => threshold < value
  | .lt, some value, some threshold => value < threshold
  | _, _, _ => false

/-- When the metric crosses the threshold, change the number of replicas. -/
structure ScalingRule where
  metric : String
  comparison : Comparison
  threshold : Float64
  change : Int32
  deriving DecidableEq

/-- The rule fires: its metric is there and compares as it says. -/
def ScalingRule.fires (rule : ScalingRule) (metrics : BTreeMap String Float64) : Bool :=
  match metrics[rule.metric]? with
  | some v => rule.comparison.matches v rule.threshold
  | none => false

/-- Rules and the bounds of the replicas. -/
structure Autoscaler where
  minReplicas : UInt32
  maxReplicas : UInt32
  rules : List ScalingRule

/-- What the text of a decision is written from. -/
inductive Reason
  | held (current : UInt32)
  | fired (rules : List ScalingRule) (current desired minReplicas maxReplicas : UInt32)
  deriving DecidableEq

/-- How many replicas there should be, and why. -/
structure AutoscaleDecision where
  desiredReplicas : UInt32
  reason : Reason
  deriving DecidableEq

/-- The loop over the rules: the sum of the changes, and the rules that fired. -/
def tally (metrics : BTreeMap String Float64) (rules : List ScalingRule) : ℤ × List ScalingRule :=
  rules.foldl (fun s rule =>
    if rule.fires metrics then (s.1 + rule.change.toInt, s.2 ++ [rule]) else s) (0, [])

/-- The decision for the metrics at hand. -/
def evaluate (a : Autoscaler) (currentReplicas : UInt32) (metrics : BTreeMap String Float64) :
    AutoscaleDecision :=
  let s := tally metrics a.rules
  let proposed := min (max (currentReplicas.toNat + s.1) a.minReplicas.toNat) a.maxReplicas.toNat
  let desired := UInt32.ofInt proposed
  ⟨desired,
    if s.2 = [] then .held currentReplicas
    else .fired s.2 currentReplicas desired a.minReplicas a.maxReplicas⟩

/-- The number of replicas after the evaluations on these metrics, one after the other. -/
def replicas (a : Autoscaler) (start : UInt32) (history : List (BTreeMap String Float64)) : UInt32 :=
  history.foldl (fun current metrics => (evaluate a current metrics).desiredReplicas) start

/-- The sum of the changes of the rules that fire. -/
def delta (a : Autoscaler) (metrics : BTreeMap String Float64) : ℤ :=
  ((a.rules.filter fun rule => rule.fires metrics).map fun rule => rule.change.toInt).sum

variable (a : Autoscaler) (metrics : BTreeMap String Float64)

theorem foldl_tally (rules : List ScalingRule) (s : ℤ × List ScalingRule) :
    rules.foldl (fun s rule =>
      if rule.fires metrics then (s.1 + rule.change.toInt, s.2 ++ [rule]) else s) s =
    (s.1 + ((rules.filter fun rule => rule.fires metrics).map fun rule => rule.change.toInt).sum,
      s.2 ++ rules.filter fun rule => rule.fires metrics) := by
  induction rules generalizing s with
  | nil => simp
  | cons rule rules ih =>
    rw [List.foldl_cons, ih]
    by_cases h : rule.fires metrics
    · simp [h, add_assoc]
    · simp [h]

/-- The loop sums up the rules that fire, in their order. -/
theorem tally_eq : tally metrics a.rules =
    (delta a metrics, a.rules.filter fun rule => rule.fires metrics) := by
  rw [tally, foldl_tally, zero_add, List.nil_append, delta]

/-- The sum fits into 64 bits for fewer than `2 ^ 32` rules. -/
theorem abs_delta_le : |delta a metrics| ≤ 2 ^ 31 * a.rules.length := by
  have hsum : ∀ rules : List ScalingRule,
      |(rules.map fun rule => rule.change.toInt).sum| ≤ 2 ^ 31 * rules.length := by
    intro rules
    induction rules with
    | nil => simp
    | cons rule rules ih =>
      have hlo := rule.change.le_toInt
      have hhi := rule.change.toInt_lt
      rw [List.map_cons, List.sum_cons, List.length_cons]
      push_cast
      rw [abs_le] at ih ⊢
      omega
  refine (hsum _).trans ?_
  have hlen := List.length_filter_le (fun rule => rule.fires metrics) a.rules
  omega

/-- One evaluation moves the number by the sum and puts it between the bounds. -/
theorem toNat_evaluate (current : UInt32) :
    ((evaluate a current metrics).desiredReplicas.toNat : ℤ) =
      clampTo (a.minReplicas.toNat : ℤ) a.maxReplicas.toNat (current.toNat + delta a metrics) := by
  have hmax := a.maxReplicas.toNat_lt
  simp only [evaluate, tally_eq, clampTo]
  generalize hp : min (max ((current.toNat : ℤ) + delta a metrics) a.minReplicas.toNat)
    a.maxReplicas.toNat = proposed
  -- between the bounds, the cast to 32 bits loses nothing
  have hnonneg : 0 ≤ proposed := by omega
  have hlt : proposed < 2 ^ 32 := by omega
  have hsize : proposed.toNat < UInt32.size := by
    rw [UInt32.size]
    omega
  rw [UInt32.ofInt, Int.emod_eq_of_lt hnonneg hlt, UInt32.toNat_ofNat_of_lt' hsize,
    Int.toNat_of_nonneg hnonneg]

theorem toNat_replicas (start : UInt32) (history : List (BTreeMap String Float64)) :
    ((replicas a start history).toNat : ℤ) =
      walk (a.minReplicas.toNat : ℤ) a.maxReplicas.toNat start.toNat (history.map (delta a)) := by
  induction history generalizing start with
  | nil => rfl
  | cons metrics history ih =>
    have hcons : replicas a start (metrics :: history) =
        replicas a (evaluate a start metrics).desiredReplicas history := rfl
    rw [hcons, ih, List.map_cons, walk_cons, toNat_evaluate]

/-- **A whole history is one sum put between two bounds.** The bounds depend on the history and
not on the start, and lie between the bounds of the autoscaler. -/
theorem replicas_eq_clampTo (history : List (BTreeMap String Float64)) :
    ∃ lo hi : ℤ, min (a.minReplicas.toNat : ℤ) a.maxReplicas.toNat ≤ lo ∧ lo ≤ hi ∧
      hi ≤ a.maxReplicas.toNat ∧
      ∀ start, ((replicas a start (metrics :: history)).toNat : ℤ) =
        clampTo lo hi (start.toNat + ((metrics :: history).map (delta a)).sum) := by
  obtain ⟨lo, hi, hlo, hle, hhi, hwalk⟩ := exists_walk_eq (a.minReplicas.toNat : ℤ)
    a.maxReplicas.toNat (delta a metrics) (history.map (delta a))
  refine ⟨lo, hi, hlo, hle, hhi, fun start => ?_⟩
  rw [toNat_replicas, List.map_cons, hwalk]

/-- **Under metrics that stay the same, the number goes to a bound in equal steps.** -/
theorem replicas_steady (start : UInt32) (hmin : a.minReplicas ≤ start)
    (hmax : start ≤ a.maxReplicas) (n : ℕ) :
    ((replicas a start (List.replicate n metrics)).toNat : ℤ) =
      clampTo (a.minReplicas.toNat : ℤ) a.maxReplicas.toNat
        (start.toNat + n * delta a metrics) := by
  have hlo : (a.minReplicas.toNat : ℤ) ≤ start.toNat := by
    exact_mod_cast UInt32.le_iff_toNat_le.mp hmin
  have hhi : (start.toNat : ℤ) ≤ a.maxReplicas.toNat := by
    exact_mod_cast UInt32.le_iff_toNat_le.mp hmax
  rw [toNat_replicas, List.map_replicate, walk_replicate hlo hhi, nsmul_eq_mul]

/-- Two rules, at 95 percent: the first one fires and adds two in each round. -/
theorem replicas_steady_five :
    ∃ (a : Autoscaler) (metrics : BTreeMap String Float64), a.minReplicas ≤ 2 ∧
      2 ≤ a.maxReplicas ∧ delta a metrics = 2 ∧
      (replicas a 2 (List.replicate 3 metrics)).toNat = 5 := by
  let a : Autoscaler := ⟨1, 5, [⟨"cpu_pct", .gt, some (.finite 80), 2⟩,
    ⟨"cpu_pct", .lt, some (.finite 20), -1⟩]⟩
  let metrics : BTreeMap String Float64 :=
    (∅ : BTreeMap String Float64).insert "cpu_pct" (some (.finite 95))
  have hmetric : metrics["cpu_pct"]? = some (some (.finite 95)) := by
    rw [BTreeMap.getElem?_insert_eq, if_pos rfl]
  have hdelta : delta a metrics = 2 := by
    simp only [delta, a, List.filter, ScalingRule.fires, hmetric, Comparison.matches]
    decide
  refine ⟨a, metrics, by decide, by decide, hdelta, ?_⟩
  have h := replicas_steady a metrics 2 (by decide) (by decide) 3
  rw [hdelta] at h
  have hfive : clampTo (a.minReplicas.toNat : ℤ) a.maxReplicas.toNat
      ((2 : UInt32).toNat + (3 : ℕ) * 2) = 5 := by decide
  exact_mod_cast h.trans hfive

end OCF.Runtime

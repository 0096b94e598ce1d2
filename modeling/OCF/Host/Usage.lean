import OCF.Core.Resource
import Mathlib.Algebra.BigOperators.Group.List.Basic
import Mathlib.Algebra.Order.Field.Rat
import Mathlib.Tactic.Linarith

/-!
# The usage of the host

The monitoring service asks every collector for a snapshot of the host, adds up what they report and
averages the CPU percentage over the collectors that answered. Byte counts and rates are 64-bit and
saturate; percentages are exact rationals.

The runtime collector answers with the default snapshot, which is meant to contribute nothing. It is
counted in the average: `aggregateHostUsage_insert_iff` says when that makes no difference.
-/

namespace OCF

namespace Monitoring

/-- A sum that stays at the largest 64-bit number. -/
def saturatingAdd (a b : UInt64) : UInt64 :=
  if a.toNat + b.toNat < 2 ^ 64 then a + b else UInt64.ofNat (2 ^ 64 - 1)

theorem saturatingAdd_zero (a : UInt64) : saturatingAdd a 0 = a := by
  have ha : a.toNat + (0 : UInt64).toNat < 2 ^ 64 := a.toNat_lt
  rw [saturatingAdd, if_pos ha, UInt64.add_zero]

/-- A snapshot of what a host or a workload uses. -/
structure ResourceUsage where
  cpuPct : ℚ := 0
  memoryUsed : UInt64 := 0
  memoryTotal : UInt64 := 0
  diskUsed : UInt64 := 0
  diskTotal : UInt64 := 0
  netRxBps : UInt64 := 0
  netTxBps : UInt64 := 0
  readIops : UInt64 := 0
  writeIops : UInt64 := 0
  deriving DecidableEq

instance : Inhabited ResourceUsage := ⟨{}⟩

/-- A collector, with what it answers when it is asked about the host. -/
structure MetricsCollector where
  name : String
  collectHost : Result ResourceUsage

/-- The collector of the container runtime reports workloads and has nothing to say about the host.
-/
def runtimeMetricsCollector : MetricsCollector := ⟨"runtime", .ok default⟩

/-- The variables of the loop over the collectors. -/
structure Tally where
  total : ResourceUsage := default
  /-- The sum is exact. So is the program's, which is one of doubles, with the two built-in collectors:
  one of their percentages is zero, and the average is the other or its half. -/
  cpuSum : ℚ := 0
  counted : ℕ := 0

/-- Take in the answer of one collector; a failure is logged and skipped. -/
def Tally.add (t : Tally) (c : MetricsCollector) : Tally :=
  match c.collectHost with
  | .ok u =>
    { total :=
        { t.total with
          memoryUsed := saturatingAdd t.total.memoryUsed u.memoryUsed
          memoryTotal := saturatingAdd t.total.memoryTotal u.memoryTotal
          diskUsed := saturatingAdd t.total.diskUsed u.diskUsed
          diskTotal := saturatingAdd t.total.diskTotal u.diskTotal
          netRxBps := saturatingAdd t.total.netRxBps u.netRxBps
          netTxBps := saturatingAdd t.total.netTxBps u.netTxBps
          readIops := saturatingAdd t.total.readIops u.readIops
          writeIops := saturatingAdd t.total.writeIops u.writeIops }
      cpuSum := t.cpuSum + u.cpuPct
      counted := t.counted + 1 }
  | .error _ => t

/-- What the loop leaves, with the average in place. -/
def Tally.usage (t : Tally) : ResourceUsage :=
  if 0 < t.counted then { t.total with cpuPct := t.cpuSum / t.counted } else t.total

/-- The usage of the host over all collectors. -/
def aggregateHostUsage (providers : List MetricsCollector) : Result ResourceUsage :=
  .ok (providers.foldl Tally.add {}).usage

/-- The CPU percentages of the collectors that answer. -/
def cpuAnswers (providers : List MetricsCollector) : List ℚ :=
  providers.filterMap fun c => c.collectHost.toOption.map ResourceUsage.cpuPct

/-! ## The loop -/

/-- The default snapshot adds nothing, and is counted. -/
theorem Tally.add_default {c : MetricsCollector} (hc : c.collectHost = .ok default) (t : Tally) :
    t.add c = { t with counted := t.counted + 1 } := by
  have hzero : (default : ResourceUsage) = {} := rfl
  simp [Tally.add, hc, hzero, saturatingAdd_zero]

/-- The loop carries one more in its count to the end. -/
theorem foldl_add_counted (providers : List MetricsCollector) (t : Tally) :
    providers.foldl Tally.add { t with counted := t.counted + 1 } =
      { providers.foldl Tally.add t with counted := (providers.foldl Tally.add t).counted + 1 } := by
  induction providers generalizing t with
  | nil => rfl
  | cons c providers ih =>
    have hstep : Tally.add { t with counted := t.counted + 1 } c =
        { t.add c with counted := (t.add c).counted + 1 } := by
      unfold Tally.add
      cases c.collectHost <;> rfl
    rw [List.foldl_cons, List.foldl_cons, hstep, ih]

/-- What the loop keeps: the percentages are added up and their number is counted, and the total has
no percentage yet. -/
theorem foldl_add_cpu (providers : List MetricsCollector) (t : Tally) :
    (providers.foldl Tally.add t).cpuSum = t.cpuSum + (cpuAnswers providers).sum ∧
      (providers.foldl Tally.add t).counted = t.counted + (cpuAnswers providers).length ∧
      (providers.foldl Tally.add t).total.cpuPct = t.total.cpuPct := by
  induction providers generalizing t with
  | nil => simp [cpuAnswers]
  | cons c providers ih =>
    obtain ⟨hsum, hcount, htotal⟩ := ih (t.add c)
    rw [List.foldl_cons, hsum, hcount, htotal]
    cases hc : c.collectHost with
    | error e => simp [Tally.add, cpuAnswers, hc, Except.toOption]
    | ok u =>
      refine ⟨?_, ?_, by simp [Tally.add, hc]⟩
      · simp [Tally.add, cpuAnswers, hc, Except.toOption, add_assoc]
      · simp [Tally.add, cpuAnswers, hc, Except.toOption, add_assoc, add_comm]

/-- One more in the count changes the average unless the sum is zero. -/
theorem Tally.usage_counted_iff {t : Tally} (hcpu : t.total.cpuPct = 0)
    (hempty : t.counted = 0 → t.cpuSum = 0) :
    ({ t with counted := t.counted + 1 } : Tally).usage = t.usage ↔ t.cpuSum = 0 := by
  have hnew : ({ t with counted := t.counted + 1 } : Tally).usage =
      { t.total with cpuPct := t.cpuSum / ((t.counted + 1 : ℕ) : ℚ) } := by
    simp [Tally.usage]
  by_cases hzero : t.counted = 0
  · have hold : t.usage = t.total := by simp [Tally.usage, hzero]
    rw [hnew, hold, hempty hzero, zero_div]
    simp [← hcpu]
  · have hold : t.usage = { t.total with cpuPct := t.cpuSum / (t.counted : ℚ) } := by
      simp [Tally.usage, Nat.pos_of_ne_zero hzero]
    have hcounted : (t.counted : ℚ) ≠ 0 := by exact_mod_cast hzero
    have hsucc : ((t.counted + 1 : ℕ) : ℚ) ≠ 0 := by
      exact_mod_cast Nat.succ_ne_zero t.counted
    rw [hnew, hold, ResourceUsage.mk.injEq]
    simp only [and_true]
    rw [div_eq_div_iff hsucc hcounted]
    push_cast
    constructor
    · intro h
      linarith
    · intro h
      rw [h, zero_mul, zero_mul]

/-- A collector that answers with the default snapshot changes nothing, wherever it is inserted, if
and only if the CPU percentages of the other collectors add up to zero. -/
theorem aggregateHostUsage_insert_iff (before after : List MetricsCollector) (c : MetricsCollector)
    (hc : c.collectHost = .ok default) :
    aggregateHostUsage (before ++ c :: after) = aggregateHostUsage (before ++ after) ↔
      (cpuAnswers (before ++ after)).sum = 0 := by
  obtain ⟨hsum, hcount, htotal⟩ := foldl_add_cpu (before ++ after) {}
  rw [zero_add] at hsum hcount
  rw [aggregateHostUsage, aggregateHostUsage, List.foldl_append, List.foldl_cons,
    Tally.add_default hc,
    foldl_add_counted, ← List.foldl_append, Except.ok.injEq, ← hsum]
  refine Tally.usage_counted_iff htotal fun hzero => ?_
  rw [hsum, List.length_eq_zero_iff.1 (hcount.symm.trans hzero), List.sum_nil]

/-- Where the host's collector is idle, the runtime collector makes no difference. -/
theorem aggregateHostUsage_insert_idle :
    aggregateHostUsage ([⟨"host", .ok { memoryUsed := 7 }⟩] ++ runtimeMetricsCollector :: []) =
      aggregateHostUsage ([⟨"host", .ok { memoryUsed := 7 }⟩] ++ []) :=
  (aggregateHostUsage_insert_iff _ _ _ rfl).2 (by simp [cpuAnswers, Except.toOption])

/-- With the runtime collector beside it, a host at sixty percent is reported at thirty. -/
theorem aggregateHostUsage_halved :
    aggregateHostUsage ([⟨"host", .ok { cpuPct := 60 }⟩] ++ runtimeMetricsCollector :: []) =
        .ok { cpuPct := 30 } ∧
      aggregateHostUsage ([⟨"host", .ok { cpuPct := 60 }⟩] ++ runtimeMetricsCollector :: []) ≠
        aggregateHostUsage ([⟨"host", .ok { cpuPct := 60 }⟩] ++ []) := by
  decide +kernel

end Monitoring

end OCF

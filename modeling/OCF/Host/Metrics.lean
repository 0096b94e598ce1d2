import OCF.Foundations.Binary64
import OCF.Foundations.Lists
import OCF.Host.Diskstats

/-!
# The metrics of the host

The host collector reads the counters of the kernel twice, a tenth of a second apart, and turns the
differences into a CPU percentage and rates. The texts may be anything: a counter may be missing,
overflow, or be reset between the two readings.

Counters are 64-bit. A percentage is computed in double precision: both counts are converted, divided
and multiplied by a hundred, each time rounded.

`aggregateHostUsage_bounds`: whatever is read, and whichever collectors fail, the usage of the host has
a CPU percentage and a memory percentage between 0 and 100.
-/

namespace OCF

namespace Monitoring

open Text

/-! ## Counters -/

/-- A difference that stays at zero. -/
def saturatingSub (a b : UInt64) : UInt64 := if b ≤ a then a - b else 0

/-- A product that stays at the largest 64-bit number. -/
def saturatingMul (a b : UInt64) : UInt64 :=
  if a.toNat * b.toNat < 2 ^ 64 then a * b else UInt64.ofNat (2 ^ 64 - 1)

/-- `u64::from_str`. -/
def parseU64 (s : List Char) : Option UInt64 := (parseUnsigned (2 ^ 64) s).map UInt64.ofNat

/-- Jiffies of all CPUs since boot: all of them, and those spent idle. -/
structure CpuTimes where
  total : UInt64
  idle : UInt64
  deriving DecidableEq

/-- The fields after `cpu`; without the first five there is nothing to compute with. The sum wraps
around, as it does in a release build. -/
def cpuTimes (fields : List (List Char)) : Option CpuTimes :=
  match fields.filterMap parseU64 with
  | user :: nice :: system :: idle :: iowait :: rest =>
    some
      { total := (user :: nice :: system :: idle :: iowait :: rest).foldl (· + ·) 0
        idle := saturatingAdd idle iowait }
  | _ => none

/-- The first line of `/proc/stat` whose first word is `cpu`; those of the cores are numbered. -/
def parseProcStat (text : List Char) : Option CpuTimes :=
  ((lines text).findSome? fun line =>
    match splitWhitespace line with
    | first :: fields => if first = "cpu".toList then some fields else none
    | [] => none).bind cpuTimes

/-- The memory of the host, in bytes. -/
structure MemInfo where
  totalBytes : UInt64
  availableBytes : UInt64
  deriving DecidableEq

/-- Memory in use; nothing when more is available than there is. -/
def MemInfo.usedBytes (m : MemInfo) : UInt64 := saturatingSub m.totalBytes m.availableBytes

/-- The loop over the lines of `/proc/meminfo`; it ends when both values are there. -/
def meminfoLoop : List (List Char) → Option UInt64 → Option UInt64 → Option UInt64 × Option UInt64
  | [], total, avail => (total, avail)
  | line :: rest, total, avail =>
    match splitOnce ':' line with
    | none => meminfoLoop rest total avail
    | some (key, value) =>
      let valueKb := (splitWhitespace value).head?.bind parseU64
      let total := if trim key = "MemTotal".toList then valueKb else total
      let avail := if trim key = "MemAvailable".toList then valueKb else avail
      if total.isSome ∧ avail.isSome then (total, avail) else meminfoLoop rest total avail

/-- The values are in kibibytes. -/
def parseMeminfo (text : List Char) : Option MemInfo :=
  match meminfoLoop (lines text) none none with
  | (some t, some a) => some ⟨saturatingMul t 1024, saturatingMul a 1024⟩
  | _ => none

/-- Bytes received and sent since boot. -/
structure NetCounters where
  rxBytes : UInt64 := 0
  txBytes : UInt64 := 0
  deriving DecidableEq

/-- Add a line of `/proc/net/dev`; header lines have no colon, and the loopback does not count. -/
def NetCounters.add (counters : NetCounters) (line : List Char) : NetCounters :=
  match splitOnce ':' line with
  | none => counters
  | some (iface, rest) =>
    let iface := trim iface
    if iface = [] ∨ iface = "lo".toList then counters
    else match (splitWhitespace rest).filterMap parseU64 with
      | rx :: _ :: _ :: _ :: _ :: _ :: _ :: _ :: tx :: _ =>
        ⟨saturatingAdd counters.rxBytes rx, saturatingAdd counters.txBytes tx⟩
      | _ => counters

/-- The counters of `/proc/net/dev`, added up over the interfaces. -/
def parseNetDev (text : List Char) : NetCounters := (lines text).foldl NetCounters.add {}

/-- The space of a filesystem, in bytes. -/
structure DiskSpace where
  totalBytes : UInt64
  usedBytes : UInt64
  deriving DecidableEq

/-- The first line after the header that is not blank. -/
def parseDf (text : List Char) : Option DiskSpace :=
  (((lines text).drop 1).find? fun l => trim l ≠ []).bind fun line =>
    match splitWhitespace line with
    | _ :: total :: used :: _ => do
      let totalBytes ← parseU64 total
      let usedBytes ← parseU64 used
      return ⟨totalBytes, usedBytes⟩
    | _ => none

/-- A rate from a difference over an interval. The product has 128 bits, the quotient is cut to 64.
-/
def perSecond (delta intervalMs : UInt64) : UInt64 :=
  if intervalMs = 0 then 0 else UInt64.ofNat (delta.toNat * 1000 / intervalMs.toNat)

/-- What was received and sent between two readings; a counter that went back counts as nothing. -/
def netDeltas (prev curr : NetCounters) : NetCounters :=
  ⟨saturatingSub curr.rxBytes prev.rxBytes, saturatingSub curr.txBytes prev.txBytes⟩

/-- The operations completed between two readings. -/
def diskDeltas (prev curr : DiskStats) : DiskStats :=
  ⟨saturatingSub curr.readsCompleted prev.readsCompleted,
    saturatingSub curr.writesCompleted prev.writesCompleted⟩

/-! ## Percentages -/

/-- `n as f64`; a 64-bit number is not too large. -/
def asF64 (n : UInt64) : ℚ := Binary64.nearest n.toNat

/-- The product of a value and a finite number that is positive. -/
def mulF64 (x : Binary64) (w : ℚ) : Binary64 :=
  match x with
  | .negInf => .negInf
  | .finite q => .round (q * w)
  | .posInf => .posInf

/-- `(used as f64 / total as f64) * 100.0`. -/
def percentOf (used total : UInt64) : Binary64 := mulF64 (.round (asF64 used / asF64 total)) 100

/-- The percentage of the time between two readings in which the CPUs were busy. -/
def cpuBusyPct (prev curr : CpuTimes) : Binary64 :=
  let totalDelta := saturatingSub curr.total prev.total
  let idleDelta := saturatingSub curr.idle prev.idle
  if totalDelta = 0 then .finite 0 else percentOf (saturatingSub totalDelta idleDelta) totalDelta

/-- A share as a percentage, 0 of nothing. -/
def ratioPct (used total : UInt64) : Binary64 :=
  if total = 0 then .finite 0 else percentOf used total

/-- The percentage of the memory in use. -/
def ResourceUsage.memoryPct (u : ResourceUsage) : Binary64 := ratioPct u.memoryUsed u.memoryTotal

/-! ## The collector -/

/-- What reading a file gives. -/
inductive FileRead
  | text (s : String)
  | notFound
  | failed (message : String)

/-- Read a file under `/proc`. Where there is none the platform has no such interface. -/
def readProc (read : String → FileRead) (path : String) : Result (List Char) :=
  match read path with
  | .text s => .ok s.toList
  | .notFound => .error (.notSupported
      ("host metrics require " ++ path ++ ", which is not present on this platform"))
  | .failed e => .error (.io ("reading " ++ path ++ ": " ++ e))

/-- What running `df` gives: its standard output, or its error output when it fails. -/
inductive DfRun
  | succeeded (stdout : String)
  | exited (stderr : String)
  | notFound (message : String)
  | failed (message : String)

/-- The space of a mount, from what `df` printed. -/
def readDiskSpace (df : DfRun) (mount : String) : Result DiskSpace :=
  match df with
  | .succeeded stdout =>
    match parseDf stdout.toList with
    | some space => .ok space
    | none => .error (.io ("could not parse df output for " ++ mount))
  | .exited stderr => .error (.io
      ("df failed for " ++ mount ++ ": " ++ trimmed stderr))
  | .notFound e => .error (.notSupported
      ("host disk metrics require `df`, which is not available: " ++ e))
  | .failed e => .error (.io ("spawning df: " ++ e))

/-- The time between the two readings of the counters (ms). -/
def sampleIntervalMs : UInt64 := 100

/-- The host over the interval: its files at both ends, and `df`. -/
structure Reading where
  before : String → FileRead
  after : String → FileRead
  df : DfRun
  mount : String := "/"

/-- The finite number; a percentage is one (`percentOf_bounds`). -/
def valueOf : Binary64 → ℚ
  | .finite q => q
  | _ => 0

/-- The CPU times of `/proc/stat`. -/
def readCpu (read : String → FileRead) : Result CpuTimes := do
  match parseProcStat (← readProc read "/proc/stat") with
  | some times => .ok times
  | none => .error (.io "no aggregate cpu line in /proc/stat")

/-- The memory of `/proc/meminfo`. -/
def readMem (read : String → FileRead) : Result MemInfo := do
  match parseMeminfo (← readProc read "/proc/meminfo") with
  | some mem => .ok mem
  | none => .error (.io "missing MemTotal/MemAvailable in /proc/meminfo")

/-- Collect the usage of the host: the counters twice, memory and disk space once. -/
def collectHost (r : Reading) : Result ResourceUsage := do
  let cpu0 ← readCpu r.before
  let net0 := parseNetDev (← readProc r.before "/proc/net/dev")
  let disk0 := parseDiskstats (← readProc r.before "/proc/diskstats")
  let cpu1 ← readCpu r.after
  let net1 := parseNetDev (← readProc r.after "/proc/net/dev")
  let disk1 := parseDiskstats (← readProc r.after "/proc/diskstats")
  let mem ← readMem r.after
  let space ← readDiskSpace r.df r.mount
  let netD := netDeltas net0 net1
  let diskD := diskDeltas disk0 disk1
  return {
    cpuPct := valueOf (cpuBusyPct cpu0 cpu1)
    memoryUsed := mem.usedBytes
    memoryTotal := mem.totalBytes
    diskUsed := space.usedBytes
    diskTotal := space.totalBytes
    netRxBps := perSecond netD.rxBytes sampleIntervalMs
    netTxBps := perSecond netD.txBytes sampleIntervalMs
    readIops := perSecond diskD.readsCompleted sampleIntervalMs
    writeIops := perSecond diskD.writesCompleted sampleIntervalMs }

/-- The built-in collector. -/
def hostMetricsCollector (r : Reading) : MetricsCollector := ⟨"host", collectHost r⟩

/-! ## Bounds -/

theorem saturatingSub_le (a b : UInt64) : saturatingSub a b ≤ a := by
  rw [saturatingSub]
  split_ifs with h
  · rw [UInt64.le_iff_toNat_le, UInt64.toNat_sub_of_le _ _ h]
    omega
  · exact UInt64.zero_le

theorem saturatingAdd_mono {a b c d : UInt64} (h : a ≤ b) (h' : c ≤ d) :
    saturatingAdd a c ≤ saturatingAdd b d := by
  rw [UInt64.le_iff_toNat_le] at h h' ⊢
  rw [toNat_saturatingAdd, toNat_saturatingAdd]
  omega

theorem isBinary64_natCast {n : ℕ} (h : n < 2 ^ 53) : IsBinary64 n :=
  ⟨n, 0, by exact_mod_cast h, by decide, by decide, by simp⟩

theorem abs_toNat_lt_limit (n : UInt64) : |(n.toNat : ℚ)| < Binary64.limit := by
  have hn : (n.toNat : ℚ) < 2 ^ 64 := by exact_mod_cast n.toNat_lt
  have hbig : IsBinary64 (2 ^ 64) := ⟨1, 64, by decide, by decide, by decide, by norm_num⟩
  have hlimit := Binary64.abs_lt_limit_of_isBinary64 hbig
  rw [abs_of_pos (by positivity)] at hlimit
  rw [Nat.abs_cast]
  exact hn.trans hlimit

theorem asF64_mono {a b : UInt64} (h : a ≤ b) : asF64 a ≤ asF64 b :=
  Binary64.nearest_mono (abs_toNat_lt_limit a) (abs_toNat_lt_limit b)
    (by exact_mod_cast UInt64.le_iff_toNat_le.1 h)

/-- Small counts are converted without an error. -/
theorem asF64_of_lt {n : UInt64} (h : n.toNat < 2 ^ 53) : asF64 n = n.toNat :=
  (Binary64.abs_lt_of_round (Binary64.round_of_isBinary64 (isBinary64_natCast h))).2

theorem asF64_nonneg (n : UInt64) : 0 ≤ asF64 n := by
  have hzero : asF64 0 = 0 := asF64_of_lt (by decide)
  rw [← hzero]
  exact asF64_mono UInt64.zero_le

theorem asF64_pos {n : UInt64} (h : n ≠ 0) : 0 < asF64 n := by
  have hone : asF64 1 = 1 := asF64_of_lt (by decide)
  have hle : (1 : UInt64) ≤ n := by
    rw [UInt64.le_iff_toNat_le]
    have hne : n.toNat ≠ 0 := fun e => h (UInt64.toNat_inj.1 e)
    change 1 ≤ n.toNat
    omega
  linarith [asF64_mono hle]

/-- A part of a total is a percentage: rounding respects the order and leaves 0, 1 and 100 alone. -/
theorem percentOf_bounds {used total : UInt64} (h : used ≤ total) (ht : total ≠ 0) :
    ∃ q, percentOf used total = .finite q ∧ 0 ≤ q ∧ q ≤ 100 := by
  have hround : ∀ {n : ℕ}, n < 2 ^ 53 → Binary64.round n = .finite n := fun hn =>
    Binary64.round_of_isBinary64 (isBinary64_natCast hn)
  -- a rounded number between two small naturals is a number between them
  have hbetween : ∀ {x : ℚ} {n : ℕ}, n < 2 ^ 53 → 0 ≤ x → x ≤ n →
      ∃ q, Binary64.round x = .finite q ∧ 0 ≤ q ∧ q ≤ n := by
    intro x n hn hx hxn
    have hlow := Binary64.round_mono hx
    have hhigh := Binary64.round_mono hxn
    rw [show (0 : ℚ) = ((0 : ℕ) : ℚ) from rfl, hround (by decide)] at hlow
    rw [hround hn] at hhigh
    cases hq : Binary64.round x with
    | negInf => simp [hq] at hlow
    | posInf => simp [hq] at hhigh
    | finite q =>
      rw [hq] at hlow hhigh
      exact ⟨q, rfl, by simpa using hlow, by simpa using hhigh⟩
  have hpos := asF64_pos ht
  have hdiv : asF64 used / asF64 total ≤ 1 := div_le_one_of_le₀ (asF64_mono h) hpos.le
  obtain ⟨q, hq, h0, h1⟩ := hbetween (n := 1) (by decide)
    (div_nonneg (asF64_nonneg used) hpos.le) (by exact_mod_cast hdiv)
  obtain ⟨p, hp, hp0, hp1⟩ := hbetween (x := q * 100) (n := 100) (by decide) (by positivity)
    (by push_cast at h1 ⊢; linarith)
  exact ⟨p, by rw [percentOf, hq, mulF64, hp], hp0, by exact_mod_cast hp1⟩

theorem ratioPct_bounds {used total : UInt64} (h : used ≤ total) :
    .finite 0 ≤ ratioPct used total ∧ ratioPct used total ≤ .finite 100 := by
  rw [ratioPct]
  split_ifs with ht
  · exact ⟨le_rfl, by simp⟩
  · obtain ⟨q, hq, h0, h1⟩ := percentOf_bounds h ht
    simp [hq, h0, h1]

theorem cpuBusyPct_bounds (prev curr : CpuTimes) :
    0 ≤ valueOf (cpuBusyPct prev curr) ∧ valueOf (cpuBusyPct prev curr) ≤ 100 := by
  rw [cpuBusyPct]
  split_ifs with ht
  · simp [valueOf]
  · obtain ⟨q, hq, hbounds⟩ := percentOf_bounds (saturatingSub_le _ _) ht
    rw [hq]
    exact hbounds

/-- A snapshot whose percentages make sense. -/
def ResourceUsage.Sound (u : ResourceUsage) : Prop :=
  0 ≤ u.cpuPct ∧ u.cpuPct ≤ 100 ∧ u.memoryUsed ≤ u.memoryTotal

/-- What the collector reports is sound, whatever it reads. -/
theorem collectHost_sound {r : Reading} {u : ResourceUsage} (h : collectHost r = .ok u) :
    u.Sound := by
  obtain ⟨cpu0, _, h⟩ := ok_of_bind h
  obtain ⟨_, _, h⟩ := ok_of_bind h
  obtain ⟨_, _, h⟩ := ok_of_bind h
  obtain ⟨cpu1, _, h⟩ := ok_of_bind h
  obtain ⟨_, _, h⟩ := ok_of_bind h
  obtain ⟨_, _, h⟩ := ok_of_bind h
  obtain ⟨mem, _, h⟩ := ok_of_bind h
  obtain ⟨_, _, h⟩ := ok_of_bind h
  cases h
  obtain ⟨h0, h100⟩ := cpuBusyPct_bounds cpu0 cpu1
  exact ⟨h0, h100, saturatingSub_le _ _⟩

/-! ## All collectors -/

/-- A collector of the daemon. -/
def MetricsCollector.Builtin (c : MetricsCollector) : Prop :=
  c = runtimeMetricsCollector ∨ ∃ r, c = hostMetricsCollector r

theorem MetricsCollector.Builtin.sound {c : MetricsCollector} (hc : c.Builtin) {u : ResourceUsage}
    (h : c.collectHost = .ok u) : u.Sound := by
  rcases hc with rfl | ⟨r, rfl⟩
  · cases h
    exact ⟨le_rfl, by decide +kernel, UInt64.le_refl _⟩
  · exact collectHost_sound h

/-- The invariant of the loop: the sum is at most a hundred for each collector that was counted. -/
structure Tally.Sound (t : Tally) : Prop where
  nonneg : 0 ≤ t.cpuSum
  le : t.cpuSum ≤ 100 * t.counted
  memory : t.total.memoryUsed ≤ t.total.memoryTotal
  cpu : t.total.cpuPct = 0

theorem Tally.Sound.add {t : Tally} (ht : t.Sound) {c : MetricsCollector} (hc : c.Builtin) :
    (t.add c).Sound := by
  rw [Tally.add]
  cases h : c.collectHost with
  | error e => exact ht
  | ok u =>
    obtain ⟨h0, h100, hmem⟩ := hc.sound h
    refine ⟨add_nonneg ht.nonneg h0, ?_, saturatingAdd_mono ht.memory hmem, ht.cpu⟩
    push_cast
    linarith [ht.le]

theorem Tally.Sound.foldl {providers : List MetricsCollector} (h : ∀ c ∈ providers, c.Builtin)
    {t : Tally} (ht : t.Sound) : (providers.foldl Tally.add t).Sound := by
  induction providers generalizing t with
  | nil => exact ht
  | cons c providers ih =>
    exact ih (fun c' hc' => h c' (List.mem_cons_of_mem _ hc')) (ht.add (h c List.mem_cons_self))

theorem Tally.Sound.usage {t : Tally} (ht : t.Sound) : t.usage.Sound := by
  rw [Tally.usage]
  split_ifs with hcounted
  · have hpos : (0 : ℚ) < t.counted := by exact_mod_cast hcounted
    refine ⟨div_nonneg ht.nonneg hpos.le, ?_, ht.memory⟩
    rw [div_le_iff₀ hpos]
    exact ht.le
  · exact ⟨ht.cpu.ge, by rw [ht.cpu]; norm_num, ht.memory⟩

/-- **The usage of the host.** Whatever the collectors read, and whichever of them fail, the CPU
percentage is between 0 and 100, no more memory is used than there is, and the percentage of the
memory is between 0 and 100 in double precision. -/
theorem aggregateHostUsage_bounds {providers : List MetricsCollector}
    (h : ∀ c ∈ providers, c.Builtin) {u : ResourceUsage} (hu : aggregateHostUsage providers = .ok u) :
    0 ≤ u.cpuPct ∧ u.cpuPct ≤ 100 ∧ u.memoryUsed ≤ u.memoryTotal ∧
      .finite 0 ≤ u.memoryPct ∧ u.memoryPct ≤ .finite 100 := by
  obtain rfl := Except.ok.inj hu
  have hstart : ({} : Tally).Sound := ⟨le_rfl, by simp, UInt64.le_refl _, rfl⟩
  obtain ⟨h0, h100, hmem⟩ := (hstart.foldl h).usage
  exact ⟨h0, h100, hmem, ratioPct_bounds hmem⟩

/-- A host whose counters of the CPU were reset between the readings. -/
def resetReading : Reading where
  before path := .text (if path = "/proc/stat" then "cpu 90 0 10 400 0 0\ncpu0 90 0 10 400 0 0\n" else "")
  after path := .text (
    if path = "/proc/stat" then "cpu 600 0 100 100 0 0\n"
    else if path = "/proc/meminfo" then "MemTotal: 16 kB\nMemFree: 2 kB\nMemAvailable: 4 kB\n"
    else "")
  df := .succeeded "Filesystem 1B-blocks Used\n/dev/sda1 1000 250\n"

theorem aggregateHostUsage_bounds_reset :
    ∃ u, aggregateHostUsage [runtimeMetricsCollector, hostMetricsCollector resetReading] = .ok u ∧
      u.memoryUsed = 12288 ∧ 0 ≤ u.cpuPct ∧ u.cpuPct ≤ 100 :=
  have h := @aggregateHostUsage_bounds [runtimeMetricsCollector, hostMetricsCollector resetReading]
    (by simp [MetricsCollector.Builtin]) _ rfl
  ⟨_, rfl, by decide +kernel, h.1, h.2.1⟩

end Monitoring

end OCF

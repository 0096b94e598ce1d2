import OCF.Foundations.Text
import OCF.Host.Usage

/-!
# Disk operations from `/proc/diskstats`

The host collector adds up the reads and writes that the kernel lists for each block device. The
kernel lists a disk and each of its partitions, and the disk's counters include the partitions', so
only whole disks are to be counted; which ones these are is read off the names.

Here a listing is what the kernel prints for any devices of the usual naming schemes. The rules for
the names know the partitions of `sd`, `vd`, `hd` and `nvme` disks, and not those of `xvd` and
`mmcblk` disks: `parseDiskstats_listing_iff` says for which listings the sums are still those of the
disks.
-/

namespace OCF

namespace Monitoring

open Text

/-! ## The reader -/

/-- Operations that were completed. -/
structure DiskStats where
  readsCompleted : UInt64 := 0
  writesCompleted : UInt64 := 0
  deriving DecidableEq

/-- `str::starts_with`. -/
def startsWith (p : String) (name : List Char) : Bool := p.toList.isPrefixOf name

/-- The last character is a digit. -/
def endsInDigit (name : List Char) : Bool := (name.getLast?.map Char.isDigit).getD false

/-- The name is taken for a whole disk. -/
def isPhysicalDevice (name : List Char) : Bool :=
  if startsWith "loop" name || startsWith "ram" name || startsWith "dm-" name ||
      startsWith "md" name || startsWith "zram" name || startsWith "fd" name then false
  else if (startsWith "sd" name || startsWith "vd" name || startsWith "hd" name) &&
      endsInDigit name then false
  else if startsWith "nvme" name then !name.contains 'p'
  else true

/-- A counter; what is none counts as zero. -/
def parseCounter (field : List Char) : UInt64 :=
  UInt64.ofNat ((parseUnsigned (2 ^ 64) field).getD 0)

/-- Add a line of the listing; a line of fewer than eight fields is skipped. -/
def DiskStats.add (stats : DiskStats) (line : List Char) : DiskStats :=
  match splitWhitespace line with
  | _ :: _ :: name :: reads :: _ :: _ :: _ :: writes :: _ =>
    if isPhysicalDevice name then
      { readsCompleted := saturatingAdd stats.readsCompleted (parseCounter reads)
        writesCompleted := saturatingAdd stats.writesCompleted (parseCounter writes) }
    else stats
  | _ => stats

/-- The operations of the disks of a listing. -/
def parseDiskstats (text : List Char) : DiskStats := (lines text).foldl DiskStats.add {}

/-! ## The listing of the kernel -/

/-- The letters that number the disks of a scheme: `a` to `z`, then `aa` and so on. -/
structure DiskLetters where
  chars : List Char
  nonempty : chars ≠ []
  lower : ∀ c ∈ chars, c.isLower

/-- A whole disk, by its naming scheme. -/
inductive Disk
  | sd (letters : DiskLetters)
  | vd (letters : DiskLetters)
  | hd (letters : DiskLetters)
  | xvd (letters : DiskLetters)
  | nvme (controller ns : ℕ)
  | mmcblk (index : ℕ)

/-- A number in decimal. -/
def digits (n : ℕ) : List Char := Nat.toDigits 10 n

/-- The name of a disk. -/
def Disk.name : Disk → List Char
  | .sd l => "sd".toList ++ l.chars
  | .vd l => "vd".toList ++ l.chars
  | .hd l => "hd".toList ++ l.chars
  | .xvd l => "xvd".toList ++ l.chars
  | .nvme controller ns => "nvme".toList ++ digits controller ++ 'n' :: digits ns
  | .mmcblk index => "mmcblk".toList ++ digits index

/-- The partitions of the disk are named by a scheme that the reader has no rule for. -/
def Disk.unruled : Disk → Bool
  | .xvd _ => true
  | .mmcblk _ => true
  | _ => false

/-- A block device: a disk or a numbered partition of one. -/
inductive Device
  | whole (disk : Disk)
  | partition (disk : Disk) (number : ℕ)

/-- The name of a device: a partition has the name of its disk and a number, with a `p` between them
when the name ends in a digit. -/
def Device.name : Device → List Char
  | .whole disk => disk.name
  | .partition disk number =>
    if endsInDigit disk.name then disk.name ++ 'p' :: digits number else disk.name ++ digits number

/-- The device is a whole disk. -/
def Device.isWhole : Device → Bool
  | .whole _ => true
  | .partition _ _ => false

/-- A partition that the reader takes for a disk. -/
def Device.isUnruledPartition : Device → Bool
  | .whole _ => false
  | .partition disk _ => disk.unruled

/-- What the reader takes for a disk. -/
def Device.isCounted (d : Device) : Bool := d.isWhole || d.isUnruledPartition

/-- A line of the listing. -/
structure DiskRow where
  major : ℕ
  minor : ℕ
  device : Device
  reads : UInt64
  readsMerged : ℕ
  sectorsRead : ℕ
  msReading : ℕ
  writes : UInt64
  rest : List ℕ

/-- The fields after the device numbers. -/
def DiskRow.fields (r : DiskRow) : List (List Char) :=
  r.device.name :: digits r.reads.toNat :: digits r.readsMerged :: digits r.sectorsRead ::
    digits r.msReading :: digits r.writes.toNat :: r.rest.map digits

/-- The line as the kernel prints it, with the device numbers right-aligned. -/
def DiskRow.line (r : DiskRow) : List Char :=
  List.replicate (4 - (digits r.major).length) ' ' ++ (digits r.major ++ ' ' ::
    (List.replicate (7 - (digits r.minor).length) ' ' ++ (digits r.minor ++ ' ' ::
      [' '].intercalate r.fields)))

/-- The text of a listing. -/
def diskListing (rows : List DiskRow) : List Char := rows.flatMap fun r => r.line ++ ['\n']

/-- The saturating sums over the rows that pass. -/
def diskSums (p : Device → Bool) (rows : List DiskRow) : DiskStats :=
  { readsCompleted := ((rows.filter fun r => p r.device).map DiskRow.reads).foldl saturatingAdd 0
    writesCompleted := ((rows.filter fun r => p r.device).map DiskRow.writes).foldl saturatingAdd 0 }

/-- The sum of a counter over the rows that pass, without a bound. -/
def counterSum (counter : DiskRow → UInt64) (p : Device → Bool) (rows : List DiskRow) : ℕ :=
  ((rows.filter fun r => p r.device).map fun r => (counter r).toNat).sum

/-! ## Names -/

theorem isDigit_of_mem_digits {n : ℕ} {c : Char} (hc : c ∈ digits n) : c.isDigit :=
  Nat.isDigit_of_mem_toDigits (by decide) (by decide) hc

theorem digits_ne_nil (n : ℕ) : digits n ≠ [] := Nat.toDigits_ne_nil

theorem endsInDigit_append_digits (s : List Char) (n : ℕ) : endsInDigit (s ++ digits n) := by
  rw [endsInDigit, List.getLast?_append, List.getLast?_eq_some_getLast (digits_ne_nil n)]
  exact isDigit_of_mem_digits (List.getLast_mem _)

theorem DiskLetters.range_of_mem (l : DiskLetters) {c : Char} (hc : c ∈ l.chars) :
    'a'.val ≤ c.val ∧ c.val ≤ 'z'.val := by
  have hlower : (decide (c.val ≥ 'a'.val) && decide (c.val ≤ 'z'.val)) = true := l.lower c hc
  simpa only [Bool.and_eq_true, decide_eq_true_eq] using hlower

theorem endsInDigit_append_letters (s : List Char) (l : DiskLetters) :
    endsInDigit (s ++ l.chars) = false := by
  have hlower := l.range_of_mem (List.getLast_mem l.nonempty)
  rw [endsInDigit, List.getLast?_append, List.getLast?_eq_some_getLast l.nonempty]
  simp only [Option.some_or, Option.map_some, Option.getD_some, Char.isDigit, Bool.and_eq_false_iff,
    decide_eq_false_iff_not]
  right
  intro hle
  have hchars : 'a'.val ≤ '9'.val := UInt32.le_trans hlower.1 hle
  exact absurd hchars (by decide)

/-- The rule for `sd`, `vd` and `hd` names: a digit at the end means a partition. -/
theorem isPhysicalDevice_lettered {scheme : String} (h : scheme ∈ ["sd", "vd", "hd"])
    (s : List Char) :
    isPhysicalDevice (scheme.toList ++ s) = !endsInDigit (scheme.toList ++ s) := by
  simp only [List.mem_cons, List.not_mem_nil, or_false] at h
  rcases h with rfl | rfl | rfl <;> simp [isPhysicalDevice, startsWith]

theorem isPhysicalDevice_letters {scheme : String} (h : scheme ∈ ["sd", "vd", "hd"])
    (l : DiskLetters) :
    isPhysicalDevice (scheme.toList ++ l.chars) = true := by
  rw [isPhysicalDevice_lettered h, endsInDigit_append_letters, Bool.not_false]

theorem isPhysicalDevice_letters_digits {scheme : String} (h : scheme ∈ ["sd", "vd", "hd"])
    (l : DiskLetters) (n : ℕ) :
    isPhysicalDevice (scheme.toList ++ l.chars ++ digits n) = false := by
  rw [List.append_assoc, isPhysicalDevice_lettered h, ← List.append_assoc, endsInDigit_append_digits,
    Bool.not_true]

/-- The rule for `nvme` names: a `p` means a partition. -/
theorem isPhysicalDevice_nvme (s : List Char) :
    isPhysicalDevice ("nvme".toList ++ s) = !s.contains 'p' := by
  simp [isPhysicalDevice, startsWith]

/-- There is no rule for the other two schemes. -/
theorem isPhysicalDevice_unruled {scheme : String} (h : scheme ∈ ["xvd", "mmcblk"]) (s : List Char) :
    isPhysicalDevice (scheme.toList ++ s) = true := by
  simp only [List.mem_cons, List.not_mem_nil, or_false] at h
  rcases h with rfl | rfl <;> simp [isPhysicalDevice, startsWith]

theorem not_p_of_mem_digits {n : ℕ} : 'p' ∉ digits n := fun h => by
  simpa using isDigit_of_mem_digits h

/-- Of the listed devices, the reader takes the disks for disks, and the partitions of the schemes
it has no rule for. -/
theorem isPhysicalDevice_name (d : Device) :
    isPhysicalDevice d.name = d.isCounted := by
  cases d with
  | whole disk =>
    cases disk with
    | sd l => exact isPhysicalDevice_letters (by simp) l
    | vd l => exact isPhysicalDevice_letters (by simp) l
    | hd l => exact isPhysicalDevice_letters (by simp) l
    | xvd l => exact isPhysicalDevice_unruled (by simp) _
    | nvme controller ns =>
      have hname : (Disk.nvme controller ns).name =
          "nvme".toList ++ digits controller ++ 'n' :: digits ns := rfl
      rw [Device.name, hname, List.append_assoc, isPhysicalDevice_nvme]
      simp [not_p_of_mem_digits, Device.isCounted, Device.isWhole]
    | mmcblk index => exact isPhysicalDevice_unruled (by simp) _
  | partition disk number =>
    cases disk with
    | sd l =>
      have hname : (Disk.sd l).name = "sd".toList ++ l.chars := rfl
      rw [Device.name, hname, endsInDigit_append_letters, if_neg Bool.false_ne_true]
      exact isPhysicalDevice_letters_digits (by simp) l number
    | vd l =>
      have hname : (Disk.vd l).name = "vd".toList ++ l.chars := rfl
      rw [Device.name, hname, endsInDigit_append_letters, if_neg Bool.false_ne_true]
      exact isPhysicalDevice_letters_digits (by simp) l number
    | hd l =>
      have hname : (Disk.hd l).name = "hd".toList ++ l.chars := rfl
      rw [Device.name, hname, endsInDigit_append_letters, if_neg Bool.false_ne_true]
      exact isPhysicalDevice_letters_digits (by simp) l number
    | xvd l =>
      have hname : (Disk.xvd l).name = "xvd".toList ++ l.chars := rfl
      rw [Device.name, hname, endsInDigit_append_letters, if_neg Bool.false_ne_true,
        List.append_assoc]
      exact isPhysicalDevice_unruled (by simp) _
    | nvme controller ns =>
      have hname : (Disk.nvme controller ns).name =
          "nvme".toList ++ digits controller ++ 'n' :: digits ns := rfl
      have hdigit : endsInDigit (Disk.nvme controller ns).name := by
        rw [hname, List.append_cons]
        exact endsInDigit_append_digits _ ns
      rw [Device.name, if_pos hdigit, hname, List.append_assoc, List.append_assoc,
        isPhysicalDevice_nvme]
      simp [Device.isCounted, Device.isWhole, Device.isUnruledPartition, Disk.unruled]
    | mmcblk index =>
      have hname : (Disk.mmcblk index).name = "mmcblk".toList ++ digits index := rfl
      have hdigit : endsInDigit (Disk.mmcblk index).name := by
        rw [hname]
        exact endsInDigit_append_digits _ index
      rw [Device.name, if_pos hdigit, hname, List.append_assoc]
      exact isPhysicalDevice_unruled (by simp) _

/-! ## Reading the listing -/

theorem isWhiteSpace_of_mem_digits {n : ℕ} {c : Char} (hc : c ∈ digits n) : isWhiteSpace c = false :=
  not_isWhiteSpace_of_isDigit (isDigit_of_mem_digits hc)

theorem isWord_digits (n : ℕ) : IsWord (digits n) :=
  ⟨digits_ne_nil n, fun _ hc => isWhiteSpace_of_mem_digits hc⟩

theorem DiskLetters.isWhiteSpace_of_mem (l : DiskLetters) {c : Char} (hc : c ∈ l.chars) :
    isWhiteSpace c = false := by
  have hlower := l.range_of_mem hc
  simp only [UInt32.le_iff_toNat_le, Char.toNat_val] at hlower
  have h₁ : (97 : ℕ) ≤ c.toNat := hlower.1
  have h₂ : c.toNat ≤ 122 := hlower.2
  simp only [isWhiteSpace, Bool.or_eq_false_iff, Bool.and_eq_false_iff, decide_eq_false_iff_not,
    beq_eq_false_iff_ne]
  omega

theorem Disk.isWord_name (d : Disk) : IsWord d.name := by
  cases d with
  | sd l => exact IsWord.append (by decide) fun _ => l.isWhiteSpace_of_mem
  | vd l => exact IsWord.append (by decide) fun _ => l.isWhiteSpace_of_mem
  | hd l => exact IsWord.append (by decide) fun _ => l.isWhiteSpace_of_mem
  | xvd l => exact IsWord.append (by decide) fun _ => l.isWhiteSpace_of_mem
  | nvme controller ns =>
    refine (IsWord.append (by decide) fun _ => isWhiteSpace_of_mem_digits).append ?_
    exact (IsWord.append (w := ['n']) (by decide) fun _ => isWhiteSpace_of_mem_digits).2
  | mmcblk index => exact IsWord.append (by decide) fun _ => isWhiteSpace_of_mem_digits

theorem Device.isWord_name (d : Device) : IsWord d.name := by
  cases d with
  | whole disk => exact disk.isWord_name
  | partition disk number =>
    rw [Device.name]
    split_ifs
    · refine disk.isWord_name.append ?_
      exact (IsWord.append (w := ['p']) (by decide) fun _ => isWhiteSpace_of_mem_digits).2
    · exact disk.isWord_name.append fun _ => isWhiteSpace_of_mem_digits

theorem DiskRow.isWord_fields (r : DiskRow) : ∀ w ∈ r.fields, IsWord w := by
  intro w hw
  have hname := r.device.isWord_name
  simp only [DiskRow.fields, List.mem_cons, List.mem_map] at hw
  rcases hw with rfl | rfl | rfl | rfl | rfl | rfl | ⟨n, -, rfl⟩
  · exact hname
  all_goals exact isWord_digits _

/-- The fields of a line. -/
theorem DiskRow.splitWhitespace_line (r : DiskRow) :
    splitWhitespace r.line = digits r.major :: digits r.minor :: r.fields := by
  rw [DiskRow.line, splitWhitespace_leftpad, splitWhitespace_word_append (isWord_digits _),
    splitWhitespace_leftpad, splitWhitespace_word_append (isWord_digits _),
    splitWhitespace_intercalate r.isWord_fields]

/-- The only white space of a line is the space. -/
theorem DiskRow.space_of_mem_line (r : DiskRow) {c : Char} (hc : c ∈ r.line) :
    c = ' ' ∨ isWhiteSpace c = false := by
  simp only [DiskRow.line, List.mem_append, List.mem_cons] at hc
  rcases hc with hc | hc | rfl | hc | hc | rfl | hc
  · exact .inl (List.eq_of_mem_replicate hc)
  · exact .inr (isWhiteSpace_of_mem_digits hc)
  · exact .inl rfl
  · exact .inl (List.eq_of_mem_replicate hc)
  · exact .inr (isWhiteSpace_of_mem_digits hc)
  · exact .inl rfl
  · rcases mem_intercalate_space hc with rfl | ⟨w, hw, hcw⟩
    · exact .inl rfl
    · exact .inr ((r.isWord_fields w hw).2 c hcw)

theorem lines_diskListing (rows : List DiskRow) :
    lines (diskListing rows) = rows.map DiskRow.line := by
  have hlines : diskListing rows = (rows.map DiskRow.line).flatMap fun l => l ++ ['\n'] := by
    rw [List.flatMap_map]
    rfl
  rw [hlines, lines_flatMap]
  intro l hl
  obtain ⟨r, -, rfl⟩ := List.mem_map.1 hl
  constructor
  · intro hc
    exact absurd (r.space_of_mem_line hc) (by decide)
  · intro hc
    exact absurd (r.space_of_mem_line (List.mem_of_getLast? hc)) (by decide)

theorem parseCounter_digits (n : UInt64) : parseCounter (digits n.toNat) = n := by
  rw [parseCounter, digits, parseUnsigned_toDigits n.toNat_lt]
  simp

/-- A line adds its counters when the reader takes its device for a disk. -/
theorem DiskStats.add_line (stats : DiskStats) (r : DiskRow) :
    stats.add r.line =
      if r.device.isCounted then
        { readsCompleted := saturatingAdd stats.readsCompleted r.reads
          writesCompleted := saturatingAdd stats.writesCompleted r.writes }
      else stats := by
  rw [DiskStats.add, r.splitWhitespace_line, DiskRow.fields]
  dsimp only
  rw [isPhysicalDevice_name, parseCounter_digits, parseCounter_digits]

theorem foldl_add_line (rows : List DiskRow) (stats : DiskStats) :
    (rows.map DiskRow.line).foldl DiskStats.add stats =
      { readsCompleted := ((rows.filter fun r => r.device.isCounted).map DiskRow.reads).foldl
          saturatingAdd stats.readsCompleted
        writesCompleted := ((rows.filter fun r => r.device.isCounted).map DiskRow.writes).foldl
          saturatingAdd stats.writesCompleted } := by
  induction rows generalizing stats with
  | nil => rfl
  | cons r rows ih =>
    rw [List.map_cons, List.foldl_cons, DiskStats.add_line, ih, List.filter_cons]
    by_cases hr : r.device.isCounted
    · rw [if_pos hr, if_pos hr]
      rfl
    · rw [if_neg hr, if_neg hr]

/-- The reader adds up what it takes for disks. -/
theorem parseDiskstats_listing (rows : List DiskRow) :
    parseDiskstats (diskListing rows) = diskSums Device.isCounted rows := by
  rw [parseDiskstats, lines_diskListing, foldl_add_line, diskSums]

/-! ## The sums -/

theorem toNat_saturatingAdd (a b : UInt64) :
    (saturatingAdd a b).toNat = min (a.toNat + b.toNat) (2 ^ 64 - 1) := by
  unfold saturatingAdd
  split_ifs with h
  · rw [UInt64.toNat_add, Nat.mod_eq_of_lt h]
    omega
  · rw [UInt64.toNat_ofNat_of_lt' (by decide)]
    omega

theorem toNat_foldl_saturatingAdd (l : List UInt64) (a : UInt64) :
    (l.foldl saturatingAdd a).toNat = min (a.toNat + (l.map UInt64.toNat).sum) (2 ^ 64 - 1) := by
  induction l generalizing a with
  | nil =>
    have ha := a.toNat_lt
    simp only [List.foldl_nil, List.map_nil, List.sum_nil]
    omega
  | cons b l ih =>
    rw [List.foldl_cons, ih, toNat_saturatingAdd, List.map_cons, List.sum_cons]
    omega

/-- The counted rows are the disks and the partitions without a rule. -/
theorem counterSum_isCounted (counter : DiskRow → UInt64) (rows : List DiskRow) :
    counterSum counter Device.isCounted rows =
      counterSum counter Device.isWhole rows +
        counterSum counter Device.isUnruledPartition rows := by
  unfold counterSum
  induction rows with
  | nil => rfl
  | cons r rows ih =>
    rcases hr : r.device with disk | ⟨disk, number⟩
    · simp [hr, Device.isCounted, Device.isWhole, Device.isUnruledPartition] at ih ⊢
      omega
    · by_cases hdisk : disk.unruled <;>
        simp [hr, hdisk, Device.isCounted, Device.isWhole, Device.isUnruledPartition] at ih ⊢ <;>
          omega

/-- Two saturating sums over the rows are equal when the bounded sums are. -/
theorem foldl_counter_eq_iff (counter : DiskRow → UInt64) (rows : List DiskRow) :
    ((rows.filter fun r => r.device.isCounted).map counter).foldl saturatingAdd 0 =
        ((rows.filter fun r => r.device.isWhole).map counter).foldl saturatingAdd 0 ↔
      counterSum counter Device.isUnruledPartition rows = 0 ∨
        2 ^ 64 - 1 ≤ counterSum counter Device.isWhole rows := by
  have hsum : ∀ p : Device → Bool,
      (((rows.filter fun r => p r.device).map counter).foldl saturatingAdd 0).toNat =
        min (counterSum counter p rows) (2 ^ 64 - 1) := by
    intro p
    rw [toNat_foldl_saturatingAdd, List.map_map]
    exact congrArg (min · _) (Nat.zero_add _)
  rw [← UInt64.toNat_inj, hsum Device.isCounted, hsum Device.isWhole, counterSum_isCounted]
  omega

/-- The sums that are read off a listing are those of its whole disks if and only if, for the reads
and for the writes, the listed partitions of `xvd` and `mmcblk` disks have none, or the whole disks
alone reach the largest 64-bit number. -/
theorem parseDiskstats_listing_iff (rows : List DiskRow) :
    parseDiskstats (diskListing rows) = diskSums Device.isWhole rows ↔
      (counterSum DiskRow.reads Device.isUnruledPartition rows = 0 ∨
          2 ^ 64 - 1 ≤ counterSum DiskRow.reads Device.isWhole rows) ∧
        (counterSum DiskRow.writes Device.isUnruledPartition rows = 0 ∨
          2 ^ 64 - 1 ≤ counterSum DiskRow.writes Device.isWhole rows) := by
  rw [parseDiskstats_listing, diskSums, diskSums, DiskStats.mk.injEq, foldl_counter_eq_iff,
    foldl_counter_eq_iff]

/-- The disk `xvda` and its first partition, which all operations went to. -/
def xenRows : List DiskRow :=
  let xvda : Disk := .xvd ⟨['a'], by decide, List.all_eq_true.1 (by decide)⟩
  [⟨202, 0, .whole xvda, 1000, 0, 8000, 12, 500, []⟩,
    ⟨202, 1, .partition xvda 1, 1000, 0, 8000, 12, 500, []⟩]

/-- On a Xen guest every operation is counted twice. -/
theorem parseDiskstats_xvda :
    diskListing xenRows =
        " 202       0 xvda 1000 0 8000 12 500\n 202       1 xvda1 1000 0 8000 12 500\n".toList ∧
      parseDiskstats (diskListing xenRows) = ⟨2000, 1000⟩ ∧
      parseDiskstats (diskListing xenRows) ≠ diskSums Device.isWhole xenRows := by
  rw [parseDiskstats_listing]
  exact ⟨by decide +kernel, by decide +kernel, by decide +kernel⟩

end Monitoring

end OCF

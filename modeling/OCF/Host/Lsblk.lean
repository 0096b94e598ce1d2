import OCF.Core.Resource
import OCF.Foundations.HashMap
import OCF.Foundations.Text

/-!
# The disks that `lsblk` lists

The disk manager runs `lsblk -dn -P -b`, which prints a line of `KEY="value"` pairs for each disk,
and reads the disks of the host off the lines. Here a row has the texts that are printed between the
quotes; `lsblk` escapes quotes and control characters, so there are none in them. Every row is read
back as it was printed (`parseLsblkPairs_output`).
-/

namespace OCF

namespace Disks

open Text

/-- Coarse health of a disk. -/
inductive DiskHealth
  | ok
  | warning
  | failing
  | unknown
  deriving DecidableEq

/-- A physical disk attached to a machine. -/
structure PhysicalDisk where
  machineId : Id
  devPath : String
  serial : String
  wwn : Option String
  model : String
  vendor : String
  sizeBytes : UInt64
  health : DiskHealth
  firstSeen : ℤ
  rmaDate : Option ℤ
  deriving DecidableEq

/-- The record of a serial on a machine, first seen now. -/
def PhysicalDisk.new (machineId : Id) (serial : String) (now : ℤ) : PhysicalDisk :=
  ⟨machineId, "", serial, none, "", "", 0, .unknown, now, none⟩

/-! ## The reader -/

/-- The pairs of a line. Each round of the scan takes at least one character, so that the length of
the line is enough fuel. -/
def scanPairs : ℕ → List Char → HashMap String String → HashMap String String
  | 0, _, fields => fields
  | fuel + 1, line, fields =>
    let start := line.dropWhile fun c => c = ' '
    let key := start.takeWhile fun c => c ≠ '=' ∧ c ≠ ' '
    match start.dropWhile fun c => c ≠ '=' ∧ c ≠ ' ' with
    | '=' :: '"' :: rest =>
      let value := rest.takeWhile fun c => c ≠ '"'
      scanPairs fuel ((rest.dropWhile fun c => c ≠ '"').drop 1)
        (fields.insert (String.ofList key) (String.ofList value))
    | '=' :: rest => scanPairs fuel rest fields
    | _ => fields

/-- The pairs of a line by key. -/
def parsePairs (line : List Char) : HashMap String String := scanPairs line.length line ∅

/-- The disk of a line; a line without a name is skipped. -/
def parseLsblkLine (machineId : Id) (now : ℤ) (line : List Char) : Option PhysicalDisk :=
  let fields := parsePairs line
  let name := (fields.lookup "NAME").getD ""
  if name = "" then none
  else
    some { PhysicalDisk.new machineId ((fields.lookup "SERIAL").getD "") now with
      devPath := "/dev/" ++ name
      wwn := (fields.lookup "WWN").filter fun w => w ≠ ""
      model := (fields.lookup "MODEL").getD ""
      vendor := (fields.lookup "VENDOR").getD ""
      sizeBytes := UInt64.ofNat
        (((fields.lookup "SIZE").bind fun s => parseUnsigned (2 ^ 64) s.toList).getD 0) }

/-- The disks of the lines that are not blank. -/
def parseLsblkPairs (output : String) (machineId : Id) (now : ℤ) : List PhysicalDisk :=
  (((lines output.toList).map trim).filter fun line => line ≠ []).filterMap
    (parseLsblkLine machineId now)

/-! ## The output of `lsblk` -/

/-- A text that stands between quotes on one line. -/
def Quotable (s : String) : Prop := '"' ∉ s.toList ∧ '\n' ∉ s.toList

instance (s : String) : Decidable (Quotable s) := inferInstanceAs (Decidable (_ ∧ _))

/-- A disk as `lsblk` prints it. -/
structure LsblkRow where
  name : String
  serial : String
  wwn : String
  model : String
  vendor : String
  size : UInt64
  named : name ≠ ""
  quotable : ∀ s ∈ [name, serial, wwn, model, vendor], Quotable s

/-- The device file of a disk. -/
def LsblkRow.devPath (r : LsblkRow) : String := "/dev/" ++ r.name

/-- The columns and their values. -/
def LsblkRow.pairs (r : LsblkRow) : List (String × String) :=
  [("NAME", r.name), ("SERIAL", r.serial), ("WWN", r.wwn), ("MODEL", r.model), ("VENDOR", r.vendor),
    ("SIZE", toString r.size.toNat)]

/-- A pair, with its value between quotes. -/
def printPair (p : String × String) : List Char := p.1.toList ++ '=' :: '"' :: p.2.toList ++ ['"']

/-- The line of a row. -/
def LsblkRow.line (r : LsblkRow) : List Char := [' '].intercalate (r.pairs.map printPair)

/-- What `lsblk` prints. -/
def lsblkOutput (rows : List LsblkRow) : String :=
  String.ofList (rows.flatMap fun r => r.line ++ ['\n'])

/-- The disk of a row on a machine, first seen now. -/
def LsblkRow.disk (r : LsblkRow) (machineId : Id) (now : ℤ) : PhysicalDisk :=
  { PhysicalDisk.new machineId r.serial now with
    devPath := r.devPath
    wwn := if r.wwn = "" then none else some r.wwn
    model := r.model
    vendor := r.vendor
    sizeBytes := r.size }

/-! ## Reading back what was printed -/

theorem scanPairs_space (fuel : ℕ) (line : List Char) (fields : HashMap String String) :
    scanPairs (fuel + 1) (' ' :: line) fields = scanPairs (fuel + 1) line fields := by
  simp only [scanPairs, List.dropWhile_cons, decide_true, if_true]

/-- One round of the scan reads one pair. -/
theorem scanPairs_printPair {key value : String} (hkey : ∀ c ∈ key.toList, c ≠ '=' ∧ c ≠ ' ')
    (hvalue : '"' ∉ value.toList) (fuel : ℕ) (rest : List Char) (fields : HashMap String String) :
    scanPairs (fuel + 1) (printPair (key, value) ++ rest) fields =
      scanPairs fuel rest (fields.insert key value) := by
  have hline : printPair (key, value) ++ rest =
      key.toList ++ '=' :: '"' :: (value.toList ++ '"' :: rest) := by
    simp [printPair]
  have hstart :
      (key.toList ++ '=' :: '"' :: (value.toList ++ '"' :: rest)).dropWhile (fun c => c = ' ') =
      key.toList ++ '=' :: '"' :: (value.toList ++ '"' :: rest) := by
    cases hk : key.toList with
    | nil => simp
    | cons c cs =>
      have hc : c ≠ ' ' := (hkey c (by simp [hk])).2
      rw [List.cons_append, List.dropWhile_cons_of_neg (by simpa using hc)]
  have hkey' : ∀ c ∈ key.toList, (decide (c ≠ '=' ∧ c ≠ ' ')) = true := by simpa using hkey
  have hvalue' : ∀ c ∈ value.toList, (decide (c ≠ '"')) = true := by
    intro c hc
    simpa using fun h : c = '"' => hvalue (h ▸ hc)
  rw [hline]
  simp only [scanPairs, hstart]
  rw [List.dropWhile_append_of_pos hkey', List.takeWhile_append_of_pos hkey',
    List.dropWhile_cons_of_neg (by simp), List.takeWhile_cons_of_neg (by simp)]
  simp only [List.append_nil, String.ofList_toList]
  rw [List.dropWhile_append_of_pos hvalue', List.takeWhile_append_of_pos hvalue',
    List.dropWhile_cons_of_neg (by simp), List.takeWhile_cons_of_neg (by simp)]
  simp

/-- A scan with enough fuel reads all pairs of a line. -/
theorem scanPairs_intercalate {pairs : List (String × String)}
    (h : ∀ p ∈ pairs, (∀ c ∈ p.1.toList, c ≠ '=' ∧ c ≠ ' ') ∧ '"' ∉ p.2.toList) {fuel : ℕ}
    (hfuel : pairs.length ≤ fuel) (fields : HashMap String String) :
    scanPairs fuel ([' '].intercalate (pairs.map printPair)) fields =
      pairs.foldl (fun m p => m.insert p.1 p.2) fields := by
  induction pairs generalizing fuel fields with
  | nil => cases fuel <;> rfl
  | cons p pairs ih =>
    obtain ⟨hkey, hvalue⟩ := h p List.mem_cons_self
    have hrest := fun q hq => h q (List.mem_cons_of_mem p hq)
    obtain ⟨fuel, rfl⟩ : ∃ n, fuel = n + 1 := Nat.exists_eq_succ_of_ne_zero (by simp at hfuel; omega)
    have hfuel' : pairs.length ≤ fuel := by simpa using hfuel
    rw [List.foldl_cons, ← ih hrest hfuel']
    cases pairs with
    | nil =>
      have hpair := scanPairs_printPair hkey hvalue fuel [] fields
      simpa using hpair
    | cons q pairs =>
      rw [List.map_cons, List.map_cons, List.intercalate_cons_cons, List.append_assoc,
        scanPairs_printPair hkey hvalue, List.singleton_append]
      obtain ⟨fuel, rfl⟩ : ∃ n, fuel = n + 1 :=
        Nat.exists_eq_succ_of_ne_zero (by simp at hfuel'; omega)
      exact scanPairs_space ..

namespace LsblkRow

variable (r : LsblkRow)

theorem digit_size {c : Char} (hc : c ∈ (toString r.size.toNat).toList) : c.isDigit := by
  rw [Nat.toString_eq_repr, Nat.toList_repr] at hc
  exact Nat.isDigit_of_mem_toDigits (by decide) (by decide) hc

/-- The columns have plain names and quotable values. -/
theorem pairs_ok {p : String × String} (hp : p ∈ r.pairs) :
    p.1 ∈ ["NAME", "SERIAL", "WWN", "MODEL", "VENDOR", "SIZE"] ∧ Quotable p.2 := by
  have hsize : Quotable (toString r.size.toNat) := by
    constructor <;> exact fun hc => by simpa using r.digit_size hc
  have hq := r.quotable
  simp only [List.mem_cons, List.not_mem_nil, or_false, forall_eq_or_imp, forall_eq] at hq
  obtain ⟨hname, hserial, hwwn, hmodel, hvendor⟩ := hq
  simp only [pairs, List.mem_cons, List.not_mem_nil, or_false] at hp
  rcases hp with rfl | rfl | rfl | rfl | rfl | rfl <;> exact ⟨by simp, by assumption⟩

theorem columns_plain : ∀ key ∈ ["NAME", "SERIAL", "WWN", "MODEL", "VENDOR", "SIZE"],
    ∀ c ∈ key.toList, c ≠ '=' ∧ c ≠ ' ' ∧ c ≠ '\n' := by
  intro key hkey
  simp only [List.mem_cons, List.not_mem_nil, or_false] at hkey
  rcases hkey with rfl | rfl | rfl | rfl | rfl | rfl <;> exact forall_mem_of_all (by decide)

/-- The line of a row begins with its name and ends with a quote. -/
theorem line_eq : ∃ mid, r.line = 'N' :: mid ++ ['"'] := by
  refine ⟨"AME=\"".toList ++ r.name.toList ++ "\" SERIAL=\"".toList ++ r.serial.toList ++
    "\" WWN=\"".toList ++ r.wwn.toList ++ "\" MODEL=\"".toList ++ r.model.toList ++
    "\" VENDOR=\"".toList ++ r.vendor.toList ++ "\" SIZE=\"".toList ++
    (toString r.size.toNat).toList, ?_⟩
  simp [line, pairs, printPair, List.intercalate]

theorem trim_line : trim r.line = r.line := by
  obtain ⟨mid, hmid⟩ := r.line_eq
  refine trim_eq_self ?_ ?_
  · rw [hmid]
    simp [isWhiteSpace]
  · rw [hmid, List.getLast?_append]
    simp [isWhiteSpace]

theorem line_ne_nil : r.line ≠ [] := by
  obtain ⟨mid, hmid⟩ := r.line_eq
  simp [hmid]

theorem newline_not_mem_line : '\n' ∉ r.line := by
  intro hc
  rcases mem_intercalate_space hc with h | ⟨w, hw, hcw⟩
  · exact absurd h (by decide)
  · obtain ⟨p, hp, rfl⟩ := List.mem_map.1 hw
    obtain ⟨hkey, hvalue⟩ := r.pairs_ok hp
    simp only [printPair, List.mem_append, List.mem_cons, List.not_mem_nil, or_false] at hcw
    rcases hcw with (hcw | h | h | hcw) | h
    · exact (columns_plain _ hkey _ hcw).2.2 rfl
    · exact absurd h (by decide)
    · exact absurd h (by decide)
    · exact hvalue.2 hcw
    · exact absurd h (by decide)

theorem length_pairs_le : r.pairs.length ≤ r.line.length := by
  simp [line, pairs, printPair, List.intercalate]

theorem parsePairs_line :
    parsePairs r.line = r.pairs.foldl (fun m p => m.insert p.1 p.2) ∅ := by
  refine scanPairs_intercalate (fun p hp => ?_) r.length_pairs_le ∅
  obtain ⟨hkey, hvalue⟩ := r.pairs_ok hp
  exact ⟨fun c hc => ⟨(columns_plain _ hkey c hc).1, (columns_plain _ hkey c hc).2.1⟩, hvalue.1⟩

/-- The line of a row is read as the disk it was printed for. -/
theorem parseLsblkLine_line (machineId : Id) (now : ℤ) :
    parseLsblkLine machineId now r.line = some (r.disk machineId now) := by
  have hsize : parseUnsigned 18446744073709551616 (Nat.toDigits 10 r.size.toNat) =
      some r.size.toNat := parseUnsigned_toDigits r.size.toNat_lt
  have hname := r.named
  simp only [parseLsblkLine, parsePairs_line, pairs, List.foldl_cons, List.foldl_nil,
    HashMap.lookup_insert_eq]
  simp [hname, hsize, disk, devPath, Option.filter]

end LsblkRow

/-- Every row of the output is read back, in order. -/
theorem parseLsblkPairs_output (rows : List LsblkRow) (machineId : Id) (now : ℤ) :
    parseLsblkPairs (lsblkOutput rows) machineId now = rows.map fun r => r.disk machineId now := by
  have hflat : rows.flatMap (fun r => r.line ++ ['\n']) =
      (rows.map LsblkRow.line).flatMap fun l => l ++ ['\n'] := by
    rw [List.flatMap_map]
  have hlines : lines (rows.flatMap fun r => r.line ++ ['\n']) = rows.map LsblkRow.line := by
    rw [hflat]
    refine lines_flatMap fun l hl => ?_
    obtain ⟨r, -, rfl⟩ := List.mem_map.1 hl
    obtain ⟨mid, hmid⟩ := r.line_eq
    refine ⟨r.newline_not_mem_line, ?_⟩
    rw [hmid, List.getLast?_append]
    simp
  have htrim : (rows.map LsblkRow.line).map trim = rows.map LsblkRow.line := by
    rw [List.map_map]
    refine List.map_congr_left fun r _ => ?_
    rw [Function.comp_apply, r.trim_line]
  have hfilter : (rows.map LsblkRow.line).filter (fun line => line ≠ []) =
      rows.map LsblkRow.line := by
    rw [List.filter_eq_self]
    intro l hl
    obtain ⟨r, -, rfl⟩ := List.mem_map.1 hl
    simpa using r.line_ne_nil
  rw [parseLsblkPairs, lsblkOutput, String.toList_ofList, hlines, htrim, hfilter, List.filterMap_map,
    ← List.filterMap_eq_map]
  refine List.filterMap_congr fun r _ => ?_
  rw [Function.comp_apply, Function.comp_apply, r.parseLsblkLine_line]

end Disks

end OCF

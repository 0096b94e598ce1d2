import OCF.Host.InventoryCollector
import Mathlib.Data.List.Dedup
import Mathlib.Algebra.BigOperators.Group.List.Lemmas

/-!
# The processors of a machine

`/proc/cpuinfo` has a block of lines for each logical processor, with blank lines between the blocks.
The collector reads it line by line: it gathers a block, and commits it to its package at a blank
line and at the end. `finish_foldl_readLine` says that this commits the blocks one after the other,
whatever blank lines there are; what is committed is counted by package (`Tallies`).
-/

namespace OCF

namespace Inventory

open Text

/-- The processor packages of a machine. -/
def parseCpuinfo (text : String) : List HardwareComponent :=
  (cpuPackages text).map fun p => (HardwareRow.cpu p.1 p.2).component

/-! ## Blocks -/

def isBlank (line : List Char) : Bool := line.rdropWhile isWhiteSpace = []

/-- Lines in blocks, with one or more blank lines between any two of them and perhaps some at the
end. -/
inductive LaidOut : List (List Char) → List (List (List Char)) → Prop
  | nil : LaidOut [] []
  | last {block gap : List (List Char)} (nonempty : block ≠ [])
      (plain : ∀ line ∈ block, ¬ isBlank line) (blank : ∀ line ∈ gap, isBlank line) :
      LaidOut (block ++ gap) [block]
  | cons {block gap rest : List (List Char)} {blocks : List (List (List Char))}
      (nonempty : block ≠ []) (plain : ∀ line ∈ block, ¬ isBlank line) (separated : gap ≠ [])
      (blank : ∀ line ∈ gap, isBlank line) (tail : LaidOut rest blocks) :
      LaidOut (block ++ (gap ++ rest)) (block :: blocks)

/-- A text is made of these blocks. -/
def MadeOf (text : String) (blocks : List (List (List Char))) : Prop :=
  LaidOut (lines text.toList) blocks

/-- The key and the value of a line. -/
def cpuField (line : List Char) : Option (String × String) :=
  (splitOnce ':' (line.rdropWhile isWhiteSpace)).map fun p =>
    (String.ofList (trim p.1), String.ofList (trim p.2))

/-- The value of a line with the physical id of its package. -/
def physicalIdLine (line : List Char) : Option String :=
  (cpuField line).bind fun f => if f.1 = "physical id" then some f.2 else none

def isProcessorLine (line : List Char) : Bool := (cpuField line).any fun f => f.1 = "processor"

/-- The block is about a processor. -/
def hasProcessor (block : List (List Char)) : Bool := block.any isProcessorLine

/-- The package of a block, 0 when it does not say. -/
def physicalId (block : List (List Char)) : String :=
  (block.filterMap physicalIdLine).getLast?.getD "0"

/-- The runs of lines that are not blank. -/
def runs (ls : List (List Char)) : List (List (List Char)) :=
  (ls.splitOnP isBlank).filter fun block => block ≠ []

theorem runs_append {gap : List (List Char)} (hgap : gap ≠ []) (hblank : ∀ line ∈ gap, isBlank line)
    (s t : List (List Char)) : runs (s ++ (gap ++ t)) = runs s ++ runs t := by
  induction gap generalizing s with
  | nil => exact absurd rfl hgap
  | cons line gap ih =>
    rw [List.cons_append, runs, splitOnP_append_cons (hblank line List.mem_cons_self),
      List.filter_append, ← runs, ← runs]
    congr 1
    cases gap with
    | nil => rfl
    | cons line' gap =>
      have htail := ih (by simp) (fun l hl => hblank l (List.mem_cons_of_mem _ hl)) []
      exact htail

theorem runs_block {block : List (List Char)} (hne : block ≠ [])
    (hplain : ∀ line ∈ block, ¬ isBlank line) : runs block = [block] := by
  rw [runs, List.splitOnP_eq_singleton (by simpa using hplain)]
  simp [hne]

/-- Lines in blocks have these blocks as their runs. -/
theorem LaidOut.runs_eq {ls : List (List Char)} {blocks : List (List (List Char))}
    (h : LaidOut ls blocks) : runs ls = blocks := by
  induction h with
  | nil => rfl
  | @last block gap nonempty plain blank =>
    cases gap with
    | nil => rw [List.append_nil, runs_block nonempty plain]
    | cons line gap =>
      have happend := runs_append (by simp) blank block []
      rw [List.append_nil] at happend
      rw [happend, runs_block nonempty plain]
      rfl
  | cons nonempty plain separated blank tail ih =>
    rw [runs_append separated blank, runs_block nonempty plain, ih, List.singleton_append]

/-! ## Reading a block -/

namespace CpuBlock

/-- Read a line that is not blank. -/
def see (b : CpuBlock) (line : List Char) : CpuBlock := (readLine (b, ∅) line).1

theorem readLine_of_isBlank {line : List Char} (h : isBlank line) (b : CpuBlock)
    (m : BTreeMap String Package) : readLine (b, m) line = ({}, b.flush m) := by
  rw [readLine]
  exact if_pos (by simpa [isBlank] using h)

theorem readLine_of_not_isBlank {line : List Char} (h : ¬ isBlank line) (b : CpuBlock)
    (m : BTreeMap String Package) : readLine (b, m) line = (b.see line, m) := by
  have hline : line.rdropWhile isWhiteSpace ≠ [] := by simpa [isBlank] using h
  rw [see, readLine, readLine]
  simp only [hline, if_false]
  split <;> rfl

theorem sawProcessor_see {line : List Char} (h : ¬ isBlank line) (b : CpuBlock) :
    (b.see line).sawProcessor = (b.sawProcessor || isProcessorLine line) := by
  have hline : line.rdropWhile isWhiteSpace ≠ [] := by simpa [isBlank] using h
  rw [see, readLine, isProcessorLine, cpuField]
  simp only [hline, if_false]
  cases splitOnce ':' (line.rdropWhile isWhiteSpace) with
  | none => simp
  | some p =>
    simp only [Option.map_some, Option.any_some]
    split <;> simp_all

theorem phys_see {line : List Char} (h : ¬ isBlank line) (b : CpuBlock) :
    (b.see line).phys = (physicalIdLine line).getD b.phys := by
  have hline : line.rdropWhile isWhiteSpace ≠ [] := by simpa [isBlank] using h
  rw [see, readLine, physicalIdLine, cpuField]
  simp only [hline, if_false]
  cases splitOnce ':' (line.rdropWhile isWhiteSpace) with
  | none => simp
  | some p =>
    simp only [Option.map_some, Option.bind_some]
    split <;> simp_all

/-- Read the lines of a block. -/
def readBlock (b : CpuBlock) (block : List (List Char)) : CpuBlock := block.foldl see b

theorem sawProcessor_readBlock {block : List (List Char)} (h : ∀ line ∈ block, ¬ isBlank line)
    (b : CpuBlock) :
    (b.readBlock block).sawProcessor = (b.sawProcessor || hasProcessor block) := by
  induction block generalizing b with
  | nil => simp [readBlock, hasProcessor]
  | cons line block ih =>
    have hhead := sawProcessor_see (h line List.mem_cons_self) b
    have htail := ih (fun l hl => h l (List.mem_cons_of_mem _ hl)) (b.see line)
    rw [readBlock] at htail ⊢
    rw [List.foldl_cons, htail, hhead, hasProcessor, hasProcessor, List.any_cons, Bool.or_assoc]

/-- The last line with a physical id is the one that counts. -/
theorem phys_readBlock {block : List (List Char)} (h : ∀ line ∈ block, ¬ isBlank line)
    (b : CpuBlock) :
    (b.readBlock block).phys = (block.filterMap physicalIdLine).getLast?.getD b.phys := by
  induction block generalizing b with
  | nil => rfl
  | cons line block ih =>
    have hhead := phys_see (h line List.mem_cons_self) b
    have htail := ih (fun l hl => h l (List.mem_cons_of_mem _ hl)) (b.see line)
    rw [readBlock] at htail ⊢
    rw [List.foldl_cons, htail, hhead]
    cases hline : physicalIdLine line with
    | none => rw [List.filterMap_cons_none hline, Option.getD_none]
    | some id => rw [List.filterMap_cons_some hline, List.getLast?_cons, Option.getD_some,
        Option.getD_some]

/-- Commit the block that is pending. -/
def finish (s : CpuBlock × BTreeMap String Package) : BTreeMap String Package := s.1.flush s.2

/-- Commit a block that has been read from its beginning. -/
def commit (m : BTreeMap String Package) (block : List (List Char)) : BTreeMap String Package :=
  (readBlock {} block).flush m

/-- **The blocks are committed one after the other.** The first one goes on from what is pending. -/
theorem finish_foldl_readLine (ls : List (List Char)) (b : CpuBlock) (m : BTreeMap String Package) :
    ∃ block blocks, ls.splitOnP isBlank = block :: blocks ∧
      finish (ls.foldl readLine (b, m)) = blocks.foldl commit ((b.readBlock block).flush m) := by
  induction ls generalizing b m with
  | nil => exact ⟨[], [], rfl, rfl⟩
  | cons line ls ih =>
    rw [List.foldl_cons, List.splitOnP_cons_eq_if_modifyHead]
    by_cases hline : isBlank line
    · obtain ⟨block, blocks, hsplit, hfinish⟩ := ih {} (b.flush m)
      refine ⟨[], block :: blocks, by rw [if_pos hline, hsplit], ?_⟩
      rw [readLine_of_isBlank hline, hfinish]
      rfl
    · obtain ⟨block, blocks, hsplit, hfinish⟩ := ih (b.see line) m
      refine ⟨line :: block, blocks, by rw [if_neg hline, hsplit, List.modifyHead_cons], ?_⟩
      rw [readLine_of_not_isBlank hline, hfinish]
      rfl

end CpuBlock

/-! ## Counting -/

/-- The packages are those of some processors, each with the number of them. -/
def Tallies (m : BTreeMap String Package) (ids : List String) : Prop :=
  ∀ id, m[id]?.map Package.threads = if id ∈ ids then some (ids.count id) else none

theorem Tallies.flush {m : BTreeMap String Package} {ids : List String} (h : Tallies m ids)
    (b : CpuBlock) : Tallies (b.flush m) (ids ++ if b.sawProcessor then [b.phys] else []) := by
  rw [CpuBlock.flush]
  split_ifs with hsaw
  · intro id
    rw [BTreeMap.getElem?_insert_eq, List.count_append, List.count_singleton]
    by_cases hid : id = b.phys
    · subst hid
      have hold : (m[b.phys]?.getD {}).threads = ids.count b.phys := by
        have hphys := h b.phys
        by_cases hmem : b.phys ∈ ids
        · rw [if_pos hmem] at hphys
          obtain ⟨pkg, hpkg, hthreads⟩ := Option.map_eq_some_iff.1 hphys
          rw [hpkg, Option.getD_some, hthreads]
        · rw [if_neg hmem, Option.map_eq_none_iff] at hphys
          rw [hphys, Option.getD_none, List.count_eq_zero_of_not_mem hmem]
      simp [hold]
    · have hmem : id ∈ ids ++ [b.phys] ↔ id ∈ ids := by simp [hid]
      have hne : (b.phys == id) = false := beq_eq_false_iff_ne.2 (Ne.symm hid)
      rw [if_neg hid, h id, hne]
      simp only [hmem, Bool.false_eq_true, if_false, Nat.add_zero]
  · rw [List.append_nil]
    exact h

/-- Committing blocks counts those that are about a processor. -/
theorem Tallies.foldl_commit {blocks : List (List (List Char))}
    (hblocks : ∀ block ∈ blocks, ∀ line ∈ block, ¬ isBlank line) {m : BTreeMap String Package}
    {ids : List String} (h : Tallies m ids) :
    Tallies (blocks.foldl CpuBlock.commit m)
      (ids ++ (blocks.filter hasProcessor).map physicalId) := by
  induction blocks generalizing m ids with
  | nil => simpa using h
  | cons block blocks ih =>
    have hlines := hblocks block List.mem_cons_self
    have hsaw := CpuBlock.sawProcessor_readBlock hlines {}
    have hphys := CpuBlock.phys_readBlock hlines {}
    have hstep := h.flush (CpuBlock.readBlock {} block)
    rw [hsaw, hphys, Bool.false_or] at hstep
    have htail := ih (fun b hb => hblocks b (List.mem_cons_of_mem _ hb)) hstep
    rw [List.foldl_cons]
    by_cases hblock : hasProcessor block
    · rw [List.filter_cons_of_pos hblock, List.map_cons]
      rw [if_pos hblock, List.append_assoc, List.singleton_append] at htail
      exact htail
    · rw [List.filter_cons_of_neg hblock]
      rw [if_neg hblock, List.append_nil] at htail
      exact htail

/-- What is gathered from a text counts its blocks with a processor line. -/
theorem tallies_cpuinfo {text : String} {blocks : List (List (List Char))} (h : MadeOf text blocks) :
    Tallies (CpuBlock.finish ((lines text.toList).foldl CpuBlock.readLine ({}, ∅)))
      ((blocks.filter hasProcessor).map physicalId) := by
  obtain ⟨first, rest, hsplit, hfinish⟩ := CpuBlock.finish_foldl_readLine (lines text.toList) {} ∅
  have hplain : ∀ b ∈ first :: rest, ∀ line ∈ b, ¬ isBlank line := by
    intro b hb line hline
    rw [← hsplit] at hb
    simp [eq_false_of_mem_splitOnP hb hline]
  have hempty : Tallies ∅ [] := fun id => by simp
  -- an empty run has no processor line
  have hblocks : blocks.filter hasProcessor = (first :: rest).filter hasProcessor := by
    rw [← LaidOut.runs_eq h, runs, hsplit, List.filter_filter]
    refine List.filter_congr fun b _ => ?_
    cases b with
    | nil => rfl
    | cons line b => simp
  have htallies := hempty.foldl_commit hplain
  rw [hfinish, hblocks]
  exact htallies

/-! ## Components -/

/-- The number of threads that a component says it has. -/
def HardwareComponent.threads (c : HardwareComponent) : ℕ :=
  (c.attributes["threads"]?.bind fun s => parseDigits s.toList).getD 0

theorem getElem?_withOptional (c : HardwareComponent) {key key' : String} (h : key' ≠ key)
    (value : Option String) :
    (c.withOptional key value).attributes[key']? = c.attributes[key']? := by
  cases value with
  | none => rfl
  | some v =>
    have hinsert := BTreeMap.getElem?_insert_eq c.attributes key key' v
    rw [if_neg h] at hinsert
    exact hinsert

theorem getElem?_threads (id : String) (pkg : Package) :
    (HardwareRow.cpu id pkg).component.attributes["threads"]? = some (toString pkg.threads) := by
  rw [HardwareRow.component, getElem?_withOptional _ (by decide), getElem?_withOptional _ (by decide)]
  have hinsert := BTreeMap.getElem?_insert_eq ∅ "threads" "threads" (toString pkg.threads)
  rw [if_pos rfl] at hinsert
  exact hinsert

theorem kind_component (id : String) (pkg : Package) :
    (HardwareRow.cpu id pkg).component.kind = .cpu := by
  rw [HardwareRow.component]
  cases pkg.cores <;> cases pkg.mhz <;> rfl

/-- Counting by package and adding up counts everything once. -/
theorem sum_map_count {ids l : List String} (hnodup : ids.Nodup) (hmem : ∀ id, id ∈ ids ↔ id ∈ l) :
    (ids.map fun id => l.count id).sum = l.length := by
  have hperm : ids.Perm l.dedup :=
    (List.perm_ext_iff_of_nodup hnodup l.nodup_dedup).2 fun id => by rw [hmem, List.mem_dedup]
  rw [(hperm.map _).sum_eq, List.sum_map_count_dedup_eq_length]

theorem threads_component (id : String) (pkg : Package) :
    (HardwareRow.cpu id pkg).component.threads = pkg.threads := by
  rw [HardwareComponent.threads, getElem?_threads, Option.bind_some, Nat.toString_eq_repr,
    Nat.toList_repr, parseDigits_toDigits, Option.getD_some]

section

variable {m : BTreeMap String Package} {ids : List String} (h : Tallies m ids)

include h

theorem Tallies.mem_keys_iff (id : String) : id ∈ m.toList.map Prod.fst ↔ id ∈ ids := by
  have hid := h id
  constructor
  · intro hmem
    obtain ⟨⟨id', pkg⟩, hp, rfl⟩ := List.mem_map.1 hmem
    rw [Std.ExtTreeMap.mem_toList_iff_getElem?_eq_some] at hp
    by_contra hnot
    simp [hp, hnot] at hid
  · intro hmem
    rw [if_pos hmem, Option.map_eq_some_iff] at hid
    obtain ⟨pkg, hpkg, -⟩ := hid
    exact List.mem_map.2 ⟨(id, pkg), Std.ExtTreeMap.mem_toList_iff_getElem?_eq_some.2 hpkg, rfl⟩

theorem Tallies.threads_eq {p : String × Package} (hp : p ∈ m.toList) :
    p.2.threads = ids.count p.1 := by
  have hmem := (h.mem_keys_iff p.1).1 (List.mem_map_of_mem hp)
  have hid := h p.1
  rw [Std.ExtTreeMap.mem_toList_iff_getElem?_eq_some.1 hp, if_pos hmem] at hid
  exact Option.some.inj hid

end

/-- **Every processor is counted once, in its package.** For a text that is made of blocks, the
components are those of the distinct physical ids of the blocks with a processor line, each with the
number of its blocks, and these numbers add up to the number of the blocks. -/
theorem parseCpuinfo_counts {text : String} {blocks : List (List (List Char))}
    (h : MadeOf text blocks) :
    ∃ ids : List String, ids.Nodup ∧
      (∀ id, id ∈ ids ↔ ∃ block ∈ blocks.filter hasProcessor, physicalId block = id) ∧
      ((parseCpuinfo text).map fun c => (c.kind, c.serial, c.attributes["threads"]?)) =
        (ids.map fun id => (.cpu, "CPU" ++ id, some (toString
          ((blocks.filter hasProcessor).countP fun block => physicalId block = id)))) ∧
      ((parseCpuinfo text).map HardwareComponent.threads).sum =
        (blocks.filter hasProcessor).length := by
  have htallies := tallies_cpuinfo h
  generalize hm : CpuBlock.finish ((lines text.toList).foldl CpuBlock.readLine ({}, ∅)) = m
    at htallies
  generalize blocks.filter hasProcessor = processors at htallies
  have hcomponents : parseCpuinfo text =
      m.toList.map fun p => (HardwareRow.cpu p.1 p.2).component := by
    rw [← hm]
    rfl
  have hcount : ∀ id, (processors.map physicalId).count id =
      processors.countP fun block => physicalId block = id := by
    intro id
    rw [List.count_eq_countP, List.countP_map]
    rfl
  refine ⟨m.toList.map Prod.fst, BTreeMap.nodup_keys_toList m, fun id => ?_, ?_, ?_⟩
  · rw [htallies.mem_keys_iff, List.mem_map]
  · rw [hcomponents, List.map_map, List.map_map]
    refine List.map_congr_left fun p hp => ?_
    rw [Function.comp_apply, Function.comp_apply, kind_component, getElem?_threads,
      serial_component, htallies.threads_eq hp, hcount]
    rfl
  · have hthreads : (parseCpuinfo text).map HardwareComponent.threads =
        (m.toList.map Prod.fst).map fun id => (processors.map physicalId).count id := by
      rw [hcomponents, List.map_map, List.map_map]
      refine List.map_congr_left fun p hp => ?_
      rw [Function.comp_apply, Function.comp_apply, threads_component, htallies.threads_eq hp]
    rw [hthreads, sum_map_count (BTreeMap.nodup_keys_toList m) htallies.mem_keys_iff,
      List.length_map]

/-- Two processors, the second of which does not say which package it is in. -/
theorem parseCpuinfo_counts_pair :
    ((parseCpuinfo "processor : 0\nphysical id : 1\n \n\nprocessor : 1\n").map
      HardwareComponent.threads).sum = 2 := by
  have hlines : lines "processor : 0\nphysical id : 1\n \n\nprocessor : 1\n".toList =
      ["processor : 0".toList, "physical id : 1".toList] ++
        ([" ".toList, []] ++ (["processor : 1".toList] ++ [])) := by
    decide +kernel
  have hmade : MadeOf "processor : 0\nphysical id : 1\n \n\nprocessor : 1\n"
      [["processor : 0".toList, "physical id : 1".toList], ["processor : 1".toList]] := by
    rw [MadeOf, hlines]
    refine .cons (by simp) ?_ (by simp) ?_ (.last (by simp) ?_ (by simp)) <;> decide +kernel
  obtain ⟨-, -, -, -, hsum⟩ := parseCpuinfo_counts hmade
  rw [hsum]
  decide +kernel

end Inventory

end OCF

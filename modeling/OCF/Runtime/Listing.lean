import OCF.Foundations.Lines
import OCF.Runtime.Command

/-!
# Listings and states

A provider tells the state of a workload in its listing, and when it is asked for the status of the
workload. Both are read off what the tool prints, by different readers. Here Docker and Podman print
the table that they are asked for, and the same text for the state of a container both times. Then they
list every container of the fabric, in the state that its status tells (`containers_listed`).
-/

namespace OCF.Runtime

open OCF.Text

variable {σ : Type*}

/-! ## The status of a workload -/

/-- The status of a container of Docker or Podman. -/
def containerStatus (bin : String) (host : Host σ) (id : Id) (s : σ) : Result LifecycleState × σ :=
  let (r, s) := host.run bin ["inspect", "-f", "\x7b\x7b.State.Status\x7d\x7d", id.name] s
  (r.map fun out => parseContainerStatus out.toList, s)

/-- The command exits with success and prints this. -/
def Host.Prints (host : Host σ) (bin : String) (args : List String) (s : σ) (out : List Char) :
    Prop :=
  ∃ stderr, (host.exec bin args s).1 = .exited true (String.ofList out) stderr

theorem run_of_prints {host : Host σ} {bin : String} {args : List String} {s : σ} {out : List Char}
    (h : host.Prints bin args s out) : (host.run bin args s).1 = .ok (String.ofList (trim out)) := by
  obtain ⟨stderr, h⟩ := h
  rw [Host.run]
  split
  · simp_all
  · simp_all [trimmed]
  · simp_all

/-! ## Docker and Podman -/

/-- A line of `ps`: the container's own id, its image, its name and its state. -/
structure PsRow where
  id : String
  image : String
  name : String
  state : String
  noBar : ∀ s ∈ [id, image, name], '|' ∉ s.toList
  isLine : ∀ s ∈ [id, image, name, state], '\n' ∉ s.toList

/-- The line as it is printed. -/
def PsRow.line (r : PsRow) : List Char :=
  r.id.toList ++ '|' :: (r.image.toList ++ '|' :: (r.name.toList ++ '|' :: r.state.toList))

/-- What `ps` prints. -/
def psOutput (rows : List PsRow) : List Char := rows.flatMap fun r => r.line ++ ['\n']

/-- What the fabric makes of a container. -/
def PsRow.workload (r : PsRow) : Workload :=
  { Workload.container (.named r.name) r.image with state := parseContainerStatus r.state.toList }

theorem workloadFromPsLine_cons {c : Char} (hc : isWhiteSpace c) (l : List Char) :
    workloadFromPsLine (c :: l) = workloadFromPsLine l := by
  have hbar : c ≠ '|' := by
    rintro rfl
    revert hc
    decide
  rw [workloadFromPsLine, workloadFromPsLine, splitn, splitn, splitOnce, if_neg hbar]
  cases splitOnce '|' l with
  | none => rfl
  | some cut =>
    simp only [Option.map_some]
    generalize splitn '|' (2 + 1) cut.2 = parts
    rcases parts with _ | ⟨_, _ | ⟨_, _ | ⟨_, _ | _⟩⟩⟩ <;> rfl

/-- A character that does not cut belongs to the last part. -/
theorem splitn_concat {sep c : Char} (hc : c ≠ sep) (n : ℕ) (s : List Char) :
    ∃ parts last, splitn sep (n + 1) s = parts ++ [last] ∧
      splitn sep (n + 1) (s ++ [c]) = parts ++ [last ++ [c]] := by
  induction n generalizing s with
  | zero => exact ⟨[], s, rfl, rfl⟩
  | succ n ih =>
    by_cases hsep : sep ∈ s
    · obtain ⟨a, b, rfl, ha⟩ := List.eq_append_cons_of_mem hsep
      obtain ⟨parts, last, hb, hbc⟩ := ih b
      refine ⟨a :: parts, last, ?_, ?_⟩
      · rw [splitn, splitOnce_append ha, List.cons_append, ← hb]
      · rw [splitn, List.append_assoc, List.cons_append, splitOnce_append ha, List.cons_append, ← hbc]
    · refine ⟨[], s, ?_, ?_⟩
      · rw [splitn, splitOnce_eq_none hsep]
        rfl
      · rw [splitn, splitOnce_eq_none (by simp [hsep, Ne.symm hc])]
        rfl

theorem workloadFromPsLine_concat {c : Char} (hc : isWhiteSpace c) (l : List Char) :
    workloadFromPsLine (l ++ [c]) = workloadFromPsLine l := by
  have hbar : c ≠ '|' := by
    rintro rfl
    revert hc
    decide
  obtain ⟨parts, last, hl, hlc⟩ := splitn_concat hbar 3 l
  rw [workloadFromPsLine, workloadFromPsLine, hl, hlc]
  match parts with
  | [_, _, _] =>
    simp only [List.cons_append, List.nil_append, parseContainerStatus,
      trim_concat_of_isWhiteSpace hc]
  | [] | [_] | [_, _] | _ :: _ :: _ :: _ :: _ => simp

theorem workloadFromPsLine_trim (l : List Char) :
    workloadFromPsLine (trim l) = workloadFromPsLine l :=
  apply_trim (fun _ s hc => workloadFromPsLine_cons hc s)
    (fun _ s hc => workloadFromPsLine_concat hc s) l

theorem workloadsFromPs_eq (output : List Char) :
    workloadsFromPs (String.ofList output) = (textLines output).filterMap workloadFromPsLine := by
  rw [workloadsFromPs, String.toList_ofList, ← filter_map_trim_lines, List.filter_map,
    List.filterMap_map]
  exact List.filterMap_congr fun l _ => (workloadFromPsLine_trim l).symm

/-- The line of a container is read back. -/
theorem workloadFromPsLine_line (r : PsRow) : workloadFromPsLine r.line = some r.workload := by
  have hid := r.noBar r.id (by simp)
  have himage := r.noBar r.image (by simp)
  have hname := r.noBar r.name (by simp)
  have hsplit : splitn '|' 4 r.line =
      [r.id.toList, r.image.toList, r.name.toList, r.state.toList] := by
    rw [PsRow.line, splitn, splitOnce_append hid]
    simp only
    rw [splitn, splitOnce_append himage]
    simp only
    rw [splitn, splitOnce_append hname]
    rfl
  rw [workloadFromPsLine, hsplit]
  simp only [String.ofList_toList]
  rfl

theorem workloadsFromPs_output (rows : List PsRow) :
    workloadsFromPs (String.ofList (trim (psOutput rows))) = rows.map PsRow.workload := by
  have hline : ∀ l ∈ rows.map PsRow.line, '\n' ∉ l := by
    intro l hl
    obtain ⟨r, -, rfl⟩ := List.mem_map.1 hl
    have hparts := r.isLine
    simp only [List.forall_mem_cons] at hparts
    simp [PsRow.line, hparts]
  have hflat : psOutput rows = (rows.map PsRow.line).flatMap fun l => l ++ ['\n'] := by
    rw [psOutput, List.flatMap_map]
  -- a line has a bar, so it is not blank
  have hblank : ∀ r : PsRow, trim r.line ≠ [] := by
    intro r hnil
    have hread := workloadFromPsLine_trim r.line
    rw [hnil, workloadFromPsLine_line] at hread
    cases hread
  rw [workloadsFromPs_eq, textLines_trim, hflat, textLines_flatMap hline, List.map_map,
    List.filter_eq_self.2, List.filterMap_map]
  · rw [← List.filterMap_eq_map]
    refine List.filterMap_congr fun r _ => ?_
    exact (workloadFromPsLine_trim r.line).trans (workloadFromPsLine_line r)
  · intro l hl
    obtain ⟨r, -, rfl⟩ := List.mem_map.1 hl
    exact decide_eq_true (hblank r)

/-- **The containers of the fabric are listed as they are.** The listing has every container that
`ps` prints, in order, and in the state that its status tells. -/
theorem containers_listed {bin : String} {host : Host σ} {s : σ} {rows : List PsRow}
    (hps : host.Prints bin ["ps", "-a", "--filter", "label=" ++ ocfLabel, "--format",
      "\x7b\x7b.ID\x7d\x7d|\x7b\x7b.Image\x7d\x7d|\x7b\x7b.Names\x7d\x7d|\x7b\x7b.State\x7d\x7d"] s
      (psOutput rows))
    (hinspect : ∀ r ∈ rows, host.Prints bin
      ["inspect", "-f", "\x7b\x7b.State.Status\x7d\x7d", r.name] s (r.state.toList ++ ['\n'])) :
    ((containerRuntime bin host).list s).1 = .ok (rows.map PsRow.workload) ∧
      ∀ w ∈ rows.map PsRow.workload, (containerStatus bin host w.metadata.id s).1 = .ok w.state := by
  constructor
  · rw [containerRuntime]
    simp only [run_of_prints hps, Except.map, workloadsFromPs_output]
  · intro w hw
    obtain ⟨r, hr, rfl⟩ := List.mem_map.1 hw
    have hid : r.workload.metadata.id.name = r.name := rfl
    rw [containerStatus, hid]
    simp only [run_of_prints (hinspect r hr), Except.map, String.toList_ofList]
    rw [trim_concat_of_isWhiteSpace (by decide), parseContainerStatus, trim_trim]
    rfl

/-! ### Two containers -/

/-- A web server that runs and a database that has stopped. -/
def webAndDb : List PsRow :=
  [⟨"0f3a", "nginx:1.27", "web", "running", by decide, by decide⟩,
    ⟨"9c1d", "postgres:16", "db", "exited", by decide, by decide⟩]

/-- The host they run on. -/
def webAndDbHost : Host Unit where
  exec _ args s :=
    (match args with
      | "ps" :: _ => .exited true (String.ofList (psOutput webAndDb)) ""
      | ["inspect", _, _, name] =>
        match webAndDb.find? fun r => r.name = name with
        | some r => .exited true (String.ofList (r.state.toList ++ ['\n'])) ""
        | none => .exited false "" ("Error: No such object: " ++ name)
      | _ => .exited true "" "", s)
  writeFile _ _ s := (.ok (), s)
  removeFile _ s := s
  tempDir := "/tmp"

theorem containers_listed_webAndDb :
    ((containerRuntime "docker" webAndDbHost).list ()).1 = .ok (webAndDb.map PsRow.workload) ∧
      webAndDb.map (fun r => r.workload.state) = [.running, .stopped] := by
  refine ⟨(@containers_listed Unit "docker" webAndDbHost () webAndDb ⟨"", rfl⟩ fun r hr => ⟨"", ?_⟩).1,
    by decide⟩
  simp only [webAndDb, List.mem_cons, List.not_mem_nil, or_false] at hr
  obtain rfl | rfl := hr <;> rfl

end OCF.Runtime

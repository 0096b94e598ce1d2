import OCF.Runtime.Command

/-!
# Live migration

A migration saves the memory of a workload on its source, restores it on its target and then stops
and deletes the copy on the source. It works on any two providers that can be checkpointed; of the
built-in ones that is libvirt, on the same host or on two.

What the commands of libvirt do is stated in `virsh`: saving stops the domain and writes the image,
restoring starts the domain of an image, and the names of the domains belong to the host. Every
command may fail before or after it acts (`Fate`).

* `migrate_ok_running_iff` says when a migration that succeeds leaves the workload defined and running
  on its target: on one host it does not, because the copy that is deleted last is the one that was
  restored.
* `migrate_error_running_iff` says when one that fails leaves it running on its source: the domain is
  stopped by the save, and nothing starts it again.
-/

namespace OCF.Runtime

/-! ## Checkpoints -/

/-- A handle to a checkpoint of a workload's memory. -/
structure MemorySnapshot where
  workloadId : Id
  node : Option Id
  bytesLen : ℕ
  blobRef : String
  deriving DecidableEq

/-- A provider with the operations of a migration. A provider that does not support it refuses. -/
structure MigrationProvider (σ : Type*) extends RuntimeProvider σ where
  supportsMigration : Bool := false
  /-- Capture a checkpoint of a running workload. -/
  dumpMemory : Id → σ → Result MemorySnapshot × σ := fun _ s =>
    (.error (.notSupported ("backend `" ++ name ++ "` does not support memory checkpointing")), s)
  /-- Restore a workload from a checkpoint. -/
  restore : MemorySnapshot → σ → Result Unit × σ := fun _ s =>
    (.error (.notSupported ("backend `" ++ name ++ "` does not support memory restore")), s)

/-- The result of a migration that succeeds. -/
structure MigrationReport where
  workloadId : Id
  sourceNode : Option Id
  targetNode : Id
  snapshot : MemorySnapshot
  deriving DecidableEq

variable {σ : Type*}

/-- Migrate a workload to a node: dump its memory on the source, restore it on the target, and retire
the copy on the source. That the last two steps fail is not an error. -/
def migrate (source target : MigrationProvider σ) (w : Workload) (targetNode : Id)
    (targetScope : Scope) (s : σ) : Result MigrationReport × σ :=
  let wid := w.metadata.id
  if !source.supportsMigration then
    (.error (.notSupported ("source backend `" ++ source.name ++ "` cannot migrate workload " ++
      wid.name)), s)
  else if !target.supportsMigration then
    (.error (.notSupported ("target backend `" ++ target.name ++ "` cannot migrate workload " ++
      wid.name)), s)
  else if !w.permitsPlacement targetScope then
    (.error (.forbidden ("workload " ++ wid.name ++ " placement scope forbids migrating to " ++
      targetNode.name)), s)
  else
    match source.dumpMemory wid s with
    | (.error e, s) => (.error e, s)
    | (.ok snapshot, s) =>
      -- the handle is moved to the target; the image itself is not
      let transferred := { snapshot with node := some targetNode }
      match target.restore transferred s with
      | (.error e, s) => (.error e, s)
      | (.ok _, s) =>
        let (_, s) := source.stop wid s
        let (_, s) := source.delete wid s
        (.ok ⟨wid, w.node, targetNode, transferred⟩, s)

/-! ## Libvirt -/

/-- The file of a workload's checkpoint. -/
def saveFile (host : Host σ) (id : Id) : String := host.tempDir ++ "/ocf-vm-" ++ id.name ++ ".save"

/-- Libvirt can be checkpointed: a save writes the image to a file and a restore reads it. The size of
a file is asked with `stat`. -/
def qemuMigration (host : Host σ) (stat : String → σ → Except String ℕ) : MigrationProvider σ where
  toRuntimeProvider := qemuRuntime host
  supportsMigration := true
  dumpMemory id s :=
    match host.run "virsh" ["save", id.name, saveFile host id] s with
    | (.error e, s) => (.error e, s)
    | (.ok _, s) =>
      match stat (saveFile host id) s with
      | .error e => (.error (.provider "virsh" ("stat save image: " ++ e)), s)
      | .ok bytesLen => (.ok ⟨id, none, bytesLen, saveFile host id⟩, s)
  restore snapshot s := host.runUnit "virsh" ["restore", snapshot.blobRef] s

/-- What becomes of a command that can act: it acts or does not, and says that it succeeded or not. -/
structure Fate where
  acts : Bool
  reports : Bool
  deriving DecidableEq

/-- The commands of a migration. -/
inductive Verb
  | save
  | stat
  | restore
  | shutdown
  | destroy
  | undefine
  deriving DecidableEq

/-- The hosts of a fleet, the file system each has, which two hosts may share, and what becomes of each
command. A domain that is restored runs; whether it is defined on the host from then on is left
open. -/
structure Hypervisors (H D : Type*) where
  disk : H → D
  fate : Verb → Fate
  restoreDefines : Bool
  tempDir : String
  imageBytes : Id → ℕ

/-- The domains that each host has defined and those that it runs, and the domain that each saved
image is of. -/
structure Libvirt (H D : Type*) where
  defined : H × Id → Bool
  running : H × Id → Bool
  images : D × String → Option Id

section

variable {H D : Type*} [DecidableEq H] [DecidableEq D]

namespace Libvirt

/-- The domain does not run any more. -/
def stopped (s : Libvirt H D) (h : H) (id : Id) : Libvirt H D :=
  { s with running := Function.update s.running (h, id) false }

/-- The domain saved to a file: it is off, and the file holds its image. -/
def saved (s : Libvirt H D) (h : H) (d : D) (id : Id) (path : String) : Libvirt H D :=
  { s.stopped h id with images := Function.update s.images (d, path) (some id) }

/-- The domain runs, and is defined if it was or if restoring defines it. -/
def restored (s : Libvirt H D) (h : H) (id : Id) (defines : Bool) : Libvirt H D :=
  { s with
    defined := Function.update s.defined (h, id) (s.defined (h, id) || defines)
    running := Function.update s.running (h, id) true }

/-- The domain is not defined any more. -/
def undefined (s : Libvirt H D) (h : H) (id : Id) : Libvirt H D :=
  { s with defined := Function.update s.defined (h, id) false }

/-- Whether a host runs a domain. -/
def Running (s : Libvirt H D) (h : H) (id : Id) : Prop := s.running (h, id)

/-- Whether a host has a domain defined. -/
def Defined (s : Libvirt H D) (h : H) (id : Id) : Prop := s.defined (h, id)

instance (s : Libvirt H D) (h : H) (id : Id) : Decidable (s.Running h id) :=
  inferInstanceAs (Decidable (_ = _))

instance (s : Libvirt H D) (h : H) (id : Id) : Decidable (s.Defined h id) :=
  inferInstanceAs (Decidable (_ = _))

end Libvirt

open Libvirt

/-- A command that is possible or not, with its fate: the state it leaves, and whether it exits with
success. -/
def attempt (fate : Fate) (possible : Bool) (s s' : Libvirt H D) : CommandOutput × Libvirt H D :=
  (.exited (possible && fate.acts && fate.reports) "" "", if possible && fate.acts then s' else s)

/-- The commands of a migration on a host. A shutdown asks the guest, so it may succeed and the domain
run on. A domain that is undefined while it runs runs on. -/
def virsh (v : Hypervisors H D) (h : H) (args : List String) (s : Libvirt H D) :
    CommandOutput × Libvirt H D :=
  match args with
  | ["save", id, path] => attempt (v.fate .save) (s.Running h ⟨id⟩) s (s.saved h (v.disk h) ⟨id⟩ path)
  | ["restore", path] =>
    match s.images (v.disk h, path) with
    | none => (.exited false "" "error: Failed to open file", s)
    | some id => attempt (v.fate .restore) (¬s.Running h id) s (s.restored h id v.restoreDefines)
  | ["shutdown", id] =>
    (.exited (s.Running h ⟨id⟩ && (v.fate .shutdown).reports) "" "",
      (attempt (v.fate .shutdown) (s.Running h ⟨id⟩) s (s.stopped h ⟨id⟩)).2)
  | ["destroy", id] => attempt (v.fate .destroy) (s.Running h ⟨id⟩) s (s.stopped h ⟨id⟩)
  | ["undefine", id] => attempt (v.fate .undefine) (s.Defined h ⟨id⟩) s (s.undefined h ⟨id⟩)
  | _ => (.exited false "" "error: unknown command", s)

/-- A host with libvirt. A migration writes no file itself. -/
def Hypervisors.host (v : Hypervisors H D) (h : H) : Host (Libvirt H D) where
  exec bin args s :=
    if bin = "virsh" then virsh v h args s else (.notSpawned "No such file or directory", s)
  writeFile _ _ s := (.ok (), s)
  removeFile _ s := s
  tempDir := v.tempDir

/-- The size of a saved image. -/
def Hypervisors.stat (v : Hypervisors H D) (h : H) (path : String) (s : Libvirt H D) :
    Except String ℕ :=
  match s.images (v.disk h, path) with
  | none => .error "No such file or directory"
  | some id =>
    if (v.fate .stat).acts then .ok (v.imageBytes id) else .error "Input/output error"

/-- Libvirt on a host of the fleet. -/
def Hypervisors.qemu (v : Hypervisors H D) (h : H) : MigrationProvider (Libvirt H D) :=
  qemuMigration (v.host h) (v.stat h)

/-! ## What the steps do -/

namespace Libvirt

variable (s : Libvirt H D) (h h' : H) (id id' : Id)

omit [DecidableEq D] in
theorem running_restored (defines : Bool) : (s.restored h id defines).Running h' id' ↔
    (h', id') = (h, id) ∨ s.Running h' id' := by
  simp only [Running, restored, Function.update_apply]
  split_ifs with heq
  · simp [heq]
  · simp [heq]

omit [DecidableEq D] in
theorem defined_restored (defines : Bool) : (s.restored h id defines).Defined h' id' ↔
    ((h', id') = (h, id) ∧ defines) ∨ s.Defined h' id' := by
  simp only [Defined, restored, Function.update_apply]
  split_ifs with heq
  · simp [heq, or_comm]
  · simp [heq]

theorem running_saved (d : D) (path : String) :
    (s.saved h d id path).Running h' id' ↔ (h', id') ≠ (h, id) ∧ s.Running h' id' := by
  simp only [Running, saved, stopped, Function.update_apply]
  split_ifs with heq
  · simp [heq]
  · simp [heq]

theorem defined_saved (d : D) (path : String) :
    (s.saved h d id path).Defined h' id' ↔ s.Defined h' id' :=
  Iff.rfl

theorem images_saved (d : D) (path : String) : (s.saved h d id path).images (d, path) = some id :=
  Function.update_self ..

end Libvirt

variable (v : Hypervisors H D) (a b : H) (id : Id) (s : Libvirt H D)

/-- The file of a workload's checkpoint, on every host. -/
def Hypervisors.savePath (id : Id) : String := v.tempDir ++ "/ocf-vm-" ++ id.name ++ ".save"

/-- The state after the domain is saved on a host. -/
def Hypervisors.afterSave : Libvirt H D := s.saved a (v.disk a) id (v.savePath id)

/-- Saving the domain acts: it runs, and the command acts. -/
def Hypervisors.Saves : Prop := s.Running a id ∧ (v.fate .save).acts

/-- Restoring the workload's file acts and starts a domain: the file holds its image, the host does not
run it, and the command acts. -/
def Hypervisors.Starts (x : Id) : Prop :=
  s.images (v.disk b, v.savePath id) = some x ∧ ¬s.Running b x ∧ (v.fate .restore).acts

/-- The state after the copy on the source is stopped and deleted. -/
def Hypervisors.retired : Libvirt H D :=
  ((v.qemu a).delete id ((v.qemu a).stop id s).2).2

variable {v a b id s}

/-- What running a command comes to: it does not act, it acts and says that it failed, or it
succeeds. -/
theorem run_attempt {args : List String} {fate : Fate} {possible : Bool} {s' : Libvirt H D}
    (h : virsh v a args s = attempt fate possible s s') :
    (¬(possible ∧ fate.acts) ∧ ∃ e, (v.host a).run "virsh" args s = (.error e, s)) ∨
    (possible ∧ fate.acts) ∧ ((¬fate.reports ∧ ∃ e, (v.host a).run "virsh" args s = (.error e, s')) ∨
      fate.reports ∧ ∃ out, (v.host a).run "virsh" args s = (.ok out, s')) := by
  have hrun : (v.host a).exec "virsh" args s = attempt fate possible s s' := by
    simp [Hypervisors.host, h]
  simp only [Host.run, hrun, attempt]
  cases possible <;> cases fate.acts <;> cases fate.reports <;> simp

theorem dumpMemory_cases (v : Hypervisors H D) (a : H) (id : Id) (s : Libvirt H D) :
    (¬v.Saves a id s ∧ ∃ e, (v.qemu a).dumpMemory id s = (.error e, s)) ∨
    v.Saves a id s ∧
      ((¬((v.fate .save).reports ∧ (v.fate .stat).acts) ∧
        ∃ e, (v.qemu a).dumpMemory id s = (.error e, v.afterSave a id s)) ∨
      ((v.fate .save).reports ∧ (v.fate .stat).acts) ∧ ∃ n, (v.qemu a).dumpMemory id s =
        (.ok ⟨id, none, n, v.savePath id⟩, v.afterSave a id s)) := by
  have hvirsh : virsh v a ["save", id.name, v.savePath id] s =
      attempt (v.fate .save) (s.Running a id) s (v.afterSave a id s) := rfl
  have hpath : saveFile (v.host a) id = v.savePath id := rfl
  have himage : (v.afterSave a id s).images (v.disk a, v.savePath id) = some id :=
    s.images_saved a id _ _
  simp only [Hypervisors.qemu, qemuMigration, hpath, Hypervisors.Saves]
  obtain ⟨hno, e, he⟩ | ⟨hacts, ⟨hreports, e, he⟩ | ⟨hreports, out, hok⟩⟩ := run_attempt hvirsh
  · exact .inl ⟨by simpa using hno, e, by simp only [he]⟩
  · exact .inr ⟨by simpa using hacts, .inl ⟨fun h => hreports h.1, e, by simp only [he]⟩⟩
  · refine .inr ⟨by simpa using hacts, ?_⟩
    simp only [hok, Hypervisors.stat, himage]
    cases hstat : (v.fate .stat).acts with
    | true => exact .inr ⟨⟨hreports, rfl⟩, _, rfl⟩
    | false => exact .inl ⟨by simp, _, rfl⟩

theorem restore_cases (v : Hypervisors H D) (b : H) (id : Id) (s : Libvirt H D) (node : Option Id)
    (n : ℕ) :
    (¬(∃ x, v.Starts b id s x) ∧
      ∃ e, (v.qemu b).restore ⟨id, node, n, v.savePath id⟩ s = (.error e, s)) ∨
    ∃ x, v.Starts b id s x ∧
      ((¬(v.fate .restore).reports ∧
        ∃ e, (v.qemu b).restore ⟨id, node, n, v.savePath id⟩ s =
          (.error e, s.restored b x v.restoreDefines)) ∨
      (v.fate .restore).reports ∧
        (v.qemu b).restore ⟨id, node, n, v.savePath id⟩ s =
          (.ok (), s.restored b x v.restoreDefines)) := by
  simp only [Hypervisors.qemu, qemuMigration, Host.runUnit]
  cases himage : s.images (v.disk b, v.savePath id) with
  | none =>
    have hrun : ∃ e, (v.host b).run "virsh" ["restore", v.savePath id] s = (.error e, s) := by
      simp only [Host.run, Hypervisors.host, virsh, himage]
      exact ⟨_, rfl⟩
    obtain ⟨e, he⟩ := hrun
    refine .inl ⟨fun ⟨x, hx, _⟩ => ?_, e, by simp only [he]; rfl⟩
    rw [himage] at hx
    cases hx
  | some x =>
    have hvirsh : virsh v b ["restore", v.savePath id] s =
        attempt (v.fate .restore) (¬s.Running b x) s (s.restored b x v.restoreDefines) := by
      simp only [virsh, himage]
    obtain ⟨hno, e, he⟩ | ⟨hacts, ⟨hreports, e, he⟩ | ⟨hreports, out, hok⟩⟩ := run_attempt hvirsh
    · refine .inl ⟨fun ⟨y, hy, hrunning, hacts⟩ => hno ?_, e, by simp only [he]; rfl⟩
      rw [himage] at hy
      obtain rfl := Option.some.inj hy
      exact ⟨by simpa using hrunning, hacts⟩
    · refine .inr ⟨x, ⟨himage, by simpa using hacts.1, hacts.2⟩, .inl ⟨hreports, e, ?_⟩⟩
      simp only [he]
      rfl
    · refine .inr ⟨x, ⟨himage, by simpa using hacts.1, hacts.2⟩, .inr ⟨hreports, ?_⟩⟩
      simp only [hok]
      rfl

/-- A command leaves the state that it leaves, whatever it prints. -/
theorem run_snd (args : List String) (s : Libvirt H D) :
    ((v.host a).run "virsh" args s).2 = (virsh v a args s).2 := by
  simp only [Host.run, Hypervisors.host, if_true]
  rcases virsh v a args s with ⟨_ | ⟨_ | _, out, err⟩, t⟩ <;> rfl

/-- A flag that is taken away, if it is there and the command acts. -/
theorem update_false_iff {K : Type*} [DecidableEq K] (flags : K → Bool) (k x : K) (acts : Bool) :
    (if flags k && acts then Function.update flags k false else flags) x ↔
      flags x ∧ (x = k → ¬acts) := by
  by_cases hx : x = k
  · subst hx
    cases hk : flags x <;> cases acts <;> simp [hk]
  · split_ifs <;> simp [hx]

omit [DecidableEq D] in
/-- A command that turns a domain off, if it runs and the command acts. -/
theorem running_attempt_stopped (fate : Fate) (h : H) (x : Id) :
    (attempt fate (s.Running a id) s (s.stopped a id)).2.Running h x ↔
      s.Running h x ∧ ((h, x) = (a, id) → ¬fate.acts) := by
  have hdecide : decide (s.Running a id) = s.running (a, id) := Bool.eq_iff_iff.2 decide_eq_true_iff
  rw [hdecide]
  refine Iff.trans ?_ (update_false_iff s.running (a, id) (h, x) fate.acts)
  unfold attempt
  split_ifs <;> rfl

omit [DecidableEq D] in
theorem defined_attempt_stopped (fate : Fate) (possible : Bool) (h : H) (x : Id) :
    (attempt fate possible s (s.stopped a id)).2.Defined h x ↔ s.Defined h x := by
  unfold attempt
  split_ifs <;> rfl

omit [DecidableEq D] in
/-- Undefining a domain, if it is defined and the command acts. -/
theorem defined_attempt_undefined (fate : Fate) (h : H) (x : Id) :
    (attempt fate (s.Defined a id) s (s.undefined a id)).2.Defined h x ↔
      s.Defined h x ∧ ((h, x) = (a, id) → ¬fate.acts) := by
  have hdecide : decide (s.Defined a id) = s.defined (a, id) := Bool.eq_iff_iff.2 decide_eq_true_iff
  rw [hdecide]
  refine Iff.trans ?_ (update_false_iff s.defined (a, id) (h, x) fate.acts)
  unfold attempt
  split_ifs <;> rfl

omit [DecidableEq D] in
theorem running_attempt_undefined (fate : Fate) (possible : Bool) (h : H) (x : Id) :
    (attempt fate possible s (s.undefined a id)).2.Running h x ↔ s.Running h x := by
  unfold attempt
  split_ifs <;> rfl

theorem retired_eq : v.retired a id s = (virsh v a ["undefine", id.name]
    (virsh v a ["destroy", id.name] (virsh v a ["shutdown", id.name] s).2).2).2 := by
  simp only [Hypervisors.retired, Hypervisors.qemu, qemuMigration, qemuRuntime, Host.runUnit, run_snd]

/-- Retiring the source copy stops the domain if the shutdown or the destruction acts, and stops no
other domain. -/
theorem running_retired (h : H) (x : Id) :
    (v.retired a id s).Running h x ↔ s.Running h x ∧
      ((h, x) = (a, id) → ¬(v.fate .shutdown).acts ∧ ¬(v.fate .destroy).acts) := by
  rw [retired_eq]
  simp only [virsh]
  rw [running_attempt_undefined, running_attempt_stopped, running_attempt_stopped, and_assoc,
    ← imp_and]

/-- Retiring the source copy undefines the domain if that command acts, and no other domain. -/
theorem defined_retired (h : H) (x : Id) :
    (v.retired a id s).Defined h x ↔
      s.Defined h x ∧ ((h, x) = (a, id) → ¬(v.fate .undefine).acts) := by
  rw [retired_eq]
  simp only [virsh]
  rw [defined_attempt_undefined, defined_attempt_stopped, defined_attempt_stopped]

/-- **What a migration comes to.** -/
theorem migrate_cases (v : Hypervisors H D) (a b : H) (w : Workload) (node : Id) (scope : Scope)
    (s : Libvirt H D) :
    (¬(w.permitsPlacement scope ∧ v.Saves a w.metadata.id s) ∧
      ∃ e, migrate (v.qemu a) (v.qemu b) w node scope s = (.error e, s)) ∨
    (w.permitsPlacement scope ∧ v.Saves a w.metadata.id s) ∧
      ((¬(((v.fate .save).reports ∧ (v.fate .stat).acts) ∧
          ∃ x, v.Starts b w.metadata.id (v.afterSave a w.metadata.id s) x) ∧
        ∃ e, migrate (v.qemu a) (v.qemu b) w node scope s =
          (.error e, v.afterSave a w.metadata.id s)) ∨
      ((v.fate .save).reports ∧ (v.fate .stat).acts) ∧
        ∃ x, v.Starts b w.metadata.id (v.afterSave a w.metadata.id s) x ∧
          ((¬(v.fate .restore).reports ∧ ∃ e, migrate (v.qemu a) (v.qemu b) w node scope s =
            (.error e, (v.afterSave a w.metadata.id s).restored b x v.restoreDefines)) ∨
          (v.fate .restore).reports ∧ ∃ report, migrate (v.qemu a) (v.qemu b) w node scope s =
            (.ok report, v.retired a w.metadata.id
              ((v.afterSave a w.metadata.id s).restored b x v.restoreDefines)))) := by
  have hsource : (v.qemu a).supportsMigration = true := rfl
  have htarget : (v.qemu b).supportsMigration = true := rfl
  simp only [migrate, hsource, htarget]
  cases hpermits : w.permitsPlacement scope with
  | false => exact .inl ⟨by simp, _, rfl⟩
  | true =>
    obtain ⟨hno, e, he⟩ | ⟨hsaves, ⟨hcaptured, e, he⟩ | ⟨hcaptured, n, hok⟩⟩ :=
      dumpMemory_cases v a w.metadata.id s
    · exact .inl ⟨fun h => hno h.2, e, by simp [he]⟩
    · exact .inr ⟨⟨rfl, hsaves⟩, .inl ⟨fun h => hcaptured h.1, e, by simp [he]⟩⟩
    · refine .inr ⟨⟨rfl, hsaves⟩, ?_⟩
      obtain ⟨hno, e, he⟩ | ⟨x, hx, ⟨hreports, e, he⟩ | ⟨hreports, hdone⟩⟩ :=
        restore_cases v b w.metadata.id (v.afterSave a w.metadata.id s) (some node) n
      · exact .inl ⟨fun h => hno h.2, e, by simp [hok, he]⟩
      · exact .inr ⟨hcaptured, x, hx, .inl ⟨hreports, e, by simp [hok, he]⟩⟩
      · refine .inr ⟨hcaptured, x, hx, .inr ⟨hreports, ?_⟩⟩
        simp only [hok, hdone]
        exact ⟨_, rfl⟩

/-! ## Where the workload runs afterwards -/

/-- After the save, the image that the target finds is the workload's. -/
def Hypervisors.Finds (v : Hypervisors H D) (a b : H) (id : Id) (s : Libvirt H D) : Prop :=
  (v.afterSave a id s).images (v.disk b, v.savePath id) = some id

/-- Every step of a migration up to the restore succeeds. -/
def Hypervisors.Completes (v : Hypervisors H D) (a b : H) (w : Workload) (scope : Scope)
    (s : Libvirt H D) : Prop :=
  (w.permitsPlacement scope ∧ v.Saves a w.metadata.id s) ∧
    ((v.fate .save).reports ∧ (v.fate .stat).acts) ∧
    (∃ x, v.Starts b w.metadata.id (v.afterSave a w.metadata.id s) x) ∧ (v.fate .restore).reports

/-- **Migration success.** A migration that returns ok leaves the workload defined and running on its
target if and only if, where all steps up to the restore succeed, the copy that is retired is not the
one that was restored: on one host none of the three commands that retire it may act, and on two hosts
the image that the target finds has to be the workload's. It has to be defined there before, unless
restoring defines it. -/
theorem migrate_ok_running_iff (v : Hypervisors H D) (a b : H) (w : Workload) (node : Id)
    (scope : Scope) (s : Libvirt H D) :
    ((∃ report, (migrate (v.qemu a) (v.qemu b) w node scope s).1 = .ok report) →
      (migrate (v.qemu a) (v.qemu b) w node scope s).2.Defined b w.metadata.id ∧
      (migrate (v.qemu a) (v.qemu b) w node scope s).2.Running b w.metadata.id) ↔
    (v.Completes a b w scope s →
      (a = b → (v.restoreDefines ∨ s.Defined a w.metadata.id) ∧
        ¬(v.fate .undefine).acts ∧ ¬(v.fate .shutdown).acts ∧ ¬(v.fate .destroy).acts) ∧
      (a ≠ b → (v.Finds a b w.metadata.id s ∧ v.restoreDefines ∨ s.Defined b w.metadata.id) ∧
        (v.Finds a b w.metadata.id s ∨ s.Running b w.metadata.id))) := by
  obtain ⟨hno, e, he⟩ | ⟨hsaves, ⟨hno, e, he⟩ | ⟨hcaptured, x, hx, ⟨hno, e, he⟩ |
    ⟨hreports, report, hok⟩⟩⟩ := migrate_cases v a b w node scope s
  · rw [he]
    refine ⟨fun _ hc => absurd hc.1 hno, fun _ => ?_⟩
    rintro ⟨report, hreport⟩
    cases hreport
  · rw [he]
    refine ⟨fun _ hc => absurd ⟨hc.2.1, hc.2.2.1⟩ hno, fun _ => ?_⟩
    rintro ⟨report, hreport⟩
    cases hreport
  · rw [he]
    refine ⟨fun _ hc => absurd hc.2.2.2 hno, fun _ => ?_⟩
    rintro ⟨report, hreport⟩
    cases hreport
  · have hcompletes : v.Completes a b w scope s := ⟨hsaves, hcaptured, ⟨x, hx⟩, hreports⟩
    have hdone : (∃ r, (migrate (v.qemu a) (v.qemu b) w node scope s).1 = .ok r) :=
      ⟨report, by rw [hok]⟩
    rw [imp_iff_right hdone, imp_iff_right hcompletes, hok, running_retired, defined_retired,
      running_restored, defined_restored, Hypervisors.afterSave, running_saved, defined_saved]
    have hfinds : v.Finds a b w.metadata.id s ↔ w.metadata.id = x := by
      rw [Hypervisors.Finds, hx.1, Option.some_inj, eq_comm]
    by_cases hab : a = b
    · subst hab
      -- the image that was saved is the one that is found
      obtain rfl : w.metadata.id = x := hfinds.1 (s.images_saved a _ _ _)
      simp [and_assoc]
    · have hne : (b, w.metadata.id) ≠ (a, w.metadata.id) := fun heq =>
        hab (congrArg Prod.fst heq).symm
      simp [hab, hne, hfinds]

/-- A fleet of two hosts with a disk each, in which every command succeeds. -/
def reliable : Hypervisors Bool Bool where
  disk h := h
  fate _ := ⟨true, true⟩
  restoreDefines := true
  tempDir := "/tmp"
  imageBytes _ := 1024

/-- One virtual machine runs on the first host. -/
def oneDomain : Libvirt Bool Bool :=
  ⟨fun k => k = (false, ⟨"db"⟩), fun k => k = (false, ⟨"db"⟩), fun _ => none⟩

/-- The workload of that virtual machine. -/
def dbWorkload : Workload := .virtualMachine (.named "db") "debian-12.qcow2"

-- two hosts that share a disk
example : (migrate (Hypervisors.qemu { reliable with disk := fun _ => true } false)
    (Hypervisors.qemu { reliable with disk := fun _ => true } true) dbWorkload ⟨"node-b"⟩ .fleet
    oneDomain).2.Running true dbWorkload.metadata.id := by decide

/-- A migration between two handles to one host returns ok and leaves the host without the domain. -/
theorem migrate_same_host_loses_workload :
    (∃ report, (migrate (reliable.qemu false) (reliable.qemu false) dbWorkload ⟨"node-b"⟩ .fleet
      oneDomain).1 = .ok report) ∧
    ¬(migrate (reliable.qemu false) (reliable.qemu false) dbWorkload ⟨"node-b"⟩ .fleet
      oneDomain).2.Defined false dbWorkload.metadata.id ∧
    ¬(migrate (reliable.qemu false) (reliable.qemu false) dbWorkload ⟨"node-b"⟩ .fleet
      oneDomain).2.Running false dbWorkload.metadata.id :=
  ⟨⟨_, rfl⟩, by decide, by decide⟩

/-- **Migration failure.** A migration that fails leaves a workload that ran on its source running there
if and only if nothing has stopped it or the restore has started it again: the placement is refused, or
the save does not act, or the save and its size are reported, the restore acts, and it says so or is on
the same host. -/
theorem migrate_error_running_iff (v : Hypervisors H D) (a b : H) (w : Workload) (node : Id)
    (scope : Scope) (s : Libvirt H D) :
    ((∃ e, (migrate (v.qemu a) (v.qemu b) w node scope s).1 = .error e) →
      s.Running a w.metadata.id →
      (migrate (v.qemu a) (v.qemu b) w node scope s).2.Running a w.metadata.id) ↔
    (w.permitsPlacement scope ∧ v.Saves a w.metadata.id s →
      ((v.fate .save).reports ∧ (v.fate .stat).acts) ∧
      (∃ x, v.Starts b w.metadata.id (v.afterSave a w.metadata.id s) x) ∧
      ((v.fate .restore).reports ∨ a = b)) := by
  obtain ⟨hno, e, he⟩ | ⟨hsaves, ⟨hno, e, he⟩ | ⟨hcaptured, x, hx, ⟨hno, e, he⟩ |
    ⟨hreports, report, hok⟩⟩⟩ := migrate_cases v a b w node scope s
  · rw [he]
    exact ⟨fun _ hc => absurd hc hno, fun _ _ hrunning => hrunning⟩
  · rw [he, Hypervisors.afterSave, Libvirt.running_saved]
    constructor
    · intro h
      exact absurd rfl (h ⟨e, rfl⟩ hsaves.2.1).1
    · intro h
      exact absurd ⟨(h hsaves).1, (h hsaves).2.1⟩ hno
  · rw [he, Libvirt.running_restored]
    have hstopped : ¬(v.afterSave a w.metadata.id s).Running a w.metadata.id := by
      rw [Hypervisors.afterSave, Libvirt.running_saved]
      exact fun h => h.1 rfl
    constructor
    · intro h _
      have hstarted := (h ⟨e, rfl⟩ hsaves.2.1).resolve_right hstopped
      exact ⟨hcaptured, ⟨x, hx⟩, .inr (congrArg Prod.fst hstarted)⟩
    · intro h _ _
      obtain rfl := (h hsaves).2.2.resolve_left hno
      have himage := hx.1
      rw [Hypervisors.afterSave, Libvirt.images_saved] at himage
      rw [Option.some.inj himage]
      exact .inl rfl
  · rw [hok]
    refine ⟨fun _ _ => ⟨hcaptured, ⟨x, hx⟩, .inl hreports⟩, ?_⟩
    rintro - ⟨e, he⟩
    cases he

/-- Between two hosts with a disk each, with every command as it should be, the target finds no image:
the migration fails and the workload runs nowhere. -/
theorem migrate_two_hosts_stops_workload :
    oneDomain.Running false dbWorkload.metadata.id ∧
    (∃ e, (migrate (reliable.qemu false) (reliable.qemu true) dbWorkload ⟨"node-b"⟩ .fleet
      oneDomain).1 = .error e) ∧
    ∀ h, ¬(migrate (reliable.qemu false) (reliable.qemu true) dbWorkload ⟨"node-b"⟩ .fleet
      oneDomain).2.Running h dbWorkload.metadata.id :=
  ⟨by decide, ⟨_, rfl⟩, by decide⟩

end

end OCF.Runtime

import OCF.Core.Resource
import OCF.Foundations.BTreeMap
import OCF.Foundations.Run
import OCF.Foundations.Text
import Mathlib.Logic.Function.Basic

/-!
# Host services

`SystemdServiceManager` keeps the state that each unit should be in and drives `systemctl`. A call
of `ensure` or `reconcile` is a task that waits for `systemctl` and then goes on. Between the moment
at which systemd acts and the moment at which the task goes on, and between two commands of one
`reconcile`, any other task may run and a unit may change by itself.

`reconcile` works on a copy of the map that it takes at the start. Whatever runs beside it, its
reports are those of the copy, in the order of the names, and it acts on a unit exactly when it saw
it in another state (`reports_of_reconciled`). A unit that nobody else touches in the meantime is in
the state of the copy at the end (`reconcile_converges`).

What a command does to its unit is left to the environment: `systemctl` may fail, and a unit may be
in any state after a `start`.
-/

namespace OCF.Kernel.Systemd

open OCF.Text

/-! ## Running a command -/

/-- What running a command comes to: it cannot be spawned, or it exits, with no code after a
signal. -/
inductive Exit
  | notSpawned (e : String)
  | exited (code : Option ℤ) (stdout stderr : String)
  deriving DecidableEq

/-- The command exited with zero. -/
def Exit.success : Exit → Bool
  | .notSpawned _ => false
  | .exited code _ _ => code = some 0

/-- What `run` makes of it: what was printed, or an error with the command and the reason. -/
def runResult (cmd : String) (args : List String) : Exit → Result String
  | .notSpawned e => .error (.provider cmd ("failed to spawn `" ++ cmd ++ "`: " ++ e))
  | .exited code stdout stderr =>
    if code = some 0 then .ok stdout
    else
      let message := if trimmed stderr = "" then trimmed stdout else trimmed stderr
      .error (.provider cmd ("`" ++ cmd ++ " " ++ " ".intercalate args ++ "` exited " ++
        code.elim "signal" toString ++ ": " ++ message))

/-! ## The manager -/

/-- Observed or desired state of a unit. -/
inductive ServiceState
  | running
  | stopped
  | failed
  | unknown
  deriving DecidableEq

/-- The name of a state. -/
def ServiceState.debug : ServiceState → String
  | .running => "Running"
  | .stopped => "Stopped"
  | .failed => "Failed"
  | .unknown => "Unknown"

/-- What reconciling one unit came to. -/
structure ReconcileReport where
  service : String
  desired : ServiceState
  previous : ServiceState
  changed : Bool
  deriving DecidableEq

/-- The state that systemd prints, as a bare word or after an equals sign. -/
def parseActiveState (raw : String) : ServiceState :=
  let value := ((trim raw.toList).splitOn '=').getLastD []
  match toAsciiLowercase (String.ofList (trim value)) with
  | "active" => .running
  | "inactive" => .stopped
  | "deactivating" => .stopped
  | "failed" => .failed
  | _ => .unknown

/-- The verb that drives a unit to a state, if there is one. -/
def systemctlVerb : ServiceState → Option String
  | .running => some "start"
  | .stopped => some "stop"
  | .failed => none
  | .unknown => none

/-- Units with the state that is wanted. -/
abbrev Managed := List (String × ServiceState)

/-- A call of the manager: where it waits for `systemctl`, and how the command exited when it has;
or what it returned. -/
inductive Task
  | ensure (name : String) (desired : ServiceState) (verb : String) (exit : Option Exit)
  | probe (name : String) (desired : ServiceState) (rest : Managed)
      (reports : List ReconcileReport) (exit : Option Exit)
  | converge (name : String) (desired previous : ServiceState) (verb : String) (rest : Managed)
      (reports : List ReconcileReport) (exit : Option Exit)
  | ensured (r : Result Unit)
  | reconciled (r : Result (List ReconcileReport))

/-- A call of `ensure`, up to where it waits. -/
def ensure (name : String) (desired : ServiceState) : Task :=
  if name = "" then .ensured (.error (.invalidArgument "service name must not be empty"))
  else
    match systemctlVerb desired with
    | none => .ensured (.error (.invalidArgument
        ("cannot drive service " ++ name ++ " to " ++ desired.debug)))
    | some verb => .ensure name desired verb none

/-- The loop of `reconcile` with these units to go, up to where it waits. -/
def reconcileLoop (reports : List ReconcileReport) : Managed → Task
  | [] => .reconciled (.ok reports)
  | (name, desired) :: rest => .probe name desired rest reports none

/-- The `start` or `stop` of a task exits: its unit, and the task. -/
def Task.acted (exit : Exit) : Task → Option (String × Task)
  | .ensure name desired verb none => some (name, .ensure name desired verb (some exit))
  | .converge name desired previous verb rest reports none =>
    some (name, .converge name desired previous verb rest reports (some exit))
  | _ => none

/-- The `is-active` of a task exits: its unit, and the task. -/
def Task.reported (exit : Exit) : Task → Option (String × Task)
  | .probe name desired rest reports none =>
    some (name, .probe name desired rest reports (some exit))
  | _ => none

/-- A task whose command has exited goes on to where it waits again, with the map of the manager. -/
def Task.resume (managed : BTreeMap String ServiceState) :
    Task → Option (BTreeMap String ServiceState × Task)
  | .ensure name desired verb (some exit) =>
    match runResult "systemctl" [verb, name] exit with
    | .error e => some (managed, .ensured (.error e))
    | .ok _ => some (managed.insert name desired, .ensured (.ok ()))
  | .probe name desired rest reports (some exit) =>
    match exit with
    | .notSpawned e =>
      some (managed, .reconciled (.error (.provider "systemctl"
        ("failed to spawn `systemctl`: " ++ e))))
    | .exited _ stdout _ =>
      let previous := parseActiveState stdout
      match (systemctlVerb desired).filter fun _ => previous ≠ desired with
      | some verb => some (managed, .converge name desired previous verb rest reports none)
      | none => some (managed, reconcileLoop (reports ++ [⟨name, desired, previous, false⟩]) rest)
  | .converge name desired previous verb rest reports (some exit) =>
    match runResult "systemctl" [verb, name] exit with
    | .error e => some (managed, .reconciled (.error e))
    | .ok _ => some (managed, reconcileLoop (reports ++ [⟨name, desired, previous, true⟩]) rest)
  | _ => none

/-! ## The system -/

/-- What systemd prints for each unit, the map of the manager and its calls so far. -/
structure System where
  active : String → String
  managed : BTreeMap String ServiceState
  tasks : List Task

/-- What can happen next. -/
inductive Action
  | callEnsure (name : String) (desired : ServiceState)
  | callReconcile
  /-- Systemd runs the `start` or `stop` of a task, which leaves its unit like this. -/
  | act (i : ℕ) (exit : Exit) (active : String)
  /-- The `is-active` of a task exits; it prints the state of the unit. -/
  | report (i : ℕ) (exit : Exit)
  | resume (i : ℕ)
  /-- A unit changes by itself. -/
  | drift (name active : String)

/-- A manager that has no units yet. -/
def System.new (active : String → String) : System := ⟨active, ∅, []⟩

/-- A command that was spawned has printed this. -/
def Exit.prints (stdout : String) : Exit → Bool
  | .notSpawned _ => true
  | .exited _ out _ => out = stdout

/-- One action. -/
def step (s : System) : Action → Option System
  | .callEnsure name desired => some { s with tasks := s.tasks ++ [ensure name desired] }
  | .callReconcile => some { s with tasks := s.tasks ++ [reconcileLoop [] s.managed.toList] }
  | .act i exit active => do
    let task ← s.tasks[i]?
    let (name, task) ← task.acted exit
    pure { s with
      active := Function.update s.active name active
      tasks := s.tasks.set i task }
  | .report i exit => do
    let task ← s.tasks[i]?
    let (name, task) ← task.reported exit
    if exit.prints (s.active name) then pure { s with tasks := s.tasks.set i task } else none
  | .resume i => do
    let task ← s.tasks[i]?
    let (managed, task) ← task.resume s.managed
    pure { s with managed := managed, tasks := s.tasks.set i task }
  | .drift name active => some { s with active := Function.update s.active name active }

/-- What a step of the system does: a new call, a step of one task, or a change of a unit. -/
theorem step_cases {s s' : System} {a : Action} (h : step s a = some s') :
    (∃ name desired, a = .callEnsure name desired ∧
      s' = { s with tasks := s.tasks ++ [ensure name desired] }) ∨
    (a = .callReconcile ∧
      s' = { s with tasks := s.tasks ++ [reconcileLoop [] s.managed.toList] }) ∨
    (∃ i exit active task name task', a = .act i exit active ∧ s.tasks[i]? = some task ∧
      task.acted exit = some (name, task') ∧
      s' = { s with
        active := Function.update s.active name active
        tasks := s.tasks.set i task' }) ∨
    (∃ i exit task name task', a = .report i exit ∧ s.tasks[i]? = some task ∧
      task.reported exit = some (name, task') ∧ exit.prints (s.active name) ∧
      s' = { s with tasks := s.tasks.set i task' }) ∨
    (∃ i task managed task', a = .resume i ∧ s.tasks[i]? = some task ∧
      task.resume s.managed = some (managed, task') ∧
      s' = { s with managed := managed, tasks := s.tasks.set i task' }) ∨
    (∃ name active, a = .drift name active ∧
      s' = { s with active := Function.update s.active name active }) := by
  cases a with
  | callEnsure name desired => exact .inl ⟨name, desired, rfl, (Option.some.inj h).symm⟩
  | callReconcile => exact .inr (.inl ⟨rfl, (Option.some.inj h).symm⟩)
  | act i exit active =>
    obtain ⟨task, htask, h⟩ := Option.bind_eq_some_iff.1 h
    obtain ⟨⟨name, task'⟩, hacted, h⟩ := Option.bind_eq_some_iff.1 h
    exact .inr (.inr (.inl ⟨i, exit, active, task, name, task', rfl, htask, hacted,
      (Option.some.inj h).symm⟩))
  | report i exit =>
    obtain ⟨task, htask, h⟩ := Option.bind_eq_some_iff.1 h
    obtain ⟨⟨name, task'⟩, hreported, h⟩ := Option.bind_eq_some_iff.1 h
    obtain ⟨hprints, h⟩ := Option.ite_none_right_eq_some.1 h
    exact .inr (.inr (.inr (.inl ⟨i, exit, task, name, task', rfl, htask, hreported, hprints,
      (Option.some.inj h).symm⟩)))
  | resume i =>
    obtain ⟨task, htask, h⟩ := Option.bind_eq_some_iff.1 h
    obtain ⟨⟨managed, task'⟩, hresume, h⟩ := Option.bind_eq_some_iff.1 h
    exact .inr (.inr (.inr (.inr (.inl ⟨i, task, managed, task', rfl, htask, hresume,
      (Option.some.inj h).symm⟩))))
  | drift name active =>
    exact .inr (.inr (.inr (.inr (.inr ⟨name, active, rfl, (Option.some.inj h).symm⟩))))

/-! ## How a task goes on -/

theorem success_of_runResult {cmd : String} {args : List String} {exit : Exit} {out : String}
    (h : runResult cmd args exit = .ok out) : exit.success := by
  cases exit with
  | notSpawned e => cases h
  | exited code stdout stderr =>
    by_cases hcode : code = some 0
    · simp [Exit.success, hcode]
    · simp [runResult, hcode] at h

/-- The ways in which a task whose command has exited goes on. -/
inductive Resumes (managed : BTreeMap String ServiceState) :
    Task → BTreeMap String ServiceState → Task → Prop
  | ensureFails {name desired verb exit e} :
    Resumes managed (.ensure name desired verb (some exit)) managed (.ensured (.error e))
  | ensureDone {name desired verb exit} : exit.success →
    Resumes managed (.ensure name desired verb (some exit)) (managed.insert name desired)
      (.ensured (.ok ()))
  | probeFails {name desired rest reports e e'} :
    Resumes managed (.probe name desired rest reports (some (.notSpawned e))) managed
      (.reconciled (.error e'))
  | drifted {name desired rest reports code stdout stderr verb} :
    systemctlVerb desired = some verb → parseActiveState stdout ≠ desired →
    Resumes managed (.probe name desired rest reports (some (.exited code stdout stderr))) managed
      (.converge name desired (parseActiveState stdout) verb rest reports none)
  | idle {name desired rest reports code stdout stderr} :
    systemctlVerb desired = none ∨ parseActiveState stdout = desired →
    Resumes managed (.probe name desired rest reports (some (.exited code stdout stderr))) managed
      (reconcileLoop (reports ++ [⟨name, desired, parseActiveState stdout, false⟩]) rest)
  | convergeFails {name desired previous verb rest reports exit e} :
    Resumes managed (.converge name desired previous verb rest reports (some exit)) managed
      (.reconciled (.error e))
  | converged {name desired previous verb rest reports exit} : exit.success →
    Resumes managed (.converge name desired previous verb rest reports (some exit)) managed
      (reconcileLoop (reports ++ [⟨name, desired, previous, true⟩]) rest)

theorem resumes_of_resume {managed managed' : BTreeMap String ServiceState} {task task' : Task}
    (h : task.resume managed = some (managed', task')) : Resumes managed task managed' task' := by
  unfold Task.resume at h
  split at h
  · split at h <;> obtain ⟨rfl, rfl⟩ := Prod.mk.inj (Option.some.inj h)
    next => exact .ensureFails
    next hrun => exact .ensureDone (success_of_runResult hrun)
  · split at h
    · obtain ⟨rfl, rfl⟩ := Prod.mk.inj (Option.some.inj h)
      exact .probeFails
    · dsimp only at h
      split at h <;> obtain ⟨rfl, rfl⟩ := Prod.mk.inj (Option.some.inj h)
      next hverb =>
        obtain ⟨hverb, hne⟩ := Option.filter_eq_some_iff.1 hverb
        exact .drifted hverb (of_decide_eq_true hne)
      next hverb =>
        refine .idle ?_
        cases hsome : systemctlVerb _ with
        | none => exact .inl rfl
        | some verb => simpa [hsome, Option.filter] using hverb
  · split at h <;> obtain ⟨rfl, rfl⟩ := Prod.mk.inj (Option.some.inj h)
    next => exact .convergeFails
    next hrun => exact .converged (success_of_runResult hrun)
  · cases h

/-- The ways in which the `start` or `stop` of a task exits. -/
inductive Acts (exit : Exit) : Task → String → Task → Prop
  | ensure {name desired verb} :
    Acts exit (.ensure name desired verb none) name (.ensure name desired verb (some exit))
  | converge {name desired previous verb rest reports} :
    Acts exit (.converge name desired previous verb rest reports none) name
      (.converge name desired previous verb rest reports (some exit))

theorem acts_of_acted {exit : Exit} {task task' : Task} {name : String}
    (h : task.acted exit = some (name, task')) : Acts exit task name task' := by
  unfold Task.acted at h
  split at h
  · obtain ⟨rfl, rfl⟩ := Prod.mk.inj (Option.some.inj h)
    exact .ensure
  · obtain ⟨rfl, rfl⟩ := Prod.mk.inj (Option.some.inj h)
    exact .converge
  · cases h

theorem probe_of_reported {exit : Exit} {task task' : Task} {name : String}
    (h : task.reported exit = some (name, task')) : ∃ desired rest reports,
      task = .probe name desired rest reports none ∧
      task' = .probe name desired rest reports (some exit) := by
  unfold Task.reported at h
  split at h
  · obtain ⟨rfl, rfl⟩ := Prod.mk.inj (Option.some.inj h)
    exact ⟨_, _, _, rfl, rfl⟩
  · cases h

/-! ## The units of the manager can be driven -/

/-- The verb of an `ensure` is that of its state. -/
def Task.Drives : Task → Prop
  | .ensure _ desired verb _ => systemctlVerb desired = some verb
  | _ => True

/-- Every unit has a state that a verb drives to. -/
structure Drivable (s : System) : Prop where
  managed : ∀ (name : String) desired, s.managed[name]? = some desired →
    (systemctlVerb desired).isSome
  tasks : ∀ task ∈ s.tasks, task.Drives

theorem drives_ensure (name : String) (desired : ServiceState) :
    (ensure name desired).Drives := by
  unfold ensure
  split
  · trivial
  · split
    · trivial
    · assumption

theorem drives_reconcileLoop (reports : List ReconcileReport) (units : Managed) :
    (reconcileLoop reports units).Drives := by
  cases units <;> trivial

theorem drives_resumes {managed managed' : BTreeMap String ServiceState} {task task' : Task}
    (h : Resumes managed task managed' task') : task'.Drives := by
  cases h with
  | idle _ => exact drives_reconcileLoop ..
  | converged _ => exact drives_reconcileLoop ..
  | _ => trivial

theorem drivable_step {s s' : System} {a : Action} (hs : Drivable s) (h : step s a = some s') :
    Drivable s' := by
  have hset : ∀ {i task}, task.Drives → ∀ task' ∈ s.tasks.set i task, task'.Drives := by
    intro i task htask task' hmem
    obtain hmem | rfl := List.mem_or_eq_of_mem_set hmem
    · exact hs.tasks task' hmem
    · exact htask
  have hadd : ∀ {task}, task.Drives → ∀ task' ∈ s.tasks ++ [task], task'.Drives := by
    intro task htask task' hmem
    obtain hmem | hmem := List.mem_append.1 hmem
    · exact hs.tasks task' hmem
    · obtain rfl := List.mem_singleton.1 hmem
      exact htask
  obtain ⟨name, desired, -, rfl⟩ | ⟨-, rfl⟩ |
    ⟨i, exit, active, task, name, task', -, htask, hacted, rfl⟩ |
    ⟨i, exit, task, name, task', -, -, hreported, -, rfl⟩ |
    ⟨i, task, managed, task', -, htask, hresume, rfl⟩ | ⟨name, active, -, rfl⟩ := step_cases h
  · exact ⟨hs.managed, hadd (drives_ensure name desired)⟩
  · exact ⟨hs.managed, hadd (drives_reconcileLoop ..)⟩
  · have hdrives := hs.tasks task (List.mem_of_getElem? htask)
    refine ⟨hs.managed, hset ?_⟩
    cases acts_of_acted hacted with
    | ensure => exact hdrives
    | converge => trivial
  · obtain ⟨desired, rest, reports, -, rfl⟩ := probe_of_reported hreported
    exact ⟨hs.managed, hset trivial⟩
  · have hresumes := resumes_of_resume hresume
    refine ⟨?_, hset (drives_resumes hresumes)⟩
    cases hresumes with
    | ensureDone _ =>
      intro x d hx
      have hverb := hs.tasks _ (List.mem_of_getElem? htask)
      rw [BTreeMap.getElem?_insert_eq] at hx
      split at hx
      · obtain rfl := Option.some.inj hx
        rw [show systemctlVerb _ = _ from hverb]
        rfl
      · exact hs.managed x d hx
    | _ => exact hs.managed
  · exact ⟨hs.managed, hs.tasks⟩

theorem drivable_run {active : String → String} {s : System} {as : List Action}
    (h : run step (.new active) as = some s) : Drivable s := by
  refine run_invariant (fun s a s' hs h => drivable_step hs h) ⟨?_, ?_⟩ h
  · intro name desired hd
    simp [System.new] at hd
  · intro task hmem
    cases hmem

/-! ## One call of `reconcile` among others -/

/-- Only the task with this number runs commands on the unit, and those that exit with zero put it
into this state; the unit does not change by itself. -/
def Undisturbed (i : ℕ) (name : String) (desired : ServiceState) (s : System) : Action → Prop
  | .act j exit active => ∀ task ∈ s.tasks[j]?, ∀ task', task.acted exit = some (name, task') →
    j = i ∧ (exit.success → parseActiveState active = desired)
  | .drift x _ => x ≠ name
  | _ => True

/-- What a step of the system is for one of the tasks. -/
inductive TaskStep (s : System) (i : ℕ) (task : Task) : Action → Task → (String → String) → Prop
  | other {a active} : (∀ name desired, Undisturbed i name desired s a → active name = s.active name) →
    TaskStep s i task a task active
  | act {exit active name task'} : Acts exit task name task' →
    TaskStep s i task (.act i exit active) task' (Function.update s.active name active)
  | report {exit name desired rest reports} : task = .probe name desired rest reports none →
    exit.prints (s.active name) →
    TaskStep s i task (.report i exit) (.probe name desired rest reports (some exit)) s.active
  | resume {managed' task'} : Resumes s.managed task managed' task' →
    TaskStep s i task (.resume i) task' s.active

theorem taskStep_of_step {s s' : System} {a : Action} {i : ℕ} {task : Task}
    (hi : s.tasks[i]? = some task) (h : step s a = some s') :
    ∃ task', s'.tasks[i]? = some task' ∧ TaskStep s i task a task' s'.active := by
  have hlt : i < s.tasks.length := (List.getElem?_eq_some_iff.1 hi).1
  have hadd : ∀ t : Task, (s.tasks ++ [t])[i]? = some task := fun t => by
    rw [List.getElem?_append_left hlt, hi]
  have hset : ∀ {j : ℕ} (t : Task), j ≠ i → (s.tasks.set j t)[i]? = some task := fun t hne => by
    rw [List.getElem?_set_ne hne, hi]
  have hown : ∀ t : Task, (s.tasks.set i t)[i]? = some t := fun t =>
    List.getElem?_set_self hlt
  obtain ⟨name, desired, rfl, rfl⟩ | ⟨rfl, rfl⟩ |
    ⟨j, exit, active, t, name, t', rfl, ht, hacted, rfl⟩ |
    ⟨j, exit, t, name, t', rfl, ht, hreported, hprints, rfl⟩ |
    ⟨j, t, managed, t', rfl, ht, hresume, rfl⟩ | ⟨name, active, rfl, rfl⟩ := step_cases h
  · exact ⟨task, hadd _, .other fun _ _ _ => rfl⟩
  · exact ⟨task, hadd _, .other fun _ _ _ => rfl⟩
  · by_cases hj : j = i
    · obtain rfl := hj
      obtain rfl := Option.some.inj (hi.symm.trans ht)
      exact ⟨t', hown t', .act (acts_of_acted hacted)⟩
    · refine ⟨task, hset t' hj, .other fun x d hx => ?_⟩
      -- another task acts on another unit
      refine Function.update_of_ne (fun hxn => ?_) ..
      obtain rfl := hxn
      exact hj (hx t ht t' hacted).1
  · by_cases hj : j = i
    · obtain rfl := hj
      obtain rfl := Option.some.inj (hi.symm.trans ht)
      obtain ⟨desired, rest, reports, rfl, rfl⟩ := probe_of_reported hreported
      exact ⟨_, hown _, .report rfl hprints⟩
    · exact ⟨task, hset t' hj, .other fun _ _ _ => rfl⟩
  · by_cases hj : j = i
    · obtain rfl := hj
      obtain rfl := Option.some.inj (hi.symm.trans ht)
      exact ⟨t', hown t', .resume (resumes_of_resume hresume)⟩
    · exact ⟨task, hset t' hj, .other fun _ _ _ => rfl⟩
  · exact ⟨task, hi, .other fun x d hx => Function.update_of_ne (Ne.symm hx) ..⟩

/-- The unit and the state that a report is about. -/
def ReconcileReport.unit (r : ReconcileReport) : String × ServiceState := (r.service, r.desired)

/-- The reports and the units to go are those of the copy, and every report says truly whether
there was something to do. -/
structure Progress (units : Managed) (reports : List ReconcileReport) (rest : Managed) : Prop where
  units_eq : reports.map (·.unit) ++ rest = units
  changed : ∀ r ∈ reports, r.changed = decide (r.previous ≠ r.desired)

/-- A `reconcile` of these units. -/
def Task.Reconciles (units : Managed) : Task → Prop
  | .probe name desired rest reports _ => Progress units reports ((name, desired) :: rest)
  | .converge name desired previous _ rest reports _ =>
    Progress units reports ((name, desired) :: rest) ∧ previous ≠ desired
  | .reconciled (.ok reports) => Progress units reports []
  | .reconciled (.error _) => True
  | _ => False

/-- A unit that has been reported is in its state; so is one whose command has succeeded, and what
was read of a unit is what it is like. -/
def Task.Settled (name : String) (desired : ServiceState) (active : String) : Task → Prop
  | .probe x _ _ reports exit =>
    (name ∈ reports.map (·.service) → parseActiveState active = desired) ∧
      (x = name → ∀ e ∈ exit, e.prints active)
  | .converge x _ _ _ _ reports exit =>
    (name ∈ reports.map (·.service) → parseActiveState active = desired) ∧
      (x = name → ∀ e ∈ exit, e.success → parseActiveState active = desired)
  | .reconciled (.ok reports) =>
    name ∈ reports.map (·.service) → parseActiveState active = desired
  | _ => True

section Reconcile

variable {units : Managed} {reports : List ReconcileReport} {rest : Managed}

theorem Progress.concat {name : String} {desired previous : ServiceState} {changed : Bool}
    (h : Progress units reports ((name, desired) :: rest))
    (hchanged : changed = decide (previous ≠ desired)) :
    Progress units (reports ++ [⟨name, desired, previous, changed⟩]) rest where
  units_eq := by rw [List.map_append, List.append_assoc]; exact h.units_eq
  changed := by
    intro r hr
    obtain hr | hr := List.mem_append.1 hr
    · exact h.changed r hr
    · obtain rfl := List.mem_singleton.1 hr
      exact hchanged

theorem Progress.mem {e : String × ServiceState} (h : Progress units reports (e :: rest)) :
    e ∈ units := by
  rw [← h.units_eq]
  simp

theorem reconciles_reconcileLoop (h : Progress units reports rest) :
    (reconcileLoop reports rest).Reconciles units := by
  cases rest with
  | nil => exact h
  | cons e rest => exact h

theorem reconciles_taskStep (hunits : ∀ e ∈ units, (systemctlVerb e.2).isSome) {s : System} {i : ℕ}
    {task task' : Task} {a : Action} {active : String → String} (hrec : task.Reconciles units)
    (h : TaskStep s i task a task' active) : task'.Reconciles units := by
  cases h with
  | other _ => exact hrec
  | act hacts =>
    cases hacts with
    | ensure => cases hrec
    | converge => exact hrec
  | report htask _ =>
    subst htask
    exact hrec
  | resume hresumes =>
    cases hresumes with
    | ensureFails => cases hrec
    | ensureDone _ => cases hrec
    | probeFails => trivial
    | drifted _ hne => exact ⟨hrec, hne⟩
    | idle hidle =>
      have hsame := hidle.resolve_left (Option.isSome_iff_ne_none.1 (hunits _ hrec.mem))
      exact reconciles_reconcileLoop (hrec.concat (by simp [hsame]))
    | convergeFails => trivial
    | converged _ => exact reconciles_reconcileLoop (hrec.1.concat (by simp [hrec.2]))

theorem settled_reconcileLoop {name : String} {desired : ServiceState} {active : String}
    (h : name ∈ reports.map (·.service) → parseActiveState active = desired) :
    (reconcileLoop reports rest).Settled name desired active := by
  cases rest with
  | nil => exact h
  | cons e rest => exact ⟨h, fun _ e he => by cases he⟩

/-- A report on another unit, or on one that is in its state. -/
theorem settled_concat {name x : String} {desired d previous : ServiceState} {changed : Bool}
    {active : String} (h : name ∈ reports.map (·.service) → parseActiveState active = desired)
    (hx : x = name → parseActiveState active = desired) :
    (reconcileLoop (reports ++ [⟨x, d, previous, changed⟩]) rest).Settled name desired active := by
  refine settled_reconcileLoop fun hmem => ?_
  rw [List.map_append, List.mem_append, List.map_singleton, List.mem_singleton] at hmem
  exact hmem.elim h fun hmem => hx hmem.symm

theorem Progress.not_mem (hnodup : (units.map Prod.fst).Nodup) {name : String}
    {desired : ServiceState} (h : Progress units reports ((name, desired) :: rest)) :
    name ∉ reports.map (·.service) := by
  have hservice : reports.map (·.service) = (reports.map (·.unit)).map Prod.fst := by
    rw [List.map_map]
    rfl
  rw [← h.units_eq, List.map_append, List.nodup_append] at hnodup
  rw [hservice]
  exact fun hmem => hnodup.2.2 name hmem name (List.mem_cons_self ..) rfl

theorem settled_taskStep {name : String} {desired : ServiceState} {s : System} {i : ℕ}
    {task task' : Task} {a : Action} {active : String → String}
    (hverb : ∀ e ∈ units, (systemctlVerb e.2).isSome) (hnodup : (units.map Prod.fst).Nodup)
    (hmem : (name, desired) ∈ units) (hi : s.tasks[i]? = some task) (hrec : task.Reconciles units)
    (hset : task.Settled name desired (s.active name)) (hu : Undisturbed i name desired s a)
    (h : TaskStep s i task a task' active) : task'.Settled name desired (active name) := by
  cases h with
  | other hactive => rwa [hactive name desired hu]
  | @act exit word x _ hacts =>
    cases hacts with
    | ensure => cases hrec
    | converge =>
      by_cases hx : x = name
      · subst hx
        rw [Function.update_self]
        refine ⟨fun hrep => absurd hrep (hrec.1.not_mem hnodup), fun _ e he => ?_⟩
        obtain rfl := Option.some.inj he
        exact (hu _ hi _ rfl).2
      · rw [Function.update_of_ne (Ne.symm hx)]
        exact ⟨hset.1, fun hxn => absurd hxn hx⟩
  | report htask hprints =>
    subst htask
    refine ⟨hset.1, fun hx e he => ?_⟩
    obtain rfl := Option.some.inj he
    rwa [← hx]
  | resume hresumes =>
    cases hresumes with
    | ensureFails => trivial
    | ensureDone _ => trivial
    | probeFails => trivial
    | drifted _ _ => exact ⟨hset.1, fun _ e he => by cases he⟩
    | @idle x d _ _ code stdout stderr hidle =>
      refine settled_concat hset.1 fun hx => ?_
      subst hx
      have hsame := hidle.resolve_left (Option.isSome_iff_ne_none.1 (hverb _ hrec.mem))
      have hread : stdout = s.active x := of_decide_eq_true (hset.2 rfl _ rfl)
      rw [← hread, hsame]
      exact congrArg Prod.snd (List.inj_on_of_nodup_map hnodup hrec.mem hmem rfl)
    | convergeFails => trivial
    | converged hsuccess => exact settled_concat hset.1 fun hx => hset.2 hx _ rfl hsuccess

end Reconcile

section Call

variable {active : String → String} {pre as : List Action} {s t s' : System}

theorem isSome_systemctlVerb_of_mem_toList (hs : run step (.new active) pre = some s) :
    ∀ e ∈ s.managed.toList, (systemctlVerb e.2).isSome := by
  intro e he
  exact (drivable_run hs).managed e.1 e.2 (Std.ExtTreeMap.mem_toList_iff_getElem?_eq_some.1 he)

/-- A call of `reconcile` is the last task and has all units to go. -/
theorem reconciles_callReconcile (ht : step s .callReconcile = some t) :
    t.tasks[s.tasks.length]? = some (reconcileLoop [] s.managed.toList) ∧
      (reconcileLoop [] s.managed.toList).Reconciles s.managed.toList := by
  obtain rfl := Option.some.inj ht
  refine ⟨List.getElem?_concat_length, reconciles_reconcileLoop ⟨rfl, ?_⟩⟩
  intro r hr
  cases hr

/-- **The reports of a `reconcile` are those of the units at its start.** Whatever runs beside it,
it returns one report for each of them in the order of their names, and has acted on those that it
saw in another state. -/
theorem reports_of_reconciled (hs : run step (.new active) pre = some s)
    (ht : step s .callReconcile = some t) (has : run step t as = some s')
    (reports : List ReconcileReport)
    (hdone : s'.tasks[s.tasks.length]? = some (.reconciled (.ok reports))) :
    reports.map (·.unit) = s.managed.toList ∧
      ∀ r ∈ reports, r.changed = decide (r.previous ≠ r.desired) := by
  have hverb := isSome_systemctlVerb_of_mem_toList hs
  have hstart := reconciles_callReconcile ht
  obtain ⟨task, htask, hrec⟩ : ∃ task, s'.tasks[s.tasks.length]? = some task ∧
      task.Reconciles s.managed.toList := by
    refine run_invariant (I := fun u => ∃ task, u.tasks[s.tasks.length]? = some task ∧
      task.Reconciles s.managed.toList) (fun u a u' hu h => ?_) ⟨_, hstart⟩ has
    obtain ⟨task, htask, hrec⟩ := hu
    obtain ⟨task', htask', hstep⟩ := taskStep_of_step htask h
    exact ⟨task', htask', reconciles_taskStep hverb hrec hstep⟩
  obtain rfl := Option.some.inj (htask.symm.trans hdone)
  exact ⟨by simpa using hrec.units_eq, hrec.changed⟩

/-- Two units are started, and one of them stops by itself. -/
def sshdDrift : List Action :=
  [.callEnsure "sshd" .running, .act 0 (.exited (some 0) "" "") "active", .resume 0,
    .callEnsure "nginx" .running, .act 1 (.exited (some 0) "" "") "active", .resume 1,
    .drift "sshd" "inactive"]

/-- A call of `reconcile` leaves the one alone and starts the other again; in between a third unit
comes to be managed. -/
def sshdRepair : List Action :=
  [.report 2 (.exited (some 0) "active" ""), .callEnsure "cron" .running,
    .act 3 (.exited (some 0) "" "") "active", .resume 3, .resume 2,
    .report 2 (.exited (some 3) "inactive" ""), .resume 2,
    .act 2 (.exited (some 0) "" "") "active", .resume 2]

/-- The reports of this call. -/
def sshdReports : List ReconcileReport :=
  [⟨"nginx", .running, .running, false⟩, ⟨"sshd", .running, .stopped, true⟩]

theorem reports_of_reconciled_sshd :
    ∃ s t s', run step (.new fun _ => "inactive") sshdDrift = some s ∧
      step s .callReconcile = some t ∧ run step t sshdRepair = some s' ∧
      s'.tasks[s.tasks.length]? = some (.reconciled (.ok sshdReports)) ∧
      sshdReports.map (·.unit) = s.managed.toList ∧
      s'.managed["cron"]? = some .running := by
  have hunits : ∀ s, run step (.new fun _ => "inactive") sshdDrift = some s →
      ∀ t, step s .callReconcile = some t → ∀ s', run step t sshdRepair = some s' →
      s'.tasks[s.tasks.length]? = some (.reconciled (.ok sshdReports)) →
      sshdReports.map (·.unit) = s.managed.toList := fun s hs t ht s' hs' hdone =>
    (reports_of_reconciled hs ht hs' _ hdone).1
  exact ⟨_, _, _, rfl, rfl, rfl, rfl, hunits _ rfl _ rfl _ rfl rfl, rfl⟩

/-- **A unit that nobody else touches during a `reconcile` is in its state at the end.** The state
is the one that the manager had for it at the start. -/
theorem reconcile_converges (hs : run step (.new active) pre = some s)
    (ht : step s .callReconcile = some t) (has : run step t as = some s')
    (reports : List ReconcileReport)
    (hdone : s'.tasks[s.tasks.length]? = some (.reconciled (.ok reports))) (name : String)
    (desired : ServiceState) (hdesired : s.managed[name]? = some desired)
    (hundisturbed : Guarded step (Undisturbed s.tasks.length name desired) t as) :
    parseActiveState (s'.active name) = desired := by
  have hverb := isSome_systemctlVerb_of_mem_toList hs
  have hnodup := BTreeMap.nodup_keys_toList s.managed
  have hmem := Std.ExtTreeMap.mem_toList_iff_getElem?_eq_some.2 hdesired
  obtain ⟨hstart, hrec⟩ := reconciles_callReconcile ht
  obtain ⟨task, htask, hrec, hset⟩ : ∃ task, s'.tasks[s.tasks.length]? = some task ∧
      task.Reconciles s.managed.toList ∧ task.Settled name desired (s'.active name) := by
    refine hundisturbed.invariant (I := fun u => ∃ task, u.tasks[s.tasks.length]? = some task ∧
      task.Reconciles s.managed.toList ∧ task.Settled name desired (u.active name))
      (fun u a u' hu hg h => ?_) ⟨_, hstart, hrec, settled_reconcileLoop fun hmem => by cases hmem⟩ has
    obtain ⟨task, htask, hrec, hset⟩ := hu
    obtain ⟨task', htask', hstep⟩ := taskStep_of_step htask h
    exact ⟨task', htask', reconciles_taskStep hverb hrec hstep,
      settled_taskStep hverb hnodup hmem htask hrec hset hg hstep⟩
  obtain rfl := Option.some.inj (htask.symm.trans hdone)
  refine hset ?_
  -- the reports are all there, and one of them is on this unit
  have hunits : reports.map (·.unit) = s.managed.toList := by simpa using hrec.units_eq
  rw [← hunits] at hmem
  obtain ⟨r, hr, hunit⟩ := List.mem_map.1 hmem
  exact List.mem_map.2 ⟨r, hr, congrArg Prod.fst hunit⟩

theorem reconcile_converges_sshd :
    ∃ s t s', run step (.new fun _ => "inactive") sshdDrift = some s ∧
      step s .callReconcile = some t ∧ run step t sshdRepair = some s' ∧
      Guarded step (Undisturbed s.tasks.length "sshd" .running) t sshdRepair ∧
      parseActiveState (s.active "sshd") = .stopped ∧
      parseActiveState (s'.active "sshd") = .running := by
  have hguarded : ∀ s, run step (.new fun _ => "inactive") sshdDrift = some s →
      ∀ t, step s .callReconcile = some t →
      Guarded step (Undisturbed s.tasks.length "sshd" .running) t sshdRepair := by
    intro s hs t ht
    obtain rfl := Option.some.inj hs
    obtain rfl := Option.some.inj ht
    -- the command of the other call is on another unit
    refine .cons trivial rfl (.cons trivial rfl (.cons ?_ rfl (.cons trivial rfl (.cons trivial rfl
      (.cons trivial rfl (.cons trivial rfl (.cons ?_ rfl (.cons trivial rfl trivial))))))))
    · intro task htask task' hacted
      obtain rfl := Option.some.inj htask
      exact absurd (Prod.mk.inj (Option.some.inj hacted)).1 (by decide)
    · intro task htask task' hacted
      obtain rfl := Option.some.inj htask
      exact ⟨rfl, fun _ => by decide⟩
  have hrunning : ∀ s, run step (.new fun _ => "inactive") sshdDrift = some s →
      ∀ t, step s .callReconcile = some t → ∀ s', run step t sshdRepair = some s' →
      s'.tasks[s.tasks.length]? = some (.reconciled (.ok sshdReports)) →
      s.managed["sshd"]? = some .running →
      parseActiveState (s'.active "sshd") = .running := fun s hs t ht s' hs' hdone hdesired =>
    reconcile_converges hs ht hs' _ hdone "sshd" .running hdesired (hguarded s hs t ht)
  exact ⟨_, _, _, rfl, rfl, rfl, hguarded _ rfl _ rfl, by decide,
    hrunning _ rfl _ rfl _ rfl rfl rfl⟩

end Call

end OCF.Kernel.Systemd

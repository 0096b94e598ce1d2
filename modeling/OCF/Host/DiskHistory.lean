import OCF.Foundations.Run
import OCF.Host.Disks

/-!
# The history of the disks

The calls of the disk service run at the same time. A call holds the lock of the records or that of
the manager only for a section, and between two sections (in which it may wait for `lsblk` or
`ledctl`) the other calls go on: a disk can be marked for return while a listing has it already, and
the service knows of the mark before the manager does.

A call is a task here, and an action of the system starts a call or takes one section of a task.
With nothing in between, the sections of a listing are `DiskService.list` (`run_listing`). In every
run, whatever its order:

* of two listings that show a serial, the one that is stamped later does not show it younger, and
  shows a return mark if the other one does (`history_of_later_listing`);
* all listings that are asked for after a disk was marked show the same date (`rmaDate_of_marked`).
-/

namespace OCF.Disks

open SysfsDiskManager DiskService

/-! ## The calls of the service -/

/-- The states of the locate LED of a bay. -/
inductive LedState
  | normal
  | locate
  | fault
  | rebuild
  deriving DecidableEq

/-- The name of a pattern for `ledctl`. -/
def LedState.ibpi : LedState → String
  | .normal => "normal"
  | .locate => "locate"
  | .fault => "failure"
  | .rebuild => "rebuild"

/-- A call of the service. -/
inductive Call
  | list (machineId : Id)
  | markRma (serial : String)
  | setLed (serial : String) (state : LedState)
  deriving DecidableEq

/-- How far a call is: what it does next. -/
inductive Phase
  /-- Record the date of the return. -/
  | recording
  /-- Tell the manager of it. -/
  | marking
  /-- Look up the machine on which a disk was seen. -/
  | finding (serial : String)
  /-- Read the records of the manager for a machine. -/
  | asked (machineId : Id)
  /-- Wait for `lsblk`. -/
  | enumerating (machineId : Id) (disks : HashMap String PhysicalDisk)
  /-- Put the marks of the manager on the disks. -/
  | overlaying (disks : HashMap String PhysicalDisk)
  /-- Go on with what the manager has listed. -/
  | answered (disks : List PhysicalDisk)
  /-- Wait for `ledctl`, with its argument. -/
  | lighting (arg : String)
  | listed (disks : List PhysicalDisk)
  | finished (r : Result Unit)

/-- A call, as far as it has come. -/
structure Task where
  call : Call
  phase : Phase

/-- Where a call starts. -/
def Call.start : Call → Phase
  | .list machineId => .asked machineId
  | .markRma _ => .recording
  | .setLed serial _ => .finding serial

/-- What a call returns for a disk of which nobody knows where it is. -/
def Call.lost : Call → Result Unit
  | .setLed serial _ => .error (.notFound ("disk serial `" ++ serial ++ "` location"))
  | _ => .ok ()

/-- What decides how a section ends: the clock, `lsblk`, the order of a hash map and `ledctl`. -/
structure Env where
  now : ℤ
  lsblk : Result String
  order : Arrangement PhysicalDisk
  ledctl : Result Unit

/-- Record that a disk is to be returned, unless it is recorded already. -/
def recordRma (records : HashMap String DiskRecord) (serial : String) (now : ℤ) :
    HashMap String DiskRecord :=
  let record := (records.lookup serial).getD ⟨serial, now, none, none⟩
  records.insert serial
    (if record.rmaDate = none then { record with rmaDate := some now } else record)

/-- The disks that `lsblk` finds; without `lsblk` there are none. -/
def liveDisks (lsblk : Result String) (machineId : Id) (now : ℤ) : List PhysicalDisk :=
  match lsblk with
  | .ok output => parseLsblkPairs output machineId now
  | .error _ => []

/-- Address the LED of a disk by its device. -/
def setLed (disk : PhysicalDisk) (state : LedState) : Phase :=
  if disk.devPath = "" then
    .finished (.error (.invalidArgument
      ("disk serial `" ++ disk.serial ++ "` has no device path to address its LED")))
  else .lighting (state.ibpi ++ "=" ++ disk.devPath)

/-- Set the LED of the disk with a serial among those that were listed. -/
def setLedOf (call : Call) (serial : String) (state : LedState) (disks : List PhysicalDisk) : Phase :=
  match disks.find? fun d => d.serial = serial with
  | some disk => setLed disk state
  | none => .finished call.lost

/-- One section of a call. -/
def Task.next (env : Env) (service : DiskService) : Task → Option (Phase × DiskService)
  | ⟨.markRma serial, .recording⟩ =>
    some (.marking, { service with records := recordRma service.records serial env.now })
  | ⟨.markRma serial, .marking⟩ =>
    some (.finding serial, { service with manager := service.manager.markRma serial env.now })
  | ⟨call, .finding serial⟩ =>
    match lastMachine service.records serial with
    | some machineId => some (.asked machineId, service)
    | none => some (.finished call.lost, service)
  | ⟨_, .asked machineId⟩ =>
    some (.enumerating machineId (service.manager.tracked machineId), service)
  | ⟨_, .enumerating machineId disks⟩ =>
    some (.overlaying ((liveDisks env.lsblk machineId env.now).foldl addLive disks), service)
  | ⟨_, .overlaying disks⟩ =>
    some (.answered (env.order.list (HashMap.values
      (HashMap.mapVal (fun _ => service.manager.overlay) disks))), service)
  | ⟨.list _, .answered disks⟩ =>
    let (disks, records) := stampAll disks service.records
    some (.listed disks, { service with records })
  | ⟨.markRma serial, .answered disks⟩ =>
    some (setLedOf (.markRma serial) serial .fault disks, service)
  | ⟨.setLed serial state, .answered disks⟩ =>
    some (setLedOf (.setLed serial state) serial state disks, service)
  | ⟨_, .lighting _⟩ => some (.finished env.ledctl, service)
  | _ => none

/-! ## The system -/

/-- The service with its calls. -/
structure System where
  service : DiskService
  tasks : List Task

/-- A new call, or a call going on to its next await. -/
inductive Action
  | call (c : Call)
  | go (i : ℕ) (env : Env)

/-- One action. -/
def step (s : System) : Action → Option System
  | .call c => some { s with tasks := s.tasks ++ [⟨c, c.start⟩] }
  | .go i env => do
    let task ← s.tasks[i]?
    let (phase, service) ← task.next env s.service
    pure ⟨service, s.tasks.set i ⟨task.call, phase⟩⟩

/-- A listing that nothing interrupts is the one of the service. -/
theorem run_listing (service : DiskService) (machineId : Id) (env : Env) :
    ∃ disks service', service.list machineId env.lsblk env.now env.order = (.ok disks, service') ∧
      run step ⟨service, []⟩ (.call (.list machineId) :: List.replicate 4 (.go 0 env)) =
        some ⟨service', [⟨.list machineId, .listed disks⟩]⟩ :=
  ⟨_, _, rfl, rfl⟩

/-- A step starts a call or takes a section of a task. -/
theorem step_cases {s s' : System} {a : Action} (h : step s a = some s') :
    (∃ c, s' = { s with tasks := s.tasks ++ [⟨c, c.start⟩] }) ∨
    (∃ i env task phase service, s.tasks[i]? = some task ∧
      task.next env s.service = some (phase, service) ∧
      s' = ⟨service, s.tasks.set i ⟨task.call, phase⟩⟩) := by
  cases a with
  | call c => exact .inl ⟨c, (Option.some.inj h).symm⟩
  | go i env =>
    obtain ⟨task, htask, h⟩ := Option.bind_eq_some_iff.1 h
    obtain ⟨⟨phase, service⟩, hnext, h⟩ := Option.bind_eq_some_iff.1 h
    exact .inr ⟨i, env, task, phase, service, htask, hnext, (Option.some.inj h).symm⟩

/-! ## What is kept -/

/-- The return mark of a serial. -/
def SysfsDiskManager.rmaDate (mgr : SysfsDiskManager) (serial : String) : Option ℤ :=
  (mgr.disks.lookup serial).bind PhysicalDisk.rmaDate

/-- Records grow older and keep their mark. -/
def RecordsKept (a b : HashMap String DiskRecord) : Prop :=
  ∀ serial r, a.lookup serial = some r → ∃ r', b.lookup serial = some r' ∧
    r'.firstSeen ≤ r.firstSeen ∧ ∀ date, r.rmaDate = some date → r'.rmaDate = some date

theorem RecordsKept.refl (a : HashMap String DiskRecord) : RecordsKept a a :=
  fun _ r h => ⟨r, h, le_rfl, fun _ hdate => hdate⟩

theorem RecordsKept.trans {a b c : HashMap String DiskRecord} (hab : RecordsKept a b)
    (hbc : RecordsKept b c) : RecordsKept a c := by
  intro serial r h
  obtain ⟨r', h', hseen', hdate'⟩ := hab serial r h
  obtain ⟨r'', h'', hseen'', hdate''⟩ := hbc serial r' h'
  exact ⟨r'', h'', hseen''.trans hseen', fun date hdate => hdate'' date (hdate' date hdate)⟩

/-- A new record for one serial, older than the one before and with its mark. -/
theorem RecordsKept.insert {a : HashMap String DiskRecord} {serial : String} {r' : DiskRecord}
    (h : ∀ r, a.lookup serial = some r →
      r'.firstSeen ≤ r.firstSeen ∧ ∀ date, r.rmaDate = some date → r'.rmaDate = some date) :
    RecordsKept a (a.insert serial r') := by
  intro serial' r hr
  rw [HashMap.lookup_insert_eq]
  split_ifs with hs
  · obtain rfl := hs
    exact ⟨r', rfl, h r hr⟩
  · exact ⟨r, hr, le_rfl, fun _ hdate => hdate⟩

theorem recordsKept_recordRma (records : HashMap String DiskRecord) (serial : String) (now : ℤ) :
    RecordsKept records (recordRma records serial now) := by
  refine .insert fun r hr => ?_
  simp only [hr, Option.getD_some]
  split_ifs with hnone
  · exact ⟨le_rfl, by simp [hnone]⟩
  · exact ⟨le_rfl, fun _ hdate => hdate⟩

/-- After a disk is marked its record has a date. -/
theorem lookup_recordRma (records : HashMap String DiskRecord) (serial : String) (now : ℤ) :
    ∃ r, (recordRma records serial now).lookup serial = some r ∧ r.rmaDate.isSome := by
  refine ⟨_, (HashMap.lookup_insert_eq ..).trans (if_pos rfl), ?_⟩
  split_ifs with hnone
  · rfl
  · exact Option.isSome_iff_ne_none.2 hnone

/-- A disk as it is stamped, and its record. -/
theorem stamp_spec (records : HashMap String DiskRecord) (disk : PhysicalDisk) :
    ∃ r, (stamp records disk).2 = records.insert disk.serial r ∧
      (stamp records disk).1.serial = disk.serial ∧
      (stamp records disk).1.firstSeen = r.firstSeen ∧
      (stamp records disk).1.rmaDate = disk.rmaDate.or r.rmaDate ∧
      ∀ r₀, records.lookup disk.serial = some r₀ →
        r.firstSeen ≤ r₀.firstSeen ∧ r.rmaDate = r₀.rmaDate := by
  refine ⟨_, rfl, rfl, rfl, ?_, ?_⟩
  · cases hdate : disk.rmaDate <;> simp [stamp, hdate]
  · intro r₀ h₀
    simp only [h₀, Option.getD_some]
    rw [and_true]
    split_ifs with hlt
    · exact hlt.le
    · exact le_rfl

theorem recordsKept_stamp (records : HashMap String DiskRecord) (disk : PhysicalDisk) :
    RecordsKept records (stamp records disk).2 := by
  obtain ⟨r, hr, -, -, -, hkept⟩ := stamp_spec records disk
  rw [hr]
  refine .insert fun r₀ h₀ => ?_
  obtain ⟨hseen, hdate⟩ := hkept r₀ h₀
  exact ⟨hseen, fun date h => hdate.trans h⟩

theorem recordsKept_stampAll (disks : List PhysicalDisk) (records : HashMap String DiskRecord) :
    RecordsKept records (stampAll disks records).2 := by
  induction disks generalizing records with
  | nil => exact .refl records
  | cons disk disks ih => exact (recordsKept_stamp records disk).trans (ih _)

/-- A disk of a listing comes from the manager. It is as old as any record of its serial was, its
record is as old from then on, and its mark is that of the manager or else that of the record. -/
theorem mem_stampAll {disks : List PhysicalDisk} {records : HashMap String DiskRecord}
    {d' : PhysicalDisk} (h : d' ∈ (stampAll disks records).1) :
    ∃ d ∈ disks, d'.serial = d.serial ∧ (∀ date, d.rmaDate = some date → d'.rmaDate = some date) ∧
      (∀ r, records.lookup d.serial = some r →
        d'.firstSeen ≤ r.firstSeen ∧ (r.rmaDate.isSome → d'.rmaDate.isSome)) ∧
      ∃ r, (stampAll disks records).2.lookup d.serial = some r ∧ r.firstSeen ≤ d'.firstSeen ∧
        (d'.rmaDate.isSome → d.rmaDate.isSome ∨ r.rmaDate.isSome) := by
  induction disks generalizing records with
  | nil => cases h
  | cons disk disks ih =>
    have hcons : (stampAll (disk :: disks) records).1 =
        (stamp records disk).1 :: (stampAll disks (stamp records disk).2).1 := rfl
    rw [hcons] at h
    rcases List.mem_cons.1 h with rfl | h
    · obtain ⟨r, hr, hserial, hseen, hdate, hkept⟩ := stamp_spec records disk
      refine ⟨disk, List.mem_cons_self .., hserial, ?_, ?_, ?_⟩
      · intro date h
        rw [hdate, h, Option.some_or]
      · intro r₀ h₀
        obtain ⟨hle, hrma⟩ := hkept r₀ h₀
        refine ⟨hseen.trans_le hle, fun hsome => ?_⟩
        rw [hdate, hrma, Option.isSome_or, hsome, Bool.or_true]
      · have hlookup : (stamp records disk).2.lookup disk.serial = some r := by
          rw [hr, HashMap.lookup_insert_eq, if_pos rfl]
        obtain ⟨r', hr', hle, hrma⟩ := recordsKept_stampAll disks _ disk.serial r hlookup
        refine ⟨r', hr', hle.trans_eq hseen.symm, ?_⟩
        rw [hdate, Option.isSome_or, Bool.or_eq_true]
        refine Or.imp_right fun hsome => ?_
        obtain ⟨date, hsome⟩ := Option.isSome_iff_exists.1 hsome
        exact Option.isSome_of_eq_some (hrma date hsome)
    · obtain ⟨d, hd, hserial, hmark, hold, hnew⟩ := ih h
      refine ⟨d, List.mem_cons_of_mem _ hd, hserial, hmark, ?_, hnew⟩
      intro r hr
      obtain ⟨r', hr', hle, hrma⟩ := recordsKept_stamp records disk d.serial r hr
      obtain ⟨hseen, hsome⟩ := hold r' hr'
      refine ⟨hseen.trans hle, fun h => hsome ?_⟩
      obtain ⟨date, hdate⟩ := Option.isSome_iff_exists.1 h
      exact Option.isSome_of_eq_some (hrma date hdate)

section Manager

variable (mgr : SysfsDiskManager)

theorem disks_markRma (serial : String) (now : ℤ) :
    ∃ d, (mgr.markRma serial now).disks = mgr.disks.insert serial d ∧
      d.rmaDate = (mgr.rmaDate serial).or (some now) := by
  have hdate : mgr.rmaDate serial =
      ((mgr.disks.lookup serial).getD (PhysicalDisk.new ⟨""⟩ serial now)).rmaDate := by
    rw [SysfsDiskManager.rmaDate]
    cases mgr.disks.lookup serial <;> rfl
  rw [SysfsDiskManager.markRma, hdate]
  split_ifs with hnone
  · exact ⟨_, rfl, by simp [hnone]⟩
  · obtain ⟨date, h⟩ := Option.ne_none_iff_exists'.1 hnone
    exact ⟨_, rfl, by rw [h, Option.some_or]⟩

theorem rmaDate_markRma (serial serial' : String) (now : ℤ) :
    (mgr.markRma serial now).rmaDate serial' =
      if serial' = serial then (mgr.rmaDate serial).or (some now) else mgr.rmaDate serial' := by
  obtain ⟨d, hdisks, hdate⟩ := disks_markRma mgr serial now
  rw [SysfsDiskManager.rmaDate, hdisks, HashMap.lookup_insert_eq]
  split_ifs with hs
  · exact hdate
  · rfl

@[simp] theorem overlay_serial (d : PhysicalDisk) : (mgr.overlay d).serial = d.serial :=
  congrArg (fun p => p.2.1) (mgr.place_overlay d)

/-- The manager puts its mark on a disk that has none. -/
theorem overlay_rmaDate (d : PhysicalDisk) :
    (mgr.overlay d).rmaDate = d.rmaDate.or (mgr.rmaDate d.serial) := by
  rw [overlay, SysfsDiskManager.rmaDate]
  cases hmark : (mgr.disks.lookup d.serial).bind PhysicalDisk.rmaDate with
  | none => simp
  | some date => cases hdate : d.rmaDate <;> simp [hdate]

theorem rmaDate_of_mem_tracked {machineId : Id} {d : PhysicalDisk}
    (h : d ∈ HashMap.values (mgr.tracked machineId)) : mgr.rmaDate d.serial = d.rmaDate := by
  obtain ⟨serial, hlookup⟩ := HashMap.mem_values.1 h
  rw [lookup_tracked] at hlookup
  obtain ⟨hd, -⟩ := Option.filter_eq_some_iff.1 hlookup
  rw [SysfsDiskManager.rmaDate, mgr.keyed serial d hd, hd]
  rfl

end Manager

/-- A disk that was found just now has no mark. -/
theorem rmaDate_of_mem_liveDisks {lsblk : Result String} {machineId : Id} {now : ℤ}
    {d : PhysicalDisk} (h : d ∈ liveDisks lsblk machineId now) : d.rmaDate = none := by
  unfold liveDisks at h
  split at h
  · obtain ⟨line, -, hline⟩ := List.mem_filterMap.1 h
    rw [parseLsblkLine] at hline
    split_ifs at hline
    obtain rfl := Option.some.inj hline
    rfl
  · cases h

theorem mem_values_foldl_addLive {live : List PhysicalDisk} {m : HashMap String PhysicalDisk}
    {d : PhysicalDisk} (h : d ∈ HashMap.values (live.foldl addLive m)) :
    d ∈ HashMap.values m ∨ d ∈ live := by
  obtain ⟨serial, hlookup⟩ := HashMap.mem_values.1 h
  rw [lookup_foldl_addLive] at hlookup
  rcases Option.or_eq_some_iff.1 hlookup with hm | ⟨-, hlive⟩
  · exact .inl (HashMap.mem_values.2 ⟨serial, hm⟩)
  · exact .inr (List.mem_of_find?_eq_some hlive)

/-! ## How a task goes on -/

/-- The ways in which a task goes on: its phase and the service after it. -/
inductive Advances (service : DiskService) : Call → Phase → Phase → DiskService → Prop
  | record {serial now} : Advances service (.markRma serial) .recording .marking
      { service with records := recordRma service.records serial now }
  | mark {serial now} : Advances service (.markRma serial) .marking (.finding serial)
      { service with manager := service.manager.markRma serial now }
  | find {call serial machineId} : Advances service call (.finding serial) (.asked machineId) service
  | lose {call serial r} : Advances service call (.finding serial) (.finished r) service
  | track {call machineId} : Advances service call (.asked machineId)
      (.enumerating machineId (service.manager.tracked machineId)) service
  | enumerate {call machineId disks} {live : List PhysicalDisk} : (∀ d ∈ live, d.rmaDate = none) →
      Advances service call (.enumerating machineId disks) (.overlaying (live.foldl addLive disks))
        service
  | overlay {call disks answer} : (∀ d' ∈ answer, ∃ d ∈ HashMap.values disks,
      d' = service.manager.overlay d) →
      Advances service call (.overlaying disks) (.answered answer) service
  | stamp {machineId disks} : Advances service (.list machineId) (.answered disks)
      (.listed (stampAll disks service.records).1)
      { service with records := (stampAll disks service.records).2 }
  | light {call disks arg} : Advances service call (.answered disks) (.lighting arg) service
  | miss {call disks r} : Advances service call (.answered disks) (.finished r) service
  | finish {call arg r} : Advances service call (.lighting arg) (.finished r) service

theorem advances_setLedOf (service : DiskService) (call call' : Call) (serial : String)
    (state : LedState) (disks : List PhysicalDisk) :
    Advances service call (.answered disks) (setLedOf call' serial state disks) service := by
  rw [setLedOf]
  split
  · rw [setLed]
    split_ifs
    · exact .miss
    · exact .light
  · exact .miss

theorem advances_of_next {env : Env} {service service' : DiskService} {task : Task} {phase : Phase}
    (h : task.next env service = some (phase, service')) :
    Advances service task.call task.phase phase service' := by
  unfold Task.next at h
  split at h
  · obtain ⟨rfl, rfl⟩ := Prod.mk.inj (Option.some.inj h)
    exact .record
  · obtain ⟨rfl, rfl⟩ := Prod.mk.inj (Option.some.inj h)
    exact .mark
  · split at h <;> obtain ⟨rfl, rfl⟩ := Prod.mk.inj (Option.some.inj h)
    next => exact .find
    next => exact .lose
  · obtain ⟨rfl, rfl⟩ := Prod.mk.inj (Option.some.inj h)
    exact .track
  · obtain ⟨rfl, rfl⟩ := Prod.mk.inj (Option.some.inj h)
    exact .enumerate fun d hd => rmaDate_of_mem_liveDisks hd
  · obtain ⟨rfl, rfl⟩ := Prod.mk.inj (Option.some.inj h)
    refine .overlay fun d' hd' => ?_
    obtain ⟨serial, hlookup⟩ := HashMap.mem_values.1 ((env.order.perm _).mem_iff.1 hd')
    rw [HashMap.lookup_mapVal] at hlookup
    obtain ⟨d, hd, rfl⟩ := Option.map_eq_some_iff.1 hlookup
    exact ⟨d, HashMap.mem_values.2 ⟨serial, hd⟩, rfl⟩
  · obtain ⟨rfl, rfl⟩ := Prod.mk.inj (Option.some.inj h)
    exact .stamp
  · obtain ⟨rfl, rfl⟩ := Prod.mk.inj (Option.some.inj h)
    exact advances_setLedOf ..
  · obtain ⟨rfl, rfl⟩ := Prod.mk.inj (Option.some.inj h)
    exact advances_setLedOf ..
  · obtain ⟨rfl, rfl⟩ := Prod.mk.inj (Option.some.inj h)
    exact .finish
  · cases h

/-- What a service keeps: its records and the marks of its manager. -/
structure Kept (a b : DiskService) : Prop where
  records : RecordsKept a.records b.records
  marks : ∀ serial date, a.manager.rmaDate serial = some date → b.manager.rmaDate serial = some date

theorem Kept.refl (a : DiskService) : Kept a a := ⟨.refl _, fun _ _ h => h⟩

theorem Kept.trans {a b c : DiskService} (hab : Kept a b) (hbc : Kept b c) : Kept a c :=
  ⟨hab.records.trans hbc.records, fun serial date h => hbc.marks serial date (hab.marks serial date h)⟩

theorem Kept.isSome {a b : DiskService} (h : Kept a b) {serial : String}
    (hsome : (a.manager.rmaDate serial).isSome) : (b.manager.rmaDate serial).isSome := by
  obtain ⟨date, hdate⟩ := Option.isSome_iff_exists.1 hsome
  exact Option.isSome_of_eq_some (h.marks serial date hdate)

theorem Advances.kept {service service' : DiskService} {call : Call} {phase phase' : Phase}
    (h : Advances service call phase phase' service') : Kept service service' := by
  cases h with
  | record => exact ⟨recordsKept_recordRma _ _ _, fun _ _ h => h⟩
  | @mark serial now =>
    refine ⟨.refl _, fun serial' date h => ?_⟩
    rw [rmaDate_markRma]
    split_ifs with hs
    · rw [← hs, h, Option.some_or]
    · exact h
  | stamp => exact ⟨recordsKept_stampAll _ _, fun _ _ h => h⟩
  | _ => exact .refl _

/-! ## The invariant -/

/-- The service has the date of a return. -/
def Dated (service : DiskService) (serial : String) : Prop :=
  ∃ r, service.records.lookup serial = some r ∧ r.rmaDate.isSome

theorem Dated.mono {a b : DiskService} {serial : String} (h : Dated a serial) (hkept : Kept a b) :
    Dated b serial := by
  obtain ⟨r, hr, hsome⟩ := h
  obtain ⟨r', hr', -, hdate⟩ := hkept.records serial r hr
  obtain ⟨date, hsome⟩ := Option.isSome_iff_exists.1 hsome
  exact ⟨r', hr', Option.isSome_of_eq_some (hdate date hsome)⟩

/-- The manager knows of the return that a call is for. -/
def Call.Marked (service : DiskService) (call : Call) : Prop :=
  ∀ serial, call = .markRma serial → (service.manager.rmaDate serial).isSome

/-- Disks bear no mark but that of the manager. -/
def Bear (service : DiskService) (disks : List PhysicalDisk) : Prop :=
  ∀ d ∈ disks, ∀ date, d.rmaDate = some date → service.manager.rmaDate d.serial = some date

/-- Disks bear the marks that there were at the start. -/
def Overlaid (start : DiskService) (disks : List PhysicalDisk) : Prop :=
  ∀ d ∈ disks, (start.manager.rmaDate d.serial).isSome → d.rmaDate.isSome

/-- What a listing shows is in the records: they are as old, and they have the marks that the
manager did not have at the start. -/
def Recorded (start service : DiskService) (disks : List PhysicalDisk) : Prop :=
  ∀ d ∈ disks, ∃ r, service.records.lookup d.serial = some r ∧ r.firstSeen ≤ d.firstSeen ∧
    (d.rmaDate.isSome → (start.manager.rmaDate d.serial).isSome ∨ r.rmaDate.isSome)

/-- What holds of a call in each phase, in a system that started from `start`. -/
def Phase.Sound (start service : DiskService) (call : Call) : Phase → Prop
  | .recording => True
  | .marking => ∀ serial, call = .markRma serial → Dated service serial
  | .finding _ => call.Marked service
  | .asked _ => call.Marked service
  | .enumerating _ disks => call.Marked service ∧ Bear service (HashMap.values disks)
  | .overlaying disks => call.Marked service ∧ Bear service (HashMap.values disks)
  | .answered disks => call.Marked service ∧ Bear service disks ∧ Overlaid start disks
  | .lighting _ => call.Marked service
  | .listed disks => Overlaid start disks ∧ Recorded start service disks
  | .finished _ => call.Marked service

/-- The marks of the manager were there at the start, or the service knows their date. -/
structure ServiceSound (start service : DiskService) : Prop where
  kept : Kept start service
  dated : ∀ serial, (service.manager.rmaDate serial).isSome →
    (start.manager.rmaDate serial).isSome ∨ Dated service serial

theorem Call.Marked.mono {a b : DiskService} {call : Call} (h : call.Marked a) (hkept : Kept a b) :
    call.Marked b :=
  fun serial hcall => hkept.isSome (h serial hcall)

theorem Bear.mono {a b : DiskService} {disks : List PhysicalDisk} (h : Bear a disks)
    (hkept : Kept a b) : Bear b disks :=
  fun d hd date hdate => hkept.marks d.serial date (h d hd date hdate)

theorem Recorded.mono {start a b : DiskService} {disks : List PhysicalDisk}
    (h : Recorded start a disks) (hkept : Kept a b) : Recorded start b disks := by
  intro d hd
  obtain ⟨r, hr, hseen, hsome⟩ := h d hd
  obtain ⟨r', hr', hseen', hdate⟩ := hkept.records d.serial r hr
  refine ⟨r', hr', hseen'.trans hseen, fun h => (hsome h).imp_right fun hr => ?_⟩
  obtain ⟨date, hr⟩ := Option.isSome_iff_exists.1 hr
  exact Option.isSome_of_eq_some (hdate date hr)

/-- What the other tasks do leaves a task sound. -/
theorem Phase.Sound.mono {start a b : DiskService} {call : Call} {phase : Phase}
    (h : phase.Sound start a call) (hkept : Kept a b) : phase.Sound start b call := by
  cases phase with
  | recording => trivial
  | marking => exact fun serial hcall => (h serial hcall).mono hkept
  | finding | asked | lighting | finished => exact Call.Marked.mono h hkept
  | enumerating | overlaying => exact ⟨h.1.mono hkept, h.2.mono hkept⟩
  | answered => exact ⟨h.1.mono hkept, h.2.1.mono hkept, h.2.2⟩
  | listed => exact ⟨h.1, h.2.mono hkept⟩

theorem Call.sound_start (start service : DiskService) (call : Call) :
    call.start.Sound start service call := by
  cases call with
  | list machineId => exact fun serial h => by cases h
  | markRma serial => trivial
  | setLed serial state => exact fun serial h => by cases h

theorem ServiceSound.advance {start service service' : DiskService} {call : Call}
    {phase phase' : Phase} (hs : ServiceSound start service) (hp : phase.Sound start service call)
    (h : Advances service call phase phase' service') : ServiceSound start service' := by
  have hkept := h.kept
  refine ⟨hs.kept.trans hkept, ?_⟩
  cases h with
  | record => exact fun serial hsome => (hs.dated serial hsome).imp_right fun hd => hd.mono hkept
  | @mark marked now =>
    intro serial hsome
    rw [rmaDate_markRma] at hsome
    split_ifs at hsome with hserial
    · -- the call has recorded the date before
      exact .inr (hserial ▸ hp marked rfl)
    · exact hs.dated serial hsome
  | stamp => exact fun serial hsome => (hs.dated serial hsome).imp_right fun hd => hd.mono hkept
  | _ => exact hs.dated

/-- A task stays sound when it goes on. -/
theorem Phase.Sound.advance {start service service' : DiskService} {call : Call}
    {phase phase' : Phase} (hs : ServiceSound start service) (hp : phase.Sound start service call)
    (h : Advances service call phase phase' service') : phase'.Sound start service' call := by
  have hkept := h.kept
  cases h with
  | @record serial now =>
    rintro _ ⟨⟩
    exact lookup_recordRma service.records serial now
  | @mark serial now =>
    rintro _ ⟨⟩
    rw [rmaDate_markRma, if_pos rfl, Option.isSome_or, Option.isSome_some, Bool.or_true]
  | find => exact hp
  | lose => exact hp
  | track =>
    exact ⟨hp, fun d hd date hdate => (rmaDate_of_mem_tracked service.manager hd).trans hdate⟩
  | enumerate hlive =>
    refine ⟨hp.1, fun d hd date hdate => ?_⟩
    rcases mem_values_foldl_addLive hd with hd | hd
    · exact hp.2 d hd date hdate
    · rw [hlive d hd] at hdate
      cases hdate
  | overlay hanswer =>
    refine ⟨hp.1, fun d' hd' date hdate => ?_, fun d' hd' hsome => ?_⟩
    · obtain ⟨d, hd, rfl⟩ := hanswer d' hd'
      rw [overlay_rmaDate] at hdate
      rw [overlay_serial]
      rcases Option.or_eq_some_iff.1 hdate with hdate | ⟨-, hdate⟩
      · exact hp.2 d hd date hdate
      · exact hdate
    · obtain ⟨d, hd, rfl⟩ := hanswer d' hd'
      rw [overlay_serial] at hsome
      rw [overlay_rmaDate, Option.isSome_or, hs.kept.isSome hsome, Bool.or_true]
  | @stamp machineId disks =>
    refine ⟨fun d' hd' hsome => ?_, fun d' hd' => ?_⟩
    · obtain ⟨d, hd, hserial, hmark, -, -⟩ := mem_stampAll hd'
      obtain ⟨date, hdate⟩ := Option.isSome_iff_exists.1 (hp.2.2 d hd (hserial ▸ hsome))
      exact Option.isSome_of_eq_some (hmark date hdate)
    · obtain ⟨d, hd, hserial, -, -, r, hr, hseen, hsome⟩ := mem_stampAll hd'
      rw [hserial]
      refine ⟨r, hr, hseen, fun h => ?_⟩
      rcases hsome h with hdisk | hrecord
      · obtain ⟨date, hdate⟩ := Option.isSome_iff_exists.1 hdisk
        have hmanager := Option.isSome_of_eq_some (hp.2.1 d hd date hdate)
        rcases hs.dated d.serial hmanager with hstart | hdated
        · exact .inl hstart
        · obtain ⟨r', hr', hsome'⟩ := hdated.mono hkept
          obtain rfl := Option.some.inj (hr.symm.trans hr')
          exact .inr hsome'
      · exact .inr hrecord
  | light => exact hp.1
  | miss => exact hp.1
  | finish => exact hp

/-- The invariant rule for a property of the service and one of each task that the steps of the other
tasks leave. -/
theorem run_tasks {G : DiskService → Prop} {P : ℕ → Call → Phase → DiskService → Prop}
    (hcall : ∀ i call service, P i call call.start service)
    (hgo : ∀ i call phase phase' service service', G service → P i call phase service →
      Advances service call phase phase' service' → G service' ∧ P i call phase' service')
    (hmono : ∀ i call phase a b, Kept a b → P i call phase a → P i call phase b)
    {s s' : System} {as : List Action} (hr : run step s as = some s') (hG : G s.service)
    (hP : ∀ i t, s.tasks[i]? = some t → P i t.call t.phase s.service) :
    G s'.service ∧ ∀ i t, s'.tasks[i]? = some t → P i t.call t.phase s'.service := by
  refine run_invariant (I := fun s => G s.service ∧ ∀ i t, s.tasks[i]? = some t →
    P i t.call t.phase s.service) ?_ ⟨hG, hP⟩ hr
  rintro s a s' ⟨hG, hP⟩ hstep
  rcases step_cases hstep with ⟨c, rfl⟩ | ⟨i, env, task, phase, service, htask, hnext, rfl⟩
  · refine ⟨hG, fun j t hj => ?_⟩
    rw [List.getElem?_append] at hj
    split_ifs at hj with hlt
    · exact hP j t hj
    · obtain rfl := List.mem_singleton.1 (List.mem_of_getElem? hj)
      exact hcall j c s.service
  · have hadv := advances_of_next hnext
    obtain ⟨hG', hP'⟩ := hgo i task.call task.phase phase s.service service hG
      (hP i task htask) hadv
    refine ⟨hG', fun j t hj => ?_⟩
    rw [List.getElem?_set] at hj
    split_ifs at hj with hij hlt
    · obtain rfl := Option.some.inj hj
      exact hij ▸ hP'
    · exact hmono j t.call t.phase _ _ hadv.kept (hP j t hj)

/-! ## What the listings show -/

variable {service : DiskService} {s s₁ s₂ : System} {as as₁ as₂ : List Action}

/-- Every state of a run that starts without calls is sound. -/
theorem sound_of_run (h : run step ⟨service, []⟩ as = some s) :
    ServiceSound service s.service ∧
      ∀ (i : ℕ) t, s.tasks[i]? = some t → t.phase.Sound service s.service t.call := by
  refine run_tasks (P := fun _ call phase current => phase.Sound service current call)
    (fun _ call current => call.sound_start service current) ?_ ?_ h ?_ ?_
  · exact fun _ _ _ _ _ _ hs hp hadv => ⟨hs.advance hp hadv, hp.advance hs hadv⟩
  · exact fun _ _ _ _ _ hkept hp => hp.mono hkept
  · exact ⟨.refl _, fun _ hsome => .inl hsome⟩
  · exact fun i t ht => by simp at ht

/-- A listing that is stamped after `s₁` shows what is recorded in `s₁`. -/
theorem listed_after (h : run step s₁ as = some s) {j : ℕ} {call : Call}
    {disks : List PhysicalDisk} (hj : s.tasks[j]? = some ⟨call, .listed disks⟩)
    (hlater : s₁.tasks[j]? ≠ s.tasks[j]?) {d : PhysicalDisk} (hd : d ∈ disks) {r : DiskRecord}
    (hr : s₁.service.records.lookup d.serial = some r) :
    d.firstSeen ≤ r.firstSeen ∧ (r.rmaDate.isSome → d.rmaDate.isSome) := by
  have hinv := run_tasks (G := Kept s₁.service)
    (P := fun i call phase _ => ∀ disks, phase = .listed disks → s₁.tasks[i]? = some ⟨call, phase⟩ ∨
      ∀ d ∈ disks, ∀ r, s₁.service.records.lookup d.serial = some r →
        d.firstSeen ≤ r.firstSeen ∧ (r.rmaDate.isSome → d.rmaDate.isSome))
    ?_ ?_ (fun _ _ _ _ _ _ hp => hp) h (.refl _) (fun i t ht disks hphase => .inl ht)
  · rcases hinv.2 j _ hj disks rfl with hbefore | hshown
    · exact absurd (hbefore.trans hj.symm) hlater
    · exact hshown d hd r hr
  · intro i call current disks hphase
    cases call <;> cases hphase
  · intro i call phase phase' current current' hkept hp hadv
    refine ⟨hkept.trans hadv.kept, ?_⟩
    rintro disks rfl
    cases hadv with
    | stamp =>
      refine .inr fun d' hd' r hr => ?_
      obtain ⟨d, hd, hserial, -, hold, -⟩ := mem_stampAll hd'
      rw [hserial] at hr
      obtain ⟨r', hr', hseen, hdate⟩ := hkept.records d.serial r hr
      obtain ⟨hseen', hsome⟩ := hold r' hr'
      refine ⟨hseen'.trans hseen, fun h => hsome ?_⟩
      obtain ⟨date, h⟩ := Option.isSome_iff_exists.1 h
      exact Option.isSome_of_eq_some (hdate date h)

/-- **The history of a serial is not forgotten.** Of two listings that show a serial, the one that is
stamped later does not show it younger, and shows a return mark if the other one does. -/
theorem history_of_later_listing (h₁ : run step ⟨service, []⟩ as₁ = some s₁)
    (h₂ : run step s₁ as₂ = some s₂) {i j : ℕ} {call call' : Call}
    {disks disks' : List PhysicalDisk} (hi : s₁.tasks[i]? = some ⟨call, .listed disks⟩)
    (hj : s₂.tasks[j]? = some ⟨call', .listed disks'⟩) (hlater : s₁.tasks[j]? ≠ s₂.tasks[j]?)
    {d d' : PhysicalDisk} (hd : d ∈ disks) (hd' : d' ∈ disks') (hserial : d'.serial = d.serial) :
    d'.firstSeen ≤ d.firstSeen ∧ (d.rmaDate.isSome → d'.rmaDate.isSome) := by
  have h₁₂ : run step ⟨service, []⟩ (as₁ ++ as₂) = some s₂ := by
    rw [run_append, h₁]
    exact h₂
  obtain ⟨-, hrecorded⟩ := (sound_of_run h₁).2 i _ hi
  obtain ⟨hoverlaid, -⟩ := (sound_of_run h₁₂).2 j _ hj
  obtain ⟨r, hr, hseen, hsome⟩ := hrecorded d hd
  obtain ⟨hseen', hsome'⟩ := listed_after h₂ hj hlater hd' (hserial ▸ hr)
  refine ⟨hseen'.trans hseen, fun h => ?_⟩
  rcases hsome h with hstart | hrecord
  · exact hoverlaid d' hd' (hserial ▸ hstart)
  · exact hsome' hrecord

/-- A disk on `m1`, first seen at 5. -/
def baySix : PhysicalDisk := { PhysicalDisk.new ⟨"m1"⟩ "S6" 5 with devPath := "/dev/sdf" }

/-- A service that knows the disk of one bay. -/
def baySixService : DiskService := ⟨SysfsDiskManager.new.seed baySix, ∅⟩

/-- A host without `lsblk`, at a time. -/
def noLsblk (now : ℤ) : Env where
  now := now
  lsblk := .error (.provider "lsblk" "failed to spawn `lsblk`: No such file or directory")
  order := ⟨id, fun _ => .refl _⟩
  ledctl := .ok ()

/-- A listing that overtakes the call that marks the disk. -/
def overtaking : List Action :=
  [.call (.markRma "S6"), .go 0 (noLsblk 7), .call (.list ⟨"m1"⟩)] ++
    List.replicate 4 (.go 1 (noLsblk 8))

/-- The call that marks the disk ends, and the disks are listed again. -/
def relisting : List Action :=
  List.replicate 7 (.go 0 (noLsblk 9)) ++ .call (.list ⟨"m1"⟩) :: List.replicate 4 (.go 2 (noLsblk 9))

/-- The state after the first listing. -/
def overtaken : System := (run step ⟨baySixService, []⟩ overtaking).getD ⟨baySixService, []⟩

/-- The state after the second one. -/
def relisted : System := (run step overtaken relisting).getD overtaken

/-- Both listings show a mark; the first one has its date from the service, the second one from the
manager. -/
theorem history_of_later_listing_baySix : ∃ d d',
    overtaken.tasks[1]? = some ⟨.list ⟨"m1"⟩, .listed [d]⟩ ∧
    relisted.tasks[2]? = some ⟨.list ⟨"m1"⟩, .listed [d']⟩ ∧
    d.rmaDate = some 7 ∧ d'.rmaDate = some 9 ∧
    d'.firstSeen ≤ d.firstSeen ∧ (d.rmaDate.isSome → d'.rmaDate.isSome) := by
  have h₁ : run step ⟨baySixService, []⟩ overtaking = some overtaken := rfl
  have h₂ : run step overtaken relisting = some relisted := rfl
  have hi : overtaken.tasks[1]? =
      some ⟨.list ⟨"m1"⟩, .listed [{ baySix with rmaDate := some 7 }]⟩ := rfl
  have hj : relisted.tasks[2]? = some ⟨.list ⟨"m1"⟩,
      .listed [{ baySix with rmaDate := some 9, health := .failing }]⟩ := rfl
  have hlater : overtaken.tasks[2]? ≠ relisted.tasks[2]? := by
    have hnone : overtaken.tasks[2]? = none := rfl
    simp [hnone, hj]
  exact ⟨_, _, hi, hj, rfl, rfl, history_of_later_listing h₁ h₂ hi hj hlater
    (List.mem_singleton_self _) (List.mem_singleton_self _) rfl⟩

/-- The disks that the manager, or the service, hands out. -/
def Phase.shown : Phase → List PhysicalDisk
  | .answered disks => disks
  | .listed disks => disks
  | _ => []

/-- **The date of a return.** When the call that marks a disk has returned, even with an error, all
listings that are asked for from then on show one date for it. -/
theorem rmaDate_of_marked (h : run step ⟨service, []⟩ as = some s) {i : ℕ} {serial : String}
    {r : Result Unit} (hmark : s.tasks[i]? = some ⟨.markRma serial, .finished r⟩) :
    ∃ date, ∀ as' s', run step s as' = some s' → ∀ j ≥ s.tasks.length, ∀ call disks,
      s'.tasks[j]? = some ⟨call, .listed disks⟩ → ∀ d ∈ disks, d.serial = serial →
        d.rmaDate = some date := by
  obtain ⟨hs, hsound⟩ := sound_of_run h
  obtain ⟨date, hdate⟩ := Option.isSome_iff_exists.1 (hsound i _ hmark serial rfl)
  refine ⟨date, fun as' s' hrun j hj call disks hlisted d hd hserial => ?_⟩
  have hinv := run_tasks
    (G := fun current => ServiceSound service current ∧
      current.manager.rmaDate serial = some date)
    (P := fun i call phase current => phase.Sound service current call ∧
      (s.tasks.length ≤ i → ∀ d ∈ phase.shown, d.serial = serial → d.rmaDate = some date))
    ?_ ?_ (fun _ _ _ _ _ hkept hp => ⟨hp.1.mono hkept, hp.2⟩) hrun ⟨hs, hdate⟩ ?_
  · exact (hinv.2 j _ hlisted).2 hj d hd hserial
  · refine fun i call current => ⟨call.sound_start service current, fun _ d hd => ?_⟩
    cases call <;> cases hd
  · rintro i call phase phase' current current' ⟨hs, hdate⟩ ⟨hp, hshown⟩ hadv
    refine ⟨⟨hs.advance hp hadv, hadv.kept.marks serial date hdate⟩, hp.advance hs hadv, ?_⟩
    intro hi d' hd' hserial
    cases hadv with
    | overlay hanswer =>
      obtain ⟨d, hd, rfl⟩ := hanswer d' hd'
      rw [overlay_serial] at hserial
      rw [overlay_rmaDate, hserial, hdate]
      cases hold : d.rmaDate with
      | none => rfl
      | some date' =>
        -- an older copy of the mark is the same mark
        have hsame := (hserial ▸ hp.2 d hd date' hold).symm.trans hdate
        rw [hsame, Option.some_or]
    | stamp =>
      obtain ⟨d, hd, hs', hkeep, -⟩ := mem_stampAll hd'
      exact hkeep date (hshown hi d hd (hs' ▸ hserial))
    | _ => cases hd'
  · intro i t ht
    refine ⟨hsound i t ht, fun hi => ?_⟩
    exact absurd (List.getElem?_eq_some_iff.1 ht).1 hi.not_gt

/-- The call has returned, so that from now on the listings of the disk agree. -/
theorem rmaDate_of_marked_baySix : ∃ date, ∀ as' s', run step relisted as' = some s' →
    ∀ j ≥ 3, ∀ call disks, s'.tasks[j]? = some ⟨call, .listed disks⟩ →
      ∀ d ∈ disks, d.serial = "S6" → d.rmaDate = some date := by
  have h : run step ⟨baySixService, []⟩ (overtaking ++ relisting) = some relisted := rfl
  have hmark : relisted.tasks[0]? = some ⟨.markRma "S6", .finished (.ok ())⟩ := rfl
  exact rmaDate_of_marked h hmark

end OCF.Disks

import OCF.Runtime.Workload
import Mathlib.Logic.Function.Basic

/-!
# Runtime providers

The contract of a backend that runs workloads, over the state `σ` of the host: every operation
returns its result and the state it leaves behind. What no modelled function calls (status, host
pid, memory checkpoints) is left out.

`recorded` notes the calls that are made, `traced` also what comes of them. `keeping` is the provider
that stores what it is given and fails where it is told to: the reference against which the handling
of failures is judged.
-/

namespace OCF.Runtime

/-- A backend that runs workloads on a host with state `σ`. -/
structure RuntimeProvider (σ : Type*) where
  name : String
  kind : RuntimeKind
  /-- Provision a workload, without starting it. -/
  create : Workload → σ → Result Unit × σ
  start : Id → σ → Result Unit × σ
  /-- Stop a running workload, leaving it provisioned. -/
  stop : Id → σ → Result Unit × σ
  delete : Id → σ → Result Unit × σ
  list : σ → Result (List Workload) × σ

/-- A call to a provider. -/
inductive Call
  | create (w : Workload)
  | start (id : Id)
  | stop (id : Id)
  | delete (id : Id)
  | list
  deriving DecidableEq

namespace RuntimeProvider

variable {σ : Type*}

/-- The provider with its calls noted, the latest last. -/
def recorded (p : RuntimeProvider σ) : RuntimeProvider (σ × List (String × Call)) where
  name := p.name
  kind := p.kind
  create w s := let (r, t) := p.create w s.1; (r, t, s.2 ++ [(p.name, .create w)])
  start id s := let (r, t) := p.start id s.1; (r, t, s.2 ++ [(p.name, .start id)])
  stop id s := let (r, t) := p.stop id s.1; (r, t, s.2 ++ [(p.name, .stop id)])
  delete id s := let (r, t) := p.delete id s.1; (r, t, s.2 ++ [(p.name, .delete id)])
  list s := let (r, t) := p.list s.1; (r, t, s.2 ++ [(p.name, .list)])

end RuntimeProvider

/-- The workload a call is for. -/
def Call.workload : Call → Option Id
  | .create w => some w.metadata.id
  | .start id => some id
  | .stop id => some id
  | .delete id => some id
  | .list => none

/-- A call with what comes of it: the error, if there is one, and the workloads that a listing
lists. -/
structure Exchange where
  provider : ℕ
  call : Call
  error : Option Error
  listed : List Workload
  deriving DecidableEq

/-- The error of a result. -/
def errorOf {α : Type*} : Result α → Option Error
  | .error e => some e
  | .ok _ => none

namespace RuntimeProvider

variable {σ : Type*}

/-- The provider with its exchanges noted under its position, the latest last. -/
def traced (i : ℕ) (p : RuntimeProvider σ) : RuntimeProvider (σ × List Exchange) where
  name := p.name
  kind := p.kind
  create w s := let (r, t) := p.create w s.1; (r, t, s.2 ++ [⟨i, .create w, errorOf r, []⟩])
  start id s := let (r, t) := p.start id s.1; (r, t, s.2 ++ [⟨i, .start id, errorOf r, []⟩])
  stop id s := let (r, t) := p.stop id s.1; (r, t, s.2 ++ [⟨i, .stop id, errorOf r, []⟩])
  delete id s := let (r, t) := p.delete id s.1; (r, t, s.2 ++ [⟨i, .delete id, errorOf r, []⟩])
  list s := let (r, t) := p.list s.1; (r, t, s.2 ++ [⟨i, .list, errorOf r, r.toOption.getD []⟩])

/-- No listing of the provider has an id twice. -/
def UniqueIds (p : RuntimeProvider σ) : Prop :=
  ∀ s ws, (p.list s).1 = .ok ws → (ws.map fun w => w.metadata.id).Nodup

end RuntimeProvider

/-! ## A provider that keeps what it is given -/

/-- The workloads of one provider, each under its own id. -/
structure Kept where
  workloads : HashMap Id Workload
  keyed : ∀ id w, workloads.lookup id = some w → w.metadata.id = id

namespace Kept

/-- No workloads. -/
def empty : Kept := ⟨∅, by simp⟩

/-- Insert or replace a workload. -/
def put (k : Kept) (w : Workload) : Kept where
  workloads := k.workloads.insert w.metadata.id w
  keyed id v h := by
    rw [HashMap.lookup_insert_eq] at h
    split_ifs at h with hid
    · rw [hid, Option.some.inj h]
    · exact k.keyed id v h

/-- Remove a workload. -/
def erase (k : Kept) (id : Id) : Kept where
  workloads := k.workloads.erase id
  keyed x v h := by
    rw [HashMap.lookup_erase_eq] at h
    split_ifs at h
    exact k.keyed x v h

/-- The ids of the listed workloads are the keys. -/
theorem map_id_values (k : Kept) :
    (HashMap.values k.workloads).map (fun w => w.metadata.id) = k.workloads.keys := by
  rw [HashMap.values, List.map_map, AList.keys, List.keys]
  refine List.map_congr_left fun e he => ?_
  exact k.keyed e.1 e.2 (AList.mem_lookup_iff.2 he)

end Kept

/-- The operations that can be made to fail. -/
inductive Op
  | delete
  | create
  | start
  deriving DecidableEq

/-- Which calls of which provider fail, and with what. -/
abbrev Failures := String → Op → Id → Option Error

/-- What the providers of a host keep, by the name of the provider. -/
abbrev Hosted := String → Kept

/-- What a provider keeps under an id. -/
def Hosted.kept (s : Hosted) (k : String × Id) : Option Workload := (s k.1).workloads.lookup k.2

/-- Change one workload of a provider; there is an error when it has none with that id. -/
def Hosted.modify (s : Hosted) (name : String) (id : Id) (f : Workload → Kept → Kept) :
    Result Unit × Hosted :=
  match (s name).workloads.lookup id with
  | none => (.error (.notFound ("workload " ++ id.name)), s)
  | some w => (.ok (), Function.update s name (f w (s name)))

/-- The provider that keeps what it is given and fails as told; a call that fails changes
nothing. -/
def keeping (fails : Failures) (kind : RuntimeKind) (name : String) : RuntimeProvider Hosted where
  name := name
  kind := kind
  create w s :=
    match fails name .create w.metadata.id with
    | some e => (.error e, s)
    | none => (.ok (), Function.update s name ((s name).put w))
  start id s :=
    match fails name .start id with
    | some e => (.error e, s)
    | none => s.modify name id fun w k => k.put { w with state := .running }
  stop id s := s.modify name id fun w k => k.put { w with state := .stopped }
  delete id s :=
    match fails name .delete id with
    | some e => (.error e, s)
    | none => s.modify name id fun _ k => k.erase id
  list s := (.ok (HashMap.values (s name).workloads), s)

namespace Hosted

variable (s : Hosted)

theorem kept_update (k : String × Id) (name : String) (kept : Kept) :
    Hosted.kept (Function.update s name kept) k =
      if k.1 = name then kept.workloads.lookup k.2 else s.kept k := by
  unfold Hosted.kept
  rw [Function.update_apply]
  split_ifs <;> rfl

/-- What is kept after a workload is stored. -/
theorem kept_put (k : String × Id) (name : String) (w : Workload) :
    Hosted.kept (Function.update s name ((s name).put w)) k =
      if k = (name, w.metadata.id) then some w else s.kept k := by
  rw [kept_update]
  by_cases hn : k.1 = name
  · rw [if_pos hn, Kept.put, HashMap.lookup_insert_eq, ← hn]
    simp only [Prod.ext_iff, true_and]
    rfl
  · rw [if_neg hn, if_neg fun h => hn (congrArg Prod.fst h)]

/-- What is kept after a workload is removed. -/
theorem kept_erase (k : String × Id) (name : String) (id : Id) :
    Hosted.kept (Function.update s name ((s name).erase id)) k =
      if k = (name, id) then none else s.kept k := by
  rw [kept_update]
  by_cases hn : k.1 = name
  · rw [if_pos hn, Kept.erase, HashMap.lookup_erase_eq, ← hn]
    simp only [Prod.ext_iff, true_and]
    rfl
  · rw [if_neg hn, if_neg fun h => hn (congrArg Prod.fst h)]

end Hosted

section Keeping

variable {fails : Failures} (kind : RuntimeKind) {name : String} {s : Hosted}

theorem keeping_create_error {w : Workload} {e : Error}
    (h : fails name .create w.metadata.id = some e) :
    (keeping fails kind name).create w s = (.error e, s) := by
  simp [keeping, h]

theorem keeping_create_ok {w : Workload} (h : fails name .create w.metadata.id = none) :
    ∃ t, (keeping fails kind name).create w s = (.ok (), t) ∧
      ∀ k, t.kept k = if k = (name, w.metadata.id) then some w else s.kept k :=
  ⟨_, by simp [keeping, h], fun k => s.kept_put k name w⟩

theorem keeping_delete_error {id : Id} {e : Error} (h : fails name .delete id = some e) :
    (keeping fails kind name).delete id s = (.error e, s) := by
  simp [keeping, h]

theorem keeping_delete_ok {id : Id} {w : Workload} (h : fails name .delete id = none)
    (hw : s.kept (name, id) = some w) :
    ∃ t, (keeping fails kind name).delete id s = (.ok (), t) ∧
      ∀ k, t.kept k = if k = (name, id) then none else s.kept k := by
  have hw' : (s name).workloads.lookup id = some w := hw
  exact ⟨_, by simp [keeping, h, Hosted.modify, hw'], fun k => s.kept_erase k name id⟩

theorem keeping_start_error {id : Id} {e : Error} (h : fails name .start id = some e) :
    (keeping fails kind name).start id s = (.error e, s) := by
  simp [keeping, h]

theorem keeping_start_ok {id : Id} {w : Workload} (h : fails name .start id = none)
    (hw : s.kept (name, id) = some w) :
    ∃ t, (keeping fails kind name).start id s = (.ok (), t) ∧
      ∀ k, t.kept k = if k = (name, id) then some { w with state := .running } else s.kept k := by
  have hw' : (s name).workloads.lookup id = some w := hw
  refine ⟨Function.update s name ((s name).put { w with state := .running }),
    by simp [keeping, h, Hosted.modify, hw'], fun k => ?_⟩
  rw [s.kept_put k name, (s name).keyed id w hw']

theorem keeping_stop_ok {id : Id} {w : Workload} (hw : s.kept (name, id) = some w) :
    ((keeping fails kind name).stop id s).2.kept (name, id) = some { w with state := .stopped } := by
  have hw' : (s name).workloads.lookup id = some w := hw
  simp only [keeping, Hosted.modify, hw']
  rw [s.kept_put, (s name).keyed id w hw', if_pos rfl]

/-- Stopping a workload changes nothing but this workload. -/
theorem keeping_stop_kept (id : Id) {k : String × Id} (hk : k ≠ (name, id)) :
    ((keeping fails kind name).stop id s).2.kept k = s.kept k := by
  simp only [keeping, Hosted.modify]
  cases hw : (s name).workloads.lookup id with
  | none => rfl
  | some w =>
    refine (s.kept_put k name _).trans (if_neg ?_)
    rwa [(s name).keyed id w hw]

/-- A provider only changes what it keeps itself. -/
theorem Hosted.modify_other {m : String} (h : m ≠ name) (id : Id) (f : Workload → Kept → Kept) :
    (s.modify name id f).2 m = s m := by
  unfold Hosted.modify
  split
  · rfl
  · exact Function.update_of_ne h ..

variable (fails) in
theorem keeping_other {m : String} (h : m ≠ name) (w : Workload) (id : Id) :
    ((keeping fails kind name).create w s).2 m = s m ∧
      ((keeping fails kind name).start id s).2 m = s m ∧
      ((keeping fails kind name).stop id s).2 m = s m ∧
      ((keeping fails kind name).delete id s).2 m = s m := by
  simp only [keeping]
  refine ⟨?_, ?_, Hosted.modify_other h .., ?_⟩
  · split
    · rfl
    · exact Function.update_of_ne h ..
  · split
    · rfl
    · exact Hosted.modify_other h ..
  · split
    · rfl
    · exact Hosted.modify_other h ..

end Keeping

end OCF.Runtime

import OCF.Fabric.Membership
import OCF.Runtime.Command
import OCF.Topology.Store

/-!
# Rescheduling the workloads of a dead node

When a machine is declared dead, its highly available workloads are deleted and created again on an
alive machine that satisfies their constraints, and the others are stopped (`handleNodeDead`). The
workloads are what the providers list; the first call that fails ends the handling.

The providers that drive command-line tools list no placement, so nothing is ever rescheduled
through them: `never_recovers`.
-/

namespace OCF.Api

open OCF.Fabric OCF.Runtime OCF.Topology

/-! ## Placement -/

/-- The machine satisfies the workload's scope, its required labels and its resources. -/
def machineSatisfies (w : Workload) (m : Machine) : Bool :=
  w.permitsPlacement m.scope && m.metadata.matchesLabels w.nodeSelector &&
    w.resources.fitsIn m.capacity

/-- The first alive machine that satisfies the workload. -/
def pickTarget (w : Workload) (alive : List Id) (machines : List Machine) : Option Id :=
  alive.find? fun id => match machines.find? fun m => m.metadata.id = id with
    | none => false
    | some machine => machineSatisfies w machine

/-- The machines of the alive members, the dead one excepted. -/
def survivors (t : Membership) (dead : Id) : List Id :=
  (t.alive.filterMap fun n => n.machineId).filter fun id => id ≠ dead

theorem pickTarget_survivors_ne {w : Workload} {t : Membership} {dead target : Id}
    {machines : List Machine} (h : pickTarget w (survivors t dead) machines = some target) :
    target ≠ dead := by
  have hmem := List.mem_of_find?_eq_some h
  simpa using (List.mem_filter.1 hmem).2

/-! ## The loop -/

variable {σ α : Type*}

/-- Run a step for each element and collect what the steps report; the first failure ends the
loop. -/
def forEach (f : α → σ → Result (List String) × σ) : List α → σ → Result (List String) × σ
  | [], s => (.ok [], s)
  | a :: as, s =>
    match f a s with
    | (.error e, s) => (.error e, s)
    | (.ok moves, s) =>
      match forEach f as s with
      | (.error e, s) => (.error e, s)
      | (.ok rest, s) => (.ok (moves ++ rest), s)

/-- Re-place a workload: delete it, create it on the target and start it. -/
def reschedule (p : RuntimeProvider σ) (wl : Workload) (target : Id) (s : σ) : Result Unit × σ :=
  match p.delete wl.metadata.id s with
  | (.error e, s) => (.error e, s)
  | (.ok _, s) =>
    match p.create (wl.onNode target) s with
    | (.error e, s) => (.error e, s)
    | (.ok _, s) => p.start wl.metadata.id s

/-- Handle one listed workload. Workloads that are not highly available are lost with the node:
they are stopped, whatever comes of it. -/
def handleWorkload (dead : Id) (alive : List Id) (machines : List Machine) (p : RuntimeProvider σ)
    (wl : Workload) (s : σ) : Result (List String) × σ :=
  if wl.node ≠ some dead then (.ok [], s)
  else if wl.highlyAvailable then
    match pickTarget wl alive machines with
    | none => (.ok [], s)
    | some target =>
      match reschedule p wl target s with
      | (.error e, s) => (.error e, s)
      | (.ok _, s) => (.ok [wl.metadata.name ++ " -> " ++ target.name], s)
  else (.ok [], (p.stop wl.metadata.id s).2)

/-- Handle what a provider lists; a listing that fails counts as empty. -/
def handleProvider (dead : Id) (alive : List Id) (machines : List Machine) (p : RuntimeProvider σ)
    (s : σ) : Result (List String) × σ :=
  let (r, s) := p.list s
  forEach (handleWorkload dead alive machines p) (r.toOption.getD []) s

/-- Reschedule the dead machine's highly available workloads onto surviving machines and stop the
others. The result lists the moves. -/
def handleNodeDead (providers : List (RuntimeProvider σ)) (topology : InMemoryTopology)
    (t : Membership) (dead : Id) (s : σ) : Result (List String) × σ :=
  forEach (handleProvider dead (survivors t dead) topology.allMachines) providers s

/-- The state after a loop: that of the failing step, or that of the rest. -/
theorem forEach_cons_state (f : α → σ → Result (List String) × σ) (a : α) (as : List α) (s : σ) :
    (forEach f (a :: as) s).2 = match (f a s).1 with
      | .error _ => (f a s).2
      | .ok _ => (forEach f as (f a s).2).2 := by
  rw [forEach]
  rcases f a s with ⟨e | moves, t⟩
  · rfl
  · dsimp only
    rcases forEach f as t with ⟨e | rest, u⟩ <;> rfl

/-- What every step keeps, failing or not, the loop keeps. -/
theorem forEach_invariant {I : σ → Prop} {f : α → σ → Result (List String) × σ} {as : List α}
    (h : ∀ a ∈ as, ∀ s, I s → I (f a s).2) {s : σ} (hs : I s) : I (forEach f as s).2 := by
  induction as generalizing s with
  | nil => exact hs
  | cons a as ih =>
    have ha := h a (List.mem_cons_self ..) s hs
    rw [forEach_cons_state]
    split
    · exact ha
    · exact ih (fun b hb => h b (List.mem_cons_of_mem _ hb)) ha

/-- A loop all of whose steps succeed without a report leaves the state alone when they do. -/
theorem forEach_skip {f : α → σ → Result (List String) × σ} {as : List α}
    (h : ∀ a ∈ as, ∀ s, f a s = (.ok [], s)) (s : σ) : forEach f as s = (.ok [], s) := by
  induction as with
  | nil => rfl
  | cons a as ih =>
    rw [forEach, h a (List.mem_cons_self ..)]
    dsimp only
    rw [ih fun b hb => h b (List.mem_cons_of_mem _ hb)]
    rfl

/-- A loop over two lists one after the other. -/
theorem forEach_append (f : α → σ → Result (List String) × σ) (as bs : List α) (s : σ) :
    forEach f (as ++ bs) s = match forEach f as s with
      | (.error e, s) => (.error e, s)
      | (.ok moves, s) =>
        match forEach f bs s with
        | (.error e, s) => (.error e, s)
        | (.ok rest, s) => (.ok (moves ++ rest), s) := by
  induction as generalizing s with
  | nil =>
    rw [List.nil_append, forEach]
    dsimp only
    rcases forEach f bs s with ⟨e | rest, t⟩ <;> rfl
  | cons a as ih =>
    rw [List.cons_append, forEach, forEach]
    rcases f a s with ⟨e | moves, t⟩
    · rfl
    · dsimp only
      rw [ih]
      rcases forEach f as t with ⟨e | ms, u⟩
      · rfl
      · dsimp only
        rcases forEach f bs u with ⟨e | rest, v⟩
        · rfl
        · simp

/-! ## Command-line providers -/

/-- The workload is deleted and then created again on the target. -/
def Replaced (calls : List (String × Call)) (provider : String) (w : Workload) (target : Id) :
    Prop :=
  ∃ w', w'.metadata.id = w.metadata.id ∧ w'.node = some target ∧
    [(provider, .delete w.metadata.id), (provider, .create w')].Sublist calls

/-- Handling the death of a machine replaces the workload onto another alive machine that satisfies
it. -/
def Recovers (providers : List (RuntimeProvider σ)) (topology : InMemoryTopology) (t : Membership)
    (dead : Id) (s : σ) (provider : String) (w : Workload) : Prop :=
  ∃ m ∈ topology.allMachines, m.metadata.id ∈ survivors t dead ∧ machineSatisfies w m ∧
    Replaced (handleNodeDead (providers.map .recorded) topology t dead (s, [])).2.2 provider w
      m.metadata.id

/-- Through a provider that lists no placement nothing is handled: the only call is the listing. -/
theorem handleProvider_unplaced {p : RuntimeProvider σ} (hp : ListsUnplaced p) (dead : Id)
    (alive : List Id) (machines : List Machine) (s : σ × List (String × Call)) :
    handleProvider dead alive machines p.recorded s =
      (.ok [], (p.list s.1).2, s.2 ++ [(p.name, .list)]) := by
  have hskip : ∀ w ∈ (p.list s.1).1.toOption.getD [], ∀ u,
      handleWorkload dead alive machines p.recorded w u = (.ok [], u) := by
    intro w hw u
    cases hl : (p.list s.1).1 with
    | error e =>
      rw [hl] at hw
      simp [Except.toOption] at hw
    | ok ws =>
      rw [hl] at hw
      obtain ⟨hnode, -⟩ := hp s.1 ws hl w hw
      rw [handleWorkload, if_pos (by simp [hnode])]
  rw [handleProvider]
  exact forEach_skip hskip _

/-- **Nothing is recovered through the command-line providers**: whatever the tools do, whatever was
created and whoever is alive, no workload of a dead machine is deleted and created again. -/
theorem never_recovers (host : Host σ) (providers : List (RuntimeProvider σ))
    (hproviders : ∀ p ∈ providers, p ∈ builtins host) (topology : InMemoryTopology) (t : Membership)
    (dead : Id) (s : σ) (provider : String) (w : Workload) :
    ¬Recovers providers topology t dead s provider w := by
  rintro ⟨m, -, -, -, w', -, -, hsub⟩
  have hcalls : ∀ u : σ × List (String × Call), (∀ c ∈ u.2, c.2 = .list) →
      ∀ c ∈ (handleNodeDead (providers.map .recorded) topology t dead u).2.2, c.2 = .list := by
    intro u hu
    rw [handleNodeDead]
    refine forEach_invariant (I := fun v : σ × List (String × Call) => ∀ c ∈ v.2, c.2 = .list)
      (fun p hp v hv => ?_) hu
    obtain ⟨q, hq, rfl⟩ := List.mem_map.1 hp
    rw [handleProvider_unplaced (listsUnplaced_of_mem_builtins (hproviders q hq))]
    simpa [or_imp, forall_and] using hv
  have hdel : (provider, Call.delete w.metadata.id) ∈
      (handleNodeDead (providers.map .recorded) topology t dead (s, [])).2.2 :=
    hsub.subset (List.mem_cons_self ..)
  simpa using hcalls (s, []) (by simp) _ hdel

/-- A container engine: the name, the image and the state of its containers. -/
def engine : Host (List (String × String × String)) where
  exec _ args s :=
    match args with
    | "create" :: "--name" :: id :: rest =>
      (.exited true id "", s ++ [(id, rest.getLast?.getD "", "created")])
    | ["start", id] =>
      (.exited true id "", s.map fun c => if c.1 = id then (c.1, c.2.1, "running") else c)
    | ["rm", "-f", id] => (.exited true id "", s.filter fun c => c.1 ≠ id)
    | "ps" :: _ =>
      (.exited true (String.join (s.map fun c => "0|" ++ c.2.1 ++ "|" ++ c.1 ++ "|" ++ c.2.2 ++ "\n"))
        "", s)
    | _ => (.exited false "" "unknown command", s)
  writeFile _ _ s := (.ok (), s)
  removeFile _ s := s
  tempDir := "/tmp"

/-- A machine with room for anything small. -/
def sampleMachine (name : String) : Machine :=
  ⟨.named name, ⟨"r"⟩, ⟨"d"⟩, ⟨"k"⟩, none, none, ⟨8000, 1024, 1024⟩, .running, .healthy⟩

def twoMachines : InMemoryTopology :=
  (InMemoryTopology.new.putMachine (sampleMachine "m1")).putMachine (sampleMachine "m2")

/-- `m2` is alive and `m1` is not. -/
def secondAlive : Membership :=
  ((Membership.new ⟨"m2"⟩).join { FabricNode.new ⟨"n2"⟩ [] ["m2:7946"] with machineId := some ⟨"m2"⟩ }
    0).2

/-- A highly available container on `m1`. -/
def webOnFirst : Workload :=
  { Workload.container (.named "web") "nginx:1.27" with
    highlyAvailable := true
    node := some ⟨"m1"⟩ }

/-- All the built-in providers of the engine are asked, and the container stays where it was. -/
theorem never_recovers_web :
    ¬Recovers (builtins engine) twoMachines secondAlive ⟨"m1"⟩ [("web", "nginx:1.27", "running")]
      "docker" webOnFirst :=
  never_recovers engine (builtins engine) (fun _ h => h) twoMachines secondAlive ⟨"m1"⟩ _ _ _

/-- The engine creates and lists the container, and `m2` is alive and satisfies it; when `m1` dies
the container is listed and left alone. -/
theorem highlyAvailable_container_is_not_recovered :
    ∃ s, (dockerRuntime engine).create webOnFirst [] = (.ok (), s) ∧
      webOnFirst.highlyAvailable ∧ webOnFirst.node = some ⟨"m1"⟩ ∧
      pickTarget webOnFirst (survivors secondAlive ⟨"m1"⟩) twoMachines.allMachines =
        some ⟨"m2"⟩ ∧
      ((dockerRuntime engine).list s).1 = .ok
        [{ Workload.container (.named "web") "nginx:1.27" with state := .stopped }] ∧
      ¬Recovers [dockerRuntime engine] twoMachines secondAlive ⟨"m1"⟩ s "docker" webOnFirst := by
  refine ⟨[("web", "nginx:1.27", "created")], rfl, rfl, rfl, rfl, rfl, ?_⟩
  rintro ⟨m, -, -, -, w', -, -, hsub⟩
  have hcalls : (handleNodeDead ([dockerRuntime engine].map .recorded) twoMachines secondAlive
      ⟨"m1"⟩ ([("web", "nginx:1.27", "created")], [])).2.2 = [("docker", .list)] := rfl
  rw [hcalls] at hsub
  simpa using hsub.length_le

end OCF.Api

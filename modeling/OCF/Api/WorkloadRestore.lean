import OCF.Api.Lossless
import OCF.Foundations.LastWrite
import OCF.Runtime.Command

/-!
# What a restart re-creates

Persisting stores the workloads as the providers list them, under their ids, each with its
attachment. Restoring has every stored workload created and started again, containers by `docker`
and virtual machines by `qemu`. In between a workload passes through the listing of its provider,
the listings of all providers one after another, the store and the choice of a backend.

* `get_persist_workloads`: what is stored under an id is what is listed last under it.
* `mem_create_restoreWorkloads`: every stored workload is created, by the backend of its kind.
* `recreated_as_listed`: the two together, over every history of a node.
-/

namespace OCF.Api

open OCF.Network OCF.Runtime OCF.Store FabricController

variable {σ : Type*}

/-! ## Listing and restoring -/

/-- What the providers list, one after another; a provider whose listing fails is passed over. -/
def listAll : List (RuntimeProvider σ) → σ → List Workload × σ
  | [], s => ([], s)
  | p :: ps, s =>
    let (r, s) := p.list s
    let (ws, s) := listAll ps s
    (r.toOption.getD [] ++ ws, s)

def Record.asWorkload : Record → Option Workload
  | .workload x => some x
  | _ => none

/-- The provider of a name. -/
def getRuntime (runtimes : List (RuntimeProvider σ)) (name : String) : Result (RuntimeProvider σ) :=
  match runtimes.find? fun p => p.name = name with
  | some p => .ok p
  | none => .error (.notFound ("provider `" ++ name ++ "`"))

/-- The backend that stored workloads of a kind are restored onto. -/
def restoreBackend : RuntimeKind → String
  | .container => "docker"
  | .virtualMachine => "qemu"

/-- Create a workload and start it; a failure is only logged. -/
def spawnWorkload (p : RuntimeProvider σ) (w : Workload) (s : σ) : σ :=
  match p.create w s with
  | (.error _, s) => s
  | (.ok _, s) => (p.start w.metadata.id s).2

/-- Spawn the workloads one by one; a backend that is not registered ends the restore. -/
def restoreWorkloads (runtimes : List (RuntimeProvider σ)) : List Workload → σ → Result Unit × σ
  | [], s => (.ok (), s)
  | w :: ws, s =>
    match getRuntime runtimes (restoreBackend w.kind) with
    | .error e => (.error e, s)
    | .ok p => restoreWorkloads runtimes ws (spawnWorkload p w s)

/-- The calls that restoring the workloads of a store makes. -/
def restoreCalls (runtimes : List (RuntimeProvider σ)) (store : StateStore Record) (s : σ) :
    List (String × Call) :=
  (restoreWorkloads (runtimes.map .recorded) (listJson store "workloads" Record.asWorkload)
    (s, [])).2.2

/-- What holds of everything each provider lists holds of all that is listed. -/
theorem forall_listAll {P : Workload → Prop} {ps : List (RuntimeProvider σ)}
    (h : ∀ p ∈ ps, ∀ s ws, (p.list s).1 = .ok ws → ∀ w ∈ ws, P w) (s : σ) :
    ∀ w ∈ (listAll ps s).1, P w := by
  induction ps generalizing s with
  | nil => simp [listAll]
  | cons p ps ih =>
    intro w hw
    obtain hw | hw := List.mem_append.1 (show w ∈ (p.list s).1.toOption.getD [] ++ _ from hw)
    · cases hlist : (p.list s).1 with
      | error e => simp [hlist, Except.toOption] at hw
      | ok ws =>
        rw [hlist] at hw
        exact h p (List.mem_cons_self ..) s ws hlist w hw
    · exact ih (fun q hq => h q (List.mem_cons_of_mem _ hq)) _ w hw

/-! ## The calls of a restore -/

/-- The providers that a restore asks are registered. -/
def RestoresAll (runtimes : List (RuntimeProvider σ)) : Prop :=
  ∀ kind, ∃ p ∈ runtimes, p.name = restoreBackend kind

theorem restoresAll_of_perm {runtimes : List (RuntimeProvider σ)} {host : Host σ}
    (h : runtimes.Perm (builtins host)) : RestoresAll runtimes := by
  intro kind
  cases kind with
  | container => exact ⟨dockerRuntime host, h.mem_iff.2 (by simp [builtins]), rfl⟩
  | virtualMachine => exact ⟨qemuRuntime host, h.mem_iff.2 (by simp [builtins]), rfl⟩

theorem getRuntime_recorded {runtimes : List (RuntimeProvider σ)} {name : String}
    (h : ∃ p ∈ runtimes, p.name = name) :
    ∃ p : RuntimeProvider σ, p.name = name ∧ getRuntime (runtimes.map .recorded) name = .ok p.recorded := by
  obtain ⟨q, hq, hname⟩ := h
  have hsome : (runtimes.find? fun p => p.name = name).isSome := by
    rw [List.find?_isSome]
    exact ⟨q, hq, by simpa using hname⟩
  obtain ⟨p, hp⟩ := Option.isSome_iff_exists.1 hsome
  refine ⟨p, by simpa using List.find?_some hp, ?_⟩
  have hmap : (runtimes.map RuntimeProvider.recorded).find? (fun p => p.name = name) =
      (runtimes.find? fun p => p.name = name).map .recorded := List.find?_map ..
  rw [getRuntime, hmap, hp]
  rfl

/-- Spawning asks for one creation. -/
theorem mem_create_spawnWorkload (p : RuntimeProvider σ) (w : Workload)
    (t : σ × List (String × Call)) {name : String} {u : Workload} :
    (name, .create u) ∈ (spawnWorkload p.recorded w t).2 ↔
      (name, .create u) ∈ t.2 ∨ name = p.name ∧ u = w := by
  unfold spawnWorkload RuntimeProvider.recorded
  rcases hc : p.create w t.1 with ⟨e | _, s⟩
  · simp [hc]
  · simp [hc]

/-- **Every workload is created by the backend of its kind**, and nothing else is created. -/
theorem mem_create_restoreWorkloads {runtimes : List (RuntimeProvider σ)} (h : RestoresAll runtimes)
    (ws : List Workload) (t : σ × List (String × Call)) {name : String} {u : Workload} :
    (name, .create u) ∈ (restoreWorkloads (runtimes.map .recorded) ws t).2.2 ↔
      (name, .create u) ∈ t.2 ∨ u ∈ ws ∧ name = restoreBackend u.kind := by
  induction ws generalizing t with
  | nil => simp [restoreWorkloads]
  | cons w ws ih =>
    obtain ⟨p, hname, hget⟩ := getRuntime_recorded (h w.kind)
    rw [restoreWorkloads, hget]
    dsimp only
    rw [ih, mem_create_spawnWorkload, hname, List.mem_cons]
    constructor
    · rintro ((ht | ⟨rfl, rfl⟩) | ⟨hu, hn⟩)
      · exact .inl ht
      · exact .inr ⟨.inl rfl, rfl⟩
      · exact .inr ⟨.inr hu, hn⟩
    · rintro (ht | ⟨rfl | hu, hn⟩)
      · exact .inl (.inl ht)
      · exact .inl (.inr ⟨hn, rfl⟩)
      · exact .inr ⟨hu, hn⟩

/-! ## The stored workloads -/

namespace FabricController

variable {c : FabricController} {env : PersistEnv}

/-- The listed workload with its attachment. -/
def withAttachment (c : FabricController) (w : Workload) : Workload :=
  match c.attachments.lookup w.metadata.id with
  | some att => { w with network := some att }
  | none => w

theorem withAttachment_cases (c : FabricController) (w : Workload) :
    ∃ network, c.withAttachment w = { w with network := network } := by
  unfold withAttachment
  split
  · exact ⟨_, rfl⟩
  · exact ⟨w.network, rfl⟩

theorem withAttachment_metadata (c : FabricController) (w : Workload) :
    (c.withAttachment w).metadata = w.metadata := by
  obtain ⟨network, h⟩ := c.withAttachment_cases w
  rw [h]

/-- **The last write wins**: what is read after some writes. -/
theorem get_foldl_putRecord_eq (ps : List (String × Record)) (s : StateStore Record)
    {collection : String} (hplain : Plain collection) (k : String) :
    (ps.foldl putRecord s).get collection k =
      ((lastWith Prod.fst (ps.filter fun p => p.2.collection = collection) k).map Prod.snd).or
        (s.get collection k) := by
  induction ps using List.reverseRecOn with
  | nil => rfl
  | append_singleton ps p ih =>
    rw [List.foldl_concat, get_putRecord _ p hplain, List.filter_append]
    by_cases hcol : p.2.collection = collection
    · have hone : [p].filter (fun p => p.2.collection = collection) = [p] := by simp [hcol]
      rw [hone, lastWith_concat, ih]
      by_cases hk : p.1 = k
      · rw [if_pos ⟨hcol, hk⟩, if_pos hk]
        rfl
      · rw [if_neg fun hand => hk hand.2, if_neg hk]
    · have hnone : [p].filter (fun p => p.2.collection = collection) = [] := by simp [hcol]
      rw [if_neg fun hand => hcol hand.1, hnone, List.append_nil, ih]

theorem plain_workloads : Plain "workloads" := by decide

/-- What is proposed for the workloads: those that are listed. -/
theorem filter_proposals_workloads (c : FabricController) (env : PersistEnv) :
    ((c.proposals env).filter fun p => p.2.collection = "workloads") =
      env.workloads.map fun w => (w.metadata.id.name, .workload (c.withAttachment w)) := by
  have hnone : ∀ {ps : List (String × Record)}, (∀ p ∈ ps, p.2.collection ≠ "workloads") →
      (ps.filter fun p => p.2.collection = "workloads") = [] := fun h =>
    List.filter_eq_nil_iff.2 fun p hp => by simpa using h p hp
  have hkind : ∀ {r : Record}, r.kind ≠ none → r.collection ≠ "workloads" := fun h hcol =>
    h (Record.kind_eq_none hcol fun kind => by cases kind <;> decide)
  have htopology : ∀ p ∈ topologyProposals env c.topology, p.2.collection ≠ "workloads" := by
    intro p hp
    simp only [topologyProposals, List.mem_flatMap, List.mem_cons, List.mem_map] at hp
    obtain ⟨r, -, rfl | ⟨d, -, rfl | ⟨k, -, rfl | ⟨m, -, rfl⟩⟩⟩⟩ := hp <;> simp [Record.collection]
  have hmap : ∀ {α : Type} {l : List α} {f : α → String × Record},
      (∀ x, (f x).2.collection ≠ "workloads") →
      ((l.map f).filter fun p => p.2.collection = "workloads") = [] := fun h => hnone fun p hp => by
    obtain ⟨x, -, rfl⟩ := List.mem_map.1 hp
    exact h x
  have hworkloads : (((c.allWorkloads env.workloads).map fun w =>
      (w.metadata.id.name, Record.workload w)).filter fun p => p.2.collection = "workloads") =
      env.workloads.map fun w => (w.metadata.id.name, .workload (c.withAttachment w)) := by
    rw [List.filter_eq_self.2 fun p hp => ?_, allWorkloads, List.map_map]
    · refine List.map_congr_left fun w _ => ?_
      exact congrArg (Prod.mk · _) (congrArg (·.id.name) (c.withAttachment_metadata w))
    · obtain ⟨w, -, rfl⟩ := List.mem_map.1 hp
      simp [Record.collection]
  rw [proposals]
  simp only [List.filter_append]
  rw [hworkloads, hnone htopology, hnone fun p hp => hkind (kind_of_mem_networkProposals hp),
    hmap fun lb => by simp [Record.collection],
    hnone fun p hp => hkind (kind_of_mem_rbacProposals hp),
    hmap fun d => by simp [Record.collection], hmap fun e => by simp [Record.collection]]
  simp

/-- **What is stored under an id** after a persist that succeeds is what is listed last under it,
with its attachment. -/
theorem get_persist_workloads (hp : (c.persist env).1 = .ok ()) {k : String} {v : Workload}
    (hv : lastWith (fun w => w.metadata.id.name) env.workloads k = some v) :
    (c.persist env).2.store.get "workloads" k = some (.workload (c.withAttachment v)) := by
  obtain ⟨m, hstore, hok⟩ := c.persist_store_cases env
  rw [hstore, hok hp, get_foldl_putRecord_eq _ _ plain_workloads, filter_proposals_workloads,
    lastWith_map, hv]
  rfl

end FabricController

/-- Every stored workload is under its own id. -/
def StoredWorkloads (s : StateStore Record) : Prop :=
  ∀ k r, s.get "workloads" k = some r → ∃ w, r = .workload w ∧ w.metadata.id.name = k

/-- Persisting stores workloads under their ids, wherever it stops. -/
theorem StoredWorkloads.persist {c : FabricController} (h : StoredWorkloads c.store)
    (env : PersistEnv) : StoredWorkloads (c.persist env).2.store := by
  intro k r hget
  obtain ⟨i, hstore, -⟩ := c.persist_store_cases env
  rw [hstore] at hget
  obtain ⟨r', hr, hcol, hnew⟩ | ⟨-, hold⟩ :=
    get_foldl_putRecord_of_plain ((c.proposals env).take i) c.store plain_workloads k
  · obtain rfl := Option.some.inj (hget.symm.trans hnew)
    have hmem : (k, r) ∈ (c.proposals env).filter fun p => p.2.collection = "workloads" :=
      List.mem_filter.2 ⟨List.mem_of_mem_take hr, by simpa using hcol⟩
    rw [filter_proposals_workloads] at hmem
    obtain ⟨w, -, he⟩ := List.mem_map.1 hmem
    obtain ⟨rfl, rfl⟩ := Prod.mk.inj he
    exact ⟨_, rfl, by rw [c.withAttachment_metadata]⟩
  · exact h k r (hold ▸ hget)

theorem storedWorkloads_step {c c' : FabricController} {e : NodeEvent}
    (h : Consistent c ∧ StoredWorkloads c.store) (hs : nodeStep c e = some c') :
    Consistent c' ∧ StoredWorkloads c'.store := by
  refine ⟨consistent_step h.1 hs, ?_⟩
  cases e with
  | call op =>
    obtain rfl := Option.some.inj hs
    obtain he | ⟨c', env, he, hstore⟩ := c.exec_store op
    · rw [he]
      exact h.2
    · rw [he]
      exact StoredWorkloads.persist (hstore ▸ h.2) env
  | restart =>
    obtain rfl := Option.some.inj hs
    rw [(restore_fresh h.1.2).2.1]
    exact h.2

/-- In every history the stored workloads are under their ids. -/
theorem storedWorkloads_of_run {events : List NodeEvent} {c : FabricController}
    (hrun : run nodeStep (fresh .empty) events = some c) : StoredWorkloads c.store :=
  (run_invariant (fun _ _ _ h hs => storedWorkloads_step h hs)
    ⟨consistent_fresh, fun k r h => by simp [StateStore.get, fresh] at h⟩ hrun).2

/-! ## The round trip -/

/-- The workload has the id of the other and what the other was created with. -/
structure SameSpec (u w : Workload) : Prop where
  id : u.metadata.id = w.metadata.id
  image : u.image = w.image
  env : u.env = w.env
  resources : u.resources = w.resources
  placement : u.placement = w.placement
  nodeSelector : u.nodeSelector = w.nodeSelector
  labels : u.metadata.labels = w.metadata.labels
  node : u.node = w.node
  highlyAvailable : u.highlyAvailable = w.highlyAvailable

/-- The backend is asked to create the workload with what it was created with. -/
def Recreated (calls : List (String × Call)) (backend : String) (w : Workload) : Prop :=
  ∃ u, (backend, .create u) ∈ calls ∧ SameSpec u w

/-- A bare workload stands for another if and only if the other is bare too, up to the image. -/
theorem sameSpec_iff_of_bare {u w : Workload} (h : u.Bare)
    (hid : u.metadata.id = w.metadata.id) : SameSpec u w ↔ u.image = w.image ∧ w.Bare := by
  constructor
  · intro hs
    refine ⟨hs.image, ⟨?_, ?_, ⟨?_, ?_⟩, ?_, ?_, ?_⟩⟩
    · rw [← hs.labels, h.labels]
    · rw [← hs.resources, h.resources]
    · rw [← hs.node, h.unplaced.1]
    · rw [← hs.highlyAvailable, h.unplaced.2]
    · rw [← hs.placement, h.placement]
    · rw [← hs.env, h.env]
    · rw [← hs.nodeSelector, h.nodeSelector]
  · rintro ⟨himage, hw⟩
    exact ⟨hid, himage, h.env.trans hw.env.symm, h.resources.trans hw.resources.symm,
      h.placement.trans hw.placement.symm, h.nodeSelector.trans hw.nodeSelector.symm,
      h.labels.trans hw.labels.symm, h.unplaced.1.trans hw.unplaced.1.symm,
      h.unplaced.2.trans hw.unplaced.2.symm⟩

/-- What a restore has created under an id: what is stored under it. -/
theorem mem_create_restoreCalls {runtimes : List (RuntimeProvider σ)} (h : RestoresAll runtimes)
    {store : StateStore Record} (hstored : StoredWorkloads store) {id : Id} {v : Workload}
    (hv : store.get "workloads" id.name = some (.workload v)) (s : σ) {backend : String}
    {u : Workload} :
    (backend, .create u) ∈ restoreCalls runtimes store s ∧ u.metadata.id = id ↔
      backend = restoreBackend v.kind ∧ u = v := by
  have hlist : ∀ x, x ∈ listJson store "workloads" Record.asWorkload ↔
      store.get "workloads" x.metadata.id.name = some (.workload x) := by
    intro x
    rw [mem_listJson]
    constructor
    · rintro ⟨k, r, hget, hdec⟩
      obtain ⟨y, rfl, rfl⟩ := hstored k r hget
      obtain rfl := Option.some.inj hdec
      exact hget
    · exact fun hx => ⟨_, _, hx, rfl⟩
  rw [restoreCalls, mem_create_restoreWorkloads h, hlist]
  constructor
  · rintro ⟨ht | ⟨hu, rfl⟩, rfl⟩
    · simp at ht
    · obtain rfl := Record.workload.inj (Option.some.inj (hu.symm.trans hv))
      exact ⟨rfl, rfl⟩
  · rintro ⟨rfl, rfl⟩
    obtain ⟨y, hy, hid⟩ := hstored _ _ hv
    obtain rfl := Record.workload.inj hy
    refine ⟨.inr ⟨?_, rfl⟩, congrArg Id.mk hid⟩
    rw [hid]
    exact hv

/-- **Workloads come back as they are listed.** In every history of a node whose state is then
persisted, with what its providers list at that moment, a fresh controller that restores has one
workload created under each listed id: the one listed last under it, by `docker` for a container and
by `qemu` for a virtual machine, with its attachment. It carries the listed image, a placeholder for
a virtual machine, and all else is at its default. So a workload is re-created with what it was
created with if and only if that is at the default, its image is what is listed and its backend is
the one of its kind. -/
theorem recreated_as_listed {τ : Type*} (events : List NodeEvent) (c : FabricController)
    (hrun : run nodeStep (fresh .empty) events = some c) (host : Host σ)
    (runtimes : List (RuntimeProvider σ)) (hruntimes : runtimes.Perm (builtins host)) (s : σ)
    (env : PersistEnv) (hlisted : env.workloads = (listAll runtimes s).1)
    (hp : (c.persist env).1 = .ok ()) (host' : Host τ) (runtimes' : List (RuntimeProvider τ))
    (hruntimes' : runtimes'.Perm (builtins host')) (t : τ) (w : Workload)
    (hw : ∃ v ∈ env.workloads, v.metadata.id = w.metadata.id) :
    ∃ v, lastWith (fun u => u.metadata.id.name) env.workloads w.metadata.id.name = some v ∧
      v.Bare ∧ (v.kind = .virtualMachine → v.image = "<libvirt-domain>") ∧
      (∀ backend u, (backend, .create u) ∈ restoreCalls runtimes' (c.persist env).2.store t ∧
        u.metadata.id = w.metadata.id ↔
          backend = restoreBackend v.kind ∧ u = c.withAttachment v) ∧
      ∀ backend, Recreated (restoreCalls runtimes' (c.persist env).2.store t) backend w ↔
        backend = restoreBackend v.kind ∧ v.image = w.image ∧ w.Bare := by
  have hbuiltin : ∀ p ∈ runtimes, p ∈ builtins host := fun p hp => hruntimes.mem_iff.1 hp
  obtain ⟨x, hx, hid⟩ := hw
  obtain ⟨v, hv, hmem, hname⟩ : ∃ v, lastWith (fun u : Workload => u.metadata.id.name) env.workloads
      x.metadata.id.name = some v ∧ v ∈ env.workloads ∧
        v.metadata.id.name = x.metadata.id.name := lastWith_of_mem hx
  rw [hid] at hv hname
  have hvid : v.metadata.id = w.metadata.id := congrArg Id.mk hname
  have hbare : v.Bare := forall_listAll
    (fun p hp => listsBare_of_mem_builtins (hbuiltin p hp)) s v (hlisted ▸ hmem)
  have himage : v.kind = .virtualMachine → v.image = "<libvirt-domain>" := forall_listAll
    (fun p hp _ _ hws => image_of_mem_builtins (hbuiltin p hp) hws) s v (hlisted ▸ hmem)
  have hkind : (c.withAttachment v).kind = v.kind := by
    obtain ⟨network, h⟩ := c.withAttachment_cases v
    rw [h]
  have hcalls : ∀ backend u,
      (backend, .create u) ∈ restoreCalls runtimes' (c.persist env).2.store t ∧
        u.metadata.id = w.metadata.id ↔
          backend = restoreBackend v.kind ∧ u = c.withAttachment v := by
    intro backend u
    rw [← hkind]
    exact mem_create_restoreCalls (restoresAll_of_perm hruntimes')
      ((storedWorkloads_of_run hrun).persist env) (get_persist_workloads hp hv) t
  refine ⟨v, hv, hbare, himage, hcalls, fun backend => ?_⟩
  have hspec : SameSpec (c.withAttachment v) w ↔ v.image = w.image ∧ w.Bare := by
    obtain ⟨network, h⟩ := c.withAttachment_cases v
    have hbare' : (c.withAttachment v).Bare := by
      rw [h]
      exact ⟨hbare.labels, hbare.resources, hbare.unplaced, hbare.placement, hbare.env,
        hbare.nodeSelector⟩
    rw [sameSpec_iff_of_bare hbare' ((congrArg Metadata.id (c.withAttachment_metadata v)).trans hvid), h]
  constructor
  · rintro ⟨u, hu, hs⟩
    obtain ⟨rfl, rfl⟩ := (hcalls backend u).1 ⟨hu, hs.id⟩
    exact ⟨rfl, hspec.1 hs⟩
  · rintro ⟨rfl, hs⟩
    exact ⟨_, ((hcalls _ _).2 ⟨rfl, rfl⟩).1, hspec.2 hs⟩

/-- The container tools of a host: for each container the tool that has it, its name, its image and
its state. There is no LXC and no libvirt. -/
def containerTools : Host (List (String × String × String × String)) where
  exec bin args s :=
    match args with
    | "create" :: "--name" :: id :: rest =>
      (.exited true id "", s ++ [(bin, id, rest.getLast?.getD "", "created")])
    | ["start", id] =>
      (.exited true id "",
        s.map fun c => if c.1 = bin ∧ c.2.1 = id then (c.1, c.2.1, c.2.2.1, "running") else c)
    | "ps" :: _ =>
      (.exited true (String.join ((s.filter fun c => c.1 = bin).map fun c =>
        "0|" ++ c.2.2.1 ++ "|" ++ c.2.1 ++ "|" ++ c.2.2.2 ++ "\n")) "", s)
    | _ => (.notSpawned "No such file or directory", s)
  writeFile _ _ s := (.ok (), s)
  removeFile _ s := s
  tempDir := "/tmp"

/-- All proposals are committed, with what the container tools list. -/
def listingEnv (s : List (String × String × String × String)) : PersistEnv :=
  { quietEnv with workloads := (listAll (builtins containerTools) s).1 }

/-- A container without settings that `docker` runs is re-created by `docker`. -/
theorem recreated_as_listed_plain :
    ∃ s, (dockerRuntime containerTools).create (Workload.container (.named "web") "nginx:1.27") [] =
        (.ok (), s) ∧
      Recreated (restoreCalls (builtins containerTools)
        ((fresh .empty).persist (listingEnv s)).2.store []) "docker"
          (Workload.container (.named "web") "nginx:1.27") := by
  refine ⟨[("docker", "web", "nginx:1.27", "created")], rfl, ?_⟩
  obtain ⟨v, hv, -, -, -, hrec⟩ := recreated_as_listed [] (fresh .empty) rfl containerTools
    (builtins containerTools) (.refl _) [("docker", "web", "nginx:1.27", "created")]
    (listingEnv [("docker", "web", "nginx:1.27", "created")]) rfl rfl containerTools
    (builtins containerTools) (.refl _) [] (Workload.container (.named "web") "nginx:1.27")
    ⟨_, List.mem_singleton_self _, rfl⟩
  obtain rfl := Option.some.inj hv
  exact (hrec "docker").2 ⟨rfl, rfl, Workload.bare_ofImage ..⟩

/-- A container with a setting and a limit, kept on a node. -/
def shopContainer : Workload :=
  { Workload.container (.named "shop") "shop:3" with
    env := AList.insert "MODE" "live" ∅
    resources := ⟨2000, 1024, 0⟩
    node := some ⟨"m1"⟩
    highlyAvailable := true }

/-- `podman` creates and lists the container; after a persist and a restore it is `docker` that is
asked to create it, without the setting and the limit. -/
theorem shopContainer_is_not_recreated :
    ∃ s, (podmanRuntime containerTools).create shopContainer [] = (.ok (), s) ∧
      ((listingEnv s).workloads.map fun w => w.metadata.id) = [⟨"shop"⟩] ∧
      ((fresh .empty).persist (listingEnv s)).1 = .ok () ∧
      restoreCalls (builtins containerTools) ((fresh .empty).persist (listingEnv s)).2.store [] =
        [("docker", .create { Workload.container (.named "shop") "shop:3" with state := .stopped }),
          ("docker", .start ⟨"shop"⟩)] ∧
      ∀ backend, ¬Recreated (restoreCalls (builtins containerTools)
        ((fresh .empty).persist (listingEnv s)).2.store []) backend shopContainer := by
  have hcalls : restoreCalls (builtins containerTools) ((fresh .empty).persist
      (listingEnv [("podman", "shop", "shop:3", "created")])).2.store [] =
      [("docker", .create { Workload.container (.named "shop") "shop:3" with state := .stopped }),
        ("docker", .start ⟨"shop"⟩)] := rfl
  refine ⟨[("podman", "shop", "shop:3", "created")], by decide +kernel, rfl, rfl, hcalls, ?_⟩
  rintro backend ⟨u, hu, hs⟩
  rw [hcalls] at hu
  obtain ⟨-, rfl⟩ : backend = "docker" ∧
      u = { Workload.container (.named "shop") "shop:3" with state := .stopped } := by
    simpa using hu
  cases hs.highlyAvailable

end OCF.Api

import LegionForge.Lib.Machine
import LegionForge.Lib.Table

/-!
# The Ollama cluster

The manager keeps a list of nodes and, under its lock, a map from labels to what is known
of each node's health. A poll reads the list, probes, and writes what it found when the
probes are back; the list may be another one by then. `get_healthy_url` chooses among the
healthy entries of the map, and the list comes in only to order them.

So what it returns is a configured node as long as every healthy entry is one (`Sound`).
Adding and removing keep that; a write keeps it if the node is still there.
-/

namespace LegionForge.Agent

structure OllamaNode where
  url : String
  label : String
  enabled : Bool
  deriving DecidableEq, Repr

/-- Latencies are in tenths of a millisecond, to which they are rounded. -/
structure NodeHealth where
  label : String
  url : String
  healthy : Bool
  latency : Int
  models : List String
  lastChecked : Nat
  error : String
  deriving DecidableEq, Repr

inductive Routing where
  | roundRobin
  | primaryFirst
  | leastBusy
  deriving DecidableEq, Repr

structure ClusterConfig where
  nodes : List OllamaNode
  routing : Routing
  fallbackUrl : String

/-- A cycle of `_poll_loop` that waits for its probes. -/
structure Poll where
  id : Nat
  /-- `enabled` in `check_all` -/
  nodes : List OllamaNode

structure Cluster where
  nodes : List OllamaNode
  health : Table NodeHealth.label
  rrIndex : Nat
  started : Bool
  polls : Table Poll.id

/-! ## The health map -/

/-- An entry for a node that has not been probed -/
def notYetChecked (label url : String) : NodeHealth where
  label := label
  url := url
  healthy := false
  latency := 0
  models := []
  lastChecked := 0
  error := "not yet checked"

/-- `self._health[s.label] = s` -/
def putHealth (health : Table NodeHealth.label) (s : NodeHealth) : Table NodeHealth.label :=
  health.upsert s (fun h => { s with label := h.label }) fun _ => rfl

/-- `start_background_polling` -/
def Cluster.startBackgroundPolling (s : Cluster) : Cluster :=
  if s.started || s.nodes.isEmpty then s else { s with started := true }

/-- The constructor, and what `get_cluster_manager` does behind it -/
def ClusterConfig.start (config : ClusterConfig) : Cluster :=
  Cluster.startBackgroundPolling
    { nodes := config.nodes
      health := ((config.nodes.filter (·.enabled)).map fun n =>
        notYetChecked n.label n.url).foldl putHealth .empty
      rrIndex := 0
      started := false
      polls := .empty }

/-! ## Probes -/

/-- What comes back from `/api/tags`; a body with a model without a name raises. -/
inductive ProbeAnswer where
  | response (status : Nat) (models : Except String (List String))
  | raises (error : String)

/-- How a probe came back, and when. -/
structure Probe where
  answer : ProbeAnswer
  latency : Int
  now : Nat

/-- `check_node` -/
def checkNode (url label : String) (probe : Probe) : NodeHealth :=
  let unhealthy (error : String) : NodeHealth :=
    { label, url, healthy := false, latency := probe.latency, models := []
      lastChecked := probe.now, error }
  match probe.answer with
  | .response status models =>
    if status = 200 then
      match models with
      | .ok models =>
        { label, url, healthy := true, latency := probe.latency, models
          lastChecked := probe.now, error := "" }
      | .error error => unhealthy (String.ofList (error.toList.take 200))
    else unhealthy s!"HTTP {status}"
  | .raises error => unhealthy (String.ofList (error.toList.take 200))

/-- What `check_all` makes of one result of `gather`. -/
def checkAllStatus (n : OllamaNode) : Except (Nat × String) Probe → NodeHealth
  | .ok probe => checkNode n.url n.label probe
  | .error (now, error) =>
    { label := n.label, url := n.url, healthy := false, latency := 0, models := []
      lastChecked := now, error := String.ofList (error.toList.take 200) }

/-- `check_all` for the nodes of a cycle -/
def Poll.statuses (p : Poll) (results : List (Except (Nat × String) Probe)) :
    List NodeHealth :=
  List.zipWith checkAllStatus p.nodes results

/-! ## `get_healthy_url` -/

def latencyKey (h : NodeHealth) : Int := if 0 < h.latency then h.latency else 999990

/-- The first entry with the least key -/
def leastBusy : List NodeHealth → Option NodeHealth
  | [] => none
  | h :: rest =>
    match leastBusy rest with
    | none => some h
    | some best => if latencyKey best < latencyKey h then some best else some h

/-- `healthy`, in the order of the map -/
def Cluster.healthy (s : Cluster) : List NodeHealth := s.health.rows.reverse.filter (·.healthy)

/-- The healthy entry of the preferred label; an empty label prefers none. -/
def preferred (healthy : List NodeHealth) : Option String → Option NodeHealth
  | none => none
  | some label => if label = "" then none else healthy.find? (·.label = label)

/-- The entry of the first enabled node that has one -/
def primaryFirst (nodes : List OllamaNode) (healthy : List NodeHealth) : Option NodeHealth :=
  (nodes.filter (·.enabled)).findSome? fun n => healthy.find? (·.label = n.label)

def Cluster.getHealthyUrl (config : ClusterConfig) (s : Cluster) (preferLabel : Option String) :
    String × Cluster :=
  if s.nodes.isEmpty then (config.fallbackUrl, s)
  else
    let s := s.startBackgroundPolling
    let healthy := s.healthy
    if healthy.isEmpty then (config.fallbackUrl, s)
    else
      match preferred healthy preferLabel with
      | some h => (h.url, s)
      | none =>
        match config.routing with
        | .primaryFirst => (((primaryFirst s.nodes healthy).map (·.url)).getD config.fallbackUrl, s)
        | .leastBusy => (((leastBusy healthy).map (·.url)).getD config.fallbackUrl, s)
        | .roundRobin =>
          ((healthy[s.rrIndex % healthy.length]?.map (·.url)).getD config.fallbackUrl,
            { s with rrIndex := s.rrIndex + 1 })

/-! ## Steps -/

inductive ClusterAction where
  /-- A cycle reads the list. -/
  | pollStarts (id : Nat)
  /-- Its probes are back. -/
  | pollWrites (id : Nat) (results : List (Except (Nat × String) Probe))
  | pollFails (id : Nat)
  | addNode (url label : String) (enabled : Bool)
  | removeNode (label : String)
  | updateHealth (status : NodeHealth)
  | getHealthyUrl (preferLabel : Option String)

inductive ClusterReply where
  | none
  | valueError (message : String)
  | removed (found : Bool)
  | url (url : String)
  deriving DecidableEq

def Cluster.addNode (s : Cluster) (url label : String) (enabled : Bool) :
    Cluster × ClusterReply :=
  if s.nodes.any (·.label = label) then
    (s, .valueError s!"Node with label '{label}' already exists")
  else
    (Cluster.startBackgroundPolling
      { s with
        nodes := s.nodes ++ [⟨url, label, enabled⟩]
        health := putHealth s.health (notYetChecked label url) }, .none)

def Cluster.removeNode (s : Cluster) (label : String) : Cluster × ClusterReply :=
  ({ s with
      nodes := s.nodes.filter (·.label ≠ label)
      health := s.health.discard (·.label = label) },
    .removed (s.nodes.any (·.label = label)))

/-- The writes at the end of a cycle, under the lock -/
def Cluster.write (s : Cluster) (statuses : List NodeHealth) : Cluster :=
  { s with health := statuses.foldl putHealth s.health }

def Cluster.step (config : ClusterConfig) (s : Cluster) : ClusterAction →
    Option (Cluster × ClusterReply)
  | .pollStarts id =>
    if s.started then
      (s.polls.insert ⟨id, s.nodes.filter (·.enabled)⟩).map fun polls => ({ s with polls }, .none)
    else none
  | .pollWrites id results =>
    match s.polls.get id with
    | none => none
    | some p =>
      if results.length = p.nodes.length then
        some ({ s.write (p.statuses results) with polls := s.polls.discard (·.id = id) }, .none)
      else none
  | .pollFails id => some ({ s with polls := s.polls.discard (·.id = id) }, .none)
  | .addNode url label enabled => some (s.addNode url label enabled)
  | .removeNode label => some (s.removeNode label)
  | .updateHealth status => some (s.write [status], .none)
  | .getHealthyUrl preferLabel =>
    let result := s.getHealthyUrl config preferLabel
    some (result.2, .url result.1)

def ollamaCluster (config : ClusterConfig) : Machine Cluster ClusterAction ClusterReply where
  step := Cluster.step config

abbrev ClusterStep := Machine.Entry Cluster ClusterAction ClusterReply

/-! ## What a write is to find -/

/-- The entry is of a node that is configured and enabled. -/
def Cluster.Live (s : Cluster) (h : NodeHealth) : Prop :=
  ∃ n ∈ s.nodes, n.enabled = true ∧ n.label = h.label ∧ n.url = h.url

/-- Every healthy entry is of a node that is configured and enabled. -/
def Cluster.Sound (s : Cluster) : Prop := ∀ h ∈ s.health.rows, h.healthy = true → s.Live h

/-- The statuses that a step writes -/
def ClusterAction.written (s : Cluster) : ClusterAction → List NodeHealth
  | .pollWrites id results =>
    match s.polls.get id with
    | none => []
    | some p => p.statuses results
  | .updateHealth status => [status]
  | .pollStarts _ | .pollFails _ | .addNode .. | .removeNode _ | .getHealthyUrl _ => []

/-- What a step writes as healthy is of a node that is configured and enabled at that
time. -/
def WritesLive (x : ClusterStep) : Prop :=
  ∀ status ∈ x.input.written x.before, status.healthy = true → x.before.Live status

instance (s : Cluster) (h : NodeHealth) : Decidable (s.Live h) :=
  inferInstanceAs (Decidable (∃ n ∈ s.nodes, n.enabled = true ∧ n.label = h.label ∧ n.url = h.url))

instance : DecidablePred WritesLive := fun x =>
  inferInstanceAs (Decidable (∀ status ∈ x.input.written x.before,
    status.healthy = true → x.before.Live status))

/-- Every URL that `get_healthy_url` returns is the fallback or that of a node that is
configured and enabled then. -/
def RoutesToNodes (config : ClusterConfig) (trace : List ClusterStep) : Prop :=
  ∀ x ∈ trace, ∀ url, x.label = .url url →
    url = config.fallbackUrl ∨ ∃ n ∈ x.after.nodes, n.enabled = true ∧ n.url = url

/-! ## Reads -/

theorem mem_of_preferred {healthy : List NodeHealth} {preferLabel : Option String}
    {h : NodeHealth} (found : preferred healthy preferLabel = some h) : h ∈ healthy := by
  unfold preferred at found
  split at found
  · cases found
  · split at found
    · cases found
    · exact List.mem_of_find?_eq_some found

theorem mem_of_primaryFirst {nodes : List OllamaNode} {healthy : List NodeHealth}
    {h : NodeHealth} (found : primaryFirst nodes healthy = some h) : h ∈ healthy := by
  obtain ⟨n, -, first⟩ := List.exists_of_findSome?_eq_some found
  exact List.mem_of_find?_eq_some first

theorem mem_of_leastBusy {healthy : List NodeHealth} {h : NodeHealth}
    (found : leastBusy healthy = some h) : h ∈ healthy := by
  induction healthy generalizing h with
  | nil => cases found
  | cons first rest ih =>
    rw [leastBusy] at found
    split at found
    · cases found
      exact List.mem_cons_self
    next best least =>
      split at found
      · cases found
        exact List.mem_cons_of_mem _ (ih least)
      · cases found
        exact List.mem_cons_self

theorem startBackgroundPolling_health (s : Cluster) :
    s.startBackgroundPolling.health = s.health := by
  unfold Cluster.startBackgroundPolling
  split <;> rfl

theorem startBackgroundPolling_nodes (s : Cluster) :
    s.startBackgroundPolling.nodes = s.nodes := by
  unfold Cluster.startBackgroundPolling
  split <;> rfl

/-- A URL that is chosen is the fallback or comes from the entry it was chosen by. -/
theorem getD_url {healthy : List NodeHealth} {choice : Option NodeHealth}
    (among : ∀ h, choice = some h → h ∈ healthy) (fallback : String) :
    (choice.map (·.url)).getD fallback = fallback ∨
      ∃ h ∈ healthy, h.url = (choice.map (·.url)).getD fallback := by
  cases choice with
  | none => exact .inl rfl
  | some h => exact .inr ⟨h, among h rfl, rfl⟩

/-- It returns the fallback or the URL of a healthy entry, and changes neither list nor map. -/
theorem getHealthyUrl_spec (config : ClusterConfig) (s : Cluster) (preferLabel : Option String) :
    let result := s.getHealthyUrl config preferLabel
    (result.1 = config.fallbackUrl ∨
      ∃ h ∈ s.health.rows, h.healthy = true ∧ h.url = result.1) ∧
    result.2.nodes = s.nodes ∧ result.2.health = s.health := by
  have nodes := startBackgroundPolling_nodes s
  have health := startBackgroundPolling_health s
  have entry : ∀ url, (∃ h ∈ s.startBackgroundPolling.healthy, h.url = url) →
      ∃ h ∈ s.health.rows, h.healthy = true ∧ h.url = url := by
    rintro url ⟨h, mem, rfl⟩
    obtain ⟨row, healthy⟩ := List.mem_filter.mp mem
    rw [health] at row
    exact ⟨h, List.mem_reverse.mp row, healthy, rfl⟩
  unfold Cluster.getHealthyUrl
  dsimp only
  split
  · exact ⟨.inl rfl, rfl, rfl⟩
  · split
    · exact ⟨.inl rfl, nodes, health⟩
    · split
      next h found => exact ⟨.inr (entry _ ⟨h, mem_of_preferred found, rfl⟩), nodes, health⟩
      next =>
        split
        · exact ⟨(getD_url (fun h => mem_of_primaryFirst) _).imp_right (entry _), nodes, health⟩
        · exact ⟨(getD_url (fun h => mem_of_leastBusy) _).imp_right (entry _), nodes, health⟩
        · exact ⟨(getD_url (fun h => List.mem_of_getElem?) _).imp_right (entry _), nodes, health⟩

/-! ## Writes -/

theorem of_mem_putHealth {health : Table NodeHealth.label} {s h : NodeHealth}
    (mem : h ∈ (putHealth health s).rows) :
    h = s ∨ h ∈ health.rows := by
  rcases Table.of_mem_upsert _ mem with ⟨same, rfl | ⟨c, rfl⟩⟩ | ⟨old, -⟩
  · exact .inl rfl
  · refine .inl ?_
    have label : c.label = s.label := same
    rw [label]
  · exact .inr old

theorem of_mem_puts {statuses : List NodeHealth} {health : Table NodeHealth.label}
    {h : NodeHealth} (mem : h ∈ (statuses.foldl putHealth health).rows) :
    h ∈ statuses ∨ h ∈ health.rows := by
  induction statuses generalizing health with
  | nil => exact .inr mem
  | cons s rest ih =>
    rcases ih mem with later | mem
    · exact .inl (List.mem_cons_of_mem _ later)
    · rcases of_mem_putHealth mem with rfl | old
      · exact .inl List.mem_cons_self
      · exact .inr old

theorem sound_write {s : Cluster} {statuses : List NodeHealth} (sound : s.Sound)
    (live : ∀ status ∈ statuses, status.healthy = true → s.Live status) :
    (s.write statuses).Sound := by
  intro h mem healthy
  rcases of_mem_puts mem with written | old
  · exact live h written healthy
  · exact sound h old healthy

theorem sound_start (config : ClusterConfig) : config.start.Sound := by
  intro h mem healthy
  unfold ClusterConfig.start at mem
  rw [startBackgroundPolling_health] at mem
  rcases of_mem_puts mem with seeded | none
  · obtain ⟨n, -, rfl⟩ := List.mem_map.mp seeded
    cases healthy
  · cases none

theorem sound_addNode {s : Cluster} (sound : s.Sound) (url label : String) (enabled : Bool) :
    (s.addNode url label enabled).1.Sound := by
  unfold Cluster.addNode
  split
  · exact sound
  · intro h mem healthy
    rw [startBackgroundPolling_health] at mem
    unfold Cluster.Live
    rw [startBackgroundPolling_nodes]
    rcases of_mem_putHealth mem with rfl | old
    · cases healthy
    · obtain ⟨n, configured, live⟩ := sound h old healthy
      exact ⟨n, List.mem_append_left _ configured, live⟩

/-- Who goes takes the entry along; the entries of the others have other labels. -/
theorem sound_removeNode {s : Cluster} (sound : s.Sound) (label : String) :
    (s.removeNode label).1.Sound := by
  intro h mem healthy
  obtain ⟨old, kept⟩ := List.mem_filter.mp mem
  have other : h.label ≠ label := by simpa using kept
  obtain ⟨n, configured, enabled, same, url⟩ := sound h old healthy
  have stays : n.label ≠ label := by rwa [same]
  exact ⟨n, List.mem_filter.mpr ⟨configured, by simpa using stays⟩, enabled, same, url⟩

/-- A step whose writes are live keeps the map sound. -/
theorem sound_of_step {config : ClusterConfig} {x : ClusterStep}
    (step : (ollamaCluster config).Steps x) (live : WritesLive x) (sound : x.before.Sound) :
    x.after.Sound := by
  obtain ⟨s, a, reply, s'⟩ := x
  have step : s.step config a = some (s', reply) := step
  dsimp only at sound ⊢
  cases a with
  | pollStarts id =>
    simp only [Cluster.step] at step
    split at step
    · obtain ⟨polls, -, rfl, -⟩ := by simpa using step
      exact sound
    · cases step
  | pollWrites id results =>
    simp only [Cluster.step] at step
    split at step
    · cases step
    next p found =>
      split at step
      · cases step
        refine sound_write sound fun status mem => live status ?_
        dsimp only [ClusterAction.written]
        rwa [found]
      · cases step
  | pollFails id => cases step; exact sound
  | addNode url label enabled =>
    have next := sound_addNode sound url label enabled
    rw [Option.some.inj step] at next
    exact next
  | removeNode label =>
    have next := sound_removeNode sound label
    rw [Option.some.inj step] at next
    exact next
  | updateHealth status =>
    cases step
    exact sound_write sound live
  | getHealthyUrl preferLabel =>
    obtain ⟨-, nodes, health⟩ := getHealthyUrl_spec config s preferLabel
    cases step
    unfold Cluster.Sound Cluster.Live
    rw [nodes, health]
    exact sound

/-- In every run from any configuration in which only live nodes are written as healthy,
every URL returned is the fallback or that of a node that is configured and enabled. -/
theorem cluster_routes_to_nodes (config : ClusterConfig) (actions : List ClusterAction)
    (live : ∀ x ∈ (ollamaCluster config).run config.start actions, WritesLive x) :
    RoutesToNodes config ((ollamaCluster config).run config.start actions) := by
  intro x mem url returned
  obtain ⟨step, sound, -⟩ := Machine.run_invariant_of_ok (I := Cluster.Sound)
    (fun x step ok before => sound_of_step step ok before) (sound_start config) live x mem
  obtain ⟨s, a, reply, s'⟩ := x
  have step : s.step config a = some (s', reply) := step
  dsimp only at sound returned ⊢
  subst returned
  cases a with
  | pollStarts id =>
    simp only [Cluster.step] at step
    split at step
    · simp at step
    · cases step
  | pollWrites id results =>
    simp only [Cluster.step] at step
    split at step
    · cases step
    · split at step <;> cases step
  | pollFails id => cases step
  | addNode url' label enabled =>
    simp only [Cluster.step, Cluster.addNode] at step
    split at step <;> cases step
  | removeNode label => cases step
  | updateHealth status => cases step
  | getHealthyUrl preferLabel =>
    obtain ⟨among, nodes, -⟩ := getHealthyUrl_spec config s preferLabel
    cases step
    rw [nodes]
    refine among.imp_right ?_
    rintro ⟨h, row, healthy, same⟩
    obtain ⟨n, configured, enabled, -, at_url⟩ := sound h row healthy
    exact ⟨n, configured, enabled, at_url.trans same⟩

/-! ## A node that is removed while it is probed -/

def workstation : OllamaNode := ⟨"http://10.0.0.5:11434", "workstation", true⟩
def studio : OllamaNode := ⟨"http://10.0.0.6:11434", "studio", true⟩

def sampleCluster : ClusterConfig where
  nodes := [workstation, studio]
  routing := .roundRobin
  fallbackUrl := "http://localhost:11434"

def answers : Except (Nat × String) Probe := .ok ⟨.response 200 (.ok ["llama3"]), 120, 7⟩
def refuses : Except (Nat × String) Probe := .ok ⟨.raises "connection refused", 3, 7⟩

/-- The removal falls between two cycles. -/
def removedBetween : List ClusterAction :=
  [.pollStarts 0, .pollWrites 0 [answers, answers], .removeNode "workstation", .pollStarts 1,
    .pollWrites 1 [answers], .getHealthyUrl none]

theorem removal_between_cycles_routes :
    ((ollamaCluster sampleCluster).run sampleCluster.start removedBetween).getLast?.map (·.label) =
      some (.url studio.url) ∧
    RoutesToNodes sampleCluster
      ((ollamaCluster sampleCluster).run sampleCluster.start removedBetween) := by
  refine ⟨by decide +kernel, cluster_routes_to_nodes sampleCluster removedBetween ?_⟩
  decide +kernel

/-- The removal falls into a cycle. -/
def removedDuring : List ClusterAction :=
  [.pollStarts 0, .removeNode "workstation", .pollWrites 0 [answers, refuses],
    .getHealthyUrl none]

/-- The workstation is returned when it is no longer configured. -/
theorem removed_node_returned :
    ((ollamaCluster sampleCluster).run sampleCluster.start removedDuring).getLast?.map
        (fun x => (x.label, x.after.nodes)) = some (.url workstation.url, [studio]) ∧
      ¬ RoutesToNodes sampleCluster
        ((ollamaCluster sampleCluster).run sampleCluster.start removedDuring) := by
  have last : ((ollamaCluster sampleCluster).run sampleCluster.start removedDuring).getLast?.map
      (fun x => (x.label, x.after.nodes)) = some (.url workstation.url, [studio]) := by
    decide +kernel
  refine ⟨last, fun routes => ?_⟩
  obtain ⟨x, found, seen⟩ := Option.map_eq_some_iff.mp last
  obtain ⟨label, nodes⟩ := Prod.mk.inj seen
  rcases routes x (List.mem_of_getLast? found) _ label with fallback | ⟨n, mem, -, same⟩
  · exact absurd fallback (by decide)
  · rw [nodes, List.mem_singleton] at mem
    rw [mem] at same
    exact absurd same (by decide)

end LegionForge.Agent

import CertificateJobs.Controller.Cluster
import CertificateJobs.Library.Slice
import CertificateJobs.Workflow.Total

namespace CertificateJobs

open Slices

/-! The functions over `state.Nodes` as they run in memory: the nodes are cells behind a slice that `append` may move, the
    node map holds their addresses, and a node is read and written through its address. -/

namespace InMemory

abbrev NodePointers := AList (fun _ : String => Pointer)

def nodeStateMap (memory : Memory WorkflowNodeState) (nodes : Slice) : NodePointers :=
  memory.pointersBy (·.name) nodes

def derefNode (memory : Memory WorkflowNodeState) (pointers : NodePointers) (name : String) :
    Option WorkflowNodeState :=
  (pointers.lookup name).map memory.load

def updateNode (memory : Memory WorkflowNodeState) (pointers : NodePointers) (name : String)
    (write : WorkflowNodeState → WorkflowNodeState) : Option (Memory WorkflowNodeState) :=
  (pointers.lookup name).map fun pointer => memory.store pointer (write (memory.load pointer))

def ensureWorkflowNodeStates (grow : Growth) (cjob : CertificateJob) (memory : Memory WorkflowNodeState)
    (nodes : Slice) : Memory WorkflowNodeState × Slice :=
  let known := nodeStateMap memory nodes
  cjob.spec.jobs.foldl
    (fun state tmpl => if tmpl.name ∈ known then state else state.1.append grow state.2 (pendingNode tmpl.name))
    (memory, nodes)

structure Observation where
  memory : Memory WorkflowNodeState
  activeCount : Nat
  failedNodes : List String
  err : Option ApiError
  sightings : List Sighting

def Observation.push (node : WorkflowNodeState) (seen : Sight) (rest : Observation) : Observation :=
  let sightings := ⟨node.name, node.jobName, seen⟩ :: rest.sightings
  match rest.err with
  | some e => { rest with err := some e, sightings := sightings }
  | none =>
    { rest with
      activeCount := rest.activeCount + if countsActive node seen then 1 else 0
      failedNodes := if seen.isFailure then rest.failedNodes.insert node.name else rest.failedNodes
      err := none
      sightings := sightings }

def observeWorkflowNodeJobs (getJob : String → Except ApiError Job) (now : Time) (nodes : Slice) :
    List Nat → Memory WorkflowNodeState → Option Observation
  -- The loop over the positions; `none` is an index out of range.
  | [], memory => some ⟨memory, 0, [], none, []⟩
  | i :: rest, memory => do
    let pointer ← nodes.address i
    let node := memory.load pointer
    if node.jobName = "" then observeWorkflowNodeJobs getJob now nodes rest memory
    else
      match sight (getJob node.jobName) with
      | .error e => some ⟨memory, 0, [], some e, []⟩
      | .ok seen =>
        (observeWorkflowNodeJobs getJob now nodes rest (memory.store pointer (writeSight now node seen))).map
          (Observation.push node seen)

def canRun (policy : FailurePolicy) (memory : Memory WorkflowNodeState) (pointers : NodePointers) :
    List String → Option Bool
  | [] => some true
  | dep :: rest => do
    let node ← derefNode memory pointers dep
    if dependencySatisfied policy node.phase then canRun policy memory pointers rest else some false

def nodeRuns (policy : FailurePolicy) (memory : Memory WorkflowNodeState) (pointers : NodePointers) (deps : NodeLists)
    (node : WorkflowNodeState) : Option Bool :=
  if node.phase ≠ .pending then some false else canRun policy memory pointers (deps.get node.name)

def runnableAmong (policy : FailurePolicy) (memory : Memory WorkflowNodeState) (pointers : NodePointers)
    (deps : NodeLists) : List String → Option (List String)
  | [] => some []
  | name :: rest => do
    let node ← derefNode memory pointers name
    let runs ← nodeRuns policy memory pointers deps node
    let others ← runnableAmong policy memory pointers deps rest
    return if runs then name :: others else others

def runnableNodes (order : MapOrder) (policy : FailurePolicy) (memory : Memory WorkflowNodeState) (nodes : Slice)
    (deps : NodeLists) : Option (List String) :=
  let pointers := nodeStateMap memory nodes
  runnableAmong policy memory pointers deps (order.visit pointers.keys)

def skipDescendant (t : String → Time) (pointers : NodePointers) (memory : Memory WorkflowNodeState) (name : String) :
    Option (Memory WorkflowNodeState) := do
  let node ← derefNode memory pointers name
  if node.phase = .pending then
    updateNode memory pointers name (markSkipped "skipped due to failed dependency" t)
  else some memory

def skipAt (t : String → Time) (nodes : Slice) (pointers : NodePointers) (memory : Memory WorkflowNodeState) (i : Nat) :
    Option (Memory WorkflowNodeState) :=
  match nodes.address i with
  | none => some memory
  | some pointer =>
    let node := memory.load pointer
    if node.phase = .pending then
      updateNode memory pointers node.name (markSkipped "skipped because workflow stopped after a failure" t)
    else some memory

def applyFailurePolicy (order : MapOrder) (policy : FailurePolicy) (memory : Memory WorkflowNodeState) (nodes : Slice)
    (reverse : NodeLists) (failed : List String) (t : String → Time) : Option (Memory WorkflowNodeState) :=
  let pointers := nodeStateMap memory nodes
  if failed.length = 0 then some memory
  else match policy with
    | .bestEffort => some memory
    | .continueIndependent => (descendantNodes order reverse failed).foldlM (skipDescendant t pointers) memory
    | _ => (List.range nodes.length).foldlM (skipAt t nodes pointers) memory

section
variable {σ : Type} (c : Client σ) (cjob : CertificateJob) (certificate : Certificate) (runID : String) (now : Time)

def scheduleNodes (nodes : Slice) (pointers : NodePointers) :
    List String → Int → Memory WorkflowNodeState → σ → Option (Memory WorkflowNodeState × Scheduling σ)
  | [], _, memory, s => some (memory, ⟨memory.view nodes, none, [], s⟩)
  | nodeName :: rest, availableSlots, memory, s =>
    if availableSlots = 0 then some (memory, ⟨memory.view nodes, none, [], s⟩)
    else
      match provideJob c cjob certificate runID nodeName (memory.view nodes) s with
      | (some e, calls, s) => some (memory, ⟨memory.view nodes, some e, calls, s⟩)
      | (none, calls, s) => do
        let memory ← updateNode memory pointers nodeName
          (markStarted (buildJobName cjob.name certificate.name nodeName runID) now)
        let after ← scheduleNodes nodes pointers rest (availableSlots - 1) memory s
        return (after.1, { after.2 with calls := calls ++ after.2.calls })

/-- The pointers are those taken at the start of the pass; `runnableNodes` takes its own. -/
def scheduleRunnableNodes (order : MapOrder) (memory : Memory WorkflowNodeState) (nodes : Slice)
    (pointers : NodePointers) (deps : NodeLists) (availableSlots : Int) (s : σ) :
    Option (Memory WorkflowNodeState × Scheduling σ) := do
  let runnable ← runnableNodes order cjob.spec.failurePolicy memory nodes deps
  scheduleNodes c cjob certificate runID now nodes pointers (runnable.insertionSort (· ≤ ·)) availableSlots memory s

def fillSlots (order : MapOrder) (memory : Memory WorkflowNodeState) (nodes : Slice) (pointers : NodePointers)
    (deps : NodeLists) (availableSlots : Int) (s : σ) : Option (Memory WorkflowNodeState × Scheduling σ) :=
  if availableSlots > 0 then
    scheduleRunnableNodes c cjob certificate runID now order memory nodes pointers deps availableSlots s
  else some (memory, ⟨memory.view nodes, none, [], s⟩)

end

/-- `state.Nodes` is the slice `nodes` over `memory`; the result has the memory and the slice after the pass. -/
def reconcileCertificateRun {σ : Type} (grow : Growth) (c : Client σ) (ambient : Ambient) (cjob : CertificateJob)
    (certificate : Certificate) (state : CertificateExecutionState) (memory : Memory WorkflowNodeState) (nodes : Slice)
    (graph : GraphMaps) (s : σ) : Option (Memory WorkflowNodeState × Slice × RunOutcome σ) :=
  let ensured := ensureWorkflowNodeStates grow cjob memory nodes
  let nodes := ensured.2
  let pointers := nodeStateMap ensured.1 nodes
  let now := ambient.clock (.certificateRun certificate.name)
  (observeWorkflowNodeJobs (c.getJob s certificate.ns) now nodes (List.range nodes.length) ensured.1).bind fun seen =>
    match seen.err with
    | some e =>
      some (seen.memory, nodes,
        { state := { state with nodes := seen.memory.view nodes }, running := false, failed := true, err := some e,
          sightings := seen.sightings, calls := [], client := s })
    | none => do
      let memory ← applyFailurePolicy ambient.orders.seen cjob.spec.failurePolicy seen.memory nodes graph.reverse
        (ambient.orders.failed.visit seen.failedNodes)
        (fun node => ambient.clock (.skipNode certificate.name node))
      let scheduled ← fillSlots c cjob certificate state.runID now ambient.orders.nodes memory nodes pointers graph.deps
        (requestedParallelism cjob - seen.activeCount) s
      return (scheduled.1, nodes, concludeRun now state seen.sightings scheduled.2)

structure Points (pointers : NodePointers) (nodes : Slice) (shown : List WorkflowNodeState) : Prop where
  keys : pointers.keys = (CertificateJobs.nodeStateMap shown).keys
  lookup : ∀ name, pointers.lookup name =
    ((CertificateJobs.nodeStateMap shown).lookup name).map fun i => ⟨nodes.array, i⟩

theorem nodeStateMap_points (memory : Memory WorkflowNodeState) (nodes : Slice) :
    Points (nodeStateMap memory nodes) nodes (memory.view nodes) :=
  ⟨(Memory.pointersBy_index _ memory nodes).1, (Memory.pointersBy_index _ memory nodes).2⟩

theorem Points.later {pointers : NodePointers} {nodes : Slice} {shown after : List WorkflowNodeState}
    (points : Points pointers nodes shown) (names : nodeNames after = nodeNames shown) : Points pointers nodes after := by
  -- No write changes a name, so pointers taken once stay right.
  have same : CertificateJobs.nodeStateMap after = CertificateJobs.nodeStateMap shown := IndexBy.indexBy_congr names
  exact ⟨same ▸ points.keys, same ▸ points.lookup⟩

section
variable {memory : Memory WorkflowNodeState} {nodes : Slice} {pointers : NodePointers}

theorem Points.address (points : Points pointers nodes (memory.view nodes)) {name : String} {pointer : Pointer}
    (found : pointers.lookup name = some pointer) :
    (CertificateJobs.nodeStateMap (memory.view nodes)).lookup name = some pointer.index ∧
      nodes.address pointer.index = some pointer ∧ (memory.load pointer).name = name := by
  rw [points.lookup] at found
  obtain ⟨i, index, rfl⟩ := Option.map_eq_some_iff.mp found
  obtain ⟨node, at_i, same⟩ := IndexBy.lookup_indexBy index
  rw [Memory.getElem?_view] at at_i
  obtain ⟨pointer, here, loaded⟩ := Option.map_eq_some_iff.mp at_i
  have address : nodes.address i = some ⟨nodes.array, i⟩ := by
    unfold Slice.address at here ⊢
    split at here
    · rename_i inside
      rw [if_pos inside]
    · cases here
  obtain rfl : (⟨nodes.array, i⟩ : Pointer) = pointer := Option.some.inj (address.symm.trans here)
  exact ⟨index, address, by rw [loaded]; exact same⟩

theorem derefNode_refines (points : Points pointers nodes (memory.view nodes)) (name : String) :
    derefNode memory pointers name = CertificateJobs.derefNode (memory.view nodes) name := by
  unfold derefNode CertificateJobs.derefNode
  cases found : pointers.lookup name with
  | none =>
    rw [points.lookup, Option.map_eq_none_iff] at found
    rw [found]
    rfl
  | some pointer =>
    obtain ⟨index, address, -⟩ := points.address found
    rw [index, Option.bind_some, Memory.getElem?_view, address]

theorem updateNode_refines (points : Points pointers nodes (memory.view nodes)) (name : String)
    (write : WorkflowNodeState → WorkflowNodeState) :
    (updateNode memory pointers name write).map (·.view nodes) =
      CertificateJobs.updateNode (memory.view nodes) name write := by
  unfold updateNode CertificateJobs.updateNode
  cases found : pointers.lookup name with
  | none =>
    rw [points.lookup, Option.map_eq_none_iff] at found
    rw [found]
    rfl
  | some pointer =>
    obtain ⟨index, address, -⟩ := points.address found
    rw [index, Option.map_some, Option.map_some, Option.map_some, Memory.view_modify address]

theorem canRun_refines (points : Points pointers nodes (memory.view nodes)) (policy : FailurePolicy)
    (deps : List String) : canRun policy memory pointers deps = CertificateJobs.canRun policy (memory.view nodes) deps := by
  induction deps with
  | nil => rfl
  | cons dep rest ih => simp only [canRun, CertificateJobs.canRun, derefNode_refines points, ih]

theorem runnableNodes_refines (order : MapOrder) (policy : FailurePolicy) (memory : Memory WorkflowNodeState)
    (nodes : Slice) (deps : NodeLists) :
    runnableNodes order policy memory nodes deps =
      CertificateJobs.runnableNodes order policy (memory.view nodes) deps := by
  have points := nodeStateMap_points memory nodes
  have among : ∀ names, runnableAmong policy memory (nodeStateMap memory nodes) deps names =
      CertificateJobs.runnableAmong policy (memory.view nodes) deps names := by
    intro names
    induction names with
    | nil => rfl
    | cons name rest ih =>
      simp only [runnableAmong, CertificateJobs.runnableAmong, nodeRuns, CertificateJobs.nodeRuns,
        derefNode_refines points, canRun_refines points, ih]
  simp only [runnableNodes, CertificateJobs.runnableNodes, among, points.keys]

theorem skipDescendant_refines (points : Points pointers nodes (memory.view nodes)) (t : String → Time) (name : String) :
    (skipDescendant t pointers memory name).map (·.view nodes) =
      CertificateJobs.skipDescendant t (memory.view nodes) name := by
  simp only [skipDescendant, CertificateJobs.skipDescendant, derefNode_refines points, Option.bind_eq_bind]
  cases CertificateJobs.derefNode (memory.view nodes) name with
  | none => rfl
  | some node =>
    simp only [Option.bind_some]
    split
    · exact updateNode_refines points name _
    · rfl

theorem skipAt_refines (points : Points pointers nodes (memory.view nodes)) (t : String → Time) (i : Nat) :
    (skipAt t nodes pointers memory i).map (·.view nodes) = CertificateJobs.skipAt t (memory.view nodes) i := by
  unfold skipAt CertificateJobs.skipAt
  rw [Memory.getElem?_view]
  cases nodes.address i with
  | none => rfl
  | some pointer =>
    simp only [Option.map_some]
    split
    · exact updateNode_refines points _ _
    · rfl

end

theorem skipDescendant_names {t : String → Time} {shown after : List WorkflowNodeState} {name : String}
    (skipped : CertificateJobs.skipDescendant t shown name = some after) : nodeNames after = nodeNames shown := by
  obtain ⟨node, -, skipped⟩ := Option.bind_eq_some_iff.mp skipped
  split at skipped
  · exact updateNode_names skipped fun _ => rfl
  · rw [Option.some.inj skipped]

theorem skipAt_names {t : String → Time} {shown after : List WorkflowNodeState} {i : Nat}
    (skipped : CertificateJobs.skipAt t shown i = some after) : nodeNames after = nodeNames shown := by
  have total : ∃ other, CertificateJobs.skipAt t shown i = some other ∧ nodeNames other = nodeNames shown := skipAt_total t i
  obtain ⟨other, again, names⟩ := total
  obtain rfl := Option.some.inj (skipped.symm.trans again)
  exact names

section
variable {memory : Memory WorkflowNodeState} {nodes : Slice} {pointers : NodePointers}

/-- A loop of writes that keep the names: its rounds go through the pointers taken before it. -/
theorem foldlM_refines {β : Type} (points : Points pointers nodes (memory.view nodes))
    {step : Memory WorkflowNodeState → β → Option (Memory WorkflowNodeState)}
    {stepList : List WorkflowNodeState → β → Option (List WorkflowNodeState)}
    (round : ∀ {memory}, Points pointers nodes (memory.view nodes) → ∀ item,
      (step memory item).map (·.view nodes) = stepList (memory.view nodes) item)
    (names : ∀ {shown after item}, stepList shown item = some after → nodeNames after = nodeNames shown) (items : List β) :
    (items.foldlM step memory).map (·.view nodes) = items.foldlM stepList (memory.view nodes) := by
  refine foldlM_shows (fun memory : Memory WorkflowNodeState => memory.view nodes)
    (fun memory => Points pointers nodes (memory.view nodes)) (fun _ item points => round points item) ?_ items points
  intro memory item next points stepped
  have written := round points item
  rw [stepped, Option.map_some] at written
  exact points.later (names written.symm)

theorem applyFailurePolicy_refines (order : MapOrder) (policy : FailurePolicy) (memory : Memory WorkflowNodeState)
    (nodes : Slice) (reverse : NodeLists) (failed : List String) (t : String → Time) :
    (applyFailurePolicy order policy memory nodes reverse failed t).map (·.view nodes) =
      CertificateJobs.applyFailurePolicy order policy (memory.view nodes) reverse failed t := by
  have points := nodeStateMap_points memory nodes
  have stops := foldlM_refines points (fun points i => skipAt_refines points t i) skipAt_names (List.range nodes.length)
  unfold applyFailurePolicy CertificateJobs.applyFailurePolicy
  dsimp only
  split
  · rfl
  · cases policy with
    | bestEffort => rfl
    | continueIndependent =>
      exact foldlM_refines points (fun points name => skipDescendant_refines points t name) skipDescendant_names _
    | stopDownstream => simpa using stops
    | other text => simpa using stops

theorem observe_refines (getJob : String → Except ApiError Job) (now : Time) (nodes : Slice)
    (rest before : List WorkflowNodeState) (memory : Memory WorkflowNodeState)
    (shown : memory.view nodes = before ++ rest) :
    ∃ out, observeWorkflowNodeJobs getJob now nodes (List.range' before.length rest.length) memory = some out ∧
      (⟨out.memory.view nodes, out.activeCount, out.failedNodes, out.err, out.sightings⟩ : CertificateJobs.Observation) =
        { CertificateJobs.observeWorkflowNodeJobs getJob now rest with
          nodes := before ++ (CertificateJobs.observeWorkflowNodeJobs getJob now rest).nodes } := by
  -- The loop has passed the positions of `before` and goes on over `rest`.
  induction rest generalizing before memory with
  | nil => exact ⟨_, rfl, by rw [shown]; rfl⟩
  | cons node rest ih =>
    have read : (memory.view nodes)[before.length]? = some node := by simp [shown]
    rw [Memory.getElem?_view] at read
    obtain ⟨pointer, here, loaded⟩ := Option.map_eq_some_iff.mp read
    have position : ∀ written : WorkflowNodeState, (before ++ [written]).length = before.length + 1 := by simp
    simp only [List.length_cons, List.range'_succ, observeWorkflowNodeJobs, CertificateJobs.observeWorkflowNodeJobs, here,
      loaded, Option.bind_eq_bind, Option.bind_some]
    by_cases none : node.jobName = ""
    · obtain ⟨out, result, same⟩ := ih (before ++ [node]) memory (by simp [shown])
      rw [position] at result
      refine ⟨out, by rw [if_pos none, result], ?_⟩
      rw [same, if_pos none]
      simp
    · rw [if_neg none, if_neg none]
      cases sight (getJob node.jobName) with
      | error e => exact ⟨_, rfl, by simp only [shown]⟩
      | ok seen =>
        obtain ⟨out, result, same⟩ := ih (before ++ [writeSight now node seen])
          (memory.store pointer (writeSight now node seen)) (by rw [Memory.view_store here, shown]; simp)
        rw [position] at result
        refine ⟨out.push node seen, by simp only [result, Option.map_some], ?_⟩
        obtain ⟨view, active, failures, err, sightings⟩ := CertificateJobs.Observation.mk.inj same
        unfold Observation.push CertificateJobs.Observation.push
        rw [err]
        cases (CertificateJobs.observeWorkflowNodeJobs getJob now rest).err with
        | none => simp [view, active, failures, sightings]
        | some e => simp [view, active, failures, sightings]

theorem observe_all_refines (getJob : String → Except ApiError Job) (now : Time) (memory : Memory WorkflowNodeState)
    (nodes : Slice) :
    ∃ out, observeWorkflowNodeJobs getJob now nodes (List.range nodes.length) memory = some out ∧
      CertificateJobs.observeWorkflowNodeJobs getJob now (memory.view nodes) =
        ⟨out.memory.view nodes, out.activeCount, out.failedNodes, out.err, out.sightings⟩ := by
  obtain ⟨out, result, same⟩ := observe_refines getJob now nodes (memory.view nodes) [] memory rfl
  rw [Memory.length_view, List.length_nil, ← List.range_eq_range'] at result
  rw [List.nil_append] at same
  exact ⟨out, result, same.symm⟩

theorem ensure_refines (grow : Growth) (cjob : CertificateJob) (memory : Memory WorkflowNodeState) (nodes : Slice) :
    (ensureWorkflowNodeStates grow cjob memory nodes).1.view (ensureWorkflowNodeStates grow cjob memory nodes).2 =
      CertificateJobs.ensureWorkflowNodeStates cjob (memory.view nodes) := by
  have known : ∀ name, name ∈ nodeStateMap memory nodes ↔ name ∈ CertificateJobs.nodeStateMap (memory.view nodes) := by
    intro name
    rw [AList.mem_keys, AList.mem_keys, (nodeStateMap_points memory nodes).keys]
  unfold ensureWorkflowNodeStates CertificateJobs.ensureWorkflowNodeStates
  simp only [known]
  clear known
  generalize CertificateJobs.nodeStateMap (memory.view nodes) = table
  induction cjob.spec.jobs generalizing memory nodes with
  | nil => simp
  | cons tmpl rest ih =>
    rw [List.foldl_cons, List.filter_cons]
    by_cases present : tmpl.name ∈ table
    · simp only [present, if_true, not_true_eq_false, decide_false, Bool.false_eq_true, if_false]
      exact ih memory nodes
    · simp only [present, if_false, not_false_eq_true, decide_true, if_true, List.map_cons]
      rw [ih, Memory.view_append, List.append_assoc, List.singleton_append]

end

section
variable {σ : Type} (c : Client σ) (cjob : CertificateJob) (certificate : Certificate) (runID : String) (now : Time)
  {nodes : Slice} {pointers : NodePointers}

theorem scheduleNodes_refines (names : List String) (slots : Int) (memory : Memory WorkflowNodeState) (s : σ)
    (points : Points pointers nodes (memory.view nodes)) {out : Scheduling σ}
    (result : CertificateJobs.scheduleNodes c cjob certificate runID now names slots (memory.view nodes) s = some out) :
    ∃ after, scheduleNodes c cjob certificate runID now nodes pointers names slots memory s = some (after, out) ∧
      out.nodes = after.view nodes := by
  induction names generalizing slots memory s out with
  | nil =>
    obtain rfl := Option.some.inj result
    exact ⟨memory, rfl, rfl⟩
  | cons name rest ih =>
    simp only [CertificateJobs.scheduleNodes] at result
    simp only [scheduleNodes]
    generalize provideJob c cjob certificate runID name (memory.view nodes) s = provided at result ⊢
    obtain ⟨err, calls, t⟩ := provided
    split
    · rename_i full
      rw [if_pos full] at result
      obtain rfl := Option.some.inj result
      exact ⟨memory, rfl, rfl⟩
    · rename_i room
      rw [if_neg room] at result
      cases err with
      | some e =>
        obtain rfl := Option.some.inj result
        exact ⟨memory, rfl, rfl⟩
      | none =>
        obtain ⟨marked, updated, result⟩ := Option.bind_eq_some_iff.mp result
        obtain ⟨later, scheduled, result⟩ := Option.bind_eq_some_iff.mp result
        obtain rfl := Option.some.inj result
        have renames : nodeNames marked = nodeNames (memory.view nodes) := updateNode_names updated fun _ => rfl
        rw [← updateNode_refines points] at updated
        obtain ⟨next, stored, rfl⟩ := Option.map_eq_some_iff.mp updated
        obtain ⟨after, run, shown⟩ := ih (slots - 1) next t (points.later renames) scheduled
        refine ⟨after, ?_, shown⟩
        simp only [stored, run, Option.bind_eq_bind, Option.bind_some, Option.pure_def]

theorem fillSlots_refines (order : MapOrder) (deps : NodeLists) (slots : Int) (memory : Memory WorkflowNodeState) (s : σ)
    (points : Points pointers nodes (memory.view nodes)) {out : Scheduling σ}
    (result : CertificateJobs.fillSlots c order cjob certificate runID (memory.view nodes) deps slots now s = some out) :
    ∃ after, fillSlots c cjob certificate runID now order memory nodes pointers deps slots s = some (after, out) ∧
      out.nodes = after.view nodes := by
  unfold CertificateJobs.fillSlots at result
  unfold fillSlots
  split
  · rename_i room
    rw [if_pos room] at result
    obtain ⟨runnable, listed, scheduled⟩ := Option.bind_eq_some_iff.mp result
    obtain ⟨after, run, shown⟩ := scheduleNodes_refines c cjob certificate runID now _ slots memory s points scheduled
    refine ⟨after, ?_, shown⟩
    rw [scheduleRunnableNodes, runnableNodes_refines, listed, Option.bind_eq_bind, Option.bind_some, run]
  · rename_i full
    rw [if_neg full] at result
    obtain rfl := Option.some.inj result
    exact ⟨memory, rfl, rfl⟩

end

/-- A pass over an accepted spec goes through in memory as it does over lists: every lookup finds its node, and
    `state.Nodes` shows every write. -/
theorem reconcileCertificateRun_refines {σ : Type} (grow : Growth) (c : Client σ) (ambient : Ambient)
    (cjob : CertificateJob) (certificate : Certificate) (state : CertificateExecutionState)
    (memory : Memory WorkflowNodeState) (nodes : Slice) {graph : GraphMaps} (s : σ) (accepted : Accepted cjob graph)
    (stored : memory.view nodes = state.nodes) :
    ∃ after out, reconcileCertificateRun grow c ambient cjob certificate state memory nodes graph s =
        some (after, (ensureWorkflowNodeStates grow cjob memory nodes).2, out) ∧
      CertificateJobs.reconcileCertificateRun c ambient cjob certificate state graph s = some out ∧
      out.state.nodes = after.view (ensureWorkflowNodeStates grow cjob memory nodes).2 := by
  obtain ⟨out, total⟩ := reconcileCertificateRun_total c cjob certificate accepted ambient state s
  have ensured := ensure_refines grow cjob memory nodes
  have covers := ensure_covers cjob state.nodes
  rw [stored] at ensured
  rw [← ensured] at covers
  have run := total
  simp only [CertificateJobs.reconcileCertificateRun, ← ensured] at run
  simp only [reconcileCertificateRun]
  generalize ensureWorkflowNodeStates grow cjob memory nodes = place at covers run ⊢
  obtain ⟨start, last⟩ := place
  obtain ⟨seen, observed, same⟩ := observe_all_refines (c.getJob s certificate.ns)
    (ambient.clock (.certificateRun certificate.name)) start last
  have names := nodeNames_observe (c.getJob s certificate.ns) (ambient.clock (.certificateRun certificate.name))
    (start.view last)
  rw [same] at run names
  rw [observed, Option.bind_some]
  dsimp only at run names ⊢
  cases failure : seen.err with
  | some e =>
    simp only [failure, Option.some.injEq] at run
    exact ⟨seen.memory, out, by simp only [run], total, by rw [← run]⟩
  | none =>
    simp only [failure] at run
    obtain ⟨remaining, skipped, run⟩ := Option.bind_eq_some_iff.mp run
    obtain ⟨scheduling, filled, run⟩ := Option.bind_eq_some_iff.mp run
    obtain rfl := Option.some.inj run
    rw [← names] at covers
    obtain ⟨again, applied, kept⟩ := applyFailurePolicy_total accepted ambient.orders.seen cjob.spec.failurePolicy
      (ambient.orders.failed.visit seen.failedNodes) (fun node => ambient.clock (.skipNode certificate.name node)) covers
    obtain rfl := Option.some.inj (skipped.symm.trans applied)
    rw [← applyFailurePolicy_refines] at skipped
    obtain ⟨middle, left, rfl⟩ := Option.map_eq_some_iff.mp skipped
    have points := (nodeStateMap_points start last).later (kept.trans names)
    obtain ⟨after, scheduled, shown⟩ := fillSlots_refines c cjob certificate state.runID
      (ambient.clock (.certificateRun certificate.name)) ambient.orders.nodes graph.deps _ middle s points filled
    refine ⟨after, _, ?_, total, by rw [concludeRun_nodes, shown]⟩
    simp only [left, scheduled, Option.bind_eq_bind, Option.bind_some, Option.pure_def]

/-- The pointer is the address of an element of the slice with that name, and what is stored through it shows there. -/
structure Lands (memory : Memory WorkflowNodeState) (nodes : Slice) (name : String) (pointer : Pointer) : Prop where
  element : nodes.address pointer.index = some pointer
  named : (memory.load pointer).name = name
  written : ∀ later : Memory WorkflowNodeState, ∀ node,
    (later.store pointer node).view nodes = (later.view nodes).set pointer.index node

theorem nodeStateMap_lands (memory : Memory WorkflowNodeState) (nodes : Slice) {name : String}
    (known : name ∈ nodeNames (memory.view nodes)) :
    ∃ pointer, (nodeStateMap memory nodes).lookup name = some pointer ∧ Lands memory nodes name pointer := by
  have points := nodeStateMap_points memory nodes
  have present : name ∈ nodeStateMap memory nodes := by
    rw [AList.mem_keys, points.keys, ← AList.mem_keys]
    exact mem_nodeStateMap.mpr known
  obtain ⟨pointer, found⟩ := Option.isSome_iff_exists.mp (AList.lookup_isSome.mpr present)
  obtain ⟨-, element, named⟩ := points.address found
  exact ⟨pointer, found, element, named, fun _ => Memory.view_store element⟩

def LooksUp (graph : GraphMaps) (shown : List WorkflowNodeState) (name : String) : Prop :=
  name ∈ nodeNames shown ∨ (∃ node, name ∈ graph.deps.get node) ∨
    ∃ order failed, name ∈ descendantNodes order graph.reverse failed

theorem LooksUp.known {cjob : CertificateJob} {graph : GraphMaps} {shown : List WorkflowNodeState} {name : String}
    (looked : LooksUp graph shown name) (accepted : Accepted cjob graph)
    (covers : ∀ name ∈ jobNames cjob, name ∈ nodeNames shown) : name ∈ nodeNames shown := by
  rcases looked with member | ⟨node, dep⟩ | ⟨order, failed, descendant⟩
  · exact member
  · exact dependencies_known accepted covers dep
  · obtain ⟨root, -, path⟩ := (descendantNodes_accepted accepted order failed).mp descendant
    obtain ⟨before, -, last⟩ := Relation.TransGen.tail'_iff.mp path
    exact covers name (accepted.ends before name last).2

end InMemory

open InMemory in
/-- Whatever nodes an entry holds and wherever `append` moves them, the pointers taken after the missing nodes were added
    lead to every node that the pass looks up, and into `state.Nodes`. The pass goes through with them, and `state.Nodes`
    shows at its end what the model over lists says. -/
theorem node_pointers_land {σ : Type} (grow : Growth) (c : Client σ) (ambient : Ambient) (cjob : CertificateJob)
    (certificate : Certificate) (state : CertificateExecutionState) (memory : Memory WorkflowNodeState) (nodes : Slice)
    (orders : MapOrders) (graph : GraphMaps) (s : σ) (accepted : buildWorkflowGraph orders cjob = .ok graph)
    (stored : memory.view nodes = state.nodes) :
    let place := InMemory.ensureWorkflowNodeStates grow cjob memory nodes
    (∀ name, LooksUp graph (place.1.view place.2) name → ∃ pointer,
      (InMemory.nodeStateMap place.1 place.2).lookup name = some pointer ∧ Lands place.1 place.2 name pointer) ∧
    ∃ after out, InMemory.reconcileCertificateRun grow c ambient cjob certificate state memory nodes graph s =
        some (after, place.2, out) ∧
      reconcileCertificateRun c ambient cjob certificate state graph s = some out ∧
      out.state.nodes = after.view place.2 := by
  have accepted := buildWorkflowGraph_accepted accepted
  refine ⟨?_, InMemory.reconcileCertificateRun_refines grow c ambient cjob certificate state memory nodes s accepted stored⟩
  have covers := ensure_covers cjob state.nodes
  rw [← stored, ← ensure_refines grow] at covers
  intro name looked
  exact nodeStateMap_lands _ _ (looked.known accepted covers)

/-- The slice of a node left over from an earlier spec has no room, so the nodes move when `a` and `b` are added. -/
theorem node_pointers_land_moved :
    let memory : Memory WorkflowNodeState := ⟨fun _ _ => { name := "old", phase := .failed }, 1⟩
    let nodes : Slice := ⟨0, 1, 1, Nat.le_refl 1⟩
    let spec := { flatSpec ["a", "b"] 1 .stopDownstream with workflow := { edges := [⟨"a", "b"⟩] } }
    let cjob := (sampleCluster spec).cjob
    let place := InMemory.ensureWorkflowNodeStates (fun _ => 0) cjob memory nodes
    place.2.array ≠ nodes.array ∧ ∃ pointer,
      (InMemory.nodeStateMap place.1 place.2).lookup "a" = some pointer ∧ InMemory.Lands place.1 place.2 "a" pointer := by
  intro memory nodes spec cjob place
  refine ⟨by decide, ?_⟩
  have landed := node_pointers_land (fun _ => 0) clusterClient stillClock cjob webCertificate
    { ns := "default", name := "web", phase := .pending, nodes := [{ name := "old", phase := .failed }] } memory nodes {}
    (builtMaps cjob) (sampleCluster spec) rfl rfl
  exact landed.1 "a" (.inr (.inl ⟨"b", by decide⟩))

end CertificateJobs

import CertificateJobs.Library.Closure
import CertificateJobs.Library.IndexBy
import CertificateJobs.Workflow.Graph
import Mathlib.Data.List.Sort
import Mathlib.Data.String.Basic

namespace CertificateJobs

def nodeStateMap (nodes : List WorkflowNodeState) : AList (fun _ : String => Nat) := nodes.indexBy (·.name)

def derefNode (nodes : List WorkflowNodeState) (name : String) : Option WorkflowNodeState :=
  -- `nodes[name]` read through its pointer; `none` is a nil dereference. Names are never written, so the map of
  -- the current nodes points where a map taken earlier in the pass does.
  ((nodeStateMap nodes).lookup name).bind fun i => nodes[i]?

def updateNode (nodes : List WorkflowNodeState) (name : String)
    (write : WorkflowNodeState → WorkflowNodeState) : Option (List WorkflowNodeState) :=
  ((nodeStateMap nodes).lookup name).map fun i => nodes.modify i write

def pendingNode (name : String) : WorkflowNodeState := { name := name, phase := .pending }

def initializeNodeStates (cjob : CertificateJob) : List WorkflowNodeState :=
  (cjob.spec.jobs.map fun job => pendingNode job.name).insertionSort fun a b => a.name ≤ b.name

def ensureWorkflowNodeStates (cjob : CertificateJob) (nodes : List WorkflowNodeState) : List WorkflowNodeState :=
  nodes ++ (cjob.spec.jobs.filter fun tmpl => tmpl.name ∉ nodeStateMap nodes).map fun tmpl => pendingNode tmpl.name

def deriveWorkflowPhase (nodes : List WorkflowNodeState) : ExecutionPhase :=
  if nodes.any (·.phase = .failed) then .failed
  else if nodes.any (·.phase = .running) then .running
  else if nodes.any (·.phase = .pending) then .pending
  else if nodes.all (isTerminalPhase ·.phase) then .succeeded
  else .pending

def dependencySatisfied (policy : FailurePolicy) : ExecutionPhase → Bool
  | .succeeded | .skipped => true
  | .failed => policy = .bestEffort
  | _ => false

def canRun (policy : FailurePolicy) (nodes : List WorkflowNodeState) : List String → Option Bool
  -- The loop over one node's dependencies stops at the first that is not satisfied.
  | [] => some true
  | dep :: rest => do
    let node ← derefNode nodes dep
    if dependencySatisfied policy node.phase then canRun policy nodes rest else some false

def nodeRuns (policy : FailurePolicy) (nodes : List WorkflowNodeState) (deps : NodeLists) (node : WorkflowNodeState) :
    Option Bool :=
  if node.phase ≠ .pending then some false else canRun policy nodes (deps.get node.name)

def runnableAmong (policy : FailurePolicy) (nodes : List WorkflowNodeState) (deps : NodeLists) :
    List String → Option (List String)
  | [] => some []
  | name :: rest => do
    let node ← derefNode nodes name
    let runs ← nodeRuns policy nodes deps node
    let others ← runnableAmong policy nodes deps rest
    return if runs then name :: others else others

def runnableNodes (order : MapOrder) (policy : FailurePolicy) (nodes : List WorkflowNodeState) (deps : NodeLists) :
    Option (List String) :=
  runnableAmong policy nodes deps (order.visit (nodeStateMap nodes).keys)

def descendantNodes (order : MapOrder) (reverse : NodeLists) (roots : List String) : List String :=
  -- The queue receives the roots and each child once, so the fuel covers every iteration.
  let children := reverse.entries.flatMap (·.2)
  (order.visit (Closure.collect reverse.get (roots.length + children.length) roots [])).insertionSort (· ≤ ·)

def markSkipped (message : String) (t : String → Time) (node : WorkflowNodeState) : WorkflowNodeState :=
  { node with phase := .skipped, message := message, completedAt := some (t node.name) }

def skipDescendant (t : String → Time) (nodes : List WorkflowNodeState) (name : String) :
    Option (List WorkflowNodeState) := do
  let node ← derefNode nodes name
  if node.phase = .pending then
    updateNode nodes name (markSkipped "skipped due to failed dependency" t)
  else some nodes

def skipAt (t : String → Time) (nodes : List WorkflowNodeState) (i : Nat) : Option (List WorkflowNodeState) :=
  -- The default branch tests the node at a position and writes the one its name points to.
  match nodes[i]? with
  | none => some nodes
  | some node =>
    if node.phase = .pending then
      updateNode nodes node.name (markSkipped "skipped because workflow stopped after a failure" t)
    else some nodes

def applyFailurePolicy (order : MapOrder) (policy : FailurePolicy) (nodes : List WorkflowNodeState)
    (reverse : NodeLists) (failed : List String) (t : String → Time) : Option (List WorkflowNodeState) :=
  if failed.length = 0 then some nodes
  else match policy with
    | .bestEffort => some nodes
    | .continueIndependent => (descendantNodes order reverse failed).foldlM (skipDescendant t) nodes
    | _ => (List.range nodes.length).foldlM (skipAt t) nodes

end CertificateJobs

import CertificateJobs.Library.Kahn
import CertificateJobs.Security.Template
import Mathlib.Logic.Relation

namespace CertificateJobs

/-- A map from node names to lists of node names; a missing key reads as the empty list. -/
abbrev NodeLists := AList (fun _ : String => List String)

def NodeLists.get (lists : NodeLists) (name : String) : List String := (lists.lookup name).getD []

inductive GraphError
  | noJobs
  | emptyName
  | duplicateName (name : String)
  | jobLabels (name : String) (cause : SecurityError)
  | podLabels (name : String) (cause : SecurityError)
  | security (name : String) (cause : SecurityError)
  | unknownNode (edge : CertificateWorkflowEdge)
  | selfDependency (edge : CertificateWorkflowEdge)
  | cycle
  deriving DecidableEq

def GraphError.text (isPrint : Char → Bool) : GraphError → String
  | .noJobs => "spec.jobs must contain at least one template"
  | .emptyName => "job template name cannot be empty"
  | .duplicateName name => "duplicate job template name " ++ quoted isPrint name
  | .jobLabels name cause => "job " ++ quoted isPrint name ++ " has invalid labels: " ++ cause.text isPrint
  | .podLabels name cause => "job " ++ quoted isPrint name ++ " has invalid pod template labels: " ++ cause.text isPrint
  | .security name cause => "job " ++ quoted isPrint name ++ " violates security policy: " ++ cause.text isPrint
  | .unknownNode edge =>
    "invalid edge " ++ quoted isPrint edge.fromNode ++ "->" ++ quoted isPrint edge.toNode ++
      ": both nodes must exist in spec.jobs"
  | .selfDependency edge =>
    "invalid edge " ++ quoted isPrint edge.fromNode ++ "->" ++ quoted isPrint edge.toNode ++
      ": self dependency is not allowed"
  | .cycle => "workflow edges contain a cycle"

structure GraphMaps where
  deps : NodeLists := ∅
  reverse : NodeLists := ∅

def registerJob (order : MapOrder) (maps : GraphMaps) (job : CertificateJobTemplate) :
    Except GraphError GraphMaps :=
  if job.name = "" then .error .emptyName
  else if job.name ∈ maps.deps then .error (.duplicateName job.name)
  else do
    (validateReservedLabels order job.labels).mapError (.jobLabels job.name)
    (validateReservedLabels order job.template.template.labels).mapError (.podLabels job.name)
    (validateJobTemplateSecurity job.template).mapError (.security job.name)
    return { deps := maps.deps.insert job.name [], reverse := maps.reverse.insert job.name [] }

def addEdge (jobNames : List String) (maps : GraphMaps) (edge : CertificateWorkflowEdge) :
    Except GraphError GraphMaps :=
  if edge.fromNode ∉ jobNames ∨ edge.toNode ∉ jobNames then .error (.unknownNode edge)
  else if edge.fromNode = edge.toNode then .error (.selfDependency edge)
  else .ok
    { deps := maps.deps.insert edge.toNode (maps.deps.get edge.toNode ++ [edge.fromNode])
      reverse := maps.reverse.insert edge.fromNode (maps.reverse.get edge.fromNode ++ [edge.toNode]) }

def countDependency (node : String) (maps : (String → Int) × (String → List String)) (dep : String) :
    (String → Int) × (String → List String) :=
  (Function.update maps.1 node (maps.1 node + 1), Function.update maps.2 dep (maps.2 dep ++ [node]))

def countNode (deps : NodeLists) (maps : (String → Int) × (String → List String)) (node : String) :
    (String → Int) × (String → List String) :=
  (deps.get node).foldl (countDependency node) maps

def validateAcyclic (orders : MapOrders) (deps : NodeLists) : Except GraphError Unit :=
  -- Every iteration takes a node that was queued once, so one more than the number of nodes is never used up by a
  -- graph that is accepted.
  let counted := (orders.deps.visit deps.keys).foldl (countNode deps) (fun _ => 0, fun _ => [])
  let queue := (orders.indegree.visit deps.keys).filter fun node => counted.1 node = 0
  let final := Kahn.run counted.2 (deps.keys.length + 1) ⟨counted.1, queue, 0⟩
  if final.visited ≠ deps.keys.length then .error .cycle else .ok ()

def buildWorkflowGraph (orders : MapOrders) (cjob : CertificateJob) : Except GraphError GraphMaps :=
  if cjob.spec.jobs.length = 0 then .error .noJobs
  else do
    let registered ← cjob.spec.jobs.foldlM (registerJob orders.labels) {}
    let maps ← cjob.spec.workflow.edges.foldlM (addEdge (cjob.spec.jobs.map (·.name))) registered
    validateAcyclic orders maps.deps
    return maps

end CertificateJobs

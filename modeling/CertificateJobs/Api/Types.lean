import CertificateJobs.Api.Kubernetes

namespace CertificateJobs

inductive FailurePolicy
  | stopDownstream
  | continueIndependent
  | bestEffort
  | other (text : String)
  deriving DecidableEq

inductive ExecutionPhase
  | pending
  | running
  | succeeded
  | failed
  | skipped
  | other (text : String)
  deriving DecidableEq

structure CertificateJobTemplate where
  name : String := ""
  labels : Labels := ∅
  annotations : Labels := ∅
  template : JobSpec := {}
  deriving DecidableEq

structure CertificateWorkflowEdge where
  fromNode : String
  toNode : String
  deriving DecidableEq

structure CertificateWorkflowSpec where
  edges : List CertificateWorkflowEdge := []
  deriving DecidableEq

structure CertificateJobSpec where
  certificateSelector : LabelSelector := {}
  jobs : List CertificateJobTemplate
  workflow : CertificateWorkflowSpec := {}
  parallelism : Option Int := none
  jobTTLSecondsAfterFinished : Option Int := none
  failurePolicy : FailurePolicy := .other ""
  deriving DecidableEq

structure WorkflowNodeState where
  name : String
  jobName : String := ""
  phase : ExecutionPhase
  message : String := ""
  startedAt : Option Time := none
  completedAt : Option Time := none
  deriving DecidableEq

structure CertificateExecutionState where
  ns : String
  name : String
  secretName : String := ""
  inputHash : String := ""
  runID : String := ""
  phase : ExecutionPhase
  message : String := ""
  lastTriggeredTime : Option Time := none
  lastCompletedTime : Option Time := none
  nodes : List WorkflowNodeState := []
  deriving DecidableEq

structure CertificateJobStatus where
  observedCertificates : List CertificateExecutionState := []
  conditions : List Condition := []
  deriving DecidableEq

structure CertificateJob where
  ns : String
  name : String
  uid : Nat := 0
  generation : Int := 0
  resourceVersion : String := ""
  spec : CertificateJobSpec
  status : CertificateJobStatus := {}

def isTerminalPhase : ExecutionPhase → Bool
  | .succeeded | .failed | .skipped => true
  | _ => false

def ExecutionPhase.Defined : ExecutionPhase → Prop
  | .other _ => False
  | _ => True

/-- With times in seconds `json.Marshal` drops nothing of a status, so equal encodings are equal statuses. -/
def equalCertificateJobStatus (a b : CertificateJobStatus) : Bool := a = b

def certificateKey (ns name : String) : String := ns ++ "/" ++ name

/-- An order in which a `range` over a map may visit its keys. -/
structure MapOrder where
  visit : List String → List String
  perm : ∀ keys, (visit keys).Perm keys

def MapOrder.listed : MapOrder := ⟨fun keys => keys, fun _ => .rfl⟩

def reversedOrder : MapOrder := ⟨List.reverse, List.reverse_perm⟩

theorem MapOrder.mem_visit {order : MapOrder} {keys : List String} {key : String} :
    key ∈ order.visit keys ↔ key ∈ keys := (order.perm keys).mem_iff

structure MapOrders where
  labels : MapOrder := .listed
  deps : MapOrder := .listed
  indegree : MapOrder := .listed
  nodes : MapOrder := .listed
  failed : MapOrder := .listed
  seen : MapOrder := .listed

/-- The calls of `metav1.Now` in one reconcile, by where they are made. -/
inductive ClockRead
  | workflowContext
  | certificateRun (certificate : String)
  | skipNode (certificate node : String)
  | setCondition (type : String)
  deriving DecidableEq

/-- What a reconcile depends on besides the API: the clock and Go's map iteration. -/
structure Ambient where
  clock : ClockRead → Time
  orders : MapOrders := {}

end CertificateJobs

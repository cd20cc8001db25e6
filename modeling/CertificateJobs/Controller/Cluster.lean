import CertificateJobs.Controller.Reconcile

namespace CertificateJobs

/-- An API server that answers every call: the objects the operator reads and the UID of the next Job. -/
structure Cluster where
  cjob : CertificateJob
  certificates : List Certificate := []
  secrets : String → String → Option Secret := fun _ _ => none
  jobs : String → String → Option Job := fun _ _ => none
  nextUID : Nat := 1

def notFound {α : Type} (kind name : String) : Except ApiError α := .error (.notFound (kind ++ " \"" ++ name ++ "\" not found"))

def Cluster.createJob (cluster : Cluster) (job : Job) : Except ApiError Job × Cluster :=
  match cluster.jobs job.ns job.name with
  | some _ => (.error (.alreadyExists ("jobs.batch \"" ++ job.name ++ "\" already exists")), cluster)
  | none =>
    let stored := { job with uid := cluster.nextUID }
    (.ok stored,
      { cluster with
        jobs := fun ns name => if ns = job.ns ∧ name = job.name then some stored else cluster.jobs ns name
        nextUID := cluster.nextUID + 1 })

def clusterClient : Client Cluster where
  getCertificateJob cluster ns name :=
    if cluster.cjob.ns = ns ∧ cluster.cjob.name = name then .ok cluster.cjob
    else notFound "certificatejobs.certificates.rezzell.com" name
  listCertificates cluster ns := .ok (cluster.certificates.filter (·.ns = ns))
  getSecret cluster ns name := (cluster.secrets ns name).elim (notFound "secrets" name) .ok
  getJob cluster ns name := (cluster.jobs ns name).elim (notFound "jobs.batch" name) .ok
  setControllerReference _ cjob job := .ok { job with controller := some cjob.uid }
  createJob := Cluster.createJob
  updateStatus cluster cjob := (none, { cluster with cjob := { cluster.cjob with status := cjob.status } })

def unsteadyClient (silent : Cluster → Job → Bool) : Client Cluster :=
  { clusterClient with
    getJob := fun cluster ns name => (clusterClient.getJob cluster ns name).bind fun job =>
      if silent cluster job then .error (.other "the server was unable to return a response in the time allotted")
      else .ok job }

def setStatusCondition : List Condition → Condition → List Condition
  | [], new => [new]
  | old :: rest, new =>
    if old.type = new.type then
      { new with lastTransitionTime :=
          if old.status = new.status then old.lastTransitionTime else new.lastTransitionTime } :: rest
    else old :: setStatusCondition rest new

def plainExternal : External where
  marshalInput payload := .ok (payload.certificateSpec.secretName ++ "," ++ payload.secretType ++ "," ++
    String.join (payload.secretData.keys) ++ "," ++ payload.workflowSpecHash)
  marshalSpec spec := .ok (String.join (spec.jobs.map fun job =>
    job.name ++ ":" ++ String.join (job.template.template.spec.containers.map (·.name)) ++ ",") ++
    String.join (spec.workflow.edges.map fun edge => edge.fromNode ++ ">" ++ edge.toNode ++ ","))
  labelSelectorAsSelector selector := .ok
    { empty := selector.matchLabels.entries.isEmpty
      accepts := fun labels => selector.matchLabels.entries.all fun entry => labels.lookup entry.1 = some entry.2 }
  setStatusCondition := setStatusCondition
  isPrint _ := true

theorem plainExternal_setsConditions : plainExternal.SetsConditions where
  appended conditions new absent := by
    induction conditions with
    | nil => rfl
    | cons first rest ih =>
      rw [List.forall_mem_cons] at absent
      have later : setStatusCondition rest new = rest ++ [new] := ih absent.2
      simp only [plainExternal, setStatusCondition, absent.1, if_false, later, List.cons_append]
  updated before old after new absent same := by
    induction before with
    | nil => simp only [plainExternal, setStatusCondition, same, if_true, List.nil_append]
    | cons first rest ih =>
      rw [List.forall_mem_cons] at absent
      have later := ih absent.2
      simp only [plainExternal] at later
      simp only [plainExternal, setStatusCondition, absent.1, if_false, later, List.cons_append]

def Cluster.report (node : String) (status : JobStatus) (cluster : Cluster) : Cluster :=
  { cluster with jobs := fun ns name => (cluster.jobs ns name).map fun job =>
      if job.labels.lookup "certificates.rezzell.com/workflow-node" = some node then { job with status := status } else job }

def Cluster.deleteJob (node : String) (cluster : Cluster) : Cluster :=
  { cluster with jobs := fun ns name => (cluster.jobs ns name).filter fun job =>
      job.labels.lookup "certificates.rezzell.com/workflow-node" ≠ some node }

def completeStatus : JobStatus := { conditions := [{ type := .complete, status := .true }] }

def failedStatus : JobStatus := { conditions := [{ type := .failed, status := .true }] }

def flatSpec (names : List String) (parallelism : Int) (policy : FailurePolicy) : CertificateJobSpec where
  jobs := names.map fun name => { name := name }
  parallelism := some parallelism
  failurePolicy := policy

def Cluster.edit (spec : CertificateJobSpec) (cluster : Cluster) : Cluster :=
  { cluster with cjob := { cluster.cjob with spec := spec } }

def webCertificate : Certificate := { ns := "default", name := "web", spec := { secretName := "tls" } }

def sampleCluster (spec : CertificateJobSpec) : Cluster where
  cjob := { ns := "default", name := "renewal", spec := spec }
  certificates := [webCertificate]
  secrets := fun _ name => if name = "tls" then some { type := "kubernetes.io/tls" } else none

def Cluster.renew (cluster : Cluster) : Cluster :=
  { cluster with secrets := fun _ name => if name = "tls" then some { type := "Opaque" } else none }

def stillClock : Ambient := { clock := fun _ => 0 }

end CertificateJobs

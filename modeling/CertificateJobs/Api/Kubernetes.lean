import Mathlib.Data.List.AList

namespace CertificateJobs

/-- `metav1.Time` in whole seconds, which is all of it that its JSON encoding keeps. -/
abbrev Time := Nat

abbrev Labels := AList (fun _ : String => String)

instance : DecidableEq Labels := fun left right => decidable_of_iff (left.entries = right.entries) AList.ext_iff.symm

structure SeccompProfile where
  type : String
  deriving DecidableEq

structure Capabilities where
  add : List String := []
  drop : List String := []
  deriving DecidableEq

structure SecurityContext where
  capabilities : Option Capabilities := none
  privileged : Option Bool := none
  runAsUser : Option Int := none
  runAsNonRoot : Option Bool := none
  allowPrivilegeEscalation : Option Bool := none
  seccompProfile : Option SeccompProfile := none
  deriving DecidableEq

structure VolumeMount where
  name : String
  mountPath : String
  readOnly : Bool := false
  deriving DecidableEq

structure Container where
  name : String
  volumeMounts : List VolumeMount := []
  securityContext : Option SecurityContext := none
  deriving DecidableEq

/-- One projected source, reduced to whether it is a service account token. -/
structure VolumeProjection where
  serviceAccountToken : Bool := false
  deriving DecidableEq

/-- `others` names the sources that are set and that the operator never looks at. -/
structure Volume where
  name : String
  hostPath : Option String := none
  projected : Option (List VolumeProjection) := none
  secret : Option String := none
  others : List String := []
  deriving DecidableEq

structure PodSecurityContext where
  runAsUser : Option Int := none
  runAsNonRoot : Option Bool := none
  seccompProfile : Option SeccompProfile := none
  deriving DecidableEq

structure PodSpec where
  volumes : List Volume := []
  initContainers : List Container := []
  containers : List Container := []
  serviceAccountName : String := ""
  serviceAccount : String := ""
  automountServiceAccountToken : Option Bool := none
  hostNetwork : Bool := false
  hostPID : Bool := false
  hostIPC : Bool := false
  enableServiceLinks : Option Bool := none
  securityContext : Option PodSecurityContext := none
  deriving DecidableEq

structure PodTemplateSpec where
  labels : Labels := ∅
  spec : PodSpec := {}
  deriving DecidableEq

structure JobSpec where
  template : PodTemplateSpec := {}
  ttlSecondsAfterFinished : Option Int := none
  deriving DecidableEq

inductive JobConditionType
  | complete
  | failed
  | other (name : String)
  deriving DecidableEq

inductive ConditionStatus
  | true
  | false
  | unknown
  deriving DecidableEq

structure JobCondition where
  type : JobConditionType
  status : ConditionStatus
  deriving DecidableEq

structure JobStatus where
  conditions : List JobCondition := []
  active : Int := 0
  deriving DecidableEq

/-- `uid` is assigned by the API server, which also sets `deletionTimestamp` when a deletion is asked for; `controller` is
    the UID of the controlling owner. -/
structure Job where
  name : String
  ns : String
  uid : Nat := 0
  deletionTimestamp : Option Time := none
  labels : Labels := ∅
  annotations : Labels := ∅
  controller : Option Nat := none
  spec : JobSpec := {}
  status : JobStatus := {}
  deriving DecidableEq

def isJobComplete (job : Job) : Bool :=
  job.status.conditions.any fun cond => cond.type = .complete ∧ cond.status = .true

def isJobFailed (job : Job) : Bool :=
  job.status.conditions.any fun cond => cond.type = .failed ∧ cond.status = .true

/-- The part of a cert-manager certificate the operator reads; `rest` and `status` stand for the
    remaining fields, which only enter the input hash. -/
structure CertificateSpec where
  secretName : String
  rest : String := ""
  deriving DecidableEq

structure Certificate where
  ns : String
  name : String
  labels : Labels := ∅
  generation : Int := 0
  spec : CertificateSpec
  status : String := ""

structure Secret where
  type : String
  data : AList (fun _ : String => List UInt8) := ∅

structure LabelSelectorRequirement where
  key : String
  operator : String
  values : List String := []
  deriving DecidableEq

structure LabelSelector where
  matchLabels : Labels := ∅
  matchExpressions : List LabelSelectorRequirement := []
  deriving DecidableEq

structure Selector where
  empty : Bool
  accepts : Labels → Bool

inductive ApiError
  | notFound (text : String)
  | alreadyExists (text : String)
  | other (text : String)
  deriving DecidableEq

def ApiError.text : ApiError → String
  | .notFound text | .alreadyExists text | .other text => text

def ApiError.isNotFound : ApiError → Bool
  | .notFound _ => true
  | _ => false

structure Condition where
  type : String
  status : ConditionStatus
  observedGeneration : Int
  lastTransitionTime : Time
  reason : String
  message : String
  deriving DecidableEq

end CertificateJobs

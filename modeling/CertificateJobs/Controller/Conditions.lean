import CertificateJobs.Controller.Reconcile

namespace CertificateJobs

def findStatusCondition (conditions : List Condition) (type : String) : Option Condition :=
  conditions.find? (·.type = type)

def Shows (conditions : List Condition) (type : String) (status : ConditionStatus) (generation : Int)
    (reason message : String) : Prop :=
  ∃ since, findStatusCondition conditions type = some
    { type := type, status := status, observedGeneration := generation, lastTransitionTime := since, reason := reason,
      message := message }

section
variable {ext : External} (sets : ext.SetsConditions) {conditions : List Condition} {new : Condition}
include sets

theorem setStatusCondition_cons (first : Condition) (rest : List Condition) (new : Condition) :
    ext.setStatusCondition (first :: rest) new =
      if first.type = new.type then
        { new with lastTransitionTime :=
            if first.status = new.status then first.lastTransitionTime else new.lastTransitionTime } :: rest
      else first :: ext.setStatusCondition rest new := by
  by_cases here : first.type = new.type
  · rw [if_pos here]
    exact sets.updated [] first rest new (by simp) here
  rw [if_neg here]
  by_cases absent : ∀ old ∈ rest, old.type ≠ new.type
  · rw [sets.appended rest new absent, sets.appended (first :: rest) new (List.forall_mem_cons.mpr ⟨here, absent⟩)]
    rfl
  -- the first condition of the type lies in the rest
  · obtain ⟨before, old, after, rfl, others, found⟩ : ∃ before old after, rest = before ++ old :: after ∧
        (∀ earlier ∈ before, earlier.type ≠ new.type) ∧ old.type = new.type := by
      push Not at absent
      obtain ⟨witness, member, type⟩ := absent
      cases found : rest.find? (·.type = new.type) with
      | none => exact absurd (List.find?_eq_none.mp found witness member) (by simpa using type)
      | some old =>
        obtain ⟨holds, before, after, split, others⟩ := List.find?_eq_some_iff_append.mp found
        exact ⟨before, old, after, split, fun earlier member => by simpa using others earlier member, by simpa using holds⟩
    rw [sets.updated before old after new others found]
    exact sets.updated (first :: before) old after new (List.forall_mem_cons.mpr ⟨here, others⟩) found

theorem setStatusCondition_nil (new : Condition) : ext.setStatusCondition [] new = [new] :=
  sets.appended [] new (by simp)

theorem find_setStatusCondition (conditions : List Condition) (new : Condition) :
    ∃ since, findStatusCondition (ext.setStatusCondition conditions new) new.type =
      some { new with lastTransitionTime := since } := by
  induction conditions with
  | nil => exact ⟨new.lastTransitionTime, by simp [findStatusCondition, setStatusCondition_nil sets]⟩
  | cons first rest ih =>
    rw [setStatusCondition_cons sets]
    split
    · exact ⟨_, by simp [findStatusCondition]; rfl⟩
    · rename_i other
      obtain ⟨since, found⟩ := ih
      exact ⟨since, by simpa [findStatusCondition, List.find?_cons, other] using found⟩

theorem find_setStatusCondition_other {type : String} (other : type ≠ new.type) :
    findStatusCondition (ext.setStatusCondition conditions new) type = findStatusCondition conditions type := by
  induction conditions with
  | nil => simp [findStatusCondition, setStatusCondition_nil sets, other.symm]
  | cons first rest ih =>
    rw [setStatusCondition_cons sets]
    split
    · rename_i same
      simp [findStatusCondition, same, other.symm]
    · unfold findStatusCondition at ih ⊢
      rw [List.find?_cons, List.find?_cons, ih]

theorem setStatusCondition_shown {since : Time}
    (shown : findStatusCondition conditions new.type = some { new with lastTransitionTime := since }) :
    ext.setStatusCondition conditions new = conditions := by
  induction conditions with
  | nil => cases shown
  | cons first rest ih =>
    rw [setStatusCondition_cons sets]
    unfold findStatusCondition at shown ih
    rw [List.find?_cons] at shown
    split
    · rename_i same
      simp only [same, decide_true, Option.some.injEq] at shown
      rw [shown]
      simp
    · rename_i other
      simp only [other, decide_false] at shown
      rw [ih shown]

end

section
variable {ext : External} (sets : ext.SetsConditions) {ambient : Ambient} {cjob : CertificateJob}
  {conditions : List Condition} {type other : String} {status status' : ConditionStatus} {generation : Int}
  {reason message reason' message' : String}
include sets

theorem setCondition_shows (conditions : List Condition) :
    Shows (setCondition ext ambient cjob conditions type status reason message) type status cjob.generation reason
      message := find_setStatusCondition sets conditions _

theorem Shows.set (shown : Shows conditions type status generation reason message) (different : type ≠ other) :
    Shows (setCondition ext ambient cjob conditions other status' reason' message') type status generation reason
      message := by
  obtain ⟨since, found⟩ := shown
  exact ⟨since, (find_setStatusCondition_other sets different).trans found⟩

theorem Shows.again (shown : Shows conditions type status cjob.generation reason message) :
    setCondition ext ambient cjob conditions type status reason message = conditions := by
  obtain ⟨since, found⟩ := shown
  exact setStatusCondition_shown sets found

end

structure Setting where
  type : String
  status : ConditionStatus
  reason : String
  message : String

def Setting.ShownIn (setting : Setting) (conditions : List Condition) (generation : Int) : Prop :=
  Shows conditions setting.type setting.status generation setting.reason setting.message

def settle (ext : External) (ambient : Ambient) (cjob : CertificateJob) (conditions : List Condition) (settings : List Setting) :
    List Condition :=
  settings.foldl (fun conditions setting =>
    setCondition ext ambient cjob conditions setting.type setting.status setting.reason setting.message) conditions

section
variable {ext : External} (sets : ext.SetsConditions) {ambient : Ambient} {cjob : CertificateJob} {conditions : List Condition}
include sets

theorem Setting.ShownIn.settle {setting : Setting} {generation : Int} (settings : List Setting)
    (shown : setting.ShownIn conditions generation) (fresh : setting.type ∉ settings.map (·.type)) :
    setting.ShownIn (settle ext ambient cjob conditions settings) generation := by
  induction settings generalizing conditions with
  | nil => exact shown
  | cons first rest ih =>
    rw [List.map_cons, List.mem_cons, not_or] at fresh
    exact ih (shown.set sets fresh.1) fresh.2

theorem settle_shown (settings : List Setting) (conditions : List Condition)
    (distinct : (settings.map (·.type)).Nodup) :
    ∀ setting ∈ settings, setting.ShownIn (settle ext ambient cjob conditions settings) cjob.generation := by
  induction settings generalizing conditions with
  | nil => simp
  | cons first rest ih =>
    obtain ⟨fresh, distinct⟩ := List.nodup_cons.mp distinct
    intro setting member
    rcases List.mem_cons.mp member with rfl | later
    · exact Setting.ShownIn.settle sets rest (setCondition_shows sets conditions) fresh
    · exact ih _ distinct setting later

theorem settle_again (settings : List Setting)
    (shown : ∀ setting ∈ settings, setting.ShownIn conditions cjob.generation) :
    settle ext ambient cjob conditions settings = conditions := by
  induction settings with
  | nil => rfl
  | cons first rest ih =>
    have kept : setCondition ext ambient cjob conditions first.type first.status first.reason first.message = conditions :=
      Shows.again sets (shown first List.mem_cons_self)
    rw [settle, List.foldl_cons, kept]
    exact ih fun setting later => shown setting (List.mem_cons_of_mem _ later)

end

def workflowSettings (certificateCount : Nat) (progress : CertificateWorkflowProgress) : List Setting :=
  [if progress.anyFailed then ⟨"Degraded", .true, "WorkflowFailed", "one or more certificate workflows failed"⟩
   else ⟨"Degraded", .false, "AsExpected", "no failed workflows"⟩,
   if progress.anyFailed then ⟨"Ready", .false, "WorkflowFailed", "one or more certificate workflows failed"⟩
   else if certificateCount = 0 then ⟨"Ready", .true, "NoMatchingCertificates", "no matching certificates"⟩
   else ⟨"Ready", .true, "Reconciled", "certificate-job workflow is ready"⟩,
   if progress.anyInProgress then ⟨"Progressing", .true, "WorkflowRunning", "one or more workflows are running"⟩
   else ⟨"Progressing", .false, "AsExpected", "no workflows are running"⟩]

def invalidSpecSettings (err : String) : List Setting :=
  [⟨"Ready", .false, "InvalidSpec", err⟩,
   ⟨"Progressing", .false, "InvalidSpec", "reconciliation blocked by invalid spec"⟩,
   ⟨"Degraded", .true, "InvalidSpec", err⟩]

def listFailedSettings (err : String) : List Setting :=
  [⟨"Ready", .false, "ListFailed", err⟩,
   ⟨"Progressing", .false, "ListFailed", "unable to list matching certificates"⟩,
   ⟨"Degraded", .true, "ListFailed", err⟩]

theorem applyCertificateJobConditions_eq (ext : External) (ambient : Ambient) (cjob : CertificateJob) (count : Nat)
    (progress : CertificateWorkflowProgress) :
    applyCertificateJobConditions ext ambient cjob count progress =
      settle ext ambient cjob cjob.status.conditions (workflowSettings count progress) := by
  unfold applyCertificateJobConditions workflowSettings
  by_cases none : count = 0
  · cases progress.anyFailed <;> cases progress.anyInProgress <;> simp [settle, none]
  · cases progress.anyFailed <;> cases progress.anyInProgress <;> simp [settle, none]

theorem invalidSpecConditions_eq (ext : External) (ambient : Ambient) (cjob : CertificateJob) (err : String) :
    invalidSpecConditions ext ambient cjob err = settle ext ambient cjob cjob.status.conditions (invalidSpecSettings err) := rfl

theorem listFailedConditions_eq (ext : External) (ambient : Ambient) (cjob : CertificateJob) (err : String) :
    listFailedConditions ext ambient cjob err = settle ext ambient cjob cjob.status.conditions (listFailedSettings err) := rfl

theorem workflowSettings_types (count : Nat) (progress : CertificateWorkflowProgress) :
    (workflowSettings count progress).map (·.type) = ["Degraded", "Ready", "Progressing"] := by
  unfold workflowSettings
  by_cases none : count = 0
  · cases progress.anyFailed <;> cases progress.anyInProgress <;> simp [none]
  · cases progress.anyFailed <;> cases progress.anyInProgress <;> simp [none]

theorem workflowSettings_shown {ext : External} (sets : ext.SetsConditions) (ambient : Ambient) (cjob : CertificateJob) (count : Nat)
    (progress : CertificateWorkflowProgress) :
    ∀ setting ∈ workflowSettings count progress,
      setting.ShownIn (applyCertificateJobConditions ext ambient cjob count progress) cjob.generation := by
  rw [applyCertificateJobConditions_eq]
  exact settle_shown sets _ _ (by rw [workflowSettings_types]; decide)

theorem invalidSpecSettings_shown {ext : External} (sets : ext.SetsConditions) (ambient : Ambient) (cjob : CertificateJob) (err : String) :
    ∀ setting ∈ invalidSpecSettings err,
      setting.ShownIn (invalidSpecConditions ext ambient cjob err) cjob.generation := by
  have types : (invalidSpecSettings err).map (·.type) = ["Ready", "Progressing", "Degraded"] := rfl
  exact settle_shown sets _ _ (by rw [types]; decide)

theorem listFailedSettings_shown {ext : External} (sets : ext.SetsConditions) (ambient : Ambient) (cjob : CertificateJob) (err : String) :
    ∀ setting ∈ listFailedSettings err,
      setting.ShownIn (listFailedConditions ext ambient cjob err) cjob.generation := by
  have types : (listFailedSettings err).map (·.type) = ["Ready", "Progressing", "Degraded"] := rfl
  exact settle_shown sets _ _ (by rw [types]; decide)

end CertificateJobs

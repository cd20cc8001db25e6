import CertificateJobs.Controller.Conditions
import CertificateJobs.Library.KeyedBy
import CertificateJobs.Library.Lists
import CertificateJobs.Runs.Input

namespace CertificateJobs

def Condition.standing (condition : Condition) : Standing ConditionStatus Time where
  value := condition.status
  since := condition.lastTransitionTime

section
variable {ext : External} (sets : ext.SetsConditions)
include sets

theorem find_setStatusCondition_standing (conditions : List Condition) (new : Condition) :
    ∃ condition, findStatusCondition (ext.setStatusCondition conditions new) new.type = some condition ∧
      condition.standing = Standing.report ((findStatusCondition conditions new.type).map (·.standing)) new.status
        new.lastTransitionTime := by
  induction conditions with
  | nil => exact ⟨new, by simp [findStatusCondition, setStatusCondition_nil sets], rfl⟩
  | cons first rest ih =>
    rw [setStatusCondition_cons sets]
    split
    · rename_i same
      exact ⟨_, by simp [findStatusCondition]; rfl, by simp [findStatusCondition, same, Condition.standing, Standing.report]⟩
    · rename_i other
      obtain ⟨condition, found, standing⟩ := ih
      exact ⟨condition, by simpa [findStatusCondition, List.find?_cons, other] using found,
        by simpa [findStatusCondition, List.find?_cons, other] using standing⟩

theorem setStatusCondition_types (conditions : List Condition) (new : Condition) :
    (ext.setStatusCondition conditions new).map (·.type) =
      if new.type ∈ conditions.map (·.type) then conditions.map (·.type) else conditions.map (·.type) ++ [new.type] := by
  induction conditions with
  | nil => simp [setStatusCondition_nil sets]
  | cons first rest ih =>
    rw [setStatusCondition_cons sets]
    split
    · rename_i same
      simp [same]
    · rename_i other
      rw [List.map_cons, ih, List.map_cons]
      by_cases present : new.type ∈ rest.map (·.type)
      · rw [if_pos present, if_pos (List.mem_cons_of_mem _ present)]
      · rw [if_neg present, if_neg (by simpa [Ne.symm other] using present), List.cons_append]

end

section
variable {ext : External} (sets : ext.SetsConditions) {ambient : Ambient} {cjob : CertificateJob}
  {conditions : List Condition}
include sets

theorem settle_other {type : String} (settings : List Setting) (fresh : type ∉ settings.map (·.type)) :
    findStatusCondition (settle ext ambient cjob conditions settings) type = findStatusCondition conditions type := by
  induction settings generalizing conditions with
  | nil => rfl
  | cons first rest ih =>
    rw [List.map_cons, List.mem_cons, not_or] at fresh
    exact (ih fresh.2).trans (find_setStatusCondition_other sets fresh.1)

variable (ambient cjob) in
theorem settle_standing (settings : List Setting) (conditions : List Condition)
    (distinct : (settings.map (·.type)).Nodup) :
    ∀ setting ∈ settings, ∃ condition,
      findStatusCondition (settle ext ambient cjob conditions settings) setting.type = some condition ∧
      condition.standing = Standing.report ((findStatusCondition conditions setting.type).map (·.standing))
        setting.status (ambient.clock (.setCondition setting.type)) := by
  induction settings generalizing conditions with
  | nil => simp
  | cons first rest ih =>
    obtain ⟨fresh, distinct⟩ := List.nodup_cons.mp distinct
    intro setting member
    rcases List.mem_cons.mp member with rfl | later
    · obtain ⟨condition, found, standing⟩ := find_setStatusCondition_standing sets conditions
        { type := setting.type, status := setting.status, observedGeneration := cjob.generation,
          lastTransitionTime := ambient.clock (.setCondition setting.type), reason := setting.reason,
          message := setting.message }
      exact ⟨condition, (settle_other sets rest fresh).trans found, standing⟩
    · obtain ⟨condition, found, standing⟩ := ih
        (setCondition ext ambient cjob conditions first.type first.status first.reason first.message) distinct setting later
      have apart : setting.type ≠ first.type := fun same => fresh (List.mem_map.mpr ⟨setting, later, same⟩)
      have untouched : findStatusCondition
          (setCondition ext ambient cjob conditions first.type first.status first.reason first.message) setting.type =
        findStatusCondition conditions setting.type := find_setStatusCondition_other sets apart
      rw [untouched] at standing
      exact ⟨condition, found, standing⟩

variable (ambient cjob) in
theorem settle_types (settings : List Setting) {known : List String}
    (inside : ∀ setting ∈ settings, setting.type ∈ known) (before : ∀ condition ∈ conditions, condition.type ∈ known)
    (unique : (conditions.map (·.type)).Nodup) :
    ((settle ext ambient cjob conditions settings).map (·.type)).Nodup ∧
      ∀ condition ∈ settle ext ambient cjob conditions settings, condition.type ∈ known := by
  induction settings generalizing conditions with
  | nil => exact ⟨unique, before⟩
  | cons first rest ih =>
    obtain ⟨here, others⟩ := List.forall_mem_cons.mp inside
    have types : (setCondition ext ambient cjob conditions first.type first.status first.reason first.message).map (·.type) =
      if first.type ∈ conditions.map (·.type) then conditions.map (·.type)
      else conditions.map (·.type) ++ [first.type] := setStatusCondition_types sets conditions _
    refine ih others ?_ ?_
    · rw [← List.forall_mem_map (P := (· ∈ known)), types]
      have old := (List.forall_mem_map (P := (· ∈ known))).mpr before
      split
      · exact old
      · exact List.forall_mem_append.mpr ⟨old, by simpa using here⟩
    · rw [types]
      split
      · exact unique
      · rename_i absent
        exact List.nodup_append.mpr ⟨unique, List.nodup_singleton _, by
          intro a member b single
          rw [List.mem_singleton.mp single]
          exact fun same => absent (same ▸ member)⟩

end

def conditionTypes : List String := ["Ready", "Progressing", "Degraded"]

def Opposed (left right : ConditionStatus) : Prop :=
  (left = .true ∧ right = .false) ∨ (left = .false ∧ right = .true)

structure Assesses (settings : List Setting) : Prop where
  types : (settings.map (·.type)).Perm conditionTypes
  opposed : ∃ ready ∈ settings, ∃ degraded ∈ settings, ready.type = "Ready" ∧ degraded.type = "Degraded" ∧
    Opposed ready.status degraded.status

theorem workflowSettings_assess (count : Nat) (progress : CertificateWorkflowProgress) :
    Assesses (workflowSettings count progress) where
  types := by
    rw [workflowSettings_types]
    decide
  opposed := by
    refine ⟨_, List.mem_cons_of_mem _ List.mem_cons_self, _, List.mem_cons_self, ?_⟩
    cases progress.anyFailed <;> by_cases none : count = 0 <;> simp [Opposed, none]

theorem refused_assess {settings : List Setting} {reason ready message degraded : String}
    (refused : settings = [⟨"Ready", .false, reason, ready⟩, ⟨"Progressing", .false, reason, message⟩,
      ⟨"Degraded", .true, reason, degraded⟩]) : Assesses settings where
  types := by
    rw [refused]
    exact List.Perm.refl _
  opposed := by
    rw [refused]
    exact ⟨_, List.mem_cons_self, _, List.mem_cons_of_mem _ (List.mem_cons_of_mem _ List.mem_cons_self), rfl, rfl,
      .inr ⟨rfl, rfl⟩⟩

section
variable {σ : Type} (c : Client σ) (ext : External)

def JobPass.reports (pass : JobPass σ) : Option (List Setting) :=
  match buildWorkflowContext ext pass.ambient pass.cjob with
  | .error e => some (invalidSpecSettings e)
  | .ok workflowCtx =>
    match listMatchingCertificates c ext pass.cjob pass.client with
    | .error e => some (listFailedSettings e.text)
    | .ok certificates =>
      (certificates.foldlM (sweepCertificate c ext pass.ambient pass.cjob workflowCtx)
        { observed := pass.cjob.status.observedCertificates
          stateIndex := observedStateIndex pass.cjob.status.observedCertificates
          matchedKeys := [], progress := {}, calls := [], client := pass.client }).map
        fun sweep => workflowSettings certificates.length sweep.progress

variable {c ext}

/-- Whichever way a reconcile ends, it reports on all three conditions. -/
theorem JobPass.reports_assess {pass : JobPass σ} {out : JobOutcome σ}
    (result : reconcileCertificateJob c ext pass.ambient pass.cjob pass.client = some out) :
    ∃ settings, pass.reports c ext = some settings ∧ Assesses settings ∧
      out.status.conditions = settle ext pass.ambient pass.cjob pass.cjob.status.conditions settings := by
  unfold reconcileCertificateJob at result
  unfold JobPass.reports
  cases context : buildWorkflowContext ext pass.ambient pass.cjob with
  | error e =>
    rw [context] at result
    obtain rfl := Option.some.inj result
    exact ⟨_, rfl, refused_assess rfl, invalidSpecConditions_eq _ _ _ _⟩
  | ok workflowCtx =>
    rw [context] at result
    cases listed : listMatchingCertificates c ext pass.cjob pass.client with
    | error e =>
      rw [listed] at result
      obtain rfl := Option.some.inj result
      exact ⟨_, rfl, refused_assess rfl, listFailedConditions_eq _ _ _ _⟩
    | ok certificates =>
      rw [listed] at result
      obtain ⟨last, swept, result⟩ := Option.bind_eq_some_iff.mp result
      obtain rfl := Option.some.inj result
      simp only [swept, Option.map_some]
      exact ⟨_, rfl, workflowSettings_assess _ _, applyCertificateJobConditions_eq _ _ _ _ _⟩

structure ConditionHistory where
  status : CertificateJobStatus
  log : String → List (ConditionStatus × Time)

def ConditionHistory.next (h : ConditionHistory) (pass : JobPass σ) (settings : List Setting) (out : JobOutcome σ) :
    ConditionHistory where
  status := out.status
  log type := h.log type ++ (settings.filter (·.type = type)).map fun setting =>
    (setting.status, pass.ambient.clock (.setCondition type))

def conditionMachine (c : Client σ) (ext : External) : Machine ConditionHistory (JobPass σ) where
  start h := h = ⟨{}, fun _ => []⟩
  step h pass next := pass.cjob.status = h.status ∧
    ∃ settings out, pass.reports c ext = some settings ∧
      reconcileCertificateJob c ext pass.ambient pass.cjob pass.client = some out ∧
      (next = h.next pass settings out ∨ next = h)

/-- Nothing was reported yet, or there is one condition of each type, it goes back to the first of the reports that agree
    with it, and Ready and Degraded are opposed. -/
def ConditionHistory.Kept (h : ConditionHistory) : Prop :=
  (h.status.conditions = [] ∧ ∀ type, h.log type = []) ∨
  ((h.status.conditions.map (·.type)).Perm conditionTypes ∧
    (∀ condition ∈ h.status.conditions, condition.standing.EndsLog (h.log condition.type)) ∧
    ∃ ready ∈ h.status.conditions, ∃ degraded ∈ h.status.conditions, ready.type = "Ready" ∧
      degraded.type = "Degraded" ∧ Opposed ready.status degraded.status)

theorem ConditionHistory.Kept.types {h : ConditionHistory} (kept : h.Kept) :
    (h.status.conditions.map (·.type)).Nodup ∧ ∀ condition ∈ h.status.conditions, condition.type ∈ conditionTypes := by
  rcases kept with ⟨empty, -⟩ | ⟨types, -⟩
  · rw [empty]
    simp
  · refine ⟨types.nodup_iff.mpr (by decide), fun condition member => ?_⟩
    exact types.mem_iff.mp (List.mem_map_of_mem member)

theorem find_of_type {conditions : List Condition} {type : String} (present : type ∈ conditions.map (·.type)) :
    findStatusCondition conditions type ≠ none := by
  obtain ⟨condition, member, rfl⟩ := List.mem_map.mp present
  intro missing
  simpa using List.find?_eq_none.mp missing condition member

theorem ConditionHistory.Kept.reported {h : ConditionHistory} (kept : h.Kept) {type : String}
    (known : type ∈ conditionTypes) (status : ConditionStatus) (now : Time) :
    (Standing.report ((findStatusCondition h.status.conditions type).map (·.standing)) status now).EndsLog
      (h.log type ++ [(status, now)]) := by
  rcases kept with ⟨empty, silent⟩ | ⟨types, stands, -⟩
  · rw [empty, silent]
    exact Standing.endsLog_first status now
  · obtain ⟨condition, found⟩ := Option.ne_none_iff_exists'.mp (find_of_type (types.mem_iff.mpr known))
    obtain ⟨member, rfl⟩ := KeyedBy.takeFrom_key found
    rw [found]
    exact (stands condition member).report status now

theorem filter_type {settings : List Setting} (distinct : (settings.map (·.type)).Nodup) {setting : Setting}
    (member : setting ∈ settings) : settings.filter (·.type = setting.type) = [setting] := by
  induction settings with
  | nil => cases member
  | cons first rest ih =>
    obtain ⟨fresh, distinct⟩ := List.nodup_cons.mp distinct
    rcases List.mem_cons.mp member with rfl | later
    · have none : rest.filter (·.type = setting.type) = [] := List.filter_eq_nil_iff.mpr fun other present => by
        simpa using fun same => fresh (List.mem_map.mpr ⟨other, present, same⟩)
      rw [List.filter_cons_of_pos (by simp), none]
    · have other : first.type ≠ setting.type := fun same => fresh (List.mem_map.mpr ⟨setting, later, same.symm⟩)
      rw [List.filter_cons_of_neg (by simpa using other), ih distinct later]

theorem ConditionHistory.Kept.next (sets : ext.SetsConditions) {h : ConditionHistory} (kept : h.Kept) {pass : JobPass σ}
    (same : pass.cjob.status = h.status) {settings : List Setting} {out : JobOutcome σ}
    (reports : pass.reports c ext = some settings)
    (result : reconcileCertificateJob c ext pass.ambient pass.cjob pass.client = some out) :
    (h.next pass settings out).Kept := by
  obtain ⟨made, reports', assesses, settled⟩ := JobPass.reports_assess result
  obtain rfl := Option.some.inj (reports.symm.trans reports')
  rw [same] at settled
  have distinct : (settings.map (·.type)).Nodup := assesses.types.nodup_iff.mpr (by decide)
  have inside : ∀ setting ∈ settings, setting.type ∈ conditionTypes :=
    fun setting member => assesses.types.mem_iff.mp (List.mem_map_of_mem member)
  obtain ⟨unique, known⟩ := settle_types sets pass.ambient pass.cjob settings inside kept.types.2 kept.types.1
  rw [← settled] at unique known
  -- Every setting is found again in the conditions, standing as a report to what stood before.
  have stands : ∀ setting ∈ settings, ∃ condition ∈ out.status.conditions, condition.type = setting.type ∧
      condition.status = setting.status ∧ condition.standing.EndsLog ((h.next pass settings out).log condition.type) := by
    intro setting member
    obtain ⟨condition, found, standing⟩ := settle_standing sets pass.ambient pass.cjob settings h.status.conditions
      distinct setting member
    rw [← settled] at found
    obtain ⟨present, type⟩ := KeyedBy.takeFrom_key found
    have status : condition.status = setting.status := congrArg Standing.value standing
    refine ⟨condition, present, type, status, ?_⟩
    have ends := kept.reported (inside setting member) setting.status (pass.ambient.clock (.setCondition setting.type))
    rw [← standing] at ends
    simpa only [ConditionHistory.next, type, filter_type distinct member, List.map_cons, List.map_nil] using ends
  refine .inr ⟨?_, ?_, ?_⟩
  · refine (List.perm_ext_iff_of_nodup unique (by decide)).mpr fun type => ⟨?_, fun wanted => ?_⟩
    · intro present
      obtain ⟨condition, member, rfl⟩ := List.mem_map.mp present
      exact known condition member
    · obtain ⟨setting, member, rfl⟩ := List.mem_map.mp (assesses.types.mem_iff.mpr wanted)
      obtain ⟨condition, present, type, -⟩ := stands setting member
      exact List.mem_map.mpr ⟨condition, present, type⟩
  · intro condition member
    obtain ⟨setting, reported, type⟩ := List.mem_map.mp (assesses.types.mem_iff.mpr (known condition member))
    obtain ⟨other, present, type', -, ends⟩ := stands setting reported
    obtain rfl := List.inj_on_of_nodup_map unique present member (type'.trans type)
    exact ends
  · obtain ⟨ready, reported, degraded, reported', type, type', opposed⟩ := assesses.opposed
    obtain ⟨condition, present, same, status, -⟩ := stands ready reported
    obtain ⟨condition', present', same', status', -⟩ := stands degraded reported'
    exact ⟨condition, present, condition', present', same.trans type, same'.trans type', by rw [status, status']; exact opposed⟩

end

/-- Along every history of reconciles, whatever they meet and whichever of their writes are lost, each condition's
    transition time is that of the first of the latest reports that agree, and Ready and Degraded never agree. -/
theorem conditions_keep_history {σ : Type} (c : Client σ) (ext : External) (sets : ext.SetsConditions)
    (h : ConditionHistory) (reached : (conditionMachine c ext).Reached (fun _ _ => True) h) : h.Kept := by
  refine reached.invariant ConditionHistory.Kept ?_ ?_
  · rintro h rfl
    exact .inl ⟨rfl, fun _ => rfl⟩
  · rintro h pass next kept - ⟨same, settings, out, reports, result, rfl | rfl⟩
    · exact kept.next sets same reports result
    · exact kept

def playReports (h : ConditionHistory) : List (List String × Time) → Option ConditionHistory
  | [] => some h
  | (jobs, now) :: rest =>
    let cluster := { sampleCluster (flatSpec jobs 1 .stopDownstream) with certificates := [] }
    let pass : JobPass Cluster := ⟨{ clock := fun _ => now }, { cluster.cjob with status := h.status }, cluster⟩
    (pass.reports clusterClient plainExternal).bind fun settings =>
      (reconcileCertificateJob clusterClient plainExternal pass.ambient pass.cjob pass.client).bind fun out =>
        playReports (h.next pass settings out) rest

theorem playReports_reached (reports : List (List String × Time)) {h last : ConditionHistory}
    (reached : (conditionMachine clusterClient plainExternal).Reached (fun _ _ => True) h)
    (played : playReports h reports = some last) :
    (conditionMachine clusterClient plainExternal).Reached (fun _ _ => True) last := by
  induction reports generalizing h with
  | nil =>
    obtain rfl := Option.some.inj played
    exact reached
  | cons report rest ih =>
    obtain ⟨settings, reports, played⟩ := Option.bind_eq_some_iff.mp played
    obtain ⟨out, performed, played⟩ := Option.bind_eq_some_iff.mp played
    exact ih (reached.step trivial ⟨rfl, settings, out, reports, performed, .inl rfl⟩) played

/-- The spec is invalid at 5 and at 9 and valid at 12. -/
theorem conditions_keep_history_repaired :
    ∃ h : ConditionHistory, (conditionMachine clusterClient plainExternal).Reached (fun _ _ => True) h ∧ h.Kept ∧
      h.status.conditions.map (fun condition => (condition.type, condition.status, condition.lastTransitionTime)) =
        [("Ready", .true, 12), ("Progressing", .false, 5), ("Degraded", .false, 12)] := by
  have played : (playReports ⟨{}, fun _ => []⟩ [([], 5), ([], 9), (["a"], 12)]).any (fun h =>
      h.status.conditions.map (fun condition => (condition.type, condition.status, condition.lastTransitionTime)) =
        [("Ready", .true, 12), ("Progressing", .false, 5), ("Degraded", .false, 12)]) = true := by
    decide +kernel
  obtain ⟨last, played, shown⟩ := (Option.any_eq_true _ _).mp played
  have reached := playReports_reached _ (.of_start rfl) played
  exact ⟨last, reached, conditions_keep_history clusterClient plainExternal plainExternal_setsConditions last reached, of_decide_eq_true shown⟩

end CertificateJobs

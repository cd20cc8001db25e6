import CertificateJobs.Workflow.Objects

namespace CertificateJobs

section
variable {σ Object : Type} {c : Client σ} (view : PerObject c Object)

def PerObject.Holds (s : σ) (ns name : String) : Prop :=
  ∃ kind, view.seen (view.object s ns name) = .ok kind ∧ kind ≠ .missing

def PerObject.after (ns name : String) (calls : List CreateCall) (object : Object) : Object :=
  calls.foldl (fun object call =>
    if ns = call.job.ns ∧ name = call.job.name then (view.create object call.job).2 else object) object

theorem PerObject.after_append (ns name : String) (early late : List CreateCall) (object : Object) :
    view.after ns name (early ++ late) object = view.after ns name late (view.after ns name early object) :=
  List.foldl_append

theorem PerObject.after_untouched {ns name : String} {calls : List CreateCall} (object : Object)
    (apart : ∀ call ∈ calls, ¬ (ns = call.job.ns ∧ name = call.job.name)) : view.after ns name calls object = object := by
  induction calls with
  | nil => rfl
  | cons call rest ih =>
    obtain ⟨first, later⟩ := List.forall_mem_cons.mp apart
    rw [PerObject.after, List.foldl_cons, if_neg first]
    exact ih later

theorem PerObject.after_congr (ns name : String) {left right : List CreateCall}
    (same : left.map (·.job) = right.map (·.job)) (object : Object) :
    view.after ns name left object = view.after ns name right object := by
  induction left generalizing right object with
  | nil => rw [List.map_eq_nil_iff.mp same.symm]
  | cons call rest ih =>
    obtain ⟨first, later, rfl, job, others⟩ := List.map_eq_cons_iff.mp same.symm
    simp only [PerObject.after, List.foldl_cons, job] at ih ⊢
    exact ih others.symm _

variable (cjob : CertificateJob) (certificate : Certificate) (runID : String) {s : σ}

theorem provideJob_cases (nodeName : String) (nodes : List WorkflowNodeState) (s : σ) :
    let name := buildJobName cjob.name certificate.name nodeName runID
    let assembled := assembleJob cjob certificate nodeName runID
    let round := provideJob c cjob certificate runID nodeName nodes s
    (∃ e, view.seen (view.object s certificate.ns name) = .error e ∧ round = (some e, [], s)) ∨
    (view.Holds s certificate.ns name ∧ round = (none, [], s)) ∨
    (view.seen (view.object s certificate.ns name) = .ok .missing ∧
      ((∃ e, c.setControllerReference s cjob assembled = .error e ∧ round = (some e, [], s)) ∨
        ∃ job, c.setControllerReference s cjob assembled = .ok job ∧
          round = (refusal (c.createJob s job).1, [⟨nodeName, job, nodes, (c.createJob s job).1.toOption⟩],
            (c.createJob s job).2))) := by
  intro name assembled round
  have read := view.get s certificate.ns name
  have known : round = _ := provideJob_sight c cjob certificate runID nodeName nodes s
  rw [read] at known
  cases seen : view.seen (view.object s certificate.ns name) with
  | error e =>
    rw [seen] at known
    exact .inl ⟨e, rfl, known⟩
  | ok kind =>
    rw [seen] at known
    cases kind with
    | complete | failed | active | idle => exact .inr (.inl ⟨⟨_, seen, by simp⟩, known⟩)
    | missing =>
      refine .inr (.inr ⟨rfl, ?_⟩)
      cases owned : c.setControllerReference s cjob assembled with
      | error e =>
        simp only [sendJob, assembled, owned] at known
        exact .inl ⟨e, rfl, known⟩
      | ok job =>
        simp only [sendJob, assembled, owned] at known
        exact .inr ⟨job, rfl, known⟩

/-- Whatever a round does to the cluster, its calls do. -/
theorem provideJob_effect (nodeName : String) (nodes : List WorkflowNodeState) (s : σ) (ns name : String) :
    view.object (provideJob c cjob certificate runID nodeName nodes s).2.2 ns name =
      view.after ns name (provideJob c cjob certificate runID nodeName nodes s).2.1 (view.object s ns name) := by
  rcases provideJob_cases view cjob certificate runID nodeName nodes s with
    ⟨e, -, round⟩ | ⟨-, round⟩ | ⟨-, ⟨e, -, round⟩ | ⟨job, -, round⟩⟩
  · rw [round]
    rfl
  · rw [round]
    rfl
  · rw [round]
    rfl
  · rw [round]
    simp only [PerObject.after, List.foldl_cons, List.foldl_nil]
    split
    · rename_i here
      rw [here.1, here.2, view.stored]
    · rename_i other
      exact view.others s job ns name other

omit view in
theorem scheduleNodes_cons {now : Time} {node : String} {rest : List String} {slots : Int}
    {nodes : List WorkflowNodeState} {out : Scheduling σ}
    (result : scheduleNodes c cjob certificate runID now (node :: rest) slots nodes s = some out) :
    (slots = 0 ∧ out = ⟨nodes, none, [], s⟩) ∨
    (slots ≠ 0 ∧ ∃ e calls after, provideJob c cjob certificate runID node nodes s = (some e, calls, after) ∧
      out = ⟨nodes, some e, calls, after⟩) ∨
    (slots ≠ 0 ∧ ∃ calls after next later, provideJob c cjob certificate runID node nodes s = (none, calls, after) ∧
      updateNode nodes node (markStarted (buildJobName cjob.name certificate.name node runID) now) = some next ∧
      scheduleNodes c cjob certificate runID now rest (slots - 1) next after = some later ∧
      out = { later with calls := calls ++ later.calls }) := by
  unfold scheduleNodes at result
  split at result
  · rename_i full
    exact .inl ⟨full, (Option.some.inj result).symm⟩
  · rename_i free
    split at result
    · rename_i e calls after round
      exact .inr (.inl ⟨free, e, calls, after, round, (Option.some.inj result).symm⟩)
    · rename_i calls after round
      obtain ⟨next, marked, result⟩ := Option.bind_eq_some_iff.mp result
      obtain ⟨later, scheduled, result⟩ := Option.bind_eq_some_iff.mp result
      exact .inr (.inr ⟨free, calls, after, next, later, round, marked, scheduled, (Option.some.inj result).symm⟩)

theorem scheduleNodes_effect (now : Time) (names : List String) (slots : Int) (nodes : List WorkflowNodeState)
    (ns name : String) {out : Scheduling σ}
    (result : scheduleNodes c cjob certificate runID now names slots nodes s = some out) :
    view.object out.client ns name = view.after ns name out.calls (view.object s ns name) := by
  induction names generalizing slots nodes s out with
  | nil =>
    obtain rfl := Option.some.inj result
    rfl
  | cons node rest ih =>
    have first := provideJob_effect view cjob certificate runID node nodes s ns name
    rcases scheduleNodes_cons cjob certificate runID result with
      ⟨-, rfl⟩ | ⟨-, e, calls, after, round, rfl⟩ | ⟨-, calls, after, next, later, round, -, scheduled, rfl⟩
    · rfl
    · rw [round] at first
      exact first
    · rw [round] at first
      rw [PerObject.after_append, ← first]
      exact ih (slots - 1) next scheduled

theorem reconcileCertificateRun_effect {ambient : Ambient} {state : CertificateExecutionState} {graph : GraphMaps}
    {run : RunOutcome σ} (result : reconcileCertificateRun c ambient cjob certificate state graph s = some run)
    (ns name : String) : view.object run.client ns name = view.after ns name run.calls (view.object s ns name) := by
  simp only [reconcileCertificateRun] at result
  split at result
  · obtain rfl := Option.some.inj result
    rfl
  · obtain ⟨remaining, -, result⟩ := Option.bind_eq_some_iff.mp result
    obtain ⟨scheduling, filled, result⟩ := Option.bind_eq_some_iff.mp result
    obtain rfl := Option.some.inj result
    rw [concludeRun_calls, concludeRun_client]
    unfold fillSlots at filled
    split at filled
    · obtain ⟨runnable, -, scheduled⟩ := Option.bind_eq_some_iff.mp filled
      exact scheduleNodes_effect view cjob certificate state.runID _ _ _ _ ns name scheduled
    · obtain rfl := Option.some.inj filled
      rfl

end

end CertificateJobs

import CertificateJobs.Controller.Run
import CertificateJobs.Workflow.NodeEffects

namespace CertificateJobs

def observed (getJob : String → Except ApiError Job) (now : Time) (node : WorkflowNodeState) : WorkflowNodeState :=
  if node.jobName = "" then node
  else match sight (getJob node.jobName) with
    | .ok seen => writeSight now node seen
    | .error _ => node

def Seen (getJob : String → Except ApiError Job) (node : WorkflowNodeState) (seen : Sight) : Prop :=
  node.jobName ≠ "" ∧ sight (getJob node.jobName) = .ok seen

section
variable {getJob : String → Except ApiError Job} {now : Time}

theorem observed_idle {node : WorkflowNodeState} (none : node.jobName = "") : observed getJob now node = node := by
  simp [observed, none]

theorem observed_seen {node : WorkflowNodeState} {seen : Sight} (read : Seen getJob node seen) :
    observed getJob now node = writeSight now node seen := by
  simp [observed, read.1, read.2]

theorem observed_error {node : WorkflowNodeState} {e : ApiError} (read : sight (getJob node.jobName) = .error e) :
    observed getJob now node = node := by
  simp [observed, read]

theorem observed_cases (getJob : String → Except ApiError Job) (now : Time) (node : WorkflowNodeState) :
    observed getJob now node = node ∨ ∃ seen, Seen getJob node seen ∧ observed getJob now node = writeSight now node seen := by
  by_cases none : node.jobName = ""
  · exact .inl (observed_idle none)
  · cases read : sight (getJob node.jobName) with
    | error e => exact .inl (observed_error read)
    | ok seen => exact .inr ⟨seen, ⟨none, read⟩, observed_seen ⟨none, read⟩⟩

@[simp] theorem writeSight_name (node : WorkflowNodeState) (seen : Sight) : (writeSight now node seen).name = node.name := by
  cases seen <;> simp only [writeSight]
  split <;> rfl

@[simp] theorem writeSight_jobName (node : WorkflowNodeState) (seen : Sight) :
    (writeSight now node seen).jobName = node.jobName := by
  cases seen <;> simp only [writeSight]
  split <;> rfl

@[simp] theorem observed_name (node : WorkflowNodeState) : (observed getJob now node).name = node.name := by
  rcases observed_cases getJob now node with same | ⟨seen, -, write⟩
  · rw [same]
  · rw [write, writeSight_name]

/-- The loop stops at the first read that fails: a set of nodes went through a round, the others are untouched. -/
structure Observes (getJob : String → Except ApiError Job) (now : Time) (nodes : List WorkflowNodeState)
    (out : Observation) (processed : List String) : Prop where
  result : out.nodes = nodes.map fun node => if node.name ∈ processed then observed getJob now node else node
  reads : ∀ node ∈ nodes, node.name ∈ processed → node.jobName ≠ "" →
    ∃ seen, Seen getJob node seen ∧ ⟨node.name, node.jobName, seen⟩ ∈ out.sightings
  record : ∀ line ∈ out.sightings, ∃ node ∈ nodes, node.name ∈ processed ∧ line.node = node.name ∧
    line.jobName = node.jobName ∧ Seen getJob node line.seen
  whole : out.err = none → ∀ node ∈ nodes, node.name ∈ processed
  active : out.err = none → out.activeCount =
    nodes.countP fun node => node.jobName ≠ "" ∧ (sight (getJob node.jobName)).toOption.any (countsActive node)
  failed : out.err = none → ∀ name, name ∈ out.failedNodes ↔
    ∃ node ∈ nodes, node.name = name ∧ ∃ seen, Seen getJob node seen ∧ seen.isFailure = true

theorem map_processed_cons {node : WorkflowNodeState} {rest : List WorkflowNodeState} (fresh : node.name ∉ nodeNames rest)
    (processed : List String) :
    (rest.map fun n => if n.name ∈ node.name :: processed then observed getJob now n else n) =
      rest.map fun n => if n.name ∈ processed then observed getJob now n else n := by
  apply List.map_congr_left
  intro n member
  have different : n.name ≠ node.name := by
    intro same
    exact fresh (same ▸ List.mem_map_of_mem member)
  simp [different]

theorem Observes.skip {node : WorkflowNodeState} {rest : List WorkflowNodeState} {out : Observation}
    {processed : List String} (after : Observes getJob now rest out processed) (fresh : node.name ∉ nodeNames rest)
    (none : node.jobName = "") :
    Observes getJob now (node :: rest) { out with nodes := node :: out.nodes } (node.name :: processed) := by
  refine ⟨?_, ?_, ?_, ?_, ?_, ?_⟩
  · rw [List.map_cons, map_processed_cons fresh, ← after.result]
    simp [observed_idle none]
  · intro n member inside has
    rcases List.mem_cons.mp member with rfl | member
    · exact absurd none has
    · refine after.reads n member ?_ has
      rcases List.mem_cons.mp inside with same | inside
      · exact absurd (same ▸ List.mem_map_of_mem member) fresh
      · exact inside
  · intro line inside
    obtain ⟨n, member, went, rest⟩ := after.record line inside
    exact ⟨n, List.mem_cons_of_mem _ member, List.mem_cons_of_mem _ went, rest⟩
  · intro ok n member
    rcases List.mem_cons.mp member with rfl | member
    · exact List.mem_cons_self
    · exact List.mem_cons_of_mem _ (after.whole ok n member)
  · intro ok
    simpa [none] using after.active ok
  · intro ok name
    rw [after.failed ok name]
    constructor
    · rintro ⟨n, member, named⟩
      exact ⟨n, List.mem_cons_of_mem _ member, named⟩
    · rintro ⟨n, member, named, seen, read, failure⟩
      rcases List.mem_cons.mp member with rfl | member
      · exact absurd none read.1
      · exact ⟨n, member, named, seen, read, failure⟩

theorem Observes.push {node : WorkflowNodeState} {rest : List WorkflowNodeState} {out : Observation}
    {processed : List String} {seen : Sight} (after : Observes getJob now rest out processed)
    (fresh : node.name ∉ nodeNames rest) (read : Seen getJob node seen) :
    Observes getJob now (node :: rest) (out.push node now seen) (node.name :: processed) := by
  have nodes : (out.push node now seen).nodes = writeSight now node seen :: out.nodes := by
    unfold Observation.push
    cases out.err <;> rfl
  have sightings : (out.push node now seen).sightings = ⟨node.name, node.jobName, seen⟩ :: out.sightings := by
    unfold Observation.push
    cases out.err <;> rfl
  have err : (out.push node now seen).err = out.err := by
    unfold Observation.push
    cases h : out.err <;> rfl
  refine ⟨?_, ?_, ?_, ?_, ?_, ?_⟩
  · rw [nodes, List.map_cons, map_processed_cons fresh, ← after.result]
    simp [observed_seen read]
  · intro n member inside has
    rw [sightings]
    rcases List.mem_cons.mp member with rfl | member
    · exact ⟨seen, read, List.mem_cons_self⟩
    · rcases List.mem_cons.mp inside with same | inside
      · exact absurd (same ▸ List.mem_map_of_mem member) fresh
      · obtain ⟨other, readOther, line⟩ := after.reads n member inside has
        exact ⟨other, readOther, List.mem_cons_of_mem _ line⟩
  · rw [sightings]
    intro line inside
    rcases List.mem_cons.mp inside with rfl | inside
    · exact ⟨node, List.mem_cons_self, List.mem_cons_self, rfl, rfl, read⟩
    · obtain ⟨n, member, went, others⟩ := after.record line inside
      exact ⟨n, List.mem_cons_of_mem _ member, List.mem_cons_of_mem _ went, others⟩
  · rw [err]
    intro ok n member
    rcases List.mem_cons.mp member with rfl | member
    · exact List.mem_cons_self
    · exact List.mem_cons_of_mem _ (after.whole ok n member)
  · rw [err]
    intro ok
    have count := after.active ok
    simp only [Observation.push, ok, List.countP_cons, count, read.1, read.2, Except.toOption, Option.any_some,
      ne_eq, not_false_eq_true, true_and, decide_eq_true_eq]
  · rw [err]
    intro ok name
    have members := after.failed ok name
    have split : name ∈ (out.push node now seen).failedNodes ↔
        (name = node.name ∧ seen.isFailure = true) ∨ name ∈ out.failedNodes := by
      simp only [Observation.push, ok]
      cases failure : seen.isFailure <;> simp
    rw [split, members]
    constructor
    · rintro (⟨rfl, failure⟩ | ⟨n, member, named⟩)
      · exact ⟨node, List.mem_cons_self, rfl, seen, read, failure⟩
      · exact ⟨n, List.mem_cons_of_mem _ member, named⟩
    · rintro ⟨n, member, named, other, readOther, failure⟩
      rcases List.mem_cons.mp member with rfl | member
      · have same : seen = other := Except.ok.inj (read.2.symm.trans readOther.2)
        exact .inl ⟨named.symm, same ▸ failure⟩
      · exact .inr ⟨n, member, named, other, readOther, failure⟩

theorem observeWorkflowNodeJobs_spec (nodes : List WorkflowNodeState) (unique : (nodeNames nodes).Nodup) :
    ∃ processed, Observes getJob now nodes (observeWorkflowNodeJobs getJob now nodes) processed := by
  induction nodes with
  | nil => exact ⟨[], by simp [observeWorkflowNodeJobs], by simp, by simp [observeWorkflowNodeJobs], by simp,
      by simp [observeWorkflowNodeJobs], by simp [observeWorkflowNodeJobs]⟩
  | cons node rest ih =>
    obtain ⟨fresh, unique⟩ := List.nodup_cons.mp unique
    obtain ⟨processed, after⟩ := ih unique
    unfold observeWorkflowNodeJobs
    split
    · rename_i none
      exact ⟨_, after.skip fresh none⟩
    · rename_i has
      split
      · refine ⟨[], by simp, by simp, by simp, by simp, by simp, by simp⟩
      · rename_i seen read
        exact ⟨_, after.push fresh ⟨has, read⟩⟩

theorem Observes.all {nodes : List WorkflowNodeState} {out : Observation} {processed : List String}
    (run : Observes getJob now nodes out processed) (ok : out.err = none) :
    out.nodes = nodes.map (observed getJob now) := by
  rw [run.result]
  apply List.map_congr_left
  intro node member
  exact if_pos (run.whole ok node member)

end

end CertificateJobs

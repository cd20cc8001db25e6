import CertificateJobs.Controller.JobNames
import CertificateJobs.Runs.WellFormed

namespace CertificateJobs

structure RecordedRun where
  runID : String
  nodes : List WorkflowNodeState

structure Reruns (σ : Type) where
  client : σ
  entry : CertificateExecutionState
  past : List RecordedRun := []

def Reruns.runs {σ : Type} (w : Reruns σ) : List RecordedRun := w.past ++ [⟨w.entry.runID, w.entry.nodes⟩]

inductive RerunEvent (σ : Type)
  | change (client : σ)
  | reconcile (ambient : Ambient) (cjob : CertificateJob) (cert : Certificate)

section
variable {σ : Type} (c : Client σ) (ext : External) (cjobName : String)

def Reruns.pass (w : Reruns σ) (ambient : Ambient) (cjob : CertificateJob) (cert : Certificate) : EntryPass σ :=
  ⟨ambient, cjob, cert, w.client⟩

def Reruns.apply (w : Reruns σ) : RerunEvent σ → Option (Reruns σ)
  | .change client => some { w with client := client }
  | .reconcile ambient cjob cert =>
    if cjob.name = cjobName ∧ cert.name = w.entry.name then
      ((w.pass ambient cjob cert).perform c ext w.entry).map fun out =>
        { client := out.client
          entry := out.state
          past := if (w.pass ambient cjob cert).starts c ext w.entry ∧ w.entry.inputHash ≠ "" then
              w.past ++ [⟨w.entry.runID, w.entry.nodes⟩]
            else w.past }
    else none

def rerunMachine : Machine (Reruns σ) (RerunEvent σ) :=
  .ofFun (fun w => w.past = [] ∧ ∃ ns name, w.entry = { ns := ns, name := name, phase := .pending })
    (Reruns.apply c ext cjobName)

/-- A run is only started for an input whose first 12 characters no earlier run of the entry had. -/
def FreshInput (w : Reruns σ) : RerunEvent σ → Prop
  | .change _ => True
  | .reconcile ambient cjob cert => (w.pass ambient cjob cert).starts c ext w.entry = true →
      ∀ hash, (w.pass ambient cjob cert).inputHash c ext = some hash → ∀ run ∈ w.runs, run.runID ≠ shortHash hash 12

def RecordedRun.Named (certName : String) (run : RecordedRun) : Prop :=
  run.runID.length = 12 ∧ ∀ node ∈ run.nodes, node.jobName ≠ "" →
    node.jobName = buildJobName cjobName certName node.name run.runID

structure RunsKept (w : Reruns σ) : Prop where
  entry : w.entry.WellFormed cjobName
  current : w.entry.inputHash ≠ "" → w.entry.runID.length = 12
  past : ∀ run ∈ w.past, run.Named cjobName w.entry.name
  distinct : (w.runs.map (·.runID)).Nodup

variable {c ext cjobName}

theorem perform_run {pass : EntryPass σ} {entry : CertificateExecutionState} {out : EntryOutcome σ}
    (performed : pass.perform c ext entry = some out) :
    (pass.starts c ext entry = true →
      pass.inputHash c ext = some out.state.inputHash ∧ out.state.runID = shortHash out.state.inputHash 12) ∧
    (pass.starts c ext entry = false → out.state.inputHash = entry.inputHash ∧ out.state.runID = entry.runID) := by
  rcases perform_cases c ext performed with quiet | ⟨graph, base, run, ran⟩
  · refine ⟨fun starts => ?_, fun _ => ?_⟩
    · rw [quiet.noStart] at starts
      cases starts
    · obtain ⟨secretName, phase, message, completed, written⟩ := quiet.rewritten
      rw [written]
      exact ⟨rfl, rfl⟩
  · obtain ⟨phase, message, completed, written⟩ := ran.rewritten
    rw [written]
    refine ⟨fun starts => (ran.fresh starts).2, fun kept => ?_⟩
    obtain ⟨message', same⟩ := ran.same kept
    rw [same]
    exact ⟨rfl, rfl⟩

theorem CertificateExecutionState.WellFormed.named {entry : CertificateExecutionState}
    (wellFormed : entry.WellFormed cjobName) (current : entry.inputHash ≠ "" → entry.runID.length = 12)
    (triggered : entry.inputHash ≠ "") : (RecordedRun.mk entry.runID entry.nodes).Named cjobName entry.name :=
  ⟨current triggered, fun node member has => (wellFormed.nodes node member).named has⟩

theorem RunsKept.start {w : Reruns σ} (first : (rerunMachine c ext cjobName).start w) : RunsKept cjobName w := by
  obtain ⟨past, ns, name, entry⟩ := first
  refine ⟨?_, ?_, ?_, ?_⟩
  · rw [entry]
    exact ⟨by simp, by simp, rfl, List.nodup_nil, by simp⟩
  · rw [entry]
    exact fun triggered => absurd rfl triggered
  · simp [past]
  · simp [Reruns.runs, past]

theorem RunsKept.reconcile {w : Reruns σ} {ambient : Ambient} {cjob : CertificateJob} {cert : Certificate}
    {out : EntryOutcome σ} (kept : RunsKept cjobName w) (ofJob : cjob.name = cjobName)
    (ofCert : cert.name = w.entry.name) (performed : (w.pass ambient cjob cert).perform c ext w.entry = some out)
    (fresh : FreshInput c ext w (.reconcile ambient cjob cert)) :
    RunsKept cjobName
      { client := out.client
        entry := out.state
        past := if (w.pass ambient cjob cert).starts c ext w.entry ∧ w.entry.inputHash ≠ "" then
            w.past ++ [⟨w.entry.runID, w.entry.nodes⟩]
          else w.past } := by
  have wellFormed := perform_wellFormed performed ofJob ofCert kept.entry
  have name := (perform_identity performed).2
  obtain ⟨started, goesOn⟩ := perform_run performed
  have distinct := kept.distinct
  simp only [Reruns.runs, List.map_append, List.map_singleton] at distinct
  cases starts : (w.pass ambient cjob cert).starts c ext w.entry with
  | false =>
    obtain ⟨input, runID⟩ := goesOn starts
    refine ⟨wellFormed, ?_, ?_, ?_⟩
    · rw [input, runID]
      exact kept.current
    · simp only [Bool.false_eq_true, false_and, if_false, name]
      exact kept.past
    · simpa [Reruns.runs, runID] using distinct
  | true =>
    obtain ⟨input, runID⟩ := started starts
    have new : out.state.runID ∉ w.past.map (·.runID) ++ [w.entry.runID] := by
      intro old
      have inside : out.state.runID ∈ w.runs.map (·.runID) := by simpa [Reruns.runs] using old
      obtain ⟨run, member, same⟩ := List.mem_map.mp inside
      exact fresh starts _ input run member (same.trans runID)
    have current : out.state.runID.length = 12 := by
      obtain ⟨text, hashed⟩ := inputHash_hashed input
      rw [runID, hashed, shortHash_length]
    by_cases first : w.entry.inputHash = ""
    · refine ⟨wellFormed, fun _ => current, ?_, ?_⟩
      · simp only [first, ne_eq, not_true_eq_false, and_false, if_false, name]
        exact kept.past
      · simp only [Reruns.runs, first, ne_eq, not_true_eq_false, and_false, if_false, List.map_append,
          List.map_singleton]
        rw [← List.concat_eq_append]
        exact .concat (fun old => new (List.mem_append_left _ old)) (List.nodup_append.mp distinct).1
    · refine ⟨wellFormed, fun _ => current, ?_, ?_⟩
      · simp only [ne_eq, first, not_false_eq_true, and_self, if_true, name]
        intro run member
        rcases List.mem_append.mp member with old | last
        · exact kept.past run old
        · rw [List.mem_singleton.mp last]
          exact kept.entry.named kept.current first
      · simp only [Reruns.runs, ne_eq, first, not_false_eq_true, and_self, if_true, List.map_append,
          List.map_singleton]
        rw [← List.concat_eq_append]
        exact .concat new distinct

theorem RunsKept.step {w w' : Reruns σ} {event : RerunEvent σ} (kept : RunsKept cjobName w)
    (fresh : FreshInput c ext w event) (taken : (rerunMachine c ext cjobName).step w event w') :
    RunsKept cjobName w' := by
  have applied : w.apply c ext cjobName event = some w' := taken
  cases event with
  | change client =>
    obtain rfl := Option.some.inj applied
    exact ⟨kept.entry, kept.current, kept.past, kept.distinct⟩
  | reconcile ambient cjob cert =>
    simp only [Reruns.apply] at applied
    split at applied
    · rename_i same
      obtain ⟨out, performed, rfl⟩ := Option.map_eq_some_iff.mp applied
      exact kept.reconcile same.1 same.2 performed fresh
    · cases applied

theorem RunsKept.named {w : Reruns σ} (kept : RunsKept cjobName w) {run : RecordedRun} (member : run ∈ w.runs)
    {node : WorkflowNodeState} (inside : node ∈ run.nodes) (has : node.jobName ≠ "") :
    run.runID.length = 12 ∧ node.jobName = buildJobName cjobName w.entry.name node.name run.runID := by
  rcases List.mem_append.mp member with old | last
  · exact ⟨(kept.past run old).1, (kept.past run old).2 node inside has⟩
  · rw [List.mem_singleton.mp last] at inside ⊢
    have triggered : w.entry.inputHash ≠ "" := by
      intro empty
      rw [(kept.entry.untriggered empty).2] at inside
      cases inside
    have named := kept.entry.named kept.current triggered
    exact ⟨named.1, named.2 node inside has⟩

end

def Reruns.nameTexts {σ : Type} (cjobName : String) (w : Reruns σ) : List String :=
  w.runs.flatMap fun run => run.nodes.map fun node => jobNameText cjobName w.entry.name node.name run.runID

def Reruns.Disjoint {σ : Type} (w : Reruns σ) : Prop :=
  w.runs.Pairwise fun older newer =>
    ∀ a ∈ older.nodes, ∀ b ∈ newer.nodes, a.jobName ≠ "" → b.jobName ≠ "" → a.jobName ≠ b.jobName

/-- If no run is started for an input that shares its first 12 characters with the input of an earlier run, then no two
    runs of the entry record the same Job. -/
theorem reruns_are_fresh {σ : Type} (c : Client σ) (ext : External) (cjobName : String) (w : Reruns σ)
    (reached : (rerunMachine c ext cjobName).Reached (FreshInput c ext) w)
    (collisionFree : CollisionFree (w.nameTexts cjobName)) : w.Disjoint := by
  have kept := reached.invariant (RunsKept cjobName) (fun _ => RunsKept.start) fun _ _ _ kept fresh => kept.step fresh
  have texts : ∀ run ∈ w.runs, ∀ node ∈ run.nodes,
      jobNameText cjobName w.entry.name node.name run.runID ∈ w.nameTexts cjobName :=
    fun run member node inside => List.mem_flatMap.mpr ⟨run, member, List.mem_map_of_mem inside⟩
  refine (List.pairwise_map.mp kept.distinct).imp_of_mem ?_
  intro older newer early late different a inOld b inNew hasA hasB same
  obtain ⟨lengthA, nameA⟩ := kept.named early inOld hasA
  obtain ⟨lengthB, nameB⟩ := kept.named late inNew hasB
  rw [nameA, nameB] at same
  have text := collisionFree _ (texts older early a inOld) _ (texts newer late b inNew) (buildJobName_suffix same)
  exact different (append_right_cancel text (lengthA.trans lengthB.symm))

def freshInput (w : Reruns Cluster) : RerunEvent Cluster → Bool
  | .change _ => true
  | .reconcile ambient cjob cert => (w.pass ambient cjob cert).starts clusterClient plainExternal w.entry →
      ((w.pass ambient cjob cert).inputHash clusterClient plainExternal).all fun hash =>
        w.runs.all fun run => run.runID ≠ shortHash hash 12

theorem freshInput_fresh {w : Reruns Cluster} {event : RerunEvent Cluster} (fresh : freshInput w event = true) :
    FreshInput clusterClient plainExternal w event := by
  cases event with
  | change => trivial
  | reconcile ambient cjob cert =>
    intro starts hash input run member
    simp only [freshInput, decide_eq_true_eq] at fresh
    have runs := fresh starts
    rw [input, Option.all_some, List.all_eq_true] at runs
    exact of_decide_eq_true (runs run member)

def newReruns : Reruns Cluster where
  client := sampleCluster (flatSpec ["a"] 1 .stopDownstream)
  entry := { ns := "default", name := "web", phase := .pending }

def reconcileWeb (w : Reruns Cluster) : RerunEvent Cluster := .reconcile stillClock w.client.cjob webCertificate

def alter (change : Cluster → Cluster) (w : Reruns Cluster) : RerunEvent Cluster := .change (change w.client)

def wholeRun : List (Reruns Cluster → RerunEvent Cluster) :=
  [reconcileWeb, alter (Cluster.report "a" completeStatus), reconcileWeb]

def secretPutBack : List (Reruns Cluster → RerunEvent Cluster) :=
  [alter (Cluster.report "a" completeStatus), reconcileWeb,
   alter fun cluster => { cluster with secrets := newReruns.client.secrets }, reconcileWeb]

theorem renewal_played :
    (Machine.play (Reruns.apply clusterClient plainExternal "renewal") freshInput newReruns
      (wholeRun ++ [alter Cluster.renew, reconcileWeb])).any (fun w =>
        (w.runs.map (fun run => run.nodes.map fun node => (node.phase, decide (node.jobName = ""))) =
          [[(.succeeded, false)], [(.running, false)]] ∧
        (w.nameTexts "renewal").all fun a => (w.nameTexts "renewal").all fun b =>
          shortHash (hashString a) 12 = shortHash (hashString b) 12 → a = b) ∧
        (Machine.play (Reruns.apply clusterClient plainExternal "renewal") (fun _ _ => true) w secretPutBack).any fun w =>
          (w.past.any fun old => old.nodes.any fun a => w.entry.nodes.any fun b =>
            a.jobName ≠ "" ∧ b.jobName ≠ "" ∧ a.jobName = b.jobName) ∧
          w.entry.nodes.any fun node =>
            node.phase = .running ∧ (w.client.jobs "default" node.jobName).any isJobComplete = true) = true := by
  decide +kernel

theorem newReruns_start : (rerunMachine clusterClient plainExternal "renewal").start newReruns := ⟨rfl, _, _, rfl⟩

theorem reruns_are_fresh_after_renewal :
    ∃ w : Reruns Cluster, (rerunMachine clusterClient plainExternal "renewal").Reached
        (FreshInput clusterClient plainExternal) w ∧
      w.runs.map (fun run => run.nodes.map fun node => (node.phase, decide (node.jobName = ""))) =
        [[(.succeeded, false)], [(.running, false)]] ∧ w.Disjoint := by
  obtain ⟨w, result, checked⟩ := (Option.any_eq_true _ _).mp renewal_played
  obtain ⟨⟨phases, collisionFree⟩, -⟩ := of_decide_eq_true checked
  simp only [List.all_eq_true, decide_eq_true_eq] at collisionFree
  have reached : (rerunMachine clusterClient plainExternal "renewal").Reached (FreshInput clusterClient plainExternal) w :=
    ⟨newReruns, newReruns_start, Machine.play_leads (fun _ _ => freshInput_fresh) _ result⟩
  exact ⟨w, reached, phases, reruns_are_fresh clusterClient plainExternal "renewal" w reached collisionFree⟩

/-- The Secret is renewed and then put back: the third run records the Job of the first, which has long completed, and
    counts it as running. -/
theorem rerun_takes_over_finished_job :
    ∃ w : Reruns Cluster, (rerunMachine clusterClient plainExternal "renewal").Reached (fun _ _ => True) w ∧
      ¬ w.Disjoint ∧
      ∃ node ∈ w.entry.nodes, node.phase = .running ∧ (w.client.jobs "default" node.jobName).any isJobComplete = true := by
  obtain ⟨renewed, result, checked⟩ := (Option.any_eq_true _ _).mp renewal_played
  obtain ⟨w, result', checked⟩ := (Option.any_eq_true _ _).mp (of_decide_eq_true checked).2
  obtain ⟨shared, adopted⟩ := of_decide_eq_true checked
  have early : (rerunMachine clusterClient plainExternal "renewal").Leads (fun _ _ => True) newReruns renewed :=
    Machine.play_leads (fun _ _ _ => trivial) _ result
  have late : (rerunMachine clusterClient plainExternal "renewal").Leads (fun _ _ => True) renewed w :=
    Machine.play_leads (fun _ _ _ => trivial) _ result'
  refine ⟨w, ⟨newReruns, newReruns_start, early.trans late⟩, ?_, by simpa using adopted⟩
  intro disjoint
  obtain ⟨old, early, shared⟩ := List.any_eq_true.mp shared
  obtain ⟨a, inOld, shared⟩ := List.any_eq_true.mp shared
  obtain ⟨b, inNew, shared⟩ := List.any_eq_true.mp shared
  obtain ⟨hasA, hasB, same⟩ := of_decide_eq_true shared
  exact (List.pairwise_append.mp disjoint).2.2 old early _ (List.mem_singleton.mpr rfl) a inOld b inNew hasA hasB same

end CertificateJobs

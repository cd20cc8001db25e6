import CertificateJobs.Workflow.Observation

namespace CertificateJobs

/-- What the client state goes through when the controller does nothing but create Jobs. -/
def Creates {σ : Type} (c : Client σ) : σ → σ → Prop :=
  Relation.ReflTransGen fun before after => ∃ job, (c.createJob before job).2 = after

theorem Creates.frame {σ α : Type} {c : Client σ} {s t : σ} (run : Creates c s t) (read : σ → α)
    (steady : ∀ s job, read (c.createJob s job).2 = read s) : read t = read s := by
  induction run with
  | refl => rfl
  | tail _ step ih =>
    obtain ⟨job, rfl⟩ := step
    rw [steady, ih]

section
variable {σ : Type} (c : Client σ) (cjob : CertificateJob) (certificate : Certificate) (runID : String) (now : Time)

def startNamed (cjob : CertificateJob) (certificate : Certificate) (runID : String) (now : Time)
    (nodes : List WorkflowNodeState) (names : List String) : List WorkflowNodeState :=
  nodes.map fun node =>
    if node.name ∈ names then markStarted (buildJobName cjob.name certificate.name node.name runID) now node else node

theorem startNamed_nil (nodes : List WorkflowNodeState) : startNamed cjob certificate runID now nodes [] = nodes := by
  simp [startNamed]

theorem nodeNames_startNamed (nodes : List WorkflowNodeState) (names : List String) :
    nodeNames (startNamed cjob certificate runID now nodes names) = nodeNames nodes := by
  apply nodeNames_map
  intro node _
  split <;> rfl

theorem startNamed_append (nodes : List WorkflowNodeState) (left right : List String) :
    startNamed cjob certificate runID now (startNamed cjob certificate runID now nodes left) right =
      startNamed cjob certificate runID now nodes (left ++ right) := by
  simp only [startNamed, List.map_map]
  apply List.map_congr_left
  intro node _
  simp only [Function.comp_apply, List.mem_append]
  by_cases first : node.name ∈ left
  · by_cases second : node.name ∈ right <;> simp [first, second, markStarted]
  · simp [first]

theorem updateNode_start {nodes : List WorkflowNodeState} (unique : (nodeNames nodes).Nodup) {name : String}
    (member : name ∈ nodeNames nodes) :
    updateNode nodes name (markStarted (buildJobName cjob.name certificate.name name runID) now) =
      some (startNamed cjob certificate runID now nodes [name]) := by
  rw [updateNode_eq unique member]
  congr 1
  apply List.map_congr_left
  intro node _
  by_cases same : node.name = name
  · simp [same]
  · simp [same]

structure CallMade (c : Client σ) (cjob : CertificateJob) (certificate : Certificate) (runID : String) (s final : σ)
    (call : CreateCall) (before after : σ) (answer : Except ApiError Job) : Prop where
  earlier : Creates c s before
  missing : ∃ e, c.getJob before certificate.ns (buildJobName cjob.name certificate.name call.node runID) = .error e ∧
    e.isNotFound = true
  owned : c.setControllerReference before cjob (assembleJob cjob certificate call.node runID) = .ok call.job
  created : c.createJob before call.job = (answer, after)
  stored : call.stored = answer.toOption
  later : Creates c after final

def JobTaken (c : Client σ) (cjob : CertificateJob) (certificate : Certificate) (runID : String) (s : σ)
    (calls : List CreateCall) (nodeName : String) : Prop :=
  (∃ t job, Creates c s t ∧ c.getJob t certificate.ns (buildJobName cjob.name certificate.name nodeName runID) = .ok job) ∨
    ∃ call ∈ calls, call.node = nodeName ∧ call.stored.isSome = true

def Requested (c : Client σ) (cjob : CertificateJob) (certificate : Certificate) (runID : String) (call : CreateCall) :
    Prop :=
  ∃ s, c.setControllerReference s cjob (assembleJob cjob certificate call.node runID) = .ok call.job

structure CallAt (c : Client σ) (cjob : CertificateJob) (certificate : Certificate) (runID : String) (now : Time)
    (names : List String) (slots : Int) (nodes : List WorkflowNodeState) (s final : σ) (call : CreateCall) : Prop where
  position : ∃ before after, names = before ++ call.node :: after ∧ (before.length : Int) < slots ∧
    call.nodes = startNamed cjob certificate runID now nodes before
  made : ∃ before after answer, CallMade c cjob certificate runID s final call before after answer

structure Schedules (c : Client σ) (cjob : CertificateJob) (certificate : Certificate) (runID : String) (now : Time)
    (names : List String) (slots : Int) (nodes : List WorkflowNodeState) (s : σ) (out : Scheduling σ)
    (done : List String) : Prop where
  result : out.nodes = startNamed cjob certificate runID now nodes done
  bound : (done.length : Int) ≤ slots
  handled : ∃ rest, names = done ++ rest ∧ (out.err = none → rest = [] ∨ (done.length : Int) = slots)
  client : Creates c s out.client
  calls : ∀ call ∈ out.calls, CallAt c cjob certificate runID now names slots nodes s out.client call
  stored : ∀ call ∈ out.calls, call.stored.isSome = true → call.node ∈ done
  taken : ∀ nodeName ∈ done, JobTaken c cjob certificate runID s out.calls nodeName

theorem provideJob_calls (nodeName : String) (nodes : List WorkflowNodeState) (s : σ) :
    Creates c s (provideJob c cjob certificate runID nodeName nodes s).2.2 ∧
    ∀ call ∈ (provideJob c cjob certificate runID nodeName nodes s).2.1,
      call.node = nodeName ∧ call.nodes = nodes ∧
      (call.stored.isSome = true → (provideJob c cjob certificate runID nodeName nodes s).1 = none) ∧
      ∃ answer, CallMade c cjob certificate runID s (provideJob c cjob certificate runID nodeName nodes s).2.2 call s
        (provideJob c cjob certificate runID nodeName nodes s).2.2 answer := by
  unfold provideJob
  split
  · exact ⟨.refl, by simp⟩
  · rename_i e missing
    split
    · rename_i notFound
      split
      · exact ⟨.refl, by simp⟩
      · rename_i job owned
        split
        · rename_i failure after created
          refine ⟨.single ⟨job, by rw [created]⟩, ?_⟩
          intro call member
          simp only [List.mem_singleton] at member
          subst member
          exact ⟨rfl, rfl, by simp, _, .refl, ⟨e, missing, notFound⟩, owned, created, rfl, .refl⟩
        · rename_i stored after created
          refine ⟨.single ⟨job, by rw [created]⟩, ?_⟩
          intro call member
          simp only [List.mem_singleton] at member
          subst member
          exact ⟨rfl, rfl, by simp, _, .refl, ⟨e, missing, notFound⟩, owned, created, rfl, .refl⟩
    · exact ⟨.refl, by simp⟩

variable {c cjob certificate runID} in
theorem provideJob_taken {nodeName : String} {nodes : List WorkflowNodeState} {s t : σ} {calls : List CreateCall}
    (provided : provideJob c cjob certificate runID nodeName nodes s = (none, calls, t)) :
    JobTaken c cjob certificate runID s calls nodeName := by
  unfold provideJob at provided
  split at provided
  · rename_i job found
    exact .inl ⟨s, job, .refl, found⟩
  · split at provided
    · split at provided
      · cases provided
      · split at provided
        · cases provided
        · obtain rfl := (Prod.mk.inj (Prod.mk.inj provided).2).1
          exact .inr ⟨_, List.mem_singleton_self _, rfl, rfl⟩
    · cases provided

variable {c cjob certificate runID} in
theorem JobTaken.later {nodeName : String} {s t : σ} {calls more : List CreateCall}
    (taken : JobTaken c cjob certificate runID t calls nodeName) (first : Creates c s t) :
    JobTaken c cjob certificate runID s (more ++ calls) nodeName := by
  rcases taken with ⟨u, job, creates, found⟩ | ⟨call, member, facts⟩
  · exact .inl ⟨u, job, first.trans creates, found⟩
  · exact .inr ⟨call, List.mem_append_right _ member, facts⟩

variable {c cjob certificate runID now} in
theorem scheduleNodes_creates (names : List String) (slots : Int) (nodes : List WorkflowNodeState) (s : σ)
    {out : Scheduling σ} (result : scheduleNodes c cjob certificate runID now names slots nodes s = some out) :
    Creates c s out.client ∧ ∀ call ∈ out.calls, Requested c cjob certificate runID call := by
  induction names generalizing slots nodes s out with
  | nil =>
    obtain rfl := Option.some.inj result
    exact ⟨.refl, by simp⟩
  | cons name rest ih =>
    obtain ⟨first, made⟩ := provideJob_calls c cjob certificate runID name nodes s
    have requested : ∀ call ∈ (provideJob c cjob certificate runID name nodes s).2.1,
        Requested c cjob certificate runID call := by
      intro call member
      obtain ⟨-, -, -, answer, request⟩ := made call member
      exact ⟨s, request.owned⟩
    unfold scheduleNodes at result
    split at result
    · obtain rfl := Option.some.inj result
      exact ⟨.refl, by simp⟩
    · split at result
      · rename_i provided
        obtain rfl := Option.some.inj result
        rw [provided] at first requested
        exact ⟨first, requested⟩
      · rename_i provided
        rw [provided] at first requested
        obtain ⟨marked, -, result⟩ := Option.bind_eq_some_iff.mp result
        obtain ⟨after, later, done⟩ := Option.bind_eq_some_iff.mp result
        obtain rfl := Option.some.inj done
        obtain ⟨others, requests⟩ := ih _ _ _ later
        exact ⟨first.trans others, List.forall_mem_append.mpr ⟨requested, requests⟩⟩

variable {c cjob certificate runID now} in
theorem CallAt.later {name : String} {names : List String} {slots : Int} {nodes : List WorkflowNodeState}
    {s t final : σ} {call : CreateCall}
    (later : CallAt c cjob certificate runID now names (slots - 1)
      (startNamed cjob certificate runID now nodes [name]) t final call) (first : Creates c s t) :
    CallAt c cjob certificate runID now (name :: names) slots nodes s final call := by
  obtain ⟨before, after, split, room, states⟩ := later.position
  obtain ⟨u, v, answer, made⟩ := later.made
  refine ⟨⟨name :: before, after, by rw [split, List.cons_append], ?_, ?_⟩,
    u, v, answer, { made with earlier := first.trans made.earlier }⟩
  · rw [List.length_cons]
    push_cast
    omega
  · rw [states, startNamed_append, List.singleton_append]

theorem scheduleNodes_spec (names : List String) (slots : Int) (nodes : List WorkflowNodeState) (s : σ)
    (unique : (nodeNames nodes).Nodup) (known : ∀ name ∈ names, name ∈ nodeNames nodes) (room : 0 ≤ slots) :
    ∃ out done, scheduleNodes c cjob certificate runID now names slots nodes s = some out ∧
      Schedules c cjob certificate runID now names slots nodes s out done := by
  induction names generalizing slots nodes s with
  | nil =>
    exact ⟨⟨nodes, none, [], s⟩, [], rfl, by simp [startNamed_nil], by simpa using room, ⟨[], rfl, fun _ => .inl rfl⟩,
      .refl, by simp, by simp, by simp⟩
  | cons name names ih =>
    by_cases full : slots = 0
    · refine ⟨⟨nodes, none, [], s⟩, [], by simp [scheduleNodes, full], by simp [startNamed_nil], by simpa using room,
        ⟨name :: names, rfl, fun _ => .inr (by simp [full])⟩, .refl, by simp, by simp, by simp⟩
    · obtain ⟨reached, facts⟩ := provideJob_calls c cjob certificate runID name nodes s
      rcases provided : provideJob c cjob certificate runID name nodes s with ⟨err, calls, t⟩
      rw [provided] at reached facts
      have atHead : ∀ final, Creates c t final → ∀ call ∈ calls,
          CallAt c cjob certificate runID now (name :: names) slots nodes s final call := by
        intro final later call member
        obtain ⟨rfl, states, -, answer, made⟩ := facts call member
        exact ⟨⟨[], names, rfl, by simp; omega, by rw [states, startNamed_nil]⟩, s, t, answer,
          { made with later := later }⟩
      cases err with
      | some e =>
        refine ⟨⟨nodes, some e, calls, t⟩, [], by simp [scheduleNodes, full, provided], by simp [startNamed_nil],
          by simpa using room, ⟨name :: names, rfl, fun none => by cases none⟩, reached, atHead t .refl, ?_, by simp⟩
        intro call member stored
        exact absurd ((facts call member).2.2.1 stored) (by simp)
      | none =>
        have started := updateNode_start cjob certificate runID now unique (known name List.mem_cons_self)
        have names_eq := nodeNames_startNamed cjob certificate runID now nodes [name]
        obtain ⟨out, done, run, after⟩ := ih (slots - 1) (startNamed cjob certificate runID now nodes [name]) t
          (by rw [names_eq]; exact unique)
          (by rw [names_eq]; exact fun n inside => known n (List.mem_cons_of_mem _ inside)) (by omega)
        refine ⟨{ out with calls := calls ++ out.calls }, name :: done, ?_, ?_, ?_, ?_, reached.trans after.client, ?_, ?_,
          ?_⟩
        · simp [scheduleNodes, full, provided, started, run]
        · rw [after.result, startNamed_append, List.singleton_append]
        · have bound := after.bound
          rw [List.length_cons]
          push_cast
          omega
        · obtain ⟨rest, split, finished⟩ := after.handled
          refine ⟨rest, by rw [split, List.cons_append], ?_⟩
          intro ok
          rcases finished ok with empty | exhausted
          · exact .inl empty
          · right
            rw [List.length_cons]
            push_cast
            omega
        · intro call member
          rcases List.mem_append.mp member with first | later
          · exact atHead _ after.client call first
          · exact (after.calls call later).later reached
        · intro call member stored
          rcases List.mem_append.mp member with first | later
          · obtain ⟨rfl, -⟩ := facts call first
            exact List.mem_cons_self
          · exact List.mem_cons_of_mem _ (after.stored call later stored)
        · intro nodeName member
          rcases List.mem_cons.mp member with rfl | member
          · rcases provideJob_taken provided with found | ⟨call, inside, facts⟩
            · exact .inl found
            · exact .inr ⟨call, List.mem_append_left _ inside, facts⟩
          · exact (after.taken nodeName member).later reached

end

end CertificateJobs

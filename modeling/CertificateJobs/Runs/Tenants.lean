import CertificateJobs.Library.Noninterference
import CertificateJobs.Runs.Isolation
import CertificateJobs.Runs.Manager
import CertificateJobs.Runs.WellFormed

namespace CertificateJobs

/-- An API whose namespaces are kept apart: besides what `PerObject` says of Jobs, there is a record of each
    CertificateJob, conflicts included, that alone says what a Get or a status update of it returns, and no write touches
    another object. -/
structure PerNamespace {σ : Type} (c : Client σ) (Object Stored : Type) extends PerObject c Object where
  record : σ → String → String → Stored
  load : Stored → Except ApiError CertificateJob
  save : Stored → CertificateJob → Option ApiError × Stored
  loaded : ∀ s ns name, c.getCertificateJob s ns name = load (record s ns name)
  located : ∀ s ns name cjob, c.getCertificateJob s ns name = .ok cjob → cjob.ns = ns ∧ cjob.name = name
  within : ∀ s ns all, c.listCertificates s ns = .ok all → ∀ cert ∈ all, cert.ns = ns
  createRecords : ∀ s job, record (c.createJob s job).2 = record s
  createCertificates : ∀ s job, c.listCertificates (c.createJob s job).2 = c.listCertificates s
  updateAnswer : ∀ s cjob, (c.updateStatus s cjob).1 = (save (record s cjob.ns cjob.name) cjob).1
  updateSaved : ∀ s cjob,
    record (c.updateStatus s cjob).2 cjob.ns cjob.name = (save (record s cjob.ns cjob.name) cjob).2
  updateOthers : ∀ s cjob ns name, ¬ (ns = cjob.ns ∧ name = cjob.name) →
    record (c.updateStatus s cjob).2 ns name = record s ns name
  updateObjects : ∀ s cjob, object (c.updateStatus s cjob).2 = object s
  updateSecrets : ∀ s cjob, c.getSecret (c.updateStatus s cjob).2 = c.getSecret s
  updateCertificates : ∀ s cjob, c.listCertificates (c.updateStatus s cjob).2 = c.listCertificates s

section
variable {σ Object Stored : Type} {c : Client σ}

def SameInputs (c : Client σ) (ext : External) (ns : String) (s t : σ) : Prop :=
  ∀ (cert : Certificate) (workflowSpecHash : String),
    (c.getSecret s ns cert.spec.secretName).map (buildInputHash ext cert · workflowSpecHash) =
      (c.getSecret t ns cert.spec.secretName).map (buildInputHash ext cert · workflowSpecHash)

theorem SameInputs.equivalence (c : Client σ) (ext : External) (ns : String) : Equivalence (SameInputs c ext ns) where
  refl _ _ _ := rfl
  symm same cert hash := (same cert hash).symm
  trans first second cert hash := (first cert hash).trans (second cert hash)

/-- Two servers hold the same objects in a namespace, except for what a hash of the input hides of the Secrets. -/
structure PerNamespace.Same (view : PerNamespace c Object Stored) (ext : External) (ns : String) (s t : σ) : Prop where
  records : view.record s ns = view.record t ns
  certificates : c.listCertificates s ns = c.listCertificates t ns
  inputs : SameInputs c ext ns s t
  objects : view.object s ns = view.object t ns

theorem PerNamespace.same_equivalence (view : PerNamespace c Object Stored) (ext : External) (ns : String) :
    Equivalence (view.Same ext ns) where
  refl s := ⟨rfl, rfl, (SameInputs.equivalence c ext ns).refl s, rfl⟩
  symm same := ⟨same.records.symm, same.certificates.symm, (SameInputs.equivalence c ext ns).symm same.inputs,
    same.objects.symm⟩
  trans first second := ⟨first.records.trans second.records, first.certificates.trans second.certificates,
    (SameInputs.equivalence c ext ns).trans first.inputs second.inputs, first.objects.trans second.objects⟩

def requests (calls : List (String × CreateCall)) : List (String × String × Job × List WorkflowNodeState × Bool) :=
  calls.map fun call => (call.1, call.2.request)

structure Sweep.Alike (view : PerObject c Object) (ext : External) (ns : String) (left right : Sweep σ) : Prop where
  observed : left.observed = right.observed
  matchedKeys : left.matchedKeys = right.matchedKeys
  progress : left.progress = right.progress
  calls : requests left.calls = requests right.calls
  inputs : SameInputs c ext ns left.client right.client
  objects : view.object left.client ns = view.object right.client ns

end

section
variable {σ Object Stored : Type} {c : Client σ} {ext : External} {ambient : Ambient} {cjob : CertificateJob}
  {workflowCtx : WorkflowContext} {s t : σ}

theorem SameInputs.transfer {ns : String} (same : SameInputs c ext ns s t) {s' t' : σ}
    (left : c.getSecret s' = c.getSecret s) (right : c.getSecret t' = c.getSecret t) : SameInputs c ext ns s' t' := by
  unfold SameInputs
  rw [left, right]
  exact same

variable (ambient cjob) in
/-- A pass over an entry depends on the Secret through the input only. -/
theorem perform_alike (view : PerObject c Object) {cert : Certificate} (inputs : SameInputs c ext cert.ns s t)
    (objects : view.object s cert.ns = view.object t cert.ns) (entry : CertificateExecutionState) :
    (EntryPass.perform c ext ⟨ambient, cjob, cert, s⟩ entry).map (·.outcome) =
      (EntryPass.perform c ext ⟨ambient, cjob, cert, t⟩ entry).map (·.outcome) := by
  have waits : ∀ message, (waitForInput cert entry message s).outcome = (waitForInput cert entry message t).outcome := by
    intro message
    unfold waitForInput
    split <;> rfl
  simp only [EntryPass.perform]
  cases buildWorkflowContext ext ambient cjob with
  | error e => rfl
  | ok workflowCtx =>
    simp only [Except.toOption, Option.bind_some, reconcileObservedCertificate]
    split
    · rfl
    · have same := inputs cert workflowCtx.workflowSpecHash
      revert same
      cases c.getSecret s cert.ns cert.spec.secretName with
      | error e =>
        cases c.getSecret t cert.ns cert.spec.secretName with
        | error e' =>
          intro same
          obtain rfl := Except.error.inj same
          exact congrArg some (waits _)
        | ok secret => exact fun same => by cases same
      | ok secret =>
        cases c.getSecret t cert.ns cert.spec.secretName with
        | error e => exact fun same => by cases same
        | ok secret' =>
          intro same
          have hashes : buildInputHash ext cert secret workflowCtx.workflowSpecHash =
            buildInputHash ext cert secret' workflowCtx.workflowSpecHash := Except.ok.inj same
          simp only [hashes]
          cases buildInputHash ext cert secret' workflowCtx.workflowSpecHash with
          | error e => exact congrArg some (waits _)
          | ok hash =>
            have agree : view.Agree cert.ns (fun _ => True) s t := fun name _ => congrFun objects name
            exact reconcileInput_agree view cjob.status workflowCtx hash agree (fun _ _ => trivial) fun _ _ => trivial

theorem Sweep.Alike.record (view : PerObject c Object) {cert : Certificate} {left right : Sweep σ}
    (alike : left.Alike view ext cert.ns right) {out out' : EntryOutcome σ}
    (performed : EntryPass.perform c ext ⟨ambient, cjob, cert, left.client⟩ (currentEntry left.observed cert) = some out)
    (performed' : EntryPass.perform c ext ⟨ambient, cjob, cert, right.client⟩ (currentEntry right.observed cert) =
      some out') : (left.record cert out).Alike view ext cert.ns (right.record cert out') := by
  have outcome := perform_alike ambient cjob view alike.inputs alike.objects (currentEntry left.observed cert)
  rw [performed, alike.observed, performed', Option.map_some, Option.map_some, Option.some.injEq] at outcome
  simp only [EntryOutcome.outcome, Prod.mk.injEq] at outcome
  obtain ⟨state, progress, -, calls⟩ := outcome
  have jobs : out.calls.map (·.job) = out'.calls.map (·.job) := by
    have sent := congrArg (List.map fun request => request.2.1) calls
    rwa [List.map_map, List.map_map] at sent
  constructor
  · rw [Sweep.record_observed, Sweep.record_observed, alike.observed, state]
  · rw [Sweep.record_matchedKeys, Sweep.record_matchedKeys, alike.matchedKeys]
  · rw [Sweep.record_progress, Sweep.record_progress, alike.progress, progress]
  · have named := congrArg (List.map fun request => (cert.name, request)) calls
    rw [List.map_map, List.map_map] at named
    have before := alike.calls
    unfold requests at before ⊢
    rw [Sweep.record_calls, Sweep.record_calls, List.map_append, List.map_append, List.map_map, List.map_map, before]
    exact congrArg _ named
  · exact alike.inputs.transfer ((perform_creates performed).frame c.getSecret view.secrets)
      ((perform_creates performed').frame c.getSecret view.secrets)
  · funext name
    rw [Sweep.record_client, Sweep.record_client, perform_effect view performed, perform_effect view performed',
      view.after_congr cert.ns name jobs]
    exact congrArg _ (congrFun alike.objects name)

theorem Sweep.Alike.run (view : PerObject c Object) (ns : String) (certs : List Certificate)
    (context : buildWorkflowContext ext ambient cjob = .ok workflowCtx) (inside : ∀ cert ∈ certs, cert.ns = ns)
    {left right last last' : Sweep σ} (indexed : left.Indexed) (indexed' : right.Indexed)
    (loop : certs.foldlM (sweepCertificate c ext ambient cjob workflowCtx) left = some last)
    (loop' : certs.foldlM (sweepCertificate c ext ambient cjob workflowCtx) right = some last')
    (alike : left.Alike view ext ns right) : last.Alike view ext ns last' := by
  induction certs generalizing left right with
  | nil =>
    obtain rfl := Option.some.inj loop
    obtain rfl := Option.some.inj loop'
    exact alike
  | cons cert rest ih =>
    rw [List.foldlM_cons] at loop loop'
    obtain ⟨next, round, loop⟩ := Option.bind_eq_some_iff.mp loop
    obtain ⟨next', round', loop'⟩ := Option.bind_eq_some_iff.mp loop'
    obtain ⟨out, performed, -, after, rfl⟩ := indexed.step context round
    obtain ⟨out', performed', -, after', rfl⟩ := indexed'.step context round'
    obtain ⟨rfl, others⟩ := List.forall_mem_cons.mp inside
    exact ih others after after' loop loop' (alike.record view performed performed')

def JobOutcome.decision (out : JobOutcome σ) : CertificateJobStatus × Option Nat × Option ApiError ×
    List (String × String × Job × List WorkflowNodeState × Bool) :=
  (out.status, out.requeueAfter, out.err, requests out.calls)

theorem listMatchingCertificates_within (view : PerNamespace c Object Stored) {certs : List Certificate}
    (listed : listMatchingCertificates c ext cjob s = .ok certs) : ∀ cert ∈ certs, cert.ns = cjob.ns := by
  intro cert matched
  obtain ⟨all, answer, present⟩ := listMatchingCertificates_mem listed matched
  exact view.within s cjob.ns all answer cert present

/-- A reconcile reads nothing from outside its namespace, and of the Secrets nothing but the inputs. -/
theorem reconcileCertificateJob_local (view : PerNamespace c Object Stored) (same : view.Same ext cjob.ns s t)
    {out out' : JobOutcome σ} (result : reconcileCertificateJob c ext ambient cjob s = some out)
    (result' : reconcileCertificateJob c ext ambient cjob t = some out') :
    out.decision = out'.decision ∧ view.Same ext cjob.ns out.client out'.client := by
  have creates := reconcileCertificateJob_creates result
  have creates' := reconcileCertificateJob_creates result'
  have framed : view.object out.client cjob.ns = view.object out'.client cjob.ns →
      view.Same ext cjob.ns out.client out'.client := fun objects => {
    records := by rw [creates.frame _ view.createRecords, creates'.frame _ view.createRecords, same.records]
    certificates := by
      rw [creates.frame _ view.createCertificates, creates'.frame _ view.createCertificates, same.certificates]
    inputs := same.inputs.transfer (creates.frame _ view.secrets) (creates'.frame _ view.secrets)
    objects := objects }
  have listing : listMatchingCertificates c ext cjob s = listMatchingCertificates c ext cjob t := by
    simp only [listMatchingCertificates, same.certificates]
  unfold reconcileCertificateJob at result result'
  cases context : buildWorkflowContext ext ambient cjob with
  | error e =>
    rw [context] at result result'
    obtain rfl := Option.some.inj result
    obtain rfl := Option.some.inj result'
    exact ⟨rfl, framed same.objects⟩
  | ok workflowCtx =>
    rw [context, listing] at result
    rw [context] at result'
    cases listed : listMatchingCertificates c ext cjob t with
    | error e =>
      rw [listed] at result result'
      obtain rfl := Option.some.inj result
      obtain rfl := Option.some.inj result'
      exact ⟨rfl, framed same.objects⟩
    | ok certs =>
      rw [listed] at result result'
      obtain ⟨last, loop, result⟩ := Option.bind_eq_some_iff.mp result
      obtain ⟨last', loop', result'⟩ := Option.bind_eq_some_iff.mp result'
      obtain rfl := Option.some.inj result
      obtain rfl := Option.some.inj result'
      have alike : last.Alike view.toPerObject ext cjob.ns last' :=
        Sweep.Alike.run view.toPerObject cjob.ns certs context (listMatchingCertificates_within view listed) (by rfl)
          (by rfl) loop loop' ⟨rfl, rfl, rfl, rfl, same.inputs, same.objects⟩
      refine ⟨?_, framed alike.objects⟩
      simp only [JobOutcome.decision, alike.observed, alike.matchedKeys, alike.progress, alike.calls]

theorem reconcileCertificateJob_sends (view : PerNamespace c Object Stored) {out : JobOutcome σ}
    (result : reconcileCertificateJob c ext ambient cjob s = some out) :
    ∀ call ∈ out.calls, call.2.job.ns = cjob.ns := by
  rcases reconcileCertificateJob_cases result with ⟨-, none⟩ | ⟨workflowCtx, certs, last, context, listed, loop, -, calls⟩
  · rw [none]
    simp
  · rw [calls]
    refine Sweep.Indexed.invariant certs (fun sweep => ∀ call ∈ sweep.calls, call.2.job.ns = cjob.ns) ?_ (by rfl) context
      loop (by simp [Sweep.start])
    intro cert matched sweep turn before performed
    refine List.forall_mem_append.mpr ⟨before, List.forall_mem_map.mpr ?_⟩
    intro call made
    obtain ⟨runID, client, owned⟩ := perform_requested performed call made
    exact (view.addressed client cjob _ _ owned).1.trans (listMatchingCertificates_within view listed cert matched)

theorem reconcileCertificateJob_confined (view : PerNamespace c Object Stored) {ns : String} (other : ns ≠ cjob.ns)
    {out : JobOutcome σ} (result : reconcileCertificateJob c ext ambient cjob s = some out) :
    view.Same ext ns s out.client := by
  have creates := reconcileCertificateJob_creates result
  constructor
  · rw [creates.frame _ view.createRecords]
  · rw [creates.frame _ view.createCertificates]
  · exact ((SameInputs.equivalence c ext ns).refl s).transfer rfl (creates.frame _ view.secrets)
  · funext name
    rw [reconcileCertificateJob_effect view.toPerObject result, PerObject.after_untouched]
    intro call made here
    obtain ⟨pair, member, rfl⟩ := List.mem_map.mp made
    exact other (here.1.trans (reconcileCertificateJob_sends view result pair member))

theorem updateStatus_local (view : PerNamespace c Object Stored) (same : view.Same ext cjob.ns s t) :
    (c.updateStatus s cjob).1 = (c.updateStatus t cjob).1 ∧
      view.Same ext cjob.ns (c.updateStatus s cjob).2 (c.updateStatus t cjob).2 := by
  have record := congrFun same.records cjob.name
  refine ⟨by rw [view.updateAnswer, view.updateAnswer, record], ?_, ?_, ?_, ?_⟩
  · funext name
    by_cases own : name = cjob.name
    · rw [own, view.updateSaved, view.updateSaved, record]
    · rw [view.updateOthers s cjob _ name fun here => own here.2, view.updateOthers t cjob _ name fun here => own here.2]
      exact congrFun same.records name
  · rw [view.updateCertificates, view.updateCertificates, same.certificates]
  · exact same.inputs.transfer (view.updateSecrets s cjob) (view.updateSecrets t cjob)
  · rw [view.updateObjects, view.updateObjects, same.objects]

theorem updateStatus_confined (view : PerNamespace c Object Stored) {ns : String} (other : ns ≠ cjob.ns) (s : σ) :
    view.Same ext ns s (c.updateStatus s cjob).2 := by
  refine ⟨?_, ?_, ?_, ?_⟩
  · funext name
    exact (view.updateOthers s cjob ns name fun here => other here.1).symm
  · rw [view.updateCertificates]
  · exact ((SameInputs.equivalence c ext ns).refl s).transfer rfl (view.updateSecrets s cjob)
  · rw [view.updateObjects]

def ReconcileOutcome.report (out : ReconcileOutcome σ) : Option Nat × Option ApiError × Bool ×
    List (String × String × Job × List WorkflowNodeState × Bool) :=
  (out.requeueAfter, out.err, out.wrote, requests out.calls)

theorem reconcile_local (view : PerNamespace c Object Stored) {ns : String} (name : String) (same : view.Same ext ns s t) :
    ∃ out out', reconcile c ext ambient ns name s = some out ∧ reconcile c ext ambient ns name t = some out' ∧
      out.report = out'.report ∧ view.Same ext ns out.client out'.client := by
  have read : c.getCertificateJob s ns name = c.getCertificateJob t ns name := by
    rw [view.loaded, view.loaded, congrFun same.records name]
  cases found : c.getCertificateJob t ns name with
  | error e =>
    simp only [reconcile, read, found]
    exact ⟨_, _, rfl, rfl, rfl, same⟩
  | ok cjob =>
    obtain ⟨rfl, -⟩ := view.located t ns name cjob found
    obtain ⟨out, performed⟩ := reconcileCertificateJob_total c ext ambient cjob s
    obtain ⟨out', performed'⟩ := reconcileCertificateJob_total c ext ambient cjob t
    obtain ⟨decision, after⟩ := reconcileCertificateJob_local view same performed performed'
    simp only [JobOutcome.decision, Prod.mk.injEq] at decision
    obtain ⟨status, requeue, err, calls⟩ := decision
    simp only [reconcile, read, found, performed, performed', status, Option.bind_eq_bind, Option.bind_some]
    split
    · exact ⟨_, _, rfl, rfl, by simp only [ReconcileOutcome.report, requeue, err, calls], after⟩
    · have updated : (c.updateStatus out.client { cjob with status := out'.status }).1 =
            (c.updateStatus out'.client { cjob with status := out'.status }).1 ∧
          view.Same ext cjob.ns (c.updateStatus out.client { cjob with status := out'.status }).2
            (c.updateStatus out'.client { cjob with status := out'.status }).2 := updateStatus_local view after
      revert updated
      generalize c.updateStatus out.client { cjob with status := out'.status } = left
      generalize c.updateStatus out'.client { cjob with status := out'.status } = right
      obtain ⟨answer, left⟩ := left
      obtain ⟨answer', right⟩ := right
      rintro ⟨rfl, stored⟩
      cases answer with
      | some e => exact ⟨_, _, rfl, rfl, by simp only [ReconcileOutcome.report, calls], stored⟩
      | none => exact ⟨_, _, rfl, rfl, by simp only [ReconcileOutcome.report, requeue, err, calls], stored⟩

theorem reconcile_confined (view : PerNamespace c Object Stored) {ns there name : String} (other : ns ≠ there)
    {out : ReconcileOutcome σ} (result : reconcile c ext ambient there name s = some out) :
    view.Same ext ns s out.client := by
  cases found : c.getCertificateJob s there name with
  | error e =>
    simp only [reconcile, found] at result
    obtain rfl := Option.some.inj result
    exact (view.same_equivalence ext ns).refl s
  | ok cjob =>
    obtain ⟨rfl, -⟩ := view.located s there name cjob found
    simp only [reconcile, found] at result
    obtain ⟨inner, performed, result⟩ := Option.bind_eq_some_iff.mp result
    have created := reconcileCertificateJob_confined view other performed
    have updated := (view.same_equivalence ext ns).trans created
      (updateStatus_confined view (show ns ≠ ({ cjob with status := inner.status } : CertificateJob).ns from other)
        inner.client)
    split at result
    · obtain rfl := Option.some.inj result
      exact created
    · split at result
      · rename_i e after answer
        obtain rfl := Option.some.inj result
        rw [answer] at updated
        exact updated
      · rename_i after answer
        obtain rfl := Option.some.inj result
        rw [answer] at updated
        exact updated

end

inductive TenantEvent (Event : Type)
  | reconcile (ambient : Ambient) (ns name : String)
  | change (ns : String) (event : Event)

def TenantEvent.ns {Event : Type} : TenantEvent Event → String
  | .reconcile _ ns _ => ns
  | .change ns _ => ns

section
variable {σ Object Stored Event : Type} (c : Client σ) (ext : External) (change : σ → String → Event → σ)

def tenantStep (s : σ) : TenantEvent Event →
    Option (Option Nat × Option ApiError × Bool × List (String × String × Job × List WorkflowNodeState × Bool)) × σ
  | .reconcile ambient ns name =>
    (reconcile c ext ambient ns name s).elim (none, s) fun out => (some out.report, out.client)
  | .change ns event => (none, change s ns event)

variable {c}

structure PerNamespace.Confines (view : PerNamespace c Object Stored) : Prop where
  here : ∀ {ns s t} event, view.Same ext ns s t → view.Same ext ns (change s ns event) (change t ns event)
  elsewhere : ∀ {ns there} s event, ns ≠ there → view.Same ext ns s (change s there event)

variable {change}

theorem tenantStep_local (view : PerNamespace c Object Stored) (confines : view.Confines ext change)
    (event : TenantEvent Event) {s t : σ} (same : view.Same ext event.ns s t) :
    (tenantStep c ext change s event).1 = (tenantStep c ext change t event).1 ∧
      view.Same ext event.ns (tenantStep c ext change s event).2 (tenantStep c ext change t event).2 := by
  cases event with
  | reconcile ambient ns name =>
    have both : ∃ out out', reconcile c ext ambient ns name s = some out ∧ reconcile c ext ambient ns name t = some out' ∧
      out.report = out'.report ∧ view.Same ext ns out.client out'.client := reconcile_local view name same
    obtain ⟨out, out', result, result', report, after⟩ := both
    simp only [tenantStep, result, result', Option.elim_some]
    exact ⟨congrArg some report, after⟩
  | change ns event => exact ⟨rfl, confines.here event same⟩

theorem tenantStep_confined (view : PerNamespace c Object Stored) (confines : view.Confines ext change) {ns : String}
    (event : TenantEvent Event) (other : ns ≠ event.ns) (s : σ) : view.Same ext ns s (tenantStep c ext change s event).2 := by
  cases event with
  | reconcile ambient there name =>
    simp only [tenantStep]
    cases result : reconcile c ext ambient there name s with
    | none => exact (view.same_equivalence ext ns).refl s
    | some out => exact reconcile_confined view other result
  | change there event => exact confines.elsewhere s event other

theorem tenantStep_unwinds (view : PerNamespace c Object Stored) (confines : view.Confines ext change) (ns : String) :
    Noninterference.Unwinds (tenantStep c ext change) (fun event => event.ns = ns) (view.Same ext ns) where
  equivalence := view.same_equivalence ext ns
  hidden s event elsewhere :=
    tenantStep_confined ext view confines event (fun same => of_decide_eq_false elsewhere same.symm) s
  answers event here same := by
    obtain rfl := of_decide_eq_true here
    exact (tenantStep_local ext view confines event same).1
  follows event here same := by
    obtain rfl := of_decide_eq_true here
    exact (tenantStep_local ext view confines event same).2

end

/-- One operator may serve many namespaces: whatever CertificateJobs, Secrets and Jobs the others hold and whatever is
    done in them, the reconciles of a namespace answer the same, send the same Jobs and leave the same objects. Of the
    namespace's own Secrets they depend on nothing but the input hashes. -/
theorem namespaces_do_not_interfere {σ Object Stored Event : Type} (c : Client σ) (view : PerNamespace c Object Stored)
    (ext : External) (change : σ → String → Event → σ) (confines : view.Confines ext change) (ns : String) (s t : σ)
    (same : view.Same ext ns s t) (left right : List (TenantEvent Event))
    (own : left.filter (fun event => event.ns = ns) = right.filter (fun event => event.ns = ns)) :
    let seen := Noninterference.observe (tenantStep c ext change) (fun event => event.ns = ns)
    (seen s left).1 = (seen t right).1 ∧ view.Same ext ns (seen s left).2 (seen t right).2 :=
  (tenantStep_unwinds ext view confines ns).indistinguishable same own

theorem job_storeStatus (o : Objects) (req : Request) (status : CertificateJobStatus) :
    (o.storeStatus req status).job req =
      if (status.observedCertificates.map (·.key)).Nodup then (o.job req).map ({ · with status := status })
      else o.job req := by
  unfold Objects.storeStatus
  split
  · rw [Objects.job, List.find?_map]
    have asked : ((fun cjob : CertificateJob => decide (cjob.request = req)) ∘ fun cjob : CertificateJob =>
        if cjob.request = req then { cjob with status := status } else cjob) = fun cjob => decide (cjob.request = req) := by
      funext cjob
      simp only [Function.comp_apply]
      split <;> rfl
    rw [asked]
    refine Option.map_congr ?_
    intro cjob found
    rw [if_pos (job_mem found).2]
  · rfl

def managerView : PerNamespace (managerClient clusterClient).toClient (Option Sight)
    (Except ApiError CertificateJob) where
  object s := clusterView.object s.2
  seen := clusterView.seen
  create := clusterView.create
  get s := clusterView.get s.2
  answer s := clusterView.answer s.2
  stored s := clusterView.stored s.2
  others s := clusterView.others s.2
  secrets _ _ := rfl
  owner _ _ _ _ _ := rfl
  addressed s := clusterView.addressed s.2
  record := (managerClient clusterClient).getCertificateJob
  load := id
  save stored cjob := (none, if (cjob.status.observedCertificates.map (·.key)).Nodup
    then stored.map ({ · with status := cjob.status }) else stored)
  loaded _ _ _ := rfl
  located s ns name cjob found := by
    cases held : s.1.job ⟨ns, name⟩ with
    | none => simp [managerClient, held, notFound] at found
    | some other =>
      simp only [managerClient, held, Option.elim_some, Except.ok.injEq] at found
      obtain rfl := found
      have request := (job_mem held).2
      exact ⟨congrArg Request.ns request, congrArg Request.name request⟩
  within s ns all listed cert member := by
    obtain rfl := Except.ok.inj listed
    exact of_decide_eq_true (List.mem_filter.mp member).2
  createRecords _ _ := rfl
  createCertificates _ _ := rfl
  updateAnswer _ _ := rfl
  updateSaved s cjob := by
    simp only [managerClient, clusterClient]
    rw [show (⟨cjob.ns, cjob.name⟩ : Request) = cjob.request from rfl, job_storeStatus]
    split
    · cases s.1.job cjob.request <;> rfl
    · rfl
  updateOthers s cjob ns name other := by
    have apart : Target.certificateJob ⟨ns, name⟩ ≠ .certificateJob cjob.request := by
      intro same
      have request : (⟨ns, name⟩ : Request) = cjob.request := Target.certificateJob.inj same
      exact other ⟨congrArg Request.ns request, congrArg Request.name request⟩
    have agrees : s.1.job ⟨ns, name⟩ = (s.1.storeStatus cjob.request cjob.status).job ⟨ns, name⟩ :=
      storeStatus_agrees s.1 apart cjob.status
    simp only [managerClient, clusterClient, ← agrees]
  updateObjects _ _ := rfl
  updateSecrets s cjob := by
    simp only [managerClient, clusterClient, Objects.storeStatus]
    split <;> rfl
  updateCertificates s cjob := by
    simp only [managerClient, clusterClient, Objects.storeStatus]
    split <;> rfl

def reportJob (s : Objects × Cluster) (ns : String) (event : String × JobStatus) : Objects × Cluster :=
  (s.1, { s.2 with jobs := fun ns' name => if ns' = ns ∧ name = event.1
    then (s.2.jobs ns' name).map ({ · with status := event.2 }) else s.2.jobs ns' name })

theorem reportJob_confines : managerView.Confines plainExternal reportJob where
  here := by
    rintro ns s t ⟨name, status⟩ same
    refine ⟨same.records, same.certificates, same.inputs, ?_⟩
    funext other
    have before : (s.2.jobs ns other).map sightOf = (t.2.jobs ns other).map sightOf := congrFun same.objects other
    simp only [managerView, clusterView, reportJob]
    split
    · cases left : s.2.jobs ns other with
      | none => cases right : t.2.jobs ns other <;> simp_all
      | some job => cases right : t.2.jobs ns other <;> simp_all [sightOf, isJobComplete, isJobFailed]
    · exact before
  elsewhere := by
    rintro ns there s ⟨name, status⟩ other
    refine ⟨rfl, rfl, fun _ _ => rfl, ?_⟩
    funext job
    simp [managerView, clusterView, reportJob, other]

def blueJob : CertificateJob := { ns := "blue", name := "renewal", spec := flatSpec ["a"] 1 .stopDownstream }

def greenJob : CertificateJob := { ns := "green", name := "renewal", spec := flatSpec ["b"] 1 .stopDownstream }

def tenantServer (green : Bool) : Objects × Cluster where
  fst :=
    { certificates := [{ webCertificate with ns := "blue" }, { webCertificate with ns := "green" }]
      certificateJobs := if green then [blueJob, greenJob] else [blueJob]
      distinct := by cases green <;> decide
      secrets := fun _ name => if name = "tls"
        then some { type := "kubernetes.io/tls", data := AList.singleton "tls.key" [if green then 1 else 0] } else none
      distinctCertificates := by decide
      tables := by cases green <;> decide }
  snd := { cjob := blueJob }

theorem tenantServer_inputs : SameInputs (managerClient clusterClient).toClient plainExternal "blue" (tenantServer true)
    (tenantServer false) := by
  intro cert hash
  by_cases named : cert.spec.secretName = "tls"
  · simp [managerClient, tenantServer, named, Except.map, buildInputHash, plainExternal]
  · simp [managerClient, tenantServer, named]

def sharedRun : List (TenantEvent (String × JobStatus)) :=
  [.reconcile stillClock "blue" "renewal", .reconcile stillClock "green" "renewal",
    .change "green" ("renewal-web-b", completeStatus), .reconcile stillClock "blue" "renewal"]

def blueRun : List (TenantEvent (String × JobStatus)) :=
  [.reconcile stillClock "blue" "renewal", .reconcile stillClock "blue" "renewal"]

theorem namespaces_do_not_interfere_blue :
    let seen := Noninterference.observe (tenantStep (managerClient clusterClient).toClient plainExternal reportJob)
      (fun event => event.ns = "blue")
    (seen (tenantServer true) sharedRun).1 = (seen (tenantServer false) blueRun).1 ∧
      (seen (tenantServer true) sharedRun).1.map (·.map (·.2.2.2.length)) = [some 1, some 0] := by
  intro seen
  have played : (seen (tenantServer false) blueRun).1.map (·.map (·.2.2.2.length)) = [some 1, some 0] := by
    decide +kernel
  obtain ⟨answers, -⟩ := namespaces_do_not_interfere (managerClient clusterClient).toClient managerView plainExternal
    reportJob reportJob_confines "blue" (tenantServer true) (tenantServer false) ⟨rfl, rfl, tenantServer_inputs, rfl⟩
    sharedRun blueRun rfl
  exact ⟨answers, answers ▸ played⟩

end CertificateJobs

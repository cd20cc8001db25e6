import CertificateJobs.Controller.Conditions
import CertificateJobs.Runs.Input
import CertificateJobs.Workflow.Verdict

namespace CertificateJobs

def Ambient.Later (first second : Ambient) : Prop := ∀ read, first.clock read ≤ second.clock read

section
variable {ext : External} {ambient : Ambient} {cjob : CertificateJob} {workflowCtx : WorkflowContext}

theorem buildWorkflowContext_again (context : buildWorkflowContext ext ambient cjob = .ok workflowCtx) (other : Ambient)
    (status : CertificateJobStatus) :
    buildWorkflowContext ext other { cjob with status := status } =
      .ok { workflowCtx with now := other.clock .workflowContext } := by
  obtain ⟨hashed, built, -⟩ := buildWorkflowContext_ok_iff.mp context
  exact buildWorkflowContext_ok_iff.mpr
    ⟨hashed, buildWorkflowGraph_ok_iff.mpr (buildWorkflowGraph_ok_iff.mp built), rfl⟩

end

section
variable {σ : Type} {c : Client σ} {ext : External} {pass : EntryPass σ} {entry : CertificateExecutionState}
  {out : EntryOutcome σ} {workflowCtx : WorkflowContext}

def restingProgress (input : Option String) (entry : CertificateExecutionState) : CertificateWorkflowProgress :=
  { anyFailed := input.isSome && entry.phase = .failed }

/-- A pass over an ended run whose input is the current one, or cannot be read, changes nothing. -/
theorem perform_rests (context : buildWorkflowContext ext pass.ambient pass.cjob = .ok workflowCtx)
    (named : pass.cert.spec.secretName ≠ "") (ended : isTerminalPhase entry.phase = true)
    (current : ∀ hash, pass.inputHash c ext = some hash → entry.inputHash = hash) :
    pass.perform c ext entry =
      some ⟨entry, restingProgress (pass.inputHash c ext) entry, [], [], pass.client⟩ := by
  cases input : pass.inputHash c ext with
  | none =>
    have waiting : ∃ message, pass.perform c ext entry = some (waitForInput pass.cert entry message pass.client) :=
      perform_blind context named input
    obtain ⟨message, waits⟩ := waiting
    rw [waits, waitForInput, if_pos ended]
    rfl
  | some hash =>
    have same := current hash input
    have kept : applyInputHashTransition pass.cjob pass.cert entry hash workflowCtx.now = entry := by
      have opened := inputHash_ne_empty input
      simp [applyInputHashTransition, startsRun, same, opened]
    rw [perform_input context input]
    simp only [reconcileInput, kept, if_pos ended]
    rfl

theorem perform_ended (performed : pass.perform c ext entry = some out) (named : pass.cert.spec.secretName ≠ "")
    (ended : isTerminalPhase out.state.phase = true) :
    out.progress = restingProgress (pass.inputHash c ext) out.state := by
  obtain ⟨workflowCtx, context⟩ := perform_context performed
  cases input : pass.inputHash c ext with
  | none =>
    obtain ⟨message, waits⟩ := perform_blind context named input
    obtain rfl := Option.some.inj (waits.symm.trans performed)
    unfold waitForInput at ended ⊢
    split at ended
    · rename_i before
      rw [if_pos before]
      rfl
    · cases ended
  | some hash =>
    rw [perform_input context input] at performed
    simp only [reconcileInput] at performed
    split at performed
    · obtain rfl := Option.some.inj performed
      simp [restingProgress]
    · obtain ⟨run, result, rfl⟩ := Option.map_eq_some_iff.mp performed
      unfold concludeEntry at ended ⊢
      cases failure : run.err with
      | some e =>
        simp only [failure] at ended
        cases ended
      | none =>
        have flag := reconcileCertificateRun_flag result failure
        have running := ((reconcileCertificateRun_outline result).2.2 failure).2
        simp only [failure] at ended ⊢
        have still : run.running = false := by
          rw [running, decide_eq_false_iff_not]
          rintro (phase | phase)
          · rw [phase] at ended
            cases ended
          · rw [phase] at ended
            cases ended
        simp [restingProgress, still, flag]

end

section
variable {σ : Type}

theorem totalProgress_congr {left right : List (Visit σ)} (count : Certificate → CertificateWorkflowProgress)
    (same : left.map (·.cert) = right.map (·.cert)) (lefts : ∀ visit ∈ left, visit.out.progress = count visit.cert)
    (rights : ∀ visit ∈ right, visit.out.progress = count visit.cert) (first : CertificateWorkflowProgress) :
    totalProgress first left = totalProgress first right := by
  have counted : left.map (·.out.progress) = right.map (·.out.progress) := by
    rw [List.map_congr_left lefts, List.map_congr_left rights]
    simpa [Function.comp_def] using congrArg (List.map count) same
  have flag : ∀ read : CertificateWorkflowProgress → Bool,
      left.any (fun visit => read visit.out.progress) = right.any fun visit => read visit.out.progress := by
    intro read
    have mapped := congrArg (List.any · read) counted
    simpa [List.any_map, Function.comp_def] using mapped
  simp only [totalProgress, flag (·.needsRequeue), flag (·.anyFailed), flag (·.anyInProgress)]

end

section
variable {σ : Type} (c : Client σ) (ext : External) (ambient : Ambient) (cjob : CertificateJob) (s : σ)

/-- Every entry is at rest: its run has ended, and was for the current input where that can be read. -/
structure CertificateJobStatus.Settled (status : CertificateJobStatus) : Prop where
  ended : ∀ entry ∈ status.observedCertificates, isTerminalPhase entry.phase = true
  current : ∀ certs, listMatchingCertificates c ext cjob s = .ok certs → ∀ cert ∈ certs, ∀ hash,
    EntryPass.inputHash c ext ⟨ambient, cjob, cert, s⟩ = some hash →
      ∀ entry ∈ status.observedCertificates, entry.key = cert.key → entry.inputHash = hash

/-- If the spec can be encoded, no template is refused for one of several reserved keys; and if it is accepted, every
    matching certificate names a Secret. -/
structure Stable : Prop where
  labels : ∀ json, ext.marshalSpec cjob.spec = .ok json → cjob.spec.OneReservedKey
  named : ∀ workflowCtx certs, buildWorkflowContext ext ambient cjob = .ok workflowCtx →
    listMatchingCertificates c ext cjob s = .ok certs → ∀ cert ∈ certs, cert.spec.secretName ≠ ""

variable {c ext ambient cjob s} {workflowCtx : WorkflowContext} {certs : List Certificate} {out : JobOutcome σ}
  {visits : List (Visit σ)} {later : Ambient} {s' : σ}

theorem inputHash_again (context : buildWorkflowContext ext ambient cjob = .ok workflowCtx)
    (secrets : c.getSecret s' = c.getSecret s) (status : CertificateJobStatus) (cert : Certificate) :
    EntryPass.inputHash c ext ⟨later, { cjob with status := status }, cert, s'⟩ =
      EntryPass.inputHash c ext ⟨ambient, cjob, cert, s⟩ := by
  have again : buildWorkflowContext ext later { cjob with status := status } =
    .ok { workflowCtx with now := later.clock .workflowContext } := buildWorkflowContext_again context later status
  simp only [EntryPass.inputHash, context, again, secrets, Except.toOption, Option.bind_eq_bind, Option.bind_some]

variable (c ext ambient cjob s) in
structure Resting (workflowCtx : WorkflowContext) (certs : List Certificate) (out : JobOutcome σ)
    (visits : List (Visit σ)) : Prop where
  turns : Reconciled c ext ambient cjob s certs out visits
  context : buildWorkflowContext ext ambient cjob = .ok workflowCtx
  listed : listMatchingCertificates c ext cjob s = .ok certs
  steady : ∀ s job, c.getSecret (c.createJob s job).2 = c.getSecret s
  settled : out.status.Settled c ext ambient cjob s
  named : ∀ cert ∈ certs, cert.spec.secretName ≠ ""

theorem Resting.pass (rest : Resting c ext ambient cjob s workflowCtx certs out visits) {visit : Visit σ}
    (member : visit ∈ visits) (secrets : c.getSecret s' = c.getSecret s) :
    EntryPass.perform c ext ⟨later, { cjob with status := out.status }, visit.cert, s'⟩ visit.out.state = some
      ⟨visit.out.state, restingProgress (EntryPass.inputHash c ext ⟨ambient, cjob, visit.cert, s⟩) visit.out.state,
        [], [], s'⟩ := by
  have left : visit.out.state ∈ out.status.observedCertificates :=
    (rest.turns.entries _).mpr (.inl ⟨visit, member, rfl⟩)
  have matched := rest.turns.matched member
  rw [← inputHash_again rest.context secrets out.status visit.cert]
  refine perform_rests (buildWorkflowContext_again rest.context later out.status) (rest.named _ matched)
    (rest.settled.ended _ left) ?_
  intro hash input
  rw [inputHash_again rest.context secrets] at input
  exact rest.settled.current certs rest.listed visit.cert matched hash input _ left (rest.turns.key member)

section
variable {again : JobOutcome σ} {visits' : List (Visit σ)}

theorem Resting.turn (rest : Resting c ext ambient cjob s workflowCtx certs out visits)
    (secrets : c.getSecret s' = c.getSecret s)
    (turns' : Reconciled c ext later { cjob with status := out.status } s' certs again visits') {visit : Visit σ}
    (inside : visit ∈ visits') :
    visit.out.state ∈ out.status.observedCertificates.latestBy (·.key) ∧ visit.out.calls = [] ∧
      visit.out.progress = restingProgress (EntryPass.inputHash c ext ⟨ambient, cjob, visit.cert, s⟩)
        (currentEntry out.status.observedCertificates visit.cert) := by
  obtain ⟨before, member, same⟩ := rest.turns.visit_of (turns'.matched inside)
  have client : c.getSecret visit.client = c.getSecret s :=
    ((turns'.creates.2 visit inside).1.frame c.getSecret rest.steady).trans secrets
  have performed := turns'.performed visit inside
  rw [← same, rest.turns.entry member, rest.pass member client] at performed
  rw [← same, rest.turns.entry member, ← Option.some.inj performed]
  exact ⟨rest.turns.latest before member, rfl, rfl⟩

theorem Resting.progress (rest : Resting c ext ambient cjob s workflowCtx certs out visits)
    (secrets : c.getSecret s' = c.getSecret s)
    (turns' : Reconciled c ext later { cjob with status := out.status } s' certs again visits') :
    totalProgress {} visits' = totalProgress {} visits := by
  refine totalProgress_congr (fun cert => restingProgress (EntryPass.inputHash c ext ⟨ambient, cjob, cert, s⟩)
    (currentEntry out.status.observedCertificates cert)) (turns'.visited.trans rest.turns.visited.symm) ?_ ?_ _
  · intro visit inside
    exact (rest.turn secrets turns' inside).2.2
  · intro visit inside
    have left : visit.out.state ∈ out.status.observedCertificates :=
      (rest.turns.entries _).mpr (.inl ⟨visit, inside, rfl⟩)
    rw [perform_ended (rest.turns.performed visit inside) (rest.named _ (rest.turns.matched inside))
      (rest.settled.ended _ left), rest.turns.inputHash rest.steady inside, rest.turns.entry inside]

theorem Resting.status (sets : ext.SetsConditions) (rest : Resting c ext ambient cjob s workflowCtx certs out visits)
    (secrets : c.getSecret s' = c.getSecret s)
    (turns' : Reconciled c ext later { cjob with status := out.status } s' certs again visits') :
    again.status = out.status := by
  have entries : again.status.observedCertificates = out.status.observedCertificates := by
    refine turns'.unchanged (fun visit inside => (rest.turn secrets turns' inside).1) ?_
    intro found inside
    rcases (rest.turns.entries found).mp inside with ⟨visit, member, rfl⟩ | ⟨-, matched⟩
    · rw [rest.turns.key member]
      exact List.mem_map_of_mem (rest.turns.matched member)
    · exact matched
  have conditions : again.status.conditions = out.status.conditions := by
    rw [turns'.conditions, rest.progress secrets turns', applyCertificateJobConditions_eq]
    refine settle_again sets _ ?_
    rw [rest.turns.conditions]
    exact workflowSettings_shown sets ambient cjob certs.length (totalProgress {} visits)
  calc again.status = ⟨again.status.observedCertificates, again.status.conditions⟩ := rfl
    _ = ⟨out.status.observedCertificates, out.status.conditions⟩ := by rw [entries, conditions]

/-- A second reconcile changes nothing, calls nothing and asks for nothing. -/
theorem Resting.repeated (sets : ext.SetsConditions) (rest : Resting c ext ambient cjob s workflowCtx certs out visits)
    (distinct : (certs.map (·.key)).Nodup) (secrets : c.getSecret s' = c.getSecret s)
    (relisted : listMatchingCertificates c ext { cjob with status := out.status } s' = .ok certs) :
    ∃ again, reconcileCertificateJob c ext later { cjob with status := out.status } s' = some again ∧
      again.status = out.status ∧ again.calls = [] ∧ again.requeueAfter = none ∧ again.err = none := by
  obtain ⟨again, result⟩ := reconcileCertificateJob_total c ext later { cjob with status := out.status } s'
  obtain ⟨visits', turns'⟩ := reconcileCertificateJob_reconciled (buildWorkflowContext_again rest.context later out.status) relisted
    distinct result
  refine ⟨again, result, rest.status sets secrets turns', ?_, ?_, turns'.err⟩
  · rw [turns'.calls, List.flatMap_eq_nil_iff]
    intro visit inside
    rw [(rest.turn secrets turns' inside).2.1]
    rfl
  · have calm : visits'.any (·.out.progress.needsRequeue) = false := by
      rw [List.any_eq_false]
      intro visit inside
      rw [(rest.turn secrets turns' inside).2.2]
      exact Bool.false_ne_true
    rw [turns'.requeue, calm]
    rfl

end

theorem Reconciled.named (turns : Reconciled c ext ambient cjob s certs out visits) {visits' : List (Visit σ)}
    {again : JobOutcome σ} (context : buildWorkflowContext ext ambient cjob = .ok workflowCtx)
    (turns' : Reconciled c ext later { cjob with status := out.status } s' certs again visits')
    (same : again.status = out.status) (moved : ambient.clock .workflowContext ≠ later.clock .workflowContext) :
    ∀ cert ∈ certs, cert.spec.secretName ≠ "" := by
  intro cert member empty
  obtain ⟨visit, inside, rfl⟩ := turns.visit_of member
  obtain ⟨visit', inside', cert⟩ := turns'.visit_of (turns.matched inside)
  have latest := turns'.latest visit' inside'
  rw [same] at latest
  have equal : visit'.out.state = visit.out.state :=
    List.inj_on_of_nodup_map (IndexBy.latestBy_unique _ _) latest (turns.latest visit inside)
      (by rw [turns'.key inside', turns.key inside, cert])
  have first := turns.performed visit inside
  rw [perform_unnamed context empty] at first
  have second := turns'.performed visit' inside'
  rw [perform_unnamed (buildWorkflowContext_again context later out.status) (cert ▸ empty)] at second
  have completed := congrArg (·.lastCompletedTime) equal
  rw [← Option.some.inj first, ← Option.some.inj second] at completed
  have time := buildWorkflowContext_again context ambient cjob.status
  rw [context] at time
  rw [congrArg (·.now) (Except.ok.inj time)] at completed
  exact moved (Option.some.inj completed).symm

end

section
variable {σ : Type} (c : Client σ) (ext : External)

def Rests (later : Ambient) (ns name : String) (cjob : CertificateJob) (s : σ) (err : Option ApiError) : Prop :=
  (∃ inner, reconcileCertificateJob c ext later cjob s = some inner ∧
    equalCertificateJobStatus cjob.status inner.status = true) ∧
  ∃ again, reconcile c ext later ns name s = some again ∧ again.wrote = false ∧ again.calls = [] ∧
    again.requeueAfter = none ∧ again.err = err

variable {c ext} {later : Ambient} {ns name : String} {cjob : CertificateJob} {s : σ}

theorem rests_of_same {inner : JobOutcome σ} (read : c.getCertificateJob s ns name = .ok cjob)
    (result : reconcileCertificateJob c ext later cjob s = some inner) (same : inner.status = cjob.status)
    (calls : inner.calls = []) (requeue : inner.requeueAfter = none) :
    Rests c ext later ns name cjob s inner.err := by
  have equal : equalCertificateJobStatus cjob.status inner.status = true := decide_eq_true same.symm
  refine ⟨⟨inner, result, equal⟩, ?_⟩
  refine ⟨⟨none, inner.err, false, [], inner.client⟩, ?_, rfl, rfl, rfl, rfl⟩
  simp [reconcile, read, result, equal, calls, requeue]

theorem Rests.same {err : Option ApiError} (rests : Rests c ext later ns name cjob s err) :
    ∃ inner, reconcileCertificateJob c ext later cjob s = some inner ∧ inner.status = cjob.status := by
  obtain ⟨⟨inner, result, equal⟩, -⟩ := rests
  exact ⟨inner, result, (of_decide_eq_true equal).symm⟩

end

section
variable {ext : External} (sets : ext.SetsConditions) {ambient later : Ambient} {cjob : CertificateJob}
  {status : CertificateJobStatus} {e e' : String}
include sets

theorem invalidSpec_again (shown : status.conditions = invalidSpecConditions ext ambient cjob e) :
    invalidSpecConditions ext later { cjob with status := status } e = status.conditions := by
  rw [invalidSpecConditions_eq]
  refine settle_again sets _ ?_
  rw [shown]
  exact invalidSpecSettings_shown sets ambient cjob e

theorem listFailed_again (shown : status.conditions = listFailedConditions ext ambient cjob e) :
    listFailedConditions ext later { cjob with status := status } e = status.conditions := by
  rw [listFailedConditions_eq]
  refine settle_again sets _ ?_
  rw [shown]
  exact listFailedSettings_shown sets ambient cjob e

theorem invalidSpec_words (shown : status.conditions = invalidSpecConditions ext ambient cjob e)
    (same : invalidSpecConditions ext later { cjob with status := status } e' = status.conditions) : e' = e := by
  obtain ⟨since, found⟩ := invalidSpecSettings_shown sets ambient cjob e _ List.mem_cons_self
  obtain ⟨since', found'⟩ := invalidSpecSettings_shown sets later { cjob with status := status } e' _ List.mem_cons_self
  rw [same, shown] at found'
  exact congrArg (·.message) (Option.some.inj (found'.symm.trans found))

end

section
variable {σ : Type} {c : Client σ} {ext : External} {ambient : Ambient} {cjob : CertificateJob} {s s' : σ}
  {ns name : String} {out : JobOutcome σ}

def Ambient.ticked (ambient : Ambient) (orders : MapOrders) : Ambient :=
  { clock := fun read => ambient.clock read + 1, orders := orders }

theorem Ambient.ticked_later (ambient : Ambient) (orders : MapOrders) : ambient.Later (ambient.ticked orders) :=
  fun _ => Nat.le_succ _

theorem invalidSpec_rests_iff (sets : ext.SetsConditions) {e : String}
    (context : buildWorkflowContext ext ambient cjob = .error e)
    (result : reconcileCertificateJob c ext ambient cjob s = some out)
    (read : c.getCertificateJob s' ns name = .ok { cjob with status := out.status }) :
    (∀ later, ambient.Later later → Rests c ext later ns name { cjob with status := out.status } s' out.err) ↔
      ∀ other, buildWorkflowContext ext other cjob = .error e := by
  simp only [reconcileCertificateJob, context] at result
  have status := congrArg (·.status) (Option.some.inj result)
  have err := congrArg (·.err) (Option.some.inj result)
  simp only at status err
  have shown : out.status.conditions = invalidSpecConditions ext ambient cjob e := by rw [← status]
  have rejects : ∀ {later e'}, buildWorkflowContext ext later cjob = .error e' →
      reconcileCertificateJob c ext later { cjob with status := out.status } s' = some
        ⟨⟨out.status.observedCertificates, invalidSpecConditions ext later { cjob with status := out.status } e'⟩, none, none,
          [], s'⟩ := by
    intro later e' rejected
    have again : buildWorkflowContext ext later { cjob with status := out.status } = .error e' := rejected
    simp only [reconcileCertificateJob, again]
  constructor
  · intro rests other
    obtain ⟨inner, again, same⟩ := (rests _ (ambient.ticked_later other.orders)).same
    cases recontext : buildWorkflowContext ext (ambient.ticked other.orders) cjob with
    | ok workflowCtx =>
      have accepted := buildWorkflowContext_again recontext ambient cjob.status
      rw [context] at accepted
      cases accepted
    | error e' =>
      rw [rejects recontext] at again
      obtain rfl := Option.some.inj again
      rw [invalidSpec_words sets shown (congrArg (·.conditions) same)] at recontext
      exact buildWorkflowContext_rejected recontext rfl
  · intro steady later _
    have again := rejects (steady later)
    rw [← err]
    exact rests_of_same read again (by rw [invalidSpec_again sets shown]) rfl rfl

theorem listFailed_rests (sets : ext.SetsConditions) {workflowCtx : WorkflowContext} {e : ApiError}
    (context : buildWorkflowContext ext ambient cjob = .ok workflowCtx)
    (listed : listMatchingCertificates c ext cjob s = .error e)
    (relisted : listMatchingCertificates c ext { cjob with status := out.status } s' = .error e)
    (result : reconcileCertificateJob c ext ambient cjob s = some out)
    (read : c.getCertificateJob s' ns name = .ok { cjob with status := out.status }) (later : Ambient) :
    Rests c ext later ns name { cjob with status := out.status } s' out.err := by
  simp only [reconcileCertificateJob, context, listed] at result
  have status := congrArg (·.status) (Option.some.inj result)
  have err := congrArg (·.err) (Option.some.inj result)
  simp only at status err
  have shown : out.status.conditions = listFailedConditions ext ambient cjob e.text := by rw [← status]
  have again : reconcileCertificateJob c ext later { cjob with status := out.status } s' = some
      ⟨⟨out.status.observedCertificates, listFailedConditions ext later { cjob with status := out.status } e.text⟩, none,
        some e, [], s'⟩ := by
    simp only [reconcileCertificateJob, buildWorkflowContext_again context later out.status, relisted]
  rw [← err]
  exact rests_of_same read again (by rw [listFailed_again sets shown]) rfl rfl

end

/-- A status that a reconcile left settled is left alone from then on, exactly if no template is refused for one of several
    reserved keys and, where the spec is accepted, every matching certificate names a Secret. -/
theorem settled_status_rests_iff {σ : Type} (c : Client σ) (ext : External) (ambient : Ambient) (cjob : CertificateJob)
    (s s' : σ) (ns name : String) (out : JobOutcome σ) (sets : ext.SetsConditions)
    (listing : ∀ all, c.listCertificates s cjob.ns = .ok all → (all.map (·.key)).Nodup)
    (steady : ∀ s job, c.getSecret (c.createJob s job).2 = c.getSecret s)
    (result : reconcileCertificateJob c ext ambient cjob s = some out)
    (settled : out.status.Settled c ext ambient cjob s)
    (read : c.getCertificateJob s' ns name = .ok { cjob with status := out.status })
    (secrets : c.getSecret s' = c.getSecret s) (certificates : c.listCertificates s' = c.listCertificates s) :
    (∀ later, ambient.Later later → Rests c ext later ns name { cjob with status := out.status } s' out.err) ↔
      Stable c ext ambient cjob s := by
  have relists : listMatchingCertificates c ext { cjob with status := out.status } s' =
      listMatchingCertificates c ext cjob s := by
    simp only [listMatchingCertificates, certificates]
    rfl
  cases context : buildWorkflowContext ext ambient cjob with
  | error e =>
    rw [invalidSpec_rests_iff sets context result read, buildWorkflowContext_steady_iff context]
    refine ⟨fun labels => ⟨labels, fun _ _ accepted => ?_⟩, Stable.labels⟩
    rw [context] at accepted
    cases accepted
  | ok workflowCtx =>
    have labels : ∀ json, ext.marshalSpec cjob.spec = .ok json → cjob.spec.OneReservedKey :=
      fun _ _ => buildWorkflowContext_oneReservedKey context
    cases listed : listMatchingCertificates c ext cjob s with
    | error e =>
      refine iff_of_true (fun later _ => listFailed_rests sets context listed (relists.trans listed) result read later)
        ⟨labels, ?_⟩
      intro _ certs _ answered
      rw [listed] at answered
      cases answered
    | ok certs =>
      have distinct := listMatchingCertificates_distinct listing listed
      obtain ⟨visits, turns⟩ := reconcileCertificateJob_reconciled context listed distinct result
      constructor
      · intro rests
        refine ⟨labels, fun _ others _ same => ?_⟩
        obtain rfl := Except.ok.inj (same.symm.trans listed)
        obtain ⟨again, result', unchanged⟩ := (rests _ (ambient.ticked_later ambient.orders)).same
        obtain ⟨visits', turns'⟩ := reconcileCertificateJob_reconciled
          (buildWorkflowContext_again context _ out.status) (relists.trans listed) distinct result'
        exact turns.named context turns' unchanged (Nat.succ_ne_self _).symm
      · intro stable later _
        have rest : Resting c ext ambient cjob s workflowCtx certs out visits :=
          ⟨turns, context, listed, steady, settled, stable.named workflowCtx certs context listed⟩
        obtain ⟨again, result', same, calls, requeue, err⟩ := rest.repeated sets distinct secrets (relists.trans listed)
        rw [turns.err, ← err]
        exact rests_of_same read result' same calls requeue

def Cluster.store (cluster : Cluster) (status : CertificateJobStatus) : Cluster :=
  { cluster with cjob := { cluster.cjob with status := status } }

def Cluster.settledBy (cluster : Cluster) (status : CertificateJobStatus) : Bool :=
  status.observedCertificates.all (isTerminalPhase ·.phase) &&
  (listMatchingCertificates clusterClient plainExternal cluster.cjob cluster).toOption.all fun certs =>
    certs.all fun cert =>
      (EntryPass.inputHash clusterClient plainExternal ⟨stillClock, cluster.cjob, cert, cluster⟩).all fun hash =>
        status.observedCertificates.all fun entry => entry.key ≠ cert.key ∨ entry.inputHash = hash

theorem settled_of_check {cluster : Cluster} {status : CertificateJobStatus} (check : cluster.settledBy status = true) :
    status.Settled clusterClient plainExternal stillClock cluster.cjob cluster := by
  simp only [Cluster.settledBy, Bool.and_eq_true, List.all_eq_true] at check
  refine ⟨check.1, fun certs listed cert member hash input entry inside same => ?_⟩
  have current := check.2
  rw [listed] at current
  have checked := List.all_eq_true.mp current cert member
  rw [input] at checked
  have either := of_decide_eq_true (List.all_eq_true.mp checked entry inside)
  exact either.resolve_left fun different => different same

theorem settled_status_rests_iff_succeeded :
    ∃ (cluster : Cluster) (out : JobOutcome Cluster),
      reconcileCertificateJob clusterClient plainExternal stillClock cluster.cjob cluster = some out ∧
      out.status.observedCertificates.map (·.phase) = [.succeeded] ∧
      ∀ later, stillClock.Later later →
        Rests clusterClient plainExternal later "default" "renewal" (cluster.store out.status).cjob
          (cluster.store out.status) none := by
  have played : ((sampleCluster (flatSpec ["a"] 1 .stopDownstream)).round.map (·.report "a" completeStatus)).any
      (fun cluster => (cluster.cjob.ns = "default" ∧ cluster.cjob.name = "renewal") ∧
        (cluster.certificates.map (·.key)).Nodup ∧
        (buildWorkflowContext plainExternal stillClock cluster.cjob).toOption.isSome ∧
        (listMatchingCertificates clusterClient plainExternal cluster.cjob cluster).toOption.any
          (fun certs => certs.all (·.spec.secretName ≠ "")) ∧
        (reconcileCertificateJob clusterClient plainExternal stillClock cluster.cjob cluster).any fun out =>
          out.status.observedCertificates.map (·.phase) = [.succeeded] ∧ out.err.isNone ∧
            cluster.settledBy out.status) = true := by
    decide +kernel
  obtain ⟨cluster, -, checked⟩ := (Option.any_eq_true _ _).mp played
  obtain ⟨identity, distinct, accepted, matched, performs⟩ := of_decide_eq_true checked
  obtain ⟨out, result, ended⟩ := (Option.any_eq_true _ _).mp performs
  obtain ⟨succeeded, fine, settled⟩ := of_decide_eq_true ended
  obtain ⟨workflowCtx, context⟩ := Option.isSome_iff_exists.mp accepted
  obtain ⟨certs, listed, named⟩ := (Option.any_eq_true _ _).mp matched
  have stable : Stable clusterClient plainExternal stillClock cluster.cjob cluster := by
    refine ⟨fun _ _ => buildWorkflowContext_oneReservedKey (ok_of_toOption context), fun _ others _ answered cert member => ?_⟩
    · obtain rfl := Except.ok.inj (answered.symm.trans (ok_of_toOption listed))
      exact of_decide_eq_true (List.all_eq_true.mp named cert member)
  have rests := (settled_status_rests_iff clusterClient plainExternal stillClock cluster.cjob cluster
    (cluster.store out.status) "default" "renewal" out plainExternal_setsConditions (clusterClient_listing distinct _) clusterClient_secrets result
    (settled_of_check settled) (if_pos identity) rfl rfl).mpr stable
  rw [Option.isNone_iff_eq_none.mp fine] at rests
  exact ⟨cluster, out, result, succeeded, rests⟩

def unnamedCluster : Cluster :=
  { sampleCluster (flatSpec ["a"] 1 .stopDownstream) with
    certificates := [{ ns := "default", name := "web", spec := { secretName := "" } }] }

def reservedCluster : Cluster :=
  sampleCluster { jobs := [{ name := "a", labels := (reservedOperatorLabels.take 2).foldr (fun key => .insert key "") ∅ }] }

def Cluster.Rewrites (cluster : Cluster) (later : Ambient) : Prop :=
  ∃ out again, stillClock.Later later ∧
    reconcileCertificateJob clusterClient plainExternal stillClock cluster.cjob cluster = some out ∧
    out.status.Settled clusterClient plainExternal stillClock cluster.cjob cluster ∧
    reconcile clusterClient plainExternal later "default" "renewal" (cluster.store out.status) = some again ∧
    again.wrote = true

theorem rewrites_of_check {cluster : Cluster} {later : Ambient} (after : stillClock.Later later)
    (check : (reconcileCertificateJob clusterClient plainExternal stillClock cluster.cjob cluster).any (fun out =>
      cluster.settledBy out.status ∧
      (reconcile clusterClient plainExternal later "default" "renewal" (cluster.store out.status)).any (·.wrote)) =
        true) : cluster.Rewrites later := by
  obtain ⟨out, result, checked⟩ := (Option.any_eq_true _ _).mp check
  obtain ⟨settled, writes⟩ := of_decide_eq_true checked
  obtain ⟨again, second, wrote⟩ := (Option.any_eq_true _ _).mp writes
  exact ⟨out, again, after, result, settled_of_check settled, second, wrote⟩

/-- A certificate without a Secret name makes every reconcile write the status, and so does a spec with two reserved
    labels when they are visited in another order. -/
theorem settled_status_rewritten :
    unnamedCluster.Rewrites { clock := fun _ => 1 } ∧
      reservedCluster.Rewrites { clock := fun _ => 1, orders := { labels := reversedOrder } } := by
  constructor
  · exact rewrites_of_check (fun _ => Nat.zero_le _) (by decide +kernel)
  · exact rewrites_of_check (fun _ => Nat.zero_le _) (by decide +kernel)

end CertificateJobs

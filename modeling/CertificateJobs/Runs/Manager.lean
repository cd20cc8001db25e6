import CertificateJobs.Controller.Watches
import CertificateJobs.Library.ControlLoop
import CertificateJobs.Runs.Sweep

namespace CertificateJobs

def Certificate.id (cert : Certificate) : String × String := (cert.ns, cert.name)

/-- The objects that decide about the input of a run. The API keeps the entries of a status apart by their keys. -/
structure Objects extends Snapshot where
  secrets : String → String → Option Secret
  distinctCertificates : (certificates.map (·.id)).Nodup
  tables : ∀ cjob ∈ certificateJobs, (cjob.status.observedCertificates.map (·.key)).Nodup

inductive Target
  | certificate (ns name : String)
  | secret (ns name : String)
  | certificateJob (req : Request)
  deriving DecidableEq

inductive Notice
  | certificate (cert : Certificate)
  | secret (ns name : String)
  | certificateJob (req : Request)

namespace Objects

def empty : Objects where
  certificates := []
  certificateJobs := []
  distinct := List.nodup_nil
  secrets _ _ := none
  distinctCertificates := List.nodup_nil
  tables := by simp

def job (o : Objects) (req : Request) : Option CertificateJob := o.certificateJobs.find? (·.request = req)

def certificate (o : Objects) (ns name : String) : Option Certificate := o.certificates.find? (·.id = (ns, name))

def Agrees (target : Target) (o o' : Objects) : Prop :=
  match target with
  | .certificate ns name => o.certificate ns name = o'.certificate ns name
  | .secret ns name => o.secrets ns name = o'.secrets ns name
  | .certificateJob req => o.job req = o'.job req

def take (o : Objects) (target : Target) (source : Objects) : Objects :=
  match target with
  | .certificate ns name => { o with
      certificates := KeyedBy.takeFrom (·.id) (ns, name) source.certificates o.certificates
      distinctCertificates := KeyedBy.nodup_takeFrom o.distinctCertificates }
  | .secret ns name => { o with
      secrets := fun ns' name' => if ns' = ns ∧ name' = name then source.secrets ns name else o.secrets ns' name' }
  | .certificateJob req => { o with
      certificateJobs := KeyedBy.takeFrom (·.request) req source.certificateJobs o.certificateJobs
      distinct := KeyedBy.nodup_takeFrom o.distinct
      tables := by
        intro cjob member
        rcases KeyedBy.mem_takeFrom.mp member with ⟨old, -⟩ | found
        · exact o.tables cjob old
        · exact source.tables cjob (KeyedBy.takeFrom_key found).1 }

def storeStatus (o : Objects) (req : Request) (status : CertificateJobStatus) : Objects :=
  if unique : (status.observedCertificates.map (·.key)).Nodup then { o with
    certificateJobs := o.certificateJobs.map fun cjob =>
      if cjob.request = req then { cjob with status := status } else cjob
    distinct := by
      have same : ((fun cjob => cjob.request) ∘ fun cjob : CertificateJob =>
          if cjob.request = req then { cjob with status := status } else cjob) = fun cjob => cjob.request := by
        funext cjob
        simp only [Function.comp_apply]
        split <;> rfl
      rw [List.map_map, same]
      exact o.distinct
    tables := by
      intro cjob member
      obtain ⟨old, inside, rfl⟩ := List.mem_map.mp member
      split
      · exact unique
      · exact o.tables old inside }
  else o

def notices (o : Objects) (target : Target) (source : Objects) : List Notice :=
  match target with
  | .certificate ns name =>
    ((o.certificate ns name).toList ++ (source.certificate ns name).toList).map Notice.certificate
  | .secret ns name => [.secret ns name]
  | .certificateJob req => [.certificateJob req]

end Objects

section
variable {τ : Type} (jobs : Client τ)

def managerClient : WatchClient (Objects × τ) where
  getCertificateJob s ns name :=
    (s.1.job ⟨ns, name⟩).elim (notFound "certificatejobs.certificates.rezzell.com" name) .ok
  listCertificates s ns := .ok (s.1.certificates.filter (·.ns = ns))
  getSecret s ns name := (s.1.secrets ns name).elim (notFound "secrets" name) .ok
  getJob s := jobs.getJob s.2
  setControllerReference s := jobs.setControllerReference s.2
  createJob s job := ((jobs.createJob s.2 job).1, (s.1, (jobs.createJob s.2 job).2))
  updateStatus s cjob :=
    match jobs.updateStatus s.2 cjob with
    | (some e, t) => (some e, (s.1, t))
    | (none, t) => (none, (s.1.storeStatus cjob.request cjob.status, t))
  listCertificateJobs s ns := .ok (s.1.certificateJobs.filter (·.ns = ns))
  listCertificatesBySecretName s ns name :=
    .ok (s.1.certificates.filter fun cert => cert.ns = ns ∧ name ∈ secretNameIndex cert)

theorem managerClient_serves (s : Objects × τ) : Serves (managerClient jobs) s s.1.toSnapshot where
  certificates _ := ⟨_, rfl, .rfl⟩
  certificateJobs _ := ⟨_, rfl, .rfl⟩
  indexed _ _ := ⟨_, rfl, .rfl⟩

end

def Notice.requests {σ : Type} (c : WatchClient σ) (ext : External) (order : MapOrder) (s : σ) : Notice → List Request
  | .certificate cert => mapCertificateToCertificateJobs c ext s (.certificate cert)
  | .secret ns name => mapSecretToCertificateJobs c ext order s (.secret ns name)
  | .certificateJob req => [req]

section
variable (ext : External)

def Notice.Asks (o : Objects) : Notice → Request → Prop
  | .certificate cert, req => ∃ cjob, o.job req = some cjob ∧ cjob.Selects ext cert
  | .secret ns name, req => ∃ cjob, o.job req = some cjob ∧
      ∃ cert ∈ o.certificates, cjob.Selects ext cert ∧ cert.ns = ns ∧ cert.spec.secretName = name ∧ name ≠ ""
  | .certificateJob other, req => other = req

/-- Two caches agree on what the reconcile of a request reads: the CertificateJob, the certificates it selects and
    their Secrets. -/
structure Objects.Same (req : Request) (o o' : Objects) : Prop where
  job : o.job req = o'.job req
  certificates : ∀ cjob, o.job req = some cjob → ∀ cert, cjob.Selects ext cert →
    (cert ∈ o.certificates ↔ cert ∈ o'.certificates)
  secrets : ∀ cjob, o.job req = some cjob → ∀ cert ∈ o.certificates, cjob.Selects ext cert →
    cert.spec.secretName ≠ "" → o.secrets cert.ns cert.spec.secretName = o'.secrets cert.ns cert.spec.secretName

variable {ext} {o o' o'' source : Objects} {req : Request} {cjob : CertificateJob}

theorem job_mem (found : o.job req = some cjob) : cjob ∈ o.certificateJobs ∧ cjob.request = req :=
  KeyedBy.takeFrom_key found

theorem certificate_of_mem {cert : Certificate} (member : cert ∈ o.certificates) :
    o.certificate cert.ns cert.name = some cert :=
  KeyedBy.find_of_mem o.distinctCertificates member

theorem Objects.Same.refl (o : Objects) : o.Same ext req o := ⟨rfl, fun _ _ _ _ => Iff.rfl, fun _ _ _ _ _ _ => rfl⟩

theorem Objects.Same.symm (same : o.Same ext req o') : o'.Same ext req o where
  job := same.job.symm
  certificates cjob found cert selects := (same.certificates cjob (same.job.trans found) cert selects).symm
  secrets cjob found cert member selects named := by
    have found := same.job.trans found
    exact (same.secrets cjob found cert ((same.certificates cjob found cert selects).mpr member) selects named).symm

theorem Objects.Same.trans (first : o.Same ext req o') (second : o'.Same ext req o'') : o.Same ext req o'' where
  job := first.job.trans second.job
  certificates cjob found cert selects := (first.certificates cjob found cert selects).trans
    (second.certificates cjob (first.job.symm.trans found) cert selects)
  secrets cjob found cert member selects named := (first.secrets cjob found cert member selects named).trans
    (second.secrets cjob (first.job.symm.trans found) cert ((first.certificates cjob found cert selects).mp member)
      selects named)

theorem Notice.Asks.requests {σ : Type} {c : WatchClient σ} {s : σ} (serves : Serves c s o.toSnapshot) {order : MapOrder}
    {notice : Notice} (asks : notice.Asks ext o req) : req ∈ notice.requests c ext order s := by
  cases notice with
  | certificateJob other =>
    obtain rfl : other = req := asks
    exact List.mem_singleton_self _
  | certificate cert =>
    obtain ⟨cjob, found, selects⟩ := asks
    obtain ⟨member, rfl⟩ := job_mem found
    exact (request_mem serves member).mpr selects
  | secret ns name =>
    obtain ⟨cjob, found, cert, present, selects, here, secret, named⟩ := asks
    obtain ⟨member, rfl⟩ := job_mem found
    obtain ⟨certs, answer, whole⟩ := serves.indexed ns name
    have within : ∀ cert ∈ certs, cert.ns = ns := by
      intro cert inside
      rw [whole.mem_iff, List.mem_filter, decide_eq_true_eq] at inside
      exact inside.2.1
    have asked : cjob.request ∈ certs.flatMap fun cert =>
        mapCertificateToCertificateJobs c ext s (.certificate cert) := by
      refine List.mem_flatMap.mpr ⟨cert, ?_, (request_mem serves member).mpr selects⟩
      rw [whole.mem_iff, List.mem_filter, decide_eq_true_eq, mem_secretNameIndex named]
      exact ⟨present, here, secret⟩
    have same : ∀ req ∈ certs.flatMap fun cert =>
        mapCertificateToCertificateJobs c ext s (.certificate cert), req.ns = ns := by
      intro req inside
      obtain ⟨cert, indexed, inside⟩ := List.mem_flatMap.mp inside
      obtain ⟨other, -, selects, rfl⟩ := (mem_mapCertificate serves).mp inside
      exact selects.1.trans (within cert indexed)
    rw [Notice.requests, mapSecret_eq answer, ← List.count_pos_iff,
      KeyedBy.count_values (requests_injective same) (order.perm _), if_pos asked]
    exact Nat.one_pos

theorem job_take (target : Target) (req : Request) : (o.take target source).job req =
    if target = .certificateJob req then source.job req else o.job req := by
  cases target with
  | certificate ns name => simp [Objects.take, Objects.job]
  | secret ns name => simp [Objects.take, Objects.job]
  | certificateJob other =>
    rw [Objects.take, Objects.job, KeyedBy.find_takeFrom]
    by_cases here : req = other
    · simp [here, Objects.job]
    · simp [here, Ne.symm here, Objects.job]

theorem mem_take {target : Target} {cert : Certificate} : cert ∈ (o.take target source).certificates ↔
    if target = .certificate cert.ns cert.name then source.certificate cert.ns cert.name = some cert
    else cert ∈ o.certificates := by
  cases target with
  | secret ns name => simp [Objects.take]
  | certificateJob other => simp [Objects.take]
  | certificate ns name =>
    rw [Objects.take, KeyedBy.mem_takeFrom]
    by_cases here : cert.id = (ns, name)
    · obtain ⟨rfl, rfl⟩ := Prod.mk.inj here
      simp [Certificate.id, Objects.certificate]
    · have other : ¬ (ns = cert.ns ∧ name = cert.name) := by
        rintro ⟨rfl, rfl⟩
        exact here rfl
      have missing : source.certificates.find? (fun cert => cert.id = (ns, name)) ≠ some cert :=
        fun found => here (KeyedBy.takeFrom_key found).2
      simp [other, here, missing]

theorem secrets_take (target : Target) (ns name : String) : (o.take target source).secrets ns name =
    if target = .secret ns name then source.secrets ns name else o.secrets ns name := by
  cases target with
  | certificate ns' name' => simp [Objects.take]
  | certificateJob other => simp [Objects.take]
  | secret ns' name' =>
    by_cases here : ns = ns' ∧ name = name'
    · simp [Objects.take, here]
    · rw [Objects.take]
      simp only [if_neg here, Target.secret.injEq]
      rw [if_neg]
      rintro ⟨rfl, rfl⟩
      exact here ⟨rfl, rfl⟩

theorem certificate_take (target : Target) (ns name : String) : (o.take target source).certificate ns name =
    if target = .certificate ns name then source.certificate ns name else o.certificate ns name := by
  cases target with
  | secret ns' name' => simp [Objects.take, Objects.certificate]
  | certificateJob other => simp [Objects.take, Objects.certificate]
  | certificate ns' name' =>
    rw [Objects.take, Objects.certificate, KeyedBy.find_takeFrom]
    by_cases here : (ns, name) = (ns', name')
    · obtain ⟨rfl, rfl⟩ := Prod.mk.inj here
      simp [Objects.certificate]
    · rw [if_neg here, if_neg]
      · rfl
      · rintro ⟨rfl, rfl⟩
        exact here rfl

theorem take_agrees (o source : Objects) (target : Target) : (o.take target source).Agrees target source := by
  cases target with
  | certificate ns name => exact (certificate_take _ ns name).trans (if_pos rfl)
  | secret ns name => exact (secrets_take _ ns name).trans (if_pos rfl)
  | certificateJob req => exact (job_take _ req).trans (if_pos rfl)

theorem take_agrees_other (o source : Objects) {target other : Target} (different : other ≠ target) :
    (o.take target source).Agrees other o := by
  cases other with
  | certificate ns name => exact (certificate_take _ ns name).trans (if_neg (Ne.symm different))
  | secret ns name => exact (secrets_take _ ns name).trans (if_neg (Ne.symm different))
  | certificateJob req => exact (job_take _ req).trans (if_neg (Ne.symm different))

theorem Objects.Agrees.refl (o : Objects) (target : Target) : o.Agrees target o := by
  cases target <;> rfl

theorem Objects.Agrees.trans {target : Target} (first : o.Agrees target o') (second : o'.Agrees target o'') :
    o.Agrees target o'' := by
  cases target with
  | certificate ns name => exact Eq.trans first second
  | secret ns name => exact Eq.trans first second
  | certificateJob req => exact Eq.trans first second

theorem storeStatus_agrees (o : Objects) {req : Request} {target : Target} (other : target ≠ .certificateJob req)
    (status : CertificateJobStatus) : o.Agrees target (o.storeStatus req status) := by
  unfold Objects.storeStatus
  split
  · cases target with
    | certificate ns name => rfl
    | secret ns name => rfl
    | certificateJob req' =>
      have apart : req' ≠ req := fun same => other (same ▸ rfl)
      simp only [Objects.Agrees, Objects.job]
      induction o.certificateJobs with
      | nil => rfl
      | cons cjob rest ih =>
        rw [List.map_cons, List.find?_cons, List.find?_cons, ← ih]
        by_cases here : cjob.request = req
        · have renamed : ({ cjob with status := status } : CertificateJob).request = req := here
          simp [here, renamed, Ne.symm apart]
        · rw [if_neg here]
  · cases target <;> rfl

theorem same_of_agrees (agrees : ∀ target, o.Agrees target o') : o.Same ext req o' where
  job := agrees (.certificateJob req)
  certificates cjob found cert selects := by
    have here : o.certificate cert.ns cert.name = o'.certificate cert.ns cert.name := agrees (.certificate ..)
    constructor
    · exact fun member => (KeyedBy.takeFrom_key (here.symm.trans (certificate_of_mem member))).1
    · exact fun member => (KeyedBy.takeFrom_key (here.trans (certificate_of_mem member))).1
  secrets _ _ cert _ _ _ := agrees (.secret cert.ns cert.spec.secretName)

theorem old_notice {cert : Certificate} (member : cert ∈ o.certificates) :
    .certificate cert ∈ o.notices (.certificate cert.ns cert.name) source := by
  simp [Objects.notices, certificate_of_mem member]

theorem new_notice {cert : Certificate} (found : source.certificate cert.ns cert.name = some cert) :
    .certificate cert ∈ o.notices (.certificate cert.ns cert.name) source := by
  simp [Objects.notices, found]

/-- A change that touches what the reconcile of a request reads leaves a notice that asks for the request. -/
theorem change_reported (o source : Objects) (target : Target) (req : Request) :
    o.Same ext req (o.take target source) ∨
      ∃ notice ∈ o.notices target source, notice.Asks ext (o.take target source) req := by
  by_cases own : target = .certificateJob req
  · subst own
    exact .inr ⟨_, List.mem_singleton_self _, rfl⟩
  have kept : (o.take target source).job req = o.job req := by rw [job_take, if_neg own]
  by_cases touched : ∃ notice ∈ o.notices target source, notice.Asks ext (o.take target source) req
  · exact .inr touched
  refine .inl ⟨kept.symm, fun cjob found cert selects => ?_, fun cjob found cert member selects named => ?_⟩
  · rw [mem_take]
    split
    · rename_i here
      subst here
      have untold : ∀ cert', .certificate cert' ∈ o.notices (.certificate cert.ns cert.name) source →
          ¬ cjob.Selects ext cert' :=
        fun cert' told selects => touched ⟨_, told, cjob, kept.trans found, selects⟩
      constructor
      · exact fun member => absurd selects (untold cert (old_notice member))
      · exact fun present => absurd selects (untold cert (new_notice present))
    · exact Iff.rfl
  · rw [secrets_take]
    split
    · rename_i here
      subst here
      refine absurd ⟨_, List.mem_singleton_self _, cjob, kept.trans found, cert, ?_, selects, rfl, rfl, named⟩ touched
      exact mem_take.mpr (by simpa using member)
    · rfl

/-- A notice stays good while the cache goes on changing, or the next change leaves one that is. -/
theorem notice_kept (o source : Objects) (target : Target) (notice : Notice) (req : Request)
    (asks : notice.Asks ext o req) : notice.Asks ext (o.take target source) req ∨
      ∃ notice' ∈ o.notices target source, notice'.Asks ext (o.take target source) req := by
  by_cases own : target = .certificateJob req
  · subst own
    exact .inr ⟨_, List.mem_singleton_self _, rfl⟩
  have kept : (o.take target source).job req = o.job req := by rw [job_take, if_neg own]
  cases notice with
  | certificateJob other => exact .inl asks
  | certificate cert =>
    obtain ⟨cjob, found, selects⟩ := asks
    exact .inl ⟨cjob, kept.trans found, selects⟩
  | secret ns name =>
    obtain ⟨cjob, found, cert, member, selects, facts⟩ := asks
    by_cases moved : target = .certificate cert.ns cert.name
    · subst moved
      exact .inr ⟨_, old_notice member, cjob, kept.trans found, selects⟩
    · exact .inl ⟨cjob, kept.trans found, cert, mem_take.mpr (by simpa [moved] using member), selects, facts⟩

variable (ext) in
def watching : Watching Request Objects (Target × Objects) Notice where
  apply o change := o.take change.1 change.2
  notices o change := o.notices change.1 change.2
  asks o notice req := notice.Asks ext o req
  same req o o' := o.Same ext req o'
  equivalence _ := ⟨Objects.Same.refl, Objects.Same.symm, Objects.Same.trans⟩
  reports o change req := change_reported o change.2 change.1 req
  keeps o change notice req asks := notice_kept o change.2 change.1 notice req asks

end

end CertificateJobs

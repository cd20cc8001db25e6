import CertificateJobs.Controller.Cluster
import CertificateJobs.Library.KeyedBy

namespace CertificateJobs

structure WatchClient (σ : Type) extends Client σ where
  listCertificateJobs : σ → String → Except ApiError (List CertificateJob)
  listCertificatesBySecretName : σ → String → String → Except ApiError (List Certificate)

/-- An object whose change a watch reports. Of a Secret the handlers read namespace and name. -/
inductive WatchedObject
  | certificate (cert : Certificate)
  | secret (ns name : String)

structure Request where
  ns : String
  name : String
  deriving DecidableEq

def CertificateJob.request (cjob : CertificateJob) : Request := ⟨cjob.ns, cjob.name⟩

def secretNameIndex (cert : Certificate) : List String :=
  if cert.spec.secretName = "" then [] else [cert.spec.secretName]

theorem mem_secretNameIndex {name : String} (named : name ≠ "") {cert : Certificate} :
    name ∈ secretNameIndex cert ↔ cert.spec.secretName = name := by
  unfold secretNameIndex
  split
  · rename_i empty
    simp [empty, named.symm]
  · simp [eq_comm]

section
variable {σ : Type} (c : WatchClient σ) (ext : External)

def mapCertificateToCertificateJobs (s : σ) : WatchedObject → List Request
  | .secret _ _ => []
  | .certificate cert =>
    match c.listCertificateJobs s cert.ns with
    | .error _ => []
    | .ok cjobs => cjobs.filterMap fun cjob =>
      match certificateSelectorForJob ext cjob with
      | .error _ => none
      | .ok certSelector =>
        if selectorMatchesCertificateLabels certSelector cert.labels then some ⟨cjob.ns, cjob.name⟩ else none

def mapSecretToCertificateJobs (order : MapOrder) (s : σ) : WatchedObject → List Request
  | .certificate _ => []
  | .secret ns name =>
    match c.listCertificatesBySecretName s ns name with
    | .error _ => []
    | .ok certs =>
      let requestSet : AList (fun _ : String => Request) := certs.foldl (fun requestSet cert =>
        (mapCertificateToCertificateJobs c ext s (.certificate cert)).foldl
          (fun requestSet req => requestSet.insert (req.ns ++ "/" ++ req.name) req) requestSet) ∅
      (order.visit requestSet.keys).filterMap fun key => requestSet.lookup key

end

structure Snapshot where
  certificates : List Certificate
  certificateJobs : List CertificateJob
  distinct : (certificateJobs.map (·.request)).Nodup

/-- Every List returns the objects of its namespace, in whatever order, and the index those of them that it lists under
    the name. -/
structure Serves {σ : Type} (c : WatchClient σ) (s : σ) (snapshot : Snapshot) : Prop where
  certificates : ∀ ns, ∃ list, c.listCertificates s ns = .ok list ∧
    list.Perm (snapshot.certificates.filter (·.ns = ns))
  certificateJobs : ∀ ns, ∃ list, c.listCertificateJobs s ns = .ok list ∧
    list.Perm (snapshot.certificateJobs.filter (·.ns = ns))
  indexed : ∀ ns name, ∃ list, c.listCertificatesBySecretName s ns name = .ok list ∧
    list.Perm (snapshot.certificates.filter fun cert => cert.ns = ns ∧ name ∈ secretNameIndex cert)

section
variable {σ : Type} {c : WatchClient σ} {s : σ} {snapshot : Snapshot} (ext : External)

def CertificateJob.Selects (cjob : CertificateJob) (cert : Certificate) : Prop :=
  cjob.ns = cert.ns ∧ ∃ certSelector, certificateSelectorForJob ext cjob = .ok certSelector ∧
    selectorMatchesCertificateLabels certSelector cert.labels = true

variable {ext}

theorem mem_mapCertificate (serves : Serves c s snapshot) {cert : Certificate} {req : Request} :
    req ∈ mapCertificateToCertificateJobs c ext s (.certificate cert) ↔
      ∃ cjob ∈ snapshot.certificateJobs, cjob.Selects ext cert ∧ cjob.request = req := by
  obtain ⟨list, answer, whole⟩ := serves.certificateJobs cert.ns
  simp only [mapCertificateToCertificateJobs, answer, List.mem_filterMap, whole.mem_iff, List.mem_filter,
    decide_eq_true_eq, CertificateJob.Selects]
  constructor
  · rintro ⟨cjob, ⟨member, ns⟩, mapped⟩
    cases selector : certificateSelectorForJob ext cjob with
    | error e => simp [selector] at mapped
    | ok certSelector =>
      simp only [selector, Option.ite_none_right_eq_some, Option.some.injEq] at mapped
      exact ⟨cjob, member, ⟨ns, certSelector, selector, mapped.1⟩, mapped.2⟩
  · rintro ⟨cjob, member, ⟨ns, certSelector, selector, accepts⟩, rfl⟩
    refine ⟨cjob, ⟨member, ns⟩, ?_⟩
    simp [selector, accepts, CertificateJob.request]

theorem request_mem (serves : Serves c s snapshot) {cjob : CertificateJob} (member : cjob ∈ snapshot.certificateJobs)
    {cert : Certificate} :
    cjob.request ∈ mapCertificateToCertificateJobs c ext s (.certificate cert) ↔ cjob.Selects ext cert := by
  rw [mem_mapCertificate serves]
  constructor
  · rintro ⟨other, present, selects, same⟩
    obtain rfl := List.inj_on_of_nodup_map snapshot.distinct present member same
    exact selects
  · exact fun selects => ⟨cjob, member, selects, rfl⟩

theorem listMatching_of_listed {c : Client σ} {cjob : CertificateJob} {certSelector : Selector}
    (valid : certificateSelectorForJob ext cjob = .ok certSelector) {all : List Certificate}
    (answer : c.listCertificates s cjob.ns = .ok all) :
    ∃ matching, listMatchingCertificates c ext cjob s = .ok matching ∧
      ∀ cert, cert ∈ matching ↔ cert ∈ all ∧ selectorMatchesCertificateLabels certSelector cert.labels = true := by
  have listed : listMatchingCertificates c ext cjob s = .ok
      ((all.insertionSort fun a b => certificateBefore a b).filter fun cert =>
        selectorMatchesCertificateLabels certSelector cert.labels) := by
    simp only [listMatchingCertificates, valid, answer, bind, Except.bind, pure, Except.pure]
  refine ⟨_, listed, ?_⟩
  intro cert
  simp only [List.mem_filter, List.mem_insertionSort]

theorem mem_listMatching (serves : Serves c s snapshot) {cjob : CertificateJob} {certSelector : Selector}
    (valid : certificateSelectorForJob ext cjob = .ok certSelector) :
    ∃ matching, listMatchingCertificates c.toClient ext cjob s = .ok matching ∧
      ∀ cert, cert ∈ matching ↔ cert ∈ snapshot.certificates ∧ cjob.Selects ext cert := by
  obtain ⟨list, answer, whole⟩ := serves.certificates cjob.ns
  obtain ⟨matching, listed, matched⟩ := listMatching_of_listed valid answer
  refine ⟨matching, listed, fun cert => ?_⟩
  simp only [matched, whole.mem_iff, List.mem_filter, decide_eq_true_eq, CertificateJob.Selects, valid, Except.ok.injEq,
    exists_eq_left', and_assoc, eq_comm (a := cert.ns)]

theorem mapSecret_eq {order : MapOrder} {ns name : String} {certs : List Certificate}
    (answer : c.listCertificatesBySecretName s ns name = .ok certs) :
    let requests := certs.flatMap fun cert => mapCertificateToCertificateJobs c ext s (.certificate cert)
    let requestSet := requests.keyedBy fun req => req.ns ++ "/" ++ req.name
    mapSecretToCertificateJobs c ext order s (.secret ns name) =
      (order.visit requestSet.keys).filterMap fun key => requestSet.lookup key := by
  simp only [mapSecretToCertificateJobs, answer, List.keyedBy, List.foldl_flatMap]

end

theorem requests_injective {requests : List Request} {ns : String} (same : ∀ req ∈ requests, req.ns = ns) :
    ∀ a ∈ requests, ∀ b ∈ requests, a.ns ++ "/" ++ a.name = b.ns ++ "/" ++ b.name → a = b := by
  rintro ⟨_, name⟩ first ⟨_, name'⟩ second keys
  obtain rfl := same _ first
  obtain rfl := same _ second
  have names := congrArg String.toList keys
  simp only [String.toList_append, List.append_cancel_left_eq, String.toList_inj] at names
  rw [names]

/-- The watches ask for a CertificateJob exactly where its reconcile would read the object that changed. -/
theorem watches_match_reconcile {σ : Type} (c : WatchClient σ) (ext : External) (order : MapOrder) (s : σ)
    (snapshot : Snapshot) (cjob : CertificateJob) (certSelector : Selector) (serves : Serves c s snapshot)
    (member : cjob ∈ snapshot.certificateJobs) (valid : certificateSelectorForJob ext cjob = .ok certSelector) :
    ∃ matching, listMatchingCertificates c.toClient ext cjob s = .ok matching ∧
      (∀ ns name, name ≠ "" → (mapSecretToCertificateJobs c ext order s (.secret ns name)).count cjob.request =
        if ns = cjob.ns ∧ ∃ cert ∈ matching, cert.spec.secretName = name then 1 else 0) ∧
      ∀ cert ∈ snapshot.certificates,
        cjob.request ∈ mapCertificateToCertificateJobs c ext s (.certificate cert) ↔ cert ∈ matching := by
  obtain ⟨matching, listed, matched⟩ := mem_listMatching serves valid
  refine ⟨matching, listed, ?_, ?_⟩
  · intro ns name named
    obtain ⟨certs, answer, whole⟩ := serves.indexed ns name
    have within : ∀ cert, cert ∈ certs ↔
        cert ∈ snapshot.certificates ∧ cert.ns = ns ∧ cert.spec.secretName = name := by
      intro cert
      rw [whole.mem_iff, List.mem_filter, decide_eq_true_eq, mem_secretNameIndex named]
    have asked : cjob.request ∈ certs.flatMap (fun cert => mapCertificateToCertificateJobs c ext s (.certificate cert)) ↔
        ns = cjob.ns ∧ ∃ cert ∈ matching, cert.spec.secretName = name := by
      simp only [List.mem_flatMap, within, request_mem serves member, matched]
      constructor
      · rintro ⟨cert, ⟨present, rfl, secret⟩, selects⟩
        exact ⟨selects.1.symm, cert, ⟨present, selects⟩, secret⟩
      · rintro ⟨rfl, cert, ⟨present, selects⟩, secret⟩
        exact ⟨cert, ⟨present, selects.1.symm, secret⟩, selects⟩
    have here : ∀ req ∈ certs.flatMap (fun cert => mapCertificateToCertificateJobs c ext s (.certificate cert)),
        req.ns = ns := by
      intro req inside
      obtain ⟨cert, indexed, inside⟩ := List.mem_flatMap.mp inside
      obtain ⟨other, -, selects, rfl⟩ := (mem_mapCertificate serves).mp inside
      exact selects.1.trans ((within cert).mp indexed).2.1
    rw [mapSecret_eq answer, KeyedBy.count_values (requests_injective here) (order.perm _)]
    exact if_congr asked rfl rfl
  · intro cert present
    rw [request_mem serves member, matched]
    exact ⟨fun selects => ⟨present, selects⟩, And.right⟩

def watchClient (certificateJobs : List CertificateJob) : WatchClient Cluster :=
  { clusterClient with
    listCertificateJobs := fun _ ns => .ok (certificateJobs.filter (·.ns = ns))
    listCertificatesBySecretName := fun cluster ns name =>
      .ok (cluster.certificates.filter fun cert => cert.ns = ns ∧ name ∈ secretNameIndex cert) }

theorem watchClient_serves (cluster : Cluster) (certificateJobs : List CertificateJob)
    (distinct : (certificateJobs.map (·.request)).Nodup) :
    Serves (watchClient certificateJobs) cluster ⟨cluster.certificates, certificateJobs, distinct⟩ where
  certificates _ := ⟨_, rfl, .rfl⟩
  certificateJobs _ := ⟨_, rfl, .rfl⟩
  indexed _ _ := ⟨_, rfl, .rfl⟩

def strictExternal : External :=
  { plainExternal with
    labelSelectorAsSelector := fun selector =>
      if selector.matchExpressions = [] then plainExternal.labelSelectorAsSelector selector
      else .error "values: Invalid value" }

def watchedJobs : List CertificateJob :=
  [{ ns := "default", name := "broken"
     spec := { jobs := [], certificateSelector := { matchExpressions := [⟨"app", "In", []⟩] } } },
   { ns := "default", name := "renewal", spec := { jobs := [] } }]

def sharedSecret : Cluster :=
  { sampleCluster { jobs := [] } with certificates := [webCertificate, { webCertificate with name := "api" }] }

theorem watches_match_reconcile_shared :
    ∃ cjob ∈ watchedJobs, (mapSecretToCertificateJobs (watchClient watchedJobs) strictExternal .listed sharedSecret
      (.secret "default" "tls")).count cjob.request = 1 := by
  have member : watchedJobs[1] ∈ watchedJobs := List.getElem_mem _
  refine ⟨_, member, ?_⟩
  obtain ⟨matching, -, secrets, certificates⟩ := watches_match_reconcile (watchClient watchedJobs) strictExternal .listed
    sharedSecret ⟨sharedSecret.certificates, watchedJobs, by decide⟩ watchedJobs[1] _ (watchClient_serves _ _ _) member rfl
  have web : webCertificate ∈ matching := (certificates webCertificate List.mem_cons_self).mp (by decide)
  rw [secrets "default" "tls" (by decide), if_pos ⟨rfl, webCertificate, web, rfl⟩]

end CertificateJobs

import AssetStore.Service.Endpoints

/-! Runs of the service. The requests of a process interleave at every statement, any of them may
be told of an exception at any time, and any of them may crash. Whatever happens, the access
monitor permits what they have done, and a request that has returned was answered what is due to
its caller. -/

namespace AssetStore

open Lib Relation

variable {ι : Type}

/-! ### Who is present -/

/-- One of the requests carries the token. -/
def Uses (requests : ι → Incoming) (token : Text) : Prop :=
  ∃ i, bearerToken (requests i).authorization = .ok token

/-- A request comes from the service: it carries its credential, or a grant that was published for
it before the run. -/
def Present (cfg : ServiceConfig) (requests : ι → Incoming) (start : Service ι)
    (who : Text) : Prop :=
  (∃ i, requireServiceIdentity cfg.credentials (requests i).authorization = .ok who) ∨
    ∃ token cap, Uses requests token ∧ start.bearers.capabilities.get token = some cap ∧
      cap.callerServiceId = who

/-- The process starts with a registry that was built by calls, under generated ids. -/
structure Service.Starts (env : Env) (grace : Int) (start : Service ι) : Prop where
  reached : ∃ calls, AssetStore.Runs env (.initial grace) calls start.shared.reg
  keyed : start.shared.reg.Keyed

section Runs

variable [DecidableEq ι]

/-- A run of the requests. -/
def ServiceRuns (cfg : ServiceConfig) (requests : ι → Incoming) (start s : Service ι)
    (T : ι → ServiceProg Response) : Prop :=
  (serving ι).Runs (fun i c s => ServiceNewId i c s)
    (start, fun i => (requests i).handle cfg) (s, T)

/-- A run of the requests, state by state. -/
def Served (cfg : ServiceConfig) (requests : ι → Incoming) (start : Service ι) (len : Nat)
    (τ : Nat → Machine.Config ServiceCmd Err (Service ι) ι Response) : Prop :=
  (serving ι).Trace (fun i c s => ServiceNewId i c s)
    (start, fun i => (requests i).handle cfg) len τ

variable {cfg : ServiceConfig} {requests : ι → Incoming} {grace : Int} {start s : Service ι}
  {T : ι → ServiceProg Response} {len : Nat}
  {τ : Nat → Machine.Config ServiceCmd Err (Service ι) ι Response}

omit [DecidableEq ι] in
theorem Service.Starts.sound (h : start.Starts cfg.env grace) :
    start.vault.Sound (Present cfg requests start) (Uses requests) cfg.env grace where
  reached := h.reached
  keyed := h.keyed
  vouched token cap used get := .inr ⟨token, cap, used, get, rfl⟩

/-- Along a run all requests keep to the contract. -/
theorem Served.upheld (served : Served cfg requests start len τ)
    (starts : start.Starts cfg.env grace)
    (seen : Vault → Prop) (hseen : ∀ n ≤ len, seen (τ n).1.vault) {n : Nat} (hn : n ≤ len) :
    Machine.Upheld (duties (Present cfg requests start) (Uses requests) cfg.env grace seen ι)
        (fun i => AnsweredDue (Present cfg requests start) (Uses requests) cfg.env grace seen cfg
          (requests i).authorization) (τ n).1 (τ n).2 ∧
      start.vault.Leads (Present cfg requests start) cfg.env (τ n).1.vault := by
  have hstart : seen start.vault := by simpa only [served.start] using hseen 0 (Nat.zero_le len)
  have hbefore :
      Machine.Upheld (duties (Present cfg requests start) (Uses requests) cfg.env grace seen ι)
      (fun i => AnsweredDue (Present cfg requests start) (Uses requests) cfg.env grace seen cfg
        (requests i).authorization) start (fun i => (requests i).handle cfg) :=
    ⟨⟨hstart, starts.sound⟩, fun i =>
      handle_dutiful (requests i) (fun who hwho => .inl ⟨i, hwho⟩) fun token htoken => ⟨i, htoken⟩⟩
  exact hbefore.trace service_upholds (fun _ response => AnsweredDue.lasts response) served hseen hn

/-- The access monitor permits what a run has done. -/
theorem ServiceRuns.leads (serves : ServiceRuns cfg requests start s T)
    (starts : start.Starts cfg.env grace) :
    start.vault.Leads (Present cfg requests start) cfg.env s.vault := by
  obtain ⟨len, τ, served, hlast⟩ := Machine.Runs.exists_trace serves
  have hleads := (Served.upheld served starts (fun _ => True) (fun _ _ => trivial)
    (Nat.le_refl len)).2
  rwa [hlast] at hleads

omit [DecidableEq ι] in
/-- The service for which the header of a request speaks takes part. -/
theorem SpeaksFor.present {once : (Vault → Prop) → Prop} {who : Text} {i : ι}
    (h : SpeaksFor once cfg (requests i).authorization who)
    (sound : ∀ P, once P →
      ∃ v : Vault, v.Sound (Present cfg requests start) (Uses requests) cfg.env grace ∧ P v) :
    Present cfg requests start who := by
  rcases h with hidentity | ⟨token, cap, htoken, rfl, hgrant⟩
  · exact .inl ⟨i, hidentity⟩
  · obtain ⟨v, hsound, hget⟩ := sound _ hgrant
    exact hsound.vouched token cap ⟨i, htoken⟩ hget

end Runs

/-! ### A process with four requests -/

instance {β : Type} (i : ι) (c : ServiceCmd β) (s : Service ι) : Decidable (ServiceNewId i c s) :=
  match c with
  | .guard c => inferInstanceAs (Decidable (NewId i c s.shared))
  | .getCapability _ => inferInstanceAs (Decidable True)
  | .countCapabilities => inferInstanceAs (Decidable True)
  | .issueCapability _ _ => inferInstanceAs (Decidable True)
  | .admitIssuance _ => inferInstanceAs (Decidable True)

theorem fetcherSecrets_wellFormed :
    WellFormedSecrets (Dict.empty.set "fetcher".toList "f".toList) := by
  intro serviceId secret h
  rw [Dict.get_set, Dict.get_empty] at h
  split at h
  · rename_i hid
    obtain rfl := Option.some.inj h
    exact ⟨hid ▸ by decide, by decide⟩
  · cases h

/-- A service that knows the fetcher. -/
def fetcherService : ServiceConfig where
  env := plainEnv
  credentials :=
    { secrets := Dict.empty.set "fetcher".toList "f".toList
      nonempty := by decide
      wellFormed := fetcherSecrets_wellFormed }
  presignGetUrl := signed

def mintFor (operation : Operation) : CapabilityMintRequest :=
  { operation, scopePrefix := "cache/m".toList, ttlSeconds := 60, ttl_bounds := by decide }

theorem minute_bounds : (1 : Int) ≤ 60 ∧ (60 : Int) ≤ 3600 := by decide

theorem no_ttl_pos : ∀ seconds ∈ (none : Option Int), 0 < seconds := by simp

/-- The requests of the fetcher: it gets two grants, writes an object with the one and reads it with
the other. -/
inductive FetcherRequest
  | mintWrite
  | mintRead
  | write
  | read
  deriving DecidableEq

def fetcherRequests : FetcherRequest → Incoming
  | .mintWrite => ⟨"Service fetcher:f".toList, .mintCapability "t1".toList (mintFor .write)⟩
  | .mintRead => ⟨"Service fetcher:f".toList, .mintCapability "t2".toList (mintFor .read)⟩
  | .write =>
    ⟨"Capability t1".toList, .writeObject "a1".toList
      { aliasName := "cache/m/x".toList, chunks := [], ttl_pos := no_ttl_pos }⟩
  | .read =>
    ⟨"Capability t2".toList, .readObject "cache/m/x".toList "proxy".toList 60 minute_bounds⟩

/-- The asset of another service. -/
def elsewhere : Op := .reserveAsset "b1".toList
  { space := "users".toList, partitionId := "p".toList, aliases := [("y".toList, false)]
    ownerServiceId := "upload-api".toList }

/-- A process in which no request has begun. -/
def idle (ι : Type) : Service ι where
  shared :=
    { reg := elsewhere.exec plainEnv (fun _ => 0) (.initial 0), store := .empty, ledger := .empty
      clock := fun _ => 0, locks := .empty }
  bearers := { maxCapabilities := 10, max_pos := by decide }
  issuance := { rate := 1, burst := 10, credit := Dict.empty.set "fetcher".toList ⟨10, 0⟩ }
  monotonic := fun _ => 0

abbrev fetcherStart : Service FetcherRequest := idle FetcherRequest

/-- The two grants are made at the same time. -/
def fetcherSchedule : List FetcherRequest :=
  (List.replicate 4 [.mintWrite, .mintRead]).flatten ++ List.replicate 11 .write ++
    List.replicate 7 .read

def fetcherConfig :
    Machine.Config ServiceCmd Err (Service FetcherRequest) FetcherRequest Response :=
  (fetcherStart, fun i => (fetcherRequests i).handle fetcherService)

theorem idle_starts : (idle ι).Starts plainEnv 0 where
  reached := ⟨_, .snoc .nil rfl⟩
  keyed := by
    have keyed : (Registry.initial 0).Keyed := fun _ _ h => by cases h
    obtain ⟨reply, t, hrun, -⟩ := exists_ok_of_returns (show returns (fun _ _ => true)
      (elsewhere.run plainEnv ⟨.initial 0, fun _ => 0⟩) = true by decide +kernel)
    have named : elsewhere.NewlyNamed (.initial 0) := ⟨rfl, by decide⟩
    have hkeyed := keyed.call .nil named hrun
    rwa [← Op.exec_of_ok hrun] at hkeyed

theorem fetcher_serves : ∃ s T, ServiceRuns fetcherService fetcherRequests fetcherStart s T ∧
    (∃ a, s.shared.reg.assets.get "a1".toList = some a ∧ a.state = .available) ∧
    (∃ cap, s.bearers.capabilities.get "t1".toList = some cap) ∧
      s.shared.reg.auditEvents.length = 6 := by
  have hplay :
      ((serving FetcherRequest).play (fun i c s => decide (ServiceNewId i c s)) fetcherSchedule
      fetcherConfig).any (fun c =>
        (c.1.shared.reg.assets.get "a1".toList).any (fun a => a.state == .available) &&
        (c.1.bearers.capabilities.get "t1".toList).isSome &&
        c.1.shared.reg.auditEvents.length == 6) = true := by decide +kernel
  obtain ⟨s, T, hrun, hs⟩ := Machine.exists_runs_of_play hplay
  simp only [Bool.and_eq_true, Option.any_eq_true, beq_iff_eq, Option.isSome_iff_exists] at hs
  exact ⟨s, T, hrun.mono fun _ _ _ h => of_decide_eq_true h, hs.1.1, hs.1.2, hs.2⟩

theorem fetcher_absent {who : Text} (h : ∀ i, requireServiceIdentity fetcherService.credentials
    (fetcherRequests i).authorization ≠ .ok who) :
      ¬Present fetcherService fetcherRequests fetcherStart who := by
  rintro (⟨i, hi⟩ | ⟨token, cap, -, hget, -⟩)
  · exact h i hi
  · cases hget

section Results

variable [DecidableEq ι] {cfg : ServiceConfig} {requests : ι → Incoming} {grace : Int}
  {start s : Service ι}
  {T : ι → ServiceProg Response} {len : Nat}
  {τ : Nat → Machine.Config ServiceCmd Err (Service ι) ι Response}

/-! ### What the service keeps -/

/-- Every run of the service is one of the access monitor. -/
theorem service_refines_monitor (starts : start.Starts cfg.env grace)
    (serves : ServiceRuns cfg requests start s T) :
    start.vault.Leads (Present cfg requests start) cfg.env s.vault :=
  serves.leads starts

theorem refines_monitor_fetching :
    ∃ s T, ServiceRuns fetcherService fetcherRequests fetcherStart s T ∧
    (∃ a, s.shared.reg.assets.get "a1".toList = some a ∧ a.state = .available) ∧
      fetcherStart.vault.Leads (Present fetcherService fetcherRequests fetcherStart) plainEnv
        s.vault := by
  obtain ⟨s, T, hserves, ha, -⟩ := fetcher_serves
  exact ⟨s, T, hserves, ha, service_refines_monitor idle_starts hserves⟩

/-- The audit log only grows, and whoever signs a new event takes part and may cause it. -/
theorem service_accountable (starts : start.Starts cfg.env grace)
    (serves : ServiceRuns cfg requests start s T) :
    ∃ new, s.shared.reg.auditEvents = start.shared.reg.auditEvents ++ new ∧
      ∀ e ∈ new, AccountedFor (Present cfg requests start) s.shared.reg e :=
  (serves.leads starts).accounted starts.sound

theorem accountable_fetching : ∃ s T, ServiceRuns fetcherService fetcherRequests fetcherStart s T ∧
    s.shared.reg.auditEvents.length = 6 ∧
      ∃ new, s.shared.reg.auditEvents = fetcherStart.shared.reg.auditEvents ++ new ∧
        ∀ e ∈ new, AccountedFor (Present fetcherService fetcherRequests fetcherStart)
          s.shared.reg e := by
  obtain ⟨s, T, hserves, -, -, hlength⟩ := fetcher_serves
  exact ⟨s, T, hserves, hlength, service_accountable idle_starts hserves⟩

/-- While neither its owner nor the admin takes part, an asset is read at most: its record but for
the read counters and its object stay, no binding is lost or moved, and no limit changes. -/
theorem service_isolates (starts : start.Starts cfg.env grace)
    (serves : ServiceRuns cfg requests start s T)
    (away : ¬Present cfg requests start adminService) {id : Text} {a : Asset}
    (get : start.shared.reg.assets.get id = some a)
    (absent : ¬Present cfg requests start a.ownerServiceId) :
    Spared id a start.vault s.vault ∧ SameLimits start.shared.reg.books s.shared.reg.books := by
  have hleads := serves.leads starts
  have hsound : start.vault.Sound (Present cfg requests start) (Uses requests) cfg.env grace :=
    starts.sound
  exact ⟨hleads.spared hsound away get absent, hleads.sameLimits hsound away⟩

theorem isolates_fetching : ∃ s T a, ServiceRuns fetcherService fetcherRequests fetcherStart s T ∧
    fetcherStart.shared.reg.assets.get "b1".toList = some a ∧
      Spared "b1".toList a fetcherStart.vault s.vault ∧
        SameLimits fetcherStart.shared.reg.books s.shared.reg.books := by
  obtain ⟨s, T, hserves, -⟩ := fetcher_serves
  have hstored : (fetcherStart.shared.reg.assets.get "b1".toList).any
      (fun a => a.ownerServiceId == "upload-api".toList) = true := by decide +kernel
  obtain ⟨a, get, owner⟩ := (Option.any_eq_true _ _).mp hstored
  have absent : ¬Present fetcherService fetcherRequests fetcherStart a.ownerServiceId := by
    rw [beq_iff_eq.mp owner]
    exact fetcher_absent fun i => by cases i <;> decide +kernel
  have away : ¬Present fetcherService fetcherRequests fetcherStart adminService :=
    fetcher_absent fun i => by cases i <;> decide +kernel
  exact ⟨s, T, a, hserves, get, service_isolates idle_starts hserves away get absent⟩

/-- An asset that appears belongs to a service that takes part, in a bucket that it may write to. -/
theorem service_owners (starts : start.Starts cfg.env grace)
    (serves : ServiceRuns cfg requests start s T)
    {id : Text} {a : Asset} (get : s.shared.reg.assets.get id = some a) :
    (∃ a0, start.shared.reg.assets.get id = some a0 ∧ Evolves a0 a) ∨
      Owned (Present cfg requests start) a :=
  (serves.leads starts).owned starts.sound get

theorem owners_fetching : ∃ s T a, ServiceRuns fetcherService fetcherRequests fetcherStart s T ∧
    s.shared.reg.assets.get "a1".toList = some a ∧
      ((∃ a0, fetcherStart.shared.reg.assets.get "a1".toList = some a0 ∧ Evolves a0 a) ∨
        Owned (Present fetcherService fetcherRequests fetcherStart) a) := by
  obtain ⟨s, T, hserves, ⟨a, get, -⟩, -⟩ := fetcher_serves
  exact ⟨s, T, a, hserves, get, service_owners idle_starts hserves get⟩

/-- A grant that appears is for a service that takes part, in a bucket that it may use. -/
theorem service_grants (starts : start.Starts cfg.env grace)
    (serves : ServiceRuns cfg requests start s T)
    {token : Text} {cap : Capability} (get : s.bearers.capabilities.get token = some cap) :
    start.bearers.capabilities.get token = some cap ∨
      Present cfg requests start cap.callerServiceId ∧ Grantable cap :=
  (serves.leads starts).granted get

theorem grants_fetching : ∃ s T cap, ServiceRuns fetcherService fetcherRequests fetcherStart s T ∧
    s.bearers.capabilities.get "t1".toList = some cap ∧
      (fetcherStart.bearers.capabilities.get "t1".toList = some cap ∨
        Present fetcherService fetcherRequests fetcherStart cap.callerServiceId ∧
          Grantable cap) := by
  obtain ⟨s, T, hserves, -, ⟨cap, get⟩, -⟩ := fetcher_serves
  exact ⟨s, T, cap, hserves, get, service_grants idle_starts hserves get⟩

/-- What a request was answered is due to its caller. -/
theorem service_discloses_due (starts : start.Starts cfg.env grace)
    (served : Served cfg requests start len τ)
    {i : ι} {response : Response} (done : (τ len).2 i = .ret (.ok response)) :
    response.Due (fun P => ∃ n ≤ len, P (τ n).1.vault) cfg (requests i).authorization := by
  have hupheld := (served.upheld starts (fun v => ∃ n ≤ len, (τ n).1.vault = v)
    (fun n hn => ⟨n, hn, rfl⟩)
    (Nat.le_refl len)).1
  refine Response.Due.mono (hupheld.returned done) fun P ⟨w, ⟨n, hn, heq⟩, _, _, hP⟩ => ⟨n, hn, ?_⟩
  rwa [heq]

theorem discloses_due_fetching :
    ∃ τ response, Served fetcherService fetcherRequests fetcherStart 26 τ ∧
    (τ 26).2 .read = .ret (.ok response) ∧
      response.Due (fun P => ∃ n ≤ 26, P (τ n).1.vault) fetcherService "Capability t2".toList := by
  let ok : {β : Type} → FetcherRequest → ServiceCmd β → Service FetcherRequest → Bool :=
    fun i c s => decide (ServiceNewId i c s)
  have hplay : ((serving FetcherRequest).play ok fetcherSchedule fetcherConfig).any
      (fun c => (c.2 .read).hasReturned) = true := by decide +kernel
  obtain ⟨c, hc, hreturned⟩ := (Option.any_eq_true _ _).mp hplay
  have htrace := Machine.playTrace_trace (Option.isSome_of_mem hc)
  have hlast : (serving FetcherRequest).playTrace ok fetcherSchedule fetcherConfig 26 = c :=
    congrArg (·.getD fetcherConfig) hc
  obtain ⟨response, hresponse⟩ := Prog.hasReturned_eq hreturned
  have hserved : Served fetcherService fetcherRequests fetcherStart 26
      ((serving FetcherRequest).playTrace ok fetcherSchedule fetcherConfig) := by
    simp only [ok, decide_eq_true_eq] at htrace
    exact htrace
  rw [← hlast] at hresponse
  exact ⟨_, response, hserved, hresponse, service_discloses_due idle_starts hserved hresponse⟩

end Results

end AssetStore

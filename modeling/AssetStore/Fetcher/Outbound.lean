import AssetStore.Fetcher.Transport

/-! Outbound requests are checked and dials are public, whatever the origins, the name service and
the caller's policy answer. Each event of a fetch is justified by the events before it. -/

namespace AssetStore

open Lib

/-! ### What justifies an event -/

/-- Every answer is a numeric address, without a scope, that is not blocked. -/
def PublicAnswers (lib : Ipaddress) (infos : List AddrInfo) : Prop :=
  ∀ info ∈ infos, info.family ≠ .other ∧ '%' ∉ info.address ∧
    ∃ ip, lib.ipAddress info.address = some ip ∧ blockedIp lib ip = false

/-- The address is that of one of the answers, in numeric form. -/
def Answered (lib : Ipaddress) (infos : List AddrInfo) (address : Text) : Prop :=
  ∃ info ∈ infos, ∃ ip, lib.ipAddress info.address = some ip ∧ lib.str ip = address

def NetEvent.isHop (e : NetEvent) : Prop := e = .hop

/-- The events that begin and end a connection attempt. -/
def NetEvent.isCall : NetEvent → Prop
  | .connecting _ _ | .left => True
  | _ => False

def NetEvent.isRequest : NetEvent → Bool
  | .request _ => true
  | _ => false

/-- What must have happened before an event: a request was accepted by the policy and by the checks
of its own iteration, and a dial goes to an address from an answer set of its own connection
attempt, all of which is public. -/
def Justified (fetcher : HttpFetcher) (net : Internet) (before : List NetEvent) : NetEvent → Prop
  | .validated url => net.validate before url = .ok ()
  | .checked url => ∃ start, fetcher.validate net url start = .ok () before
  | .request url =>
    Since NetEvent.isHop .hop (fun mid => .validated url ∈ mid ∧ .checked url ∈ mid) before
  | .answers host port infos => net.getaddrinfo before host port = .ok infos
  | .dial address port => ∃ host infos, Since NetEvent.isCall (.connecting host port)
      (fun mid => .answers host port infos ∈ mid) before ∧ Answered net.lib infos address ∧
        PublicAnswers net.lib infos
  | _ => True

/-- The log is justified and holds at most `k` requests. -/
structure Accounted (fetcher : HttpFetcher) (net : Internet) (k : Nat)
    (log : List NetEvent) : Prop where
  safe : Safe (Justified fetcher net) log
  requests : log.countP NetEvent.isRequest ≤ k

section Logs

variable {fetcher : HttpFetcher} {net : Internet} {k : Nat} {log : List NetEvent} {e : NetEvent}

theorem Accounted.nil : Accounted fetcher net 0 [] := ⟨.nil, le_rfl⟩

theorem Accounted.mono {k' : Nat} (h : Accounted fetcher net k log) (le : k ≤ k') :
    Accounted fetcher net k' log := ⟨h.safe, h.requests.trans le⟩

theorem Accounted.snoc (h : Accounted fetcher net k log) (justified : Justified fetcher net log e)
    (quiet : e.isRequest = false) : Accounted fetcher net k (log ++ [e]) := by
  refine ⟨h.safe.snoc justified, ?_⟩
  rw [List.countP_append, List.countP_singleton, quiet]
  simpa using h.requests

theorem Accounted.request {url : Text} (h : Accounted fetcher net k log)
    (justified : Justified fetcher net log (.request url)) :
    Accounted fetcher net (k + 1) (log ++ [.request url]) := by
  refine ⟨h.safe.snoc justified, ?_⟩
  rw [List.countP_append, List.countP_singleton]
  exact Nat.add_le_add_right h.requests 1

end Logs

/-! ### Connections -/

section Connections

variable {fetcher : HttpFetcher} {net : Internet} {k : Nat}

theorem allowedAddresses_public {lib : Ipaddress} :
    ∀ {infos : List AddrInfo} {found addresses : List Text},
    allowedAddresses lib false infos found = .ok addresses →
    PublicAnswers lib infos ∧ ∀ address ∈ addresses, address ∈ found ∨ Answered lib infos address
  | [], found, addresses, h => by
    obtain rfl : found = addresses := except_pure_eq_ok.mp h
    exact ⟨fun _ hinfo => by simp at hinfo, fun _ ha => .inl ha⟩
  | info :: infos, found, addresses, h => by
    simp only [allowedAddresses, except_bind_eq_ok, raiseIf_eq_ok, someOr_eq_ok, true_and, not_or,
      Bool.not_eq_true] at h
    obtain ⟨_, hfamily, ip, hip, _, ⟨hscope, hblocked⟩, hrest⟩ := h
    obtain ⟨hpublic, hanswered⟩ := allowedAddresses_public hrest
    refine ⟨fun other hother => ?_, fun address haddress => ?_⟩
    · rcases List.mem_cons.mp hother with rfl | hother
      · exact ⟨hfamily, hscope, ip, hip, hblocked⟩
      · exact hpublic other hother
    · rcases hanswered address haddress with hfound | ⟨other, hother, hrest⟩
      · split at hfound
        · exact .inl hfound
        · rcases List.mem_append.mp hfound with hfound | hfound
          · exact .inl hfound
          · exact .inr ⟨info, by simp, ip, hip, (List.mem_singleton.mp hfound).symm⟩
      · exact .inr ⟨other, List.mem_cons_of_mem _ hother, hrest⟩

/-- A resolution either fails before it has answers, or logs its answers and then checks them. -/
theorem resolveAllowed_triple {allowPrivate : Bool} {host : Text} {port : Nat}
    {P X : List NetEvent → Prop}
    {Q : List Text → List NetEvent → Prop} (failed : ∀ log, P log → X log)
    (answered : ∀ log infos, P log → net.getaddrinfo log host port = .ok infos →
      X (log ++ [.answers host port infos]) ∧
        ∀ addresses, allowedAddresses net.lib allowPrivate infos [] = .ok addresses →
          Q addresses (log ++ [.answers host port infos])) :
    Triple P (resolveAllowed net allowPrivate host port) Q X := by
  unfold resolveAllowed
  refine Triple.reading fun log => ?_
  cases hinfos : net.getaddrinfo log host port with
  | error e =>
    cases e <;> exact Triple.attempt (fun _ _ h => by cases h) fun _ _ _ hs => failed _ hs.2
  | ok infos =>
    refine Triple.bind (Q := fun _ l => l = log ++ [.answers host port infos] ∧ P log)
      (Triple.emit fun l hl => ⟨by rw [hl.1], hl.1 ▸ hl.2⟩) fun _ => ?_
    refine Triple.bind (Q := fun addresses l => (l = log ++ [.answers host port infos] ∧ P log) ∧
      allowedAddresses net.lib allowPrivate infos [] = .ok addresses)
      (Triple.attempt (fun _ _ ha hl => ⟨hl, ha⟩) fun _ _ _ hl => ?_) fun addresses => ?_
    · rw [hl.1]
      exact (answered log infos hl.2 hinfos).1
    · refine Triple.bind (Q := fun _ l => (l = log ++ [.answers host port infos] ∧ P log) ∧
        allowedAddresses net.lib allowPrivate infos [] = .ok addresses)
        (Triple.attempt (fun _ _ _ hl => hl) fun _ _ _ hl => ?_) fun _ => Triple.pure fun l hl => ?_
      · rw [hl.1.1]
        exact (answered log infos hl.1.2 hinfos).1
      · rw [hl.1.1]
        exact (answered log infos hl.1.2 hinfos).2 addresses hl.2

theorem monotonic_triple {P X : List NetEvent → Prop}
    (clock : ∀ log now, P log → P (log ++ [.clock now])) :
    Triple P (monotonic net) (fun _ => P) X :=
  Triple.reading fun _ => Triple.bind (Triple.emit fun l hl => clock l _ hl.2) fun _ =>
    Triple.pure fun _ hl => hl

theorem remainingTime_triple {P : List NetEvent → Prop}
    (clock : ∀ log now, P log → P (log ++ [.clock now])) {started : Rat} {timeout : Option Rat} :
    Triple P (remainingTime net started timeout) (fun _ => P) P := by
  cases timeout with
  | none => exact Triple.pure fun _ hl => hl
  | some timeout =>
    exact Triple.bind (monotonic_triple clock) fun _ => Triple.bind Triple.check fun _ =>
      Triple.pure fun _ hl => hl

/-- In a connection attempt that has its answers. -/
def Dialing (fetcher : HttpFetcher) (net : Internet) (k : Nat) (host : Text) (port : Nat)
    (infos : List AddrInfo) (log : List NetEvent) : Prop :=
  Accounted fetcher net k log ∧
    Since NetEvent.isCall (.connecting host port) (fun mid => .answers host port infos ∈ mid) log

theorem Dialing.snoc {host : Text} {port : Nat} {infos : List AddrInfo} {log : List NetEvent}
    {e : NetEvent} (h : Dialing fetcher net k host port infos log)
    (justified : Justified fetcher net log e) (quiet : e.isRequest = false) (inside : ¬e.isCall) :
    Dialing fetcher net k host port infos (log ++ [e]) :=
  ⟨h.1.snoc justified quiet, h.2.snoc inside fun _ hm => List.mem_append_left _ hm⟩

theorem dialAddresses_triple {port : Nat} {timeout : Option Rat} {started : Rat} {host : Text}
    {infos : List AddrInfo} (hpublic : PublicAnswers net.lib infos) :
    ∀ {addresses : List Text} {lastError : Option NetFailure},
      (∀ address ∈ addresses, Answered net.lib infos address) →
      Triple (Dialing fetcher net k host port infos)
        (dialAddresses net port timeout started addresses lastError)
        (fun _ => Accounted fetcher net k) (Accounted fetcher net k)
  | [], _, _ => Triple.attempt (fun _ _ h => by cases h) fun _ _ _ hl => hl.1
  | address :: addresses, _, hanswered => by
    have hfirst := hanswered address List.mem_cons_self
    have hrest : ∀ a ∈ addresses, Answered net.lib infos a := fun a ha =>
      hanswered a (List.mem_cons_of_mem _ ha)
    refine Triple.bind (Q := fun _ => Dialing fetcher net k host port infos)
      ((remainingTime_triple fun log now hl => hl.snoc trivial rfl id).weaken (fun _ hl => hl)
        (fun _ _ hl => hl) fun _ hl => hl.1) fun remaining => ?_
    refine Triple.bind (Q := fun _ => Dialing fetcher net k host port infos)
      (Triple.emit fun log hl => hl.snoc ⟨host, infos, hl.2, hfirst, hpublic⟩ rfl id) fun _ => ?_
    refine Triple.reading fun log => ?_
    cases net.dial log address port remaining with
    | ok stream => exact Triple.pure fun _ hl => hl.2.1
    | error e =>
      refine Triple.ite (fun _ => ?_) fun _ =>
        Triple.attempt (fun _ _ h => by cases h) fun _ _ _ hl => hl.2.1
      exact (dialAddresses_triple hpublic hrest).weaken (fun _ hl => hl.2) (fun _ _ hl => hl)
        fun _ hl => hl

/-- A connection attempt dials public addresses of its own answers only. -/
theorem connectTcp_triple (hprivate : fetcher.allowPrivateHosts = false) {host : Text} {port : Nat}
    {timeout : Option Rat} :
    Triple (Accounted fetcher net k) (connectTcp net fetcher.allowPrivateHosts host port timeout)
      (fun _ => Accounted fetcher net k) (Accounted fetcher net k) := by
  -- what holds from the beginning of the attempt on
  let P : List NetEvent → Prop := fun log => Accounted fetcher net k log ∧
    Since NetEvent.isCall (.connecting host port) (fun _ => True) log
  have hsnoc : ∀ {log : List NetEvent} {e : NetEvent}, P log → Justified fetcher net log e →
      e.isRequest = false → ¬e.isCall → P (log ++ [e]) := fun hl justified quiet inside =>
    ⟨hl.1.snoc justified quiet, hl.2.snoc inside fun _ _ => trivial⟩
  unfold connectTcp
  refine Triple.bind (Q := fun _ => P) (Triple.emit fun log hl =>
    ⟨hl.snoc trivial rfl, Since.start trivial⟩) fun _ => ?_
  refine Triple.lastly (Q := fun _ => Accounted fetcher net k) (X := Accounted fetcher net k) ?_
    (fun _ log hl => hl.snoc trivial rfl) fun log hl => hl.snoc trivial rfl
  refine Triple.bind (monotonic_triple (P := P) fun log now hl => hsnoc hl trivial rfl id)
    fun started => ?_
  refine Triple.bind (Q := fun addresses log => ∃ infos, Dialing fetcher net k host port infos log ∧
    PublicAnswers net.lib infos ∧ ∀ address ∈ addresses, Answered net.lib infos address)
    (resolveAllowed_triple (fun _ hl => hl.1) fun log infos hl hinfos =>
      ⟨hl.1.snoc hinfos rfl, fun addresses haddresses => ?_⟩) fun addresses => ?_
  · rw [hprivate] at haddresses
    obtain ⟨hpublic, hanswered⟩ := allowedAddresses_public haddresses
    refine ⟨infos, ⟨hl.1.snoc hinfos rfl, hl.2.snoc id fun mid _ => by simp⟩, hpublic,
      fun address haddress => ?_⟩
    exact (hanswered address haddress).resolve_left (by simp)
  · rintro log ⟨infos, hdialing, hpublic, hanswered⟩
    exact dialAddresses_triple hpublic hanswered log hdialing

end Connections

/-! ### Requests -/

section Requests

variable {fetcher : HttpFetcher} {net : Internet} {k : Nat}

/-- The checks of a URL log nothing but answers. -/
theorem validate_triple {P : List NetEvent → Prop} {url : Text}
    (answers : ∀ log host port infos, P log → net.getaddrinfo log host port = .ok infos →
      P (log ++ [.answers host port infos])) :
    Triple P (fetcher.validate net url) (fun _ => P) P := by
  unfold HttpFetcher.validate
  refine Triple.bind Triple.check fun parts => ?_
  refine Triple.bind Triple.check fun _ => Triple.bind Triple.check fun _ => ?_
  refine Triple.bind (Q := fun _ => P)
    (resolveAllowed_triple (fun _ hl => hl) fun log infos hl hinfos =>
    ⟨answers log _ _ infos hl hinfos, fun _ _ => answers log _ _ infos hl hinfos⟩) fun _ => ?_
  exact Triple.pure fun _ hl => hl

theorem exchange_triple (hprivate : fetcher.allowPrivateHosts = false) (exchange : Exchange) :
    Triple (Accounted fetcher net k) (fetcher.exchange net exchange)
      (fun _ => Accounted fetcher net k)
      (Accounted fetcher net k) := by
  induction exchange with
  | response head body => exact Triple.pure fun _ hl => hl
  | raised e => exact Triple.check
  | connect host port timeout next ih =>
    exact Triple.bind (Triple.outcome (connectTcp_triple hprivate)) fun stream => ih stream

/-- A body is read up to the limit. -/
theorem readCapped_triple (hprivate : fetcher.allowPrivateHosts = false) (body : Body) :
    ∀ {chunks : List (List UInt8)} {total : Int}, total = chunks.flatten.length →
      chunks.flatten.length ≤ fetcher.maxBytes.toNat →
      Triple (Accounted fetcher net k) (fetcher.readCapped net body chunks total)
        (fun data log => Accounted fetcher net k log ∧ data.length ≤ fetcher.maxBytes.toNat)
        (Accounted fetcher net k) := by
  induction body with
  | finished => exact fun _ hcap => Triple.pure fun _ hl => ⟨hl, hcap⟩
  | raised e => exact fun _ _ => Triple.attempt (fun _ _ h => by cases h) fun _ _ _ hl => hl
  | connect host port timeout next ih =>
    intro chunks total htotal hcap
    exact Triple.bind (Triple.outcome (connectTcp_triple hprivate)) fun stream =>
      ih stream htotal hcap
  | chunk bytes rest ih =>
    intro chunks total htotal hcap
    refine Triple.bind (Q := fun _ log => Accounted fetcher net k log ∧
      ¬fetcher.maxBytes < total + bytes.length) (Triple.attempt (fun _ _ h hl => ⟨hl, ?_⟩)
        fun _ _ _ hl => hl) fun _ => ?_
    · exact raiseIf_eq_ok.mp h
    · rintro log ⟨hl, hle⟩
      have hlen : (chunks ++ [bytes]).flatten.length = chunks.flatten.length + bytes.length := by
        simp
      exact ih (by rw [htotal, hlen]; push_cast; rfl) (by omega) log hl

theorem requestOnce_triple (hprivate : fetcher.allowPrivateHosts = false) {current : Text} :
    Triple (fun log => Accounted fetcher net k log ∧ Justified fetcher net log (.request current))
      (fetcher.requestOnce net current)
      (fun next log => Accounted fetcher net (k + 1) log ∧
        ∀ content, next = .inr content → content.data.length ≤ fetcher.maxBytes.toNat)
      (Accounted fetcher net (k + 1)) := by
  unfold HttpFetcher.requestOnce
  refine Triple.bind (Triple.emit (Q := fun _ => Accounted fetcher net (k + 1)) fun log hl =>
    hl.1.request hl.2) fun _ => ?_
  refine Triple.reading fun log => Triple.bind (Q := fun _ => Accounted fetcher net (k + 1))
    ((exchange_triple hprivate _).weaken (fun _ hl => hl.2) (fun _ _ hl => hl) fun _ hl => hl)
    fun answer => ?_
  obtain ⟨head, body⟩ := answer
  refine Triple.ite (fun _ => ?_) fun _ => ?_
  · refine Triple.bind Triple.check fun _ => Triple.bind Triple.check fun target => ?_
    exact Triple.pure fun _ hl => ⟨hl, fun _ h => by cases h⟩
  · refine Triple.bind Triple.check fun _ =>
      Triple.bind (readCapped_triple hprivate body rfl (by simp)) fun data => ?_
    exact Triple.pure fun _ hl => ⟨hl.1, fun content h => by cases h; exact hl.2⟩

/-- An iteration of the redirect loop that has accepted so much. -/
def Hopping (fetcher : HttpFetcher) (net : Internet) (k : Nat) (accepted : List NetEvent → Prop)
    (log : List NetEvent) : Prop :=
  Accounted fetcher net k log ∧ Since NetEvent.isHop .hop accepted log

theorem Hopping.snoc {accepted accepted' : List NetEvent → Prop} {log : List NetEvent}
    {e : NetEvent}
    (h : Hopping fetcher net k accepted log) (justified : Justified fetcher net log e)
    (quiet : e.isRequest = false) (inside : ¬e.isHop)
    (step : ∀ mid, accepted mid → accepted' (mid ++ [e])) :
    Hopping fetcher net k accepted' (log ++ [e]) :=
  ⟨h.1.snoc justified quiet, h.2.snoc inside step⟩

/-- The redirect loop: one more iteration allows one more request. -/
theorem fetchHops_triple (hprivate : fetcher.allowPrivateHosts = false) (n : Nat) :
    ∀ (k : Nat) (current : Text), Triple (Accounted fetcher net k) (fetcher.fetchHops net n current)
      (fun content log => Accounted fetcher net (k + n) log ∧
        content.data.length ≤ fetcher.maxBytes.toNat)
      (Accounted fetcher net (k + n)) := by
  induction n with
  | zero => exact fun _ _ => Triple.attempt (fun _ _ h => by cases h) fun _ _ _ hl => hl
  | succ n ih =>
    intro k current
    have hmore : ∀ {log : List NetEvent}, Accounted fetcher net (k + 1) log →
        Accounted fetcher net (k + (n + 1)) log := fun hl => hl.mono (by omega)
    have hfew : ∀ {log : List NetEvent}, Accounted fetcher net k log →
        Accounted fetcher net (k + (n + 1)) log := fun hl => hl.mono (by omega)
    unfold HttpFetcher.fetchHops
    refine Triple.bind (Triple.emit (Q := fun _ => Hopping fetcher net k fun _ => True)
      fun log hl =>
      ⟨hl.snoc trivial rfl, Since.start trivial⟩) fun _ => ?_
    refine Triple.reading fun log => Triple.bind
      (Q := fun _ l => (l = log ∧ Hopping fetcher net k (fun _ => True) l) ∧
        net.validate log current = .ok ())
      (Triple.attempt (fun _ _ ha hl => ⟨hl, ha⟩) fun _ _ _ hl => hfew hl.2.1) fun _ => ?_
    refine Triple.bind (Triple.emit (Q := fun _ => Hopping fetcher net k fun mid =>
      .validated current ∈ mid) fun l hl => ?_) fun _ => ?_
    · exact hl.1.2.snoc (hl.1.1 ▸ hl.2) rfl (by simp [NetEvent.isHop]) fun mid _ => by simp
    have hvalidate : Triple (Hopping fetcher net k fun mid => .validated current ∈ mid)
        (fetcher.validate net current) (fun _ => Hopping fetcher net k fun mid =>
          .validated current ∈ mid)
        (Hopping fetcher net k fun mid => .validated current ∈ mid) :=
      validate_triple fun l host port infos hl hinfos =>
        hl.snoc hinfos rfl (by simp [NetEvent.isHop]) fun mid hm => List.mem_append_left _ hm
    refine Triple.bind (hvalidate.recorded.weaken (fun _ hl => hl) (fun _ _ hl => hl)
      fun _ hl => hfew hl.1) fun _ => ?_
    refine Triple.bind (Triple.emit (Q := fun _ => Hopping fetcher net k fun mid =>
      .validated current ∈ mid ∧ .checked current ∈ mid) fun l hl => ?_) fun _ => ?_
    · exact hl.1.snoc hl.2 rfl (by simp [NetEvent.isHop]) fun mid hm => by simp [hm]
    refine Triple.bind ((requestOnce_triple hprivate).translated.weaken (fun _ hl => hl)
      (fun _ _ hl => hl) fun _ hl => hmore hl) fun next => ?_
    cases next with
    | inl target =>
      have hlast := ih (k + 1) target
      rw [show k + 1 + n = k + (n + 1) by omega] at hlast
      exact hlast.weaken (fun _ hl => hl.1) (fun _ _ hl => hl) fun _ hl => hl
    | inr content => exact Triple.pure fun _ hl => ⟨hmore hl.1, hl.2 content rfl⟩

end Requests

/-- The requests are at most one more than the redirect limit; below zero it lets none through. -/
def WithinRedirects (limit : Int) (requests : Nat) : Prop :=
  (0 ≤ limit → (requests : Int) ≤ limit + 1) ∧ (limit < 0 → requests = 0)

/-- The body is no longer than the limit; below zero it lets only the empty body through. -/
def WithinBytes (limit : Int) (body : List UInt8) : Prop :=
  (0 ≤ limit → (body.length : Int) ≤ limit) ∧ (limit < 0 → body = [])

theorem WithinBytes.of_toNat {limit : Int} {body : List UInt8} (h : body.length ≤ limit.toNat) :
    WithinBytes limit body := by
  refine ⟨fun hlimit => by omega, fun hlimit => ?_⟩
  rw [Int.toNat_of_nonpos hlimit.le] at h
  exact List.length_eq_zero_iff.mp (Nat.le_zero.mp h)

/-- Whatever the origins, the name service and the policy do: a fetch makes at most one request more
than its redirect limit, every event of it is justified by the events before it, and a body that it
returns is within the limit. -/
theorem outbound_justified {fetcher : HttpFetcher} {net : Internet} {url : Text}
    (hprivate : fetcher.allowPrivateHosts = false) :
    WithinRedirects fetcher.maxRedirects
        ((final (fetcher.fetchWithPolicy net url [])).countP NetEvent.isRequest) ∧
      (∀ before e after, final (fetcher.fetchWithPolicy net url []) = before ++ e :: after →
        Justified fetcher net before e) ∧
      ∀ content log, fetcher.fetchWithPolicy net url [] = .ok content log →
        WithinBytes fetcher.maxBytes content.data := by
  have hfetch := @fetchHops_triple fetcher net hprivate (fetcher.maxRedirects + 1).toNat 0 url
  have hlog : Accounted fetcher net (0 + (fetcher.maxRedirects + 1).toNat)
      (final (fetcher.fetchWithPolicy net url [])) :=
    Triple.final (hfetch.weaken (fun _ hl => hl) (fun _ _ hl => hl.1) fun _ hl => hl) Accounted.nil
  have hrequests := hlog.requests
  refine ⟨⟨fun hlimit => by omega, fun hlimit => by omega⟩,
    fun before e after heq => hlog.safe.allowed_of_eq heq, fun content log h => .of_toNat ?_⟩
  exact ((hfetch [] Accounted.nil).1 content log h).2

/-- One public address for every host; the path `/old` redirects to `/new`. -/
def redirectingNet : Internet where
  lib :=
    { ipAddress text := if text = "1.1.1.1".toList then some (.v4 0x01010101) else none
      str _ := "1.1.1.1".toList
      isGlobal _ := true
      isMulticast _ := false }
  urlsplit _ := .ok ("http".toList, some "host".toList)
  lower text := text
  urljoin _ location := .ok location
  validate _ _ := .ok ()
  getaddrinfo _ _ _ := .ok [⟨.inet, "1.1.1.1".toList⟩]
  monotonic _ := 0
  dial _ _ _ _ := .ok ()
  stream _ url :=
    .connect "host".toList 80 none fun _ =>
      if url = "/old".toList then
        .response { isRedirect := true, statusCode := 302,
                    location := some "/new".toList } .finished
      else .response { isRedirect := false, statusCode := 200 } (.chunk [1, 2, 3] .finished)

/-- A fetch that follows one redirect. -/
theorem outbound_redirected : ∃ content log,
    (HttpFetcher.mk 10 1 false).fetchWithPolicy redirectingNet "/old".toList [] = .ok content log ∧
    content.data = [1, 2, 3] ∧ log.countP NetEvent.isRequest = 2 ∧
    log.countP (· == .dial "1.1.1.1".toList 80) = 2 ∧ (content.data.length : Int) ≤ 10 ∧
    ∀ before e after, log = before ++ e :: after →
      Justified (HttpFetcher.mk 10 1 false) redirectingNet before e := by
  obtain ⟨content, log, h, hend⟩ := exists_ok_of_returns (show returns (fun content log =>
      content.data == [1, 2, 3] && log.countP NetEvent.isRequest == 2 &&
        log.countP (· == .dial "1.1.1.1".toList 80) == 2)
    ((HttpFetcher.mk 10 1 false).fetchWithPolicy redirectingNet "/old".toList []) = true by
      decide +kernel)
  have hend : (content.data = [1, 2, 3] ∧ log.countP NetEvent.isRequest = 2) ∧
      log.countP (· == .dial "1.1.1.1".toList 80) = 2 := by simpa using hend
  obtain ⟨-, hjustified, hlength⟩ := @outbound_justified (HttpFetcher.mk 10 1 false) redirectingNet
    "/old".toList rfl
  rw [h] at hjustified
  exact ⟨content, log, h, hend.1.1, hend.1.2, hend.2,
    (hlength content log h).1 (by decide), hjustified⟩

end AssetStore

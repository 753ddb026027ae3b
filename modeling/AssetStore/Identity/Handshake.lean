import AssetStore.Identity
import AssetStore.Lib.Trim

/-! The credentials of the environment against the `Authorization` header. The variable lists
entries `id:secret`, where a later entry of a service replaces an earlier one; a header carries one
such pair. A caller is authenticated exactly when the pair of its header is the last one that is
configured for it. -/

namespace AssetStore

open Lib

/-! ### Pairs -/

/-- The text is an id and a secret around its first colon. -/
def Spells (text serviceId secret : Text) : Prop :=
  text = serviceId ++ ':' :: secret ∧ ':' ∉ serviceId

/-- An entry of the variable configures the secret of a service. -/
def Configures (entry who secret : Text) : Prop :=
  ∃ rawId rawSecret, Spells (stripSpace entry) rawId rawSecret ∧ stripSpace rawId = who ∧
    stripSpace rawSecret = secret

/-- The entries configure nothing for the service. -/
def Omits (entries : List Text) (who : Text) : Prop :=
  ∀ entry ∈ entries, ∀ secret, ¬Configures entry who secret

/-- The last entry of the service has the secret. -/
def LastFor (entries : List Text) (who secret : Text) : Prop :=
  ∃ before entry after, entries = before ++ entry :: after ∧ Configures entry who secret ∧
    Omits after who

/-- A header carries a pair in the scheme of services. -/
def Carries (authorization who secret : Text) : Prop :=
  ∃ scheme token rawId, authorization = scheme ++ ' ' :: token ∧ ' ' ∉ scheme ∧
    lowerAscii scheme = "service".toList ∧ Spells (stripSpace token) rawId secret ∧
      stripSpace rawId = who

section Partition

variable {sep : Char} {s a b : Text}

/-- The first separator cuts the text. -/
theorem partitionOn_found : partitionOn sep s = (a, true, b) ↔ s = a ++ sep :: b ∧ sep ∉ a := by
  constructor
  · intro h
    unfold partitionOn at h
    cases hdrop : s.dropWhile (fun c => c ≠ sep) with
    | nil =>
      rw [hdrop] at h
      cases h
    | cons c rest =>
      rw [hdrop] at h
      obtain ⟨ha, hrest⟩ := Prod.mk.inj h
      have hb : rest = b := (Prod.mk.inj hrest).2
      have hc : decide (c ≠ sep) = false := by
        have hhead := List.head?_dropWhile_not (fun c => decide (c ≠ sep)) s
        rwa [hdrop] at hhead
      have hsep : c = sep := not_not.mp (of_decide_eq_false hc)
      refine ⟨?_, fun hmem => ?_⟩
      · calc s = s.takeWhile (fun c => decide (c ≠ sep)) ++
          s.dropWhile (fun c => decide (c ≠ sep)) :=
              List.takeWhile_append_dropWhile.symm
          _ = a ++ sep :: b := by rw [ha, hdrop, hsep, hb]
      · rw [← ha] at hmem
        exact of_decide_eq_true (List.mem_takeWhile_imp (p := fun c => decide (c ≠ sep)) hmem) rfl
  · rintro ⟨rfl, hnot⟩
    have hall : ∀ c ∈ a, decide (c ≠ sep) = true :=
      fun c hc => decide_eq_true fun heq => hnot (heq ▸ hc)
    unfold partitionOn
    rw [List.dropWhile_append_of_pos hall, List.takeWhile_append_of_pos hall]
    simp

theorem partitionOn_missed (h : partitionOn sep s = (a, false, b)) : b = [] := by
  unfold partitionOn at h
  split at h
  · exact (Prod.mk.inj (Prod.mk.inj h).2).2.symm
  · cases h

/-- A text has one id and one secret. -/
theorem Spells.unique {a' b' : Text} (h : Spells s a b) (h' : Spells s a' b') :
    a = a' ∧ b = b' := by
  have heq := (partitionOn_found.mpr h).symm.trans (partitionOn_found.mpr h')
  obtain ⟨ha, hrest⟩ := Prod.mk.inj heq
  exact ⟨ha, (Prod.mk.inj hrest).2⟩

end Partition

/-! ### The variable -/

section Entries

variable {entry who secret who' secret' : Text} {entries : List Text} {d d' : Dict Text Text}

theorem Configures.unique (h : Configures entry who secret) (h' : Configures entry who' secret') :
    who = who' ∧ secret = secret' := by
  obtain ⟨a, b, hspells, rfl, rfl⟩ := h
  obtain ⟨a', b', hspells', rfl, rfl⟩ := h'
  obtain ⟨rfl, rfl⟩ := hspells.unique hspells'
  exact ⟨rfl, rfl⟩

/-- An entry that is accepted is blank or it configures a pair. -/
theorem readCredential_ok (h : readCredential d entry = .ok d') :
    (d' = d ∧ ∀ who secret, ¬Configures entry who secret) ∨
      ∃ who secret, Configures entry who secret ∧ d' = d.set who secret := by
  unfold readCredential at h
  dsimp only at h
  split at h
  · rename_i hblank
    refine .inl ⟨(Except.ok.inj h).symm, fun who secret ⟨a, b, hspells, _⟩ => ?_⟩
    rw [hblank] at hspells
    simp [Spells] at hspells
  · obtain ⟨⟨a, sep, b⟩, hcut⟩ : ∃ cut, partitionOn ':' (stripSpace entry) = cut := ⟨_, rfl⟩
    simp only [hcut, except_bind_eq_ok, raiseIf_eq_ok, except_pure_eq_ok] at h
    obtain ⟨_, hsep, rfl⟩ := h
    obtain rfl : sep = true := by simpa using hsep
    exact .inr ⟨_, _, ⟨a, b, partitionOn_found.mp hcut, rfl, rfl⟩, rfl⟩

theorem lastFor_cons : LastFor (entry :: entries) who secret ↔
    LastFor entries who secret ∨ Configures entry who secret ∧ Omits entries who := by
  constructor
  · rintro ⟨before, last, after, heq, hlast, homits⟩
    cases before with
    | nil =>
      obtain ⟨rfl, rfl⟩ := List.cons.inj heq
      exact .inr ⟨hlast, homits⟩
    | cons first before =>
      obtain ⟨rfl, rfl⟩ := List.cons.inj heq
      exact .inl ⟨before, last, after, rfl, hlast, homits⟩
  · rintro (⟨before, last, after, rfl, hlast, homits⟩ | ⟨hentry, homits⟩)
    · exact ⟨entry :: before, last, after, rfl, hlast, homits⟩
    · exact ⟨[], entry, entries, rfl, hentry, homits⟩

theorem omits_cons : Omits (entry :: entries) who ↔
    (∀ secret, ¬Configures entry who secret) ∧ Omits entries who := List.forall_mem_cons

/-- The dictionary of the entries: a later pair replaces an earlier one. -/
theorem readCredentials_get (h : entries.foldlM readCredential d = .ok d') :
    d'.get who = some secret ↔ LastFor entries who secret ∨
      d.get who = some secret ∧ Omits entries who := by
  induction entries generalizing d with
  | nil =>
    obtain rfl := Except.ok.inj h
    simp [LastFor, Omits]
  | cons entry entries ih =>
    rw [List.foldlM_cons, except_bind_eq_ok] at h
    obtain ⟨d1, hentry, hrest⟩ := h
    rw [ih hrest, lastFor_cons, omits_cons, or_assoc]
    refine or_congr_right ?_
    rcases readCredential_ok hentry with ⟨rfl, hblank⟩ | ⟨w, t, hpair, rfl⟩
    · exact ⟨fun ⟨hget, homits⟩ => .inr ⟨hget, hblank who, homits⟩,
        fun h => h.elim (fun h => (hblank who secret h.1).elim) fun h => ⟨h.1, h.2.2⟩⟩
    · rw [Dict.get_set]
      by_cases hwho : who = w
      · subst hwho
        rw [if_pos rfl, Option.some.injEq]
        constructor
        · rintro ⟨rfl, homits⟩
          exact .inl ⟨hpair, homits⟩
        · rintro (⟨hentry, homits⟩ | ⟨-, hnone, -⟩)
          · exact ⟨(hpair.unique hentry).2, homits⟩
          · exact (hnone t hpair).elim
      · have hnone : ∀ other, ¬Configures entry who other := fun other hother =>
          hwho (hother.unique hpair).1
        rw [if_neg hwho]
        constructor
        · rintro ⟨hget, homits⟩
          exact .inr ⟨hget, hnone, homits⟩
        · rintro (⟨hentry, -⟩ | ⟨hget, -, homits⟩)
          · exact (hnone secret hentry).elim
          · exact ⟨hget, homits⟩

/-- Cleaning keeps what has a trimmed id. -/
theorem cleanCredentials_get {keys : List Text} {secretOf : Text → Text}
    (h : (keys.map fun k => (k, secretOf k)).foldlM cleanCredential d = .ok d')
    (trimmed : ∀ k ∈ keys, stripSpace k = k) :
    d'.get who = if who ∈ keys then some (secretOf who) else d.get who := by
  induction keys generalizing d with
  | nil =>
    obtain rfl := Except.ok.inj h
    simp
  | cons k keys ih =>
    rw [List.map_cons, List.foldlM_cons, except_bind_eq_ok] at h
    obtain ⟨d1, hclean, hrest⟩ := h
    simp only [cleanCredential, trimmed k List.mem_cons_self, except_bind_eq_ok, raiseIf_eq_ok,
      except_pure_eq_ok] at hclean
    obtain ⟨_, -, _, -, rfl⟩ := hclean
    rw [ih hrest fun k' hk' => trimmed k' (List.mem_cons_of_mem k hk'), Dict.get_set]
    by_cases hmem : who ∈ keys
    · simp [hmem]
    · by_cases hwho : who = k
      · simp [hwho]
      · simp [hmem, hwho]

end Entries

/-! ### The store -/

section Store

variable {store : ServiceCredentialStore} {raw authorization who secret : Text}

theorem create_secrets {credentials : List (Text × Text)}
    (h : ServiceCredentialStore.create credentials = .ok store) :
    credentials.foldlM cleanCredential .empty = .ok store.secrets := by
  unfold ServiceCredentialStore.create at h
  split at h
  · cases h
  · rename_i cleaned hcleaned
    split at h
    · cases h
    · obtain rfl := Except.ok.inj h
      exact hcleaned

/-- The secret of a service is the one of its last entry. -/
theorem fromEnv_get {devMode : Option Text}
    (h : ServiceCredentialStore.fromEnv (some raw) devMode = .ok store)
    (given : stripSpace raw ≠ []) :
    store.secrets.get who = some secret ↔ LastFor (raw.splitOn ',') who secret := by
  unfold ServiceCredentialStore.fromEnv at h
  rw [Option.getD_some, if_neg given, except_bind_eq_ok] at h
  obtain ⟨d, hentries, hcreate⟩ := h
  have hread : ∀ {who secret}, d.get who = some secret ↔ LastFor (raw.splitOn ',') who secret := by
    intro who secret
    rw [readCredentials_get hentries]
    simp
  have trimmed : ∀ k ∈ d.keys, stripSpace k = k := by
    intro k hk
    obtain ⟨t, ht⟩ := Option.isSome_iff_exists.mp ((d.mem_keys k).mp hk)
    obtain ⟨before, entry, after, -, ⟨rawId, rawSecret, -, rfl, -⟩, -⟩ := hread.mp ht
    exact strip_strip isSpace rawId
  rw [cleanCredentials_get (create_secrets hcreate) trimmed, ← hread]
  by_cases hmem : who ∈ d.keys
  · obtain ⟨t, ht⟩ := Option.isSome_iff_exists.mp ((d.mem_keys who).mp hmem)
    simp [hmem, ht]
  · have hnone : d.get who = none := by simpa [d.mem_keys] using hmem
    simp [hmem, hnone]

/-- A header is accepted when its pair is stored. -/
theorem requireServiceIdentity_ok : requireServiceIdentity store authorization = .ok who ↔
    ∃ secret, Carries authorization who secret ∧ store.secrets.get who = some secret := by
  constructor
  · intro h
    obtain ⟨⟨scheme, found, token⟩, hcut⟩ : ∃ cut, partitionOn ' ' authorization = cut := ⟨_, rfl⟩
    obtain ⟨⟨rawId, sep, secret⟩, hpair⟩ : ∃ cut, partitionOn ':' (stripSpace token) =
        cut := ⟨_, rfl⟩
    simp only [requireServiceIdentity, hcut, hpair, except_bind_eq_ok, raiseIf_eq_ok,
      authenticate_eq_ok, not_or, not_not] at h
    obtain ⟨_, ⟨hscheme, htoken⟩, _, hsep, hwho, hget⟩ := h
    have hfound : found = true := by
      by_contra hmissed
      obtain rfl := Bool.eq_false_iff.mpr hmissed
      rw [partitionOn_missed hcut] at htoken
      exact htoken rfl
    subst hfound
    obtain rfl : sep = true := by simpa using hsep
    obtain ⟨hauthorization, hspace⟩ := partitionOn_found.mp hcut
    have hspells : Spells (stripSpace token) rawId secret := partitionOn_found.mp hpair
    exact ⟨secret, ⟨scheme, token, rawId, hauthorization, hspace, hscheme, hspells, hwho⟩, hget⟩
  · rintro ⟨secret, ⟨scheme, token, rawId, hauthorization, hspace, hscheme, hspells, hwho⟩, hget⟩
    have htoken : stripSpace token ≠ [] := by simp [hspells.1]
    simp only [requireServiceIdentity, partitionOn_found.mpr ⟨hauthorization, hspace⟩,
      partitionOn_found.mpr hspells, except_bind_eq_ok, raiseIf_eq_ok, authenticate_eq_ok,
        not_or, not_not]
    exact ⟨(), ⟨hscheme, htoken⟩, (), by simp, hwho, hget⟩

/-- The header that a client sends. -/
def serviceHeader (serviceId secret : Text) : Text :=
  "Service".toList ++ ' ' :: (serviceId ++ ':' :: secret)

/-- The header of a configured pair carries it. -/
theorem carries_serviceHeader (hid : stripSpace who = who) (hne : who ≠ []) (hcolon : ':' ∉ who)
    (hsecret : stripSpace secret = secret) (hsecretNe : secret ≠ []) :
    Carries (serviceHeader who secret) who secret := by
  have htoken : stripSpace (who ++ ':' :: secret) = who ++ ':' :: secret :=
    strip_between hid hne hsecret hsecretNe
  exact ⟨"Service".toList, who ++ ':' :: secret, who,
    rfl, by decide, by decide, ⟨htoken, hcolon⟩, hid⟩

end Store

section Results

variable {store : ServiceCredentialStore} {raw : Text} {devMode : Option Text}

/-- A caller is authenticated exactly when its header carries the last pair that is configured for
it, and the header that a client makes of such a pair does. -/
theorem service_handshake (accepted : ServiceCredentialStore.fromEnv (some raw) devMode = .ok store)
    (given : stripSpace raw ≠ []) :
    (∀ authorization who, requireServiceIdentity store authorization = .ok who ↔
      ∃ secret, Carries authorization who secret ∧ LastFor (raw.splitOn ',') who secret) ∧
    ∀ who secret, LastFor (raw.splitOn ',') who secret →
      requireServiceIdentity store (serviceHeader who secret) = .ok who := by
  have hheader : ∀ authorization who, requireServiceIdentity store authorization = .ok who ↔
      ∃ secret, Carries authorization who secret ∧ LastFor (raw.splitOn ',') who secret := by
    intro authorization who
    rw [requireServiceIdentity_ok]
    exact exists_congr fun secret => and_congr_right fun _ => fromEnv_get accepted given
  refine ⟨hheader, fun who secret hlast => (hheader _ who).mpr ⟨secret, ?_, hlast⟩⟩
  obtain ⟨hne, hsecretNe⟩ := store.wellFormed who secret ((fromEnv_get accepted given).mpr hlast)
  obtain ⟨before, entry, after, -, ⟨rawId, rawSecret, hspells, rfl, rfl⟩, -⟩ := hlast
  have hcolon : ':' ∉ stripSpace rawId :=
    fun hmem => hspells.2 ((strip_within isSpace rawId).subset hmem)
  exact carries_serviceHeader (strip_strip isSpace rawId) hne hcolon
    (strip_strip isSpace rawSecret) hsecretNe

/-- The second entry of the fetcher replaces the first. -/
def replacedSecret : Text := " fetcher : f,admin:a,, fetcher:g".toList

theorem handshake_replaced :
    ∃ store, ServiceCredentialStore.fromEnv (some replacedSecret) none = .ok store ∧
    requireServiceIdentity store (serviceHeader "fetcher".toList "g".toList) =
      .ok "fetcher".toList := by
  have hok : (ServiceCredentialStore.fromEnv (some replacedSecret) none).isOk = true := by
    decide +kernel
  have hlast : LastFor (replacedSecret.splitOn ',') "fetcher".toList "g".toList := by
    refine ⟨[" fetcher : f".toList, "admin:a".toList, []], " fetcher:g".toList,
      [], by decide +kernel, ?_, ?_⟩
    · exact ⟨"fetcher".toList, "g".toList,
        ⟨by decide +kernel, by decide⟩, by decide +kernel, by decide +kernel⟩
    · exact fun entry hentry => by cases hentry
  cases hstore : ServiceCredentialStore.fromEnv (some replacedSecret) none with
  | error e =>
    rw [hstore] at hok
    cases hok
  | ok store => exact ⟨store, rfl, (service_handshake hstore (by decide +kernel)).2 _ _ hlast⟩

end Results

end AssetStore

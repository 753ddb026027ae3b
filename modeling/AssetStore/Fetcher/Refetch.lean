import Mathlib
import AssetStore.Fetcher.Advance
import AssetStore.Fetcher.Pilot
import AssetStore.Guard.Intact
import AssetStore.Guard.Scopes
import AssetStore.Lib.Dialogues

/-! A forced preload among other clients. Its requests are answered one by one, and between them the
registry moves on by calls of others. The bytes that it fetches are compared with the asset that its
lookup found, but not with the asset that it finds after a conflict. -/

namespace AssetStore

open Lib

/-! ### Answers -/

/-- The call is a request to the asset store. -/
def ClientCall.ToStore {β : Type} : ClientCall β → Prop
  | .resolve .. | .mint .. | .put .. | .read .. => True
  | _ => False

/-- The error is a response of the asset store. -/
def PilotError.FromStore (e : PilotError) : Prop :=
  ∃ message status retryAfter, e = .assetStore message status retryAfter

/-- How the calls of a preload are answered. A request runs alone in the asset store; before that it
may be refused, and the connection may fail before or after it. An origin may answer anything. -/
inductive Serves (cfg : ApiConfig) (env : Env) :
    (β : Type) → ClientCall β → App → Except PilotError β → App → Prop
  | found {space aliasName : Text} {asset : Asset} {app app' : App}
      (h : resolve "fetcher".toList space aliasName app = .ok asset app') :
      Serves cfg env _ (.resolve space aliasName) app (.ok (some asset)) app'
  | absent {space aliasName : Text} {e : Err} {app app' : App}
      (h : resolve "fetcher".toList space aliasName app = .error e app')
      (status : e.cls.status = 404) :
      Serves cfg env _ (.resolve space aliasName) app (.ok none) app'
  | unresolved {space aliasName : Text} {e : Err} {retryAfter : Option Text} {app app' : App}
      (h : resolve "fetcher".toList space aliasName app = .error e app')
      (status : e.cls.status ≠ 404) :
      Serves cfg env _ (.resolve space aliasName) app
        (.error (.assetStore "resolve failed" e.cls.status retryAfter)) app'
  | fetched {url : Text} {content : FetchedContent} {app : App} :
      Serves cfg env _ (.fetch url) app (.ok content) app
  | unfetched {url : Text} {e : PilotError} {app : App}
      (origin : ¬e.FromStore) :
      Serves cfg env _ (.fetch url) app (.error e) app
  | minted {operation : Operation} {scope capId token : Text} {ttl : Int} {app app' : App}
      (h : mintCapability cfg env capId "fetcher".toList operation scope ttl false app =
        .ok token app') :
      Serves cfg env _ (.mint operation scope ttl) app (.ok token) app'
  | unminted {operation : Operation} {scope capId : Text} {ttl : Int} {e : Err}
      {retryAfter : Option Text}
      {app app' : App}
      (h : mintCapability cfg env capId "fetcher".toList operation scope ttl false app =
        .error e app') :
      Serves cfg env _ (.mint operation scope ttl) app
        (.error (.assetStore "capability mint failed" e.cls.status retryAfter)) app'
  | stored {newId token qualified : Text} {data : List UInt8} {mime : Option Text} {asset : Asset}
      {app app' : App} (fresh : app.guard.reg.assets.get newId = none)
      (h : putObject cfg env newId token qualified data mime app = .ok asset app') :
      Serves cfg env _ (.put token qualified data mime) app (.ok asset) app'
  | unstored {newId token qualified : Text} {data : List UInt8}
      {mime retryAfter : Option Text} {e : Err}
      {app app' : App} (fresh : app.guard.reg.assets.get newId = none)
      (h : putObject cfg env newId token qualified data mime app = .error e app') :
      Serves cfg env _ (.put token qualified data mime) app
        (.error (.assetStore "object write failed" e.cls.status retryAfter)) app'
  | refused {β : Type} {call : ClientCall β} {message : String} {status : Nat}
      {retryAfter : Option Text}
      {app : App} (request : call.ToStore)
      (admission : status = 401 ∨ status = 429 ∨ status = 503) :
      Serves cfg env β call app (.error (.assetStore message status retryAfter)) app
  | unsent {β : Type} {call : ClientCall β} {app : App} (request : call.ToStore) :
      Serves cfg env β call app (.error .httpError) app
  | unheard {β : Type} {call : ClientCall β} {answer : Except PilotError β} {app app' : App}
      (h : Serves cfg env β call app answer app') :
        Serves cfg env β call app (.error .httpError) app'

/-- The registry and the stored objects are the same. -/
def Untouched (app app' : App) : Prop :=
  app'.guard.reg = app.guard.reg ∧ app'.guard.store = app.guard.store

instance : Closed Untouched where
  refl _ := ⟨rfl, rfl⟩
  trans h h' := ⟨h'.1.trans h.1, h'.2.trans h.2⟩

section Answers

variable {cfg : ApiConfig} {env : Env} {app app' : App} {β : Type}

/-- A lookup only reads. -/
theorem resolve_untouched {caller space aliasName : Text} :
    Within Untouched (resolve caller space aliasName) := by
  refine Within.bind Within.attempt fun _ app => ?_
  have hkeeps : Keeps (fun r => r) (resolveAlias space aliasName) := Within.resolveAlias
  have hfinal :
      ∀ g : GuardState, (final (alone (registry (resolveAlias space aliasName)) g)).reg = g.reg ∧
      (final (alone (registry (resolveAlias space aliasName)) g)).store = g.store := by
    intro g
    rw [alone_registry, final_liftRegistry]
    exact ⟨hkeeps g.session, rfl⟩
  have hguard := hfinal app.guard
  unfold Untouched guarded
  cases hrun : alone (registry (resolveAlias space aliasName)) app.guard with
  | ok a g => rwa [hrun] at hguard
  | error e g => rwa [hrun] at hguard

/-- Every answer moves the registry on by calls. -/
theorem serves_led {call : ClientCall β} {answer : Except PilotError β}
    (h : Serves cfg env β call app answer app') :
    LedApp env app app' := by
  induction h with
  | found h => exact led_resolve.ok h
  | absent h => exact led_resolve.error h
  | unresolved h => exact led_resolve.error h
  | fetched => exact Closed.refl _
  | unfetched => exact Closed.refl _
  | minted h => exact led_mintCapability.ok h
  | unminted h => exact led_mintCapability.error h
  | stored fresh h => exact led_putObject fresh h
  | unstored fresh h => exact led_putObject fresh h
  | refused => exact Closed.refl _
  | unsent => exact Closed.refl _
  | unheard _ ih => exact ih

/-- What an answer tells of the asset store. -/
def Tells (cfg : ApiConfig) (env : Env) :
    (β : Type) → ClientCall β → App → Except PilotError β → App → Prop
  | _, .resolve space aliasName, app, .ok (some asset), app' =>
    resolve "fetcher".toList space aliasName app = .ok asset app'
  | _, .resolve space aliasName, app, .ok none, app' =>
    ∃ e, resolve "fetcher".toList space aliasName app = .error e app'
  | _, .put token qualified data mime, app, .ok asset, app' => ∃ newId,
    app.guard.reg.assets.get newId = none ∧
      putObject cfg env newId token qualified data mime app = .ok asset app'
  | _, .fetch _, app, _, app' => app' = app
  | _, _, _, _, _ => True

theorem serves_tells {call : ClientCall β} {answer : Except PilotError β}
    (h : Serves cfg env β call app answer app') : Tells cfg env β call app answer app' := by
  induction h with
  | found h => exact h
  | absent h => exact ⟨_, h⟩
  | unresolved => trivial
  | fetched => rfl
  | unfetched => rfl
  | minted => trivial
  | unminted => trivial
  | stored fresh h => exact ⟨_, fresh, h⟩
  | unstored => trivial
  | refused request =>
    rename_i call _ _ _ _ _
    cases call with
    | fetch => exact request.elim
    | _ => trivial
  | unsent request =>
    rename_i call _
    cases call with
    | fetch => exact request.elim
    | _ => trivial
  | unheard h ih =>
    rename_i call _ _ _
    cases call with
    | fetch => exact ih
    | _ => trivial

/-- A lookup that is answered, or a fetch, leaves the store as it is. -/
theorem lookup_untouched {space aliasName : Text} {found : Option Asset}
    (h : Serves cfg env _ (.resolve space aliasName) app (.ok found) app') :
    Untouched app app' := by
  have htells := serves_tells h
  cases found with
  | some asset => exact resolve_untouched.ok htells
  | none =>
    obtain ⟨e, he⟩ := htells
    exact resolve_untouched.error he

theorem fetch_untouched {url : Text} {answer : Except PilotError FetchedContent}
    (h : Serves cfg env _ (.fetch url) app answer app') : Untouched app app' := by
  have htells : app' = app := serves_tells h
  rw [htells]
  exact Closed.refl app

variable {grace : Int} {calls : List (Op × (Nat → Time))} {id checksum : Text} {asset a : Asset}

/-- An asset that a lookup finds is registered with a checksum. -/
theorem found_registered {space aliasName : Text}
    (reached : Runs env (Registry.initial grace) calls app.guard.reg)
    (h : resolve "fetcher".toList space aliasName app = .ok asset app') :
    app.guard.reg.assets.get asset.assetId = some asset ∧ asset.checksum ≠ none := by
  simp only [resolve, bind_eq_ok, attempt_eq_ok, guarded_eq_ok, alone_registry,
    liftRegistry_eq_ok] at h
  obtain ⟨_, _, ⟨-, rfl⟩, _, ⟨s, hresolve, rfl⟩, -⟩ := h
  simp only [resolveAlias, bind_eq_ok, getBinding_eq_ok, attempt_eq_ok, getAsset_eq_ok,
    raiseIf_eq_ok, pure_eq_ok] at hresolve
  obtain ⟨b, _, ⟨_, _, _, -, -, -, -, rfl⟩, _, _, ⟨-, rfl⟩, a', _, ⟨hget, rfl⟩, _, _, -,
    _, _, -, _, _,
    ⟨hresolvable, -⟩, rfl, -⟩ := hresolve
  have havailable : a'.state = .available := by
    simpa [Asset.isResolvable] using hresolvable
  have hid := reached.filed _ _ hget
  exact ⟨hid ▸ hget, ((reached.shaped _ _ hget).available havailable).2.1⟩

/-- A checksum that is registered stays registered. -/
theorem checksum_lasts {r later : Registry} (reached : Runs env (Registry.initial grace) calls r)
    (get : r.assets.get id = some a) (registered : a.checksum = some checksum)
    (leads : Leads env r later) :
    ∃ a', later.assets.get id = some a' ∧ a'.checksum = some checksum := by
  obtain ⟨more, hmore⟩ := leads
  obtain ⟨a', get', hev⟩ := reached.evolves hmore get
  exact ⟨a', get', (hev.checksum (by simp [registered])).trans registered⟩

/-- An asset that was stored is registered with the checksum of its bytes. -/
theorem stored_registered {newId token qualified : Text} {data : List UInt8} {mime : Option Text}
    (reached : Runs env (Registry.initial grace) calls app'.guard.reg)
    (h : putObject cfg env newId token qualified data mime app = .ok asset app') :
    app'.guard.reg.assets.get asset.assetId = some asset ∧
      asset.checksum = some (computeChecksum env data) := by
  obtain ⟨cap, g, -, hwrite⟩ := putObject_eq_ok h
  obtain ⟨parsed, pending, s1, s2, g1, -, -, -, -, -, hcommit, hfinal⟩ := writeObject_eq_ok hwrite
  obtain ⟨a0, now, -, -, rfl, -, hassets⟩ := commitAsset_eq_ok hcommit
  have hget := Dict.get_set_self s1.reg.assets pending.assetId
    (committed a0 data.length (stripSpace (computeChecksum env data)) mime now)
  rw [← hassets, ← hfinal] at hget
  have hid := reached.filed _ _ hget
  exact ⟨hid ▸ hget, congrArg some (stripSpace_of_noSpace (computeChecksum_noSpace env data))⟩

end Answers

/-! ### What a dialogue shows -/

abbrev PilotExchange := Lib.Exchange ClientCall PilotError App

/-- The content that the call fetched. -/
def contentOf : PilotExchange → Option FetchedContent
  | ⟨.fetch _, _, .ok content, _⟩ => some content
  | _ => none

/-- The asset that the call found. -/
def assetOf : PilotExchange → Option Asset
  | ⟨.resolve _ _, _, .ok (some asset), _⟩ => some asset
  | _ => none

/-- The alias that the call looked up, if it was answered. -/
def lookupOf : PilotExchange → Option (Text × Text)
  | ⟨.resolve space aliasName, _, .ok _, _⟩ => some (space, aliasName)
  | _ => none

/-- The request met a conflict. -/
def IsConflict (x : PilotExchange) : Prop :=
  ∃ message retryAfter, x.answer = .error (.assetStore message 409 retryAfter)

/-- What the call returned is the asset whose bytes it fetched, whatever the others do after it; and
where its lookup found other bytes, it raised and its requests changed nothing. -/
structure NeverHides (env : Env) (exchanges : List PilotExchange) (last : App)
    (result : Except PilotError EnsureUrlResult) : Prop where
  same : ∀ res, result = .ok res → ∃ content, exchanges.filterMap contentOf = [content] ∧
    ∀ later, Leads env last.guard.reg later → ∃ a, later.assets.get res.assetId = some a ∧
      a.checksum = some (computeChecksum env content.data)
  differs : ∀ x ∈ exchanges, ∀ asset, assetOf x = some asset →
    ∀ content ∈ exchanges.filterMap contentOf,
    asset.checksum ≠ some (computeChecksum env content.data) →
      (∃ e, result = .error e) ∧ ∀ y ∈ exchanges, Untouched y.before y.after

/-- Where the alias is looked up again after a conflict, the asset that it is bound to has the bytes
that were fetched before. -/
def WinnersAgree (env : Env) (exchanges : List PilotExchange) : Prop :=
  ∀ first x rest, exchanges = first ++ x :: rest → (∃ y ∈ first, IsConflict y) →
    ∀ space aliasName, lookupOf x = some (space, aliasName) →
      ∀ asset app', resolve "fetcher".toList space aliasName x.before = .ok asset app' →
        ∃ content ∈ first.filterMap contentOf, asset.checksum =
          some (computeChecksum env content.data)

/-- The dialogues of a forced `ensure_url` for a target. -/
inductive RefetchDialogue (cfg : ApiConfig) (env : Env) (target : Target) :
    List PilotExchange → Except PilotError EnsureUrlResult → Prop
  | lookupFailed {before after : App} {e : PilotError} :
      RefetchDialogue cfg env target
        [⟨.resolve target.bucket target.relativeAlias, before, .error e, after⟩] (.error e)
  | denied {before after : App} {found : Option Asset} {e : PilotError}
      (served : Serves cfg env _ (.resolve target.bucket target.relativeAlias) before
        (.ok found) after)
      (kind : ¬e.FromStore) :
      RefetchDialogue cfg env target
        [⟨.resolve target.bucket target.relativeAlias, before, .ok found, after⟩] (.error e)
  | failed {before after before' after' : App} {url : Text} {found : Option Asset} {e : PilotError}
      {answer : Except PilotError FetchedContent}
      (served : Serves cfg env _ (.resolve target.bucket target.relativeAlias) before
        (.ok found) after)
      (fetched : Serves cfg env _ (.fetch url) before' answer after')
      (kind : ¬e.FromStore) :
      RefetchDialogue cfg env target
        [⟨.resolve target.bucket target.relativeAlias, before, .ok found, after⟩,
        ⟨.fetch url, before', answer, after'⟩] (.error e)
  | matched {before after before' after' : App} {url : Text} {asset : Asset}
      {content : FetchedContent}
      {res : EnsureUrlResult}
      (served : Serves cfg env _ (.resolve target.bucket target.relativeAlias) before
        (.ok (some asset)) after)
      (fetched : Serves cfg env _ (.fetch url) before' (.ok content) after')
      (same : asset.checksum = some (computeChecksum env content.data))
      (res_id : res.assetId = asset.assetId) :
      RefetchDialogue cfg env target
        [⟨.resolve target.bucket target.relativeAlias, before, .ok (some asset), after⟩,
          ⟨.fetch url, before', .ok content, after'⟩] (.ok res)
  | unminted {before after before' after' before'' after'' : App} {url scope : Text} {ttl : Int}
      {content : FetchedContent} {e : PilotError} :
      RefetchDialogue cfg env target
        [⟨.resolve target.bucket target.relativeAlias, before, .ok none, after⟩,
        ⟨.fetch url, before', .ok content, after'⟩,
        ⟨.mint .write scope ttl, before'', .error e, after''⟩]
        (.error e)
  | unstored {before after before' after' before'' after'' before3 after3 : App}
      {url scope token : Text}
      {ttl : Int} {content : FetchedContent} {mime : Option Text} {e : PilotError} :
      RefetchDialogue cfg env target
        [⟨.resolve target.bucket target.relativeAlias, before, .ok none, after⟩,
        ⟨.fetch url, before', .ok content, after'⟩,
        ⟨.mint .write scope ttl, before'', .ok token, after''⟩,
        ⟨.put token target.qualified content.data mime, before3, .error e, after3⟩] (.error e)
  | stored {before after before' after' before'' after'' before3 after3 : App}
      {url scope token : Text}
      {ttl : Int} {content : FetchedContent} {mime : Option Text} {asset : Asset}
      {res : EnsureUrlResult}
      (served : Serves cfg env _ (.put token target.qualified content.data mime) before3
        (.ok asset) after3)
      (res_id : res.assetId = asset.assetId) :
      RefetchDialogue cfg env target
        [⟨.resolve target.bucket target.relativeAlias, before, .ok none, after⟩,
        ⟨.fetch url, before', .ok content, after'⟩,
        ⟨.mint .write scope ttl, before'', .ok token, after''⟩,
        ⟨.put token target.qualified content.data mime, before3, .ok asset, after3⟩] (.ok res)

section Dialogues

variable {cfg : ApiConfig} {cache : PilotCache} {others : App → App → Prop} {s s' : App}
  {exchanges : List PilotExchange} {checks : NetlocChecks} {raw : Text}

theorem require_error {e : PilotError} (h : GallicaPolicy.require checks raw = .error e) :
    ¬e.FromStore := by
  have hraise : ∀ {c : Prop} [Decidable c] {message : String},
      raiseIf c (PilotError.denied message) = .error e → ∃ message, e = .denied message := by
    intro c _ message hc
    exact ⟨message, (raiseIf_eq_error.mp hc).2.symm⟩
  have hdenied : ∃ message, e = .denied message := by
    unfold GallicaPolicy.require at h
    rcases except_bind_eq_error.mp h with h | ⟨_, -, h⟩
    · exact hraise h
    split at h
    · exact ⟨_, (Except.error.inj h).symm⟩
    simp only at h
    split at h
    · exact ⟨_, (Except.error.inj h).symm⟩
    rcases except_bind_eq_error.mp h with h | ⟨_, -, h⟩
    · exact hraise h
    rcases except_bind_eq_error.mp h with h | ⟨_, -, h⟩
    · exact hraise h
    rcases except_bind_eq_error.mp h with h | ⟨_, -, h⟩
    · exact hraise h
    rcases except_bind_eq_error.mp h with h | ⟨_, -, h⟩
    · exact hraise h
    · cases h
  obtain ⟨message, rfl⟩ := hdenied
  rintro ⟨_, _, _, ⟨⟩⟩

theorem httpError_not_store : ¬PilotError.httpError.FromStore := by
  rintro ⟨_, _, _, ⟨⟩⟩

/-- Only the asset store answers for itself. -/
theorem serves_error {β : Type} {call : ClientCall β} {answer : Except PilotError β}
    {app app' : App}
    (h : Serves cfg cache.env β call app answer app') (origin : ¬call.ToStore) {e : PilotError}
    (raised : answer = .error e) : ¬e.FromStore := by
  induction h with
  | unfetched kind => exact Except.error.inj raised ▸ kind
  | fetched => cases raised
  | refused request => exact absurd request origin
  | unsent request => exact absurd request origin
  | unheard => exact Except.error.inj raised ▸ httpError_not_store
  | _ => exact absurd trivial origin

/-- A fetch of an approved URL. -/
theorem approvedFetch_dialogue {url : Text} {r : Except PilotError FetchedContent}
    (h : Dialogue (Serves cfg cache.env) others (cache.approvedFetch url) s exchanges s' r) :
    (exchanges = [] ∧ ∃ e, r = .error e ∧ ¬e.FromStore) ∨
      ∃ before answer, exchanges = [⟨.fetch url, before, answer, s'⟩] ∧
        Serves cfg cache.env _ (.fetch url) before answer s' ∧
        ((∃ e, r = .error e ∧ ¬e.FromStore) ∨
          ∃ content, answer = .ok content ∧ r = .ok content) := by
  have hupstream : ∀ {c : Prop} [Decidable c] {message : String} {e : PilotError},
      raiseIf c (.upstream message) = .error e → ¬e.FromStore := by
    rintro c _ message e hc
    rw [← (raiseIf_eq_error.mp hc).2]
    rintro ⟨_, _, _, ⟨⟩⟩
  rcases Dialogue.ret_bind_iff.mp h with ⟨e, hdenied, rfl, rfl, rfl⟩ | ⟨target, -, h1⟩
  · exact .inl ⟨rfl, e, rfl, require_error hdenied⟩
  obtain ⟨before, after, -, ⟨e, served, rfl, rfl, rfl⟩ | ⟨content, rest, served, rfl, h2⟩⟩ :=
    Dialogue.perform_bind_iff.mp h1
  · exact .inr ⟨before, .error e, rfl, served, .inl ⟨e, rfl, serves_error served (fun h => h) rfl⟩⟩
  · rcases Dialogue.ret_bind_iff.mp h2 with ⟨e, hlong, rfl, rfl, rfl⟩ | ⟨_, -, h3⟩
    · exact .inr ⟨before, .ok content, rfl, served, .inl ⟨e, rfl, hupstream hlong⟩⟩
    rcases Dialogue.ret_bind_iff.mp h3 with ⟨e, htype, rfl, rfl, rfl⟩ | ⟨_, -, h4⟩
    · exact .inr ⟨before, .ok content, rfl, served, .inl ⟨e, rfl, hupstream htype⟩⟩
    obtain ⟨rfl, rfl, rfl⟩ := Dialogue.ret_iff.mp h4
    exact .inr ⟨before, .ok content, rfl, served, .inr ⟨content, rfl, rfl⟩⟩

/-- What a forced `ensure_url` can do, once the URL has a target. -/
theorem ensureTarget_dialogue {req : EnsureRequest} {url : Text} {target : Target}
    {r : Except PilotError EnsureUrlResult} (forced : req.noCache = true)
    (h : Dialogue (Serves cfg cache.env) others
      (ensureTarget cache.env cache.approvedFetch req url target) s
      exchanges s' r) : RefetchDialogue cfg cache.env target exchanges r := by
  obtain ⟨before, after, -, ⟨e, -, rfl, rfl, rfl⟩ | ⟨found, rest, served, rfl, h1⟩⟩ :=
    Dialogue.perform_bind_iff.mp h
  · exact .lookupFailed
  cases found with
  | some asset =>
    simp only [forced, Bool.true_eq_false, if_false] at h1
    rcases Dialogue.bind_iff.mp h1 with
      ⟨e, hfetch, rfl⟩ | ⟨content, s1, first, second, hfetch, h2, rfl⟩
    · rcases approvedFetch_dialogue hfetch with ⟨rfl, e', he, hkind⟩ |
        ⟨before', answer, rfl, fetched, ⟨e', he, hkind⟩ | ⟨_, -, ⟨⟩⟩⟩
      · exact .denied served (Except.error.inj he ▸ hkind)
      · exact .failed served fetched (Except.error.inj he ▸ hkind)
    · rcases approvedFetch_dialogue hfetch with ⟨rfl, e', ⟨⟩, -⟩ |
        ⟨before', answer, rfl, fetched, ⟨e', ⟨⟩, -⟩ | ⟨content', rfl, hsame⟩⟩
      obtain rfl := Except.ok.inj hsame
      rcases Dialogue.ret_bind_iff.mp h2 with ⟨e, hdiffers, rfl, rfl, rfl⟩ | ⟨_, hequal, h3⟩
      · refine .failed served fetched ?_
        rw [← (raiseIf_eq_error.mp hdiffers).2]
        rintro ⟨_, _, _, ⟨⟩⟩
      · obtain ⟨rfl, rfl, rfl⟩ := Dialogue.ret_iff.mp h3
        exact .matched served fetched (not_not.mp (raiseIf_eq_ok.mp hequal)).symm rfl
  | none =>
    rcases Dialogue.bind_iff.mp h1 with
      ⟨e, hfetch, rfl⟩ | ⟨content, s1, first, second, hfetch, h2, rfl⟩
    · rcases approvedFetch_dialogue hfetch with ⟨rfl, e', he, hkind⟩ |
        ⟨before', answer, rfl, fetched, ⟨e', he, hkind⟩ | ⟨_, -, ⟨⟩⟩⟩
      · exact .denied served (Except.error.inj he ▸ hkind)
      · exact .failed served fetched (Except.error.inj he ▸ hkind)
    · rcases approvedFetch_dialogue hfetch with ⟨rfl, e', ⟨⟩, -⟩ |
        ⟨before', answer, rfl, fetched, ⟨e', ⟨⟩, -⟩ | ⟨content', rfl, hsame⟩⟩
      obtain rfl := Except.ok.inj hsame
      obtain ⟨before'', after'', -, ⟨e, -, rfl, rfl, rfl⟩ | ⟨token, rest', -, rfl, h3⟩⟩ :=
        Dialogue.perform_bind_iff.mp h2
      · exact .unminted
      obtain ⟨before3, after3, -, ⟨e, -, rfl, rfl, rfl⟩ | ⟨asset, rest'', stored, rfl, h4⟩⟩ :=
        Dialogue.perform_bind_iff.mp h3
      · exact .unstored
      · obtain ⟨rfl, rfl, rfl⟩ := Dialogue.ret_iff.mp h4
        exact .stored stored rfl

/-- What a forced `ensure_url` can do. Before the URL has a target, it makes no call. -/
theorem ensureUrlCalls_dialogue {target : PilotTarget} {r : Except PilotError EnsureUrlResult}
    (h : Dialogue (Serves cfg cache.env) others (ensureUrlCalls cache.lib cache.env
      (GallicaPolicy.matchUrl cache.checks) cache.approvedFetch
      (PilotCache.requestFor target true)) s
      exchanges s' r) :
    (exchanges = [] ∧ ∃ e, r = .error e ∧ ¬e.FromStore) ∨
      ∃ target, RefetchDialogue cfg cache.env target exchanges r := by
  have hfetching : ∀ {α : Type} {x : Except FetchError α} {e : PilotError},
      x.mapError PilotError.fetch = .error e → ¬e.FromStore := by
    intro α x e hx
    cases x with
    | ok a => cases hx
    | error e' =>
      rw [← Except.error.inj hx]
      rintro ⟨_, _, _, ⟨⟩⟩
  rcases Dialogue.ret_bind_iff.mp h with ⟨e, he, rfl, rfl, rfl⟩ | ⟨normalized, -, h1⟩
  · exact .inl ⟨rfl, e, rfl, hfetching he⟩
  rcases Dialogue.ret_bind_iff.mp h1 with ⟨e, he, rfl, rfl, rfl⟩ | ⟨found, -, h2⟩
  · refine .inl ⟨rfl, e, rfl, ?_⟩
    unfold GallicaPolicy.matchUrl at he
    rcases except_bind_eq_error.mp he with he | ⟨_, -, he⟩
    · exact require_error he
    rcases except_bind_eq_error.mp he with he | ⟨_, -, ⟨⟩⟩
    exact hfetching he
  rcases Dialogue.ret_bind_iff.mp h2 with ⟨e, he, rfl, rfl, rfl⟩ | ⟨target', -, h3⟩
  · exact .inl ⟨rfl, e, rfl, hfetching he⟩
  · exact .inr ⟨target', ensureTarget_dialogue rfl h3⟩

end Dialogues

section RefetchDialogue

variable {cfg : ApiConfig} {env : Env} {target : Target} {exchanges : List PilotExchange}
  {r : Except PilotError EnsureUrlResult} {e : PilotError}

/-- Only the first call is a lookup. -/
theorem RefetchDialogue.lookups (h : RefetchDialogue cfg env target exchanges r) :
    ∀ x ∈ exchanges.tail, lookupOf x = none := by
  cases h <;> simp [lookupOf]

theorem RefetchDialogue.winnersAgree (h : RefetchDialogue cfg env target exchanges r) :
    WinnersAgree env exchanges := by
  rintro first x rest hsplit ⟨y, hy, -⟩ space aliasName hlookup
  obtain ⟨z, first', rfl⟩ := List.exists_cons_of_ne_nil (List.ne_nil_of_mem hy)
  have hnone := h.lookups x (by rw [hsplit]; simp)
  rw [hnone] at hlookup
  cases hlookup

/-- Where other bytes were fetched than those of the asset that was found, nothing was changed. -/
theorem RefetchDialogue.differs (h : RefetchDialogue cfg env target exchanges r) :
    ∀ x ∈ exchanges, ∀ asset, assetOf x = some asset → ∀ content ∈ exchanges.filterMap contentOf,
      asset.checksum ≠ some (computeChecksum env content.data) →
        (∃ e, r = .error e) ∧ ∀ y ∈ exchanges, Untouched y.before y.after := by
  intro x hx asset hasset content hcontent hne
  cases h with
  | lookupFailed => simp [contentOf] at hcontent
  | denied served =>
    exact ⟨⟨_, rfl⟩, by simpa using lookup_untouched served⟩
  | failed served fetched =>
    exact ⟨⟨_, rfl⟩, by simpa using ⟨lookup_untouched served, fetch_untouched fetched⟩⟩
  | matched served fetched same =>
    simp only [List.mem_cons, List.not_mem_nil, or_false] at hx
    simp [contentOf] at hcontent
    rcases hx with rfl | rfl
    · obtain rfl := Option.some.inj hasset
      exact absurd (hcontent ▸ same) hne
    · cases hasset
  | unminted =>
    simp only [List.mem_cons, List.not_mem_nil, or_false] at hx
    rcases hx with rfl | rfl | rfl <;> cases hasset
  | unstored =>
    simp only [List.mem_cons, List.not_mem_nil, or_false] at hx
    rcases hx with rfl | rfl | rfl | rfl <;> cases hasset
  | stored =>
    simp only [List.mem_cons, List.not_mem_nil, or_false] at hx
    rcases hx with rfl | rfl | rfl | rfl <;> cases hasset

/-- An error of the asset store is the last answer. Before it no asset was found, and at most one
content was fetched. -/
theorem RefetchDialogue.fromStore (h : RefetchDialogue cfg env target exchanges (.error e))
    (store : e.FromStore) :
    (∀ x ∈ exchanges, assetOf x = none) ∧ (∀ c ∈ exchanges.filterMap contentOf,
      exchanges.filterMap contentOf = [c]) ∧
      ∀ message retryAfter, e = .assetStore message 409 retryAfter →
        ∃ y ∈ exchanges, IsConflict y := by
  cases h with
  | lookupFailed =>
    refine ⟨by simp [assetOf], by simp [contentOf], ?_⟩
    rintro message retryAfter rfl
    exact ⟨_, List.mem_singleton_self _, message, retryAfter, rfl⟩
  | denied _ kind => exact absurd store kind
  | failed _ _ kind => exact absurd store kind
  | unminted =>
    refine ⟨by
      simp [assetOf], fun c hc => congrArg (fun c => [c]) (List.mem_singleton.mp hc).symm, ?_⟩
    rintro message retryAfter rfl
    exact ⟨_, List.mem_cons_of_mem _ (List.mem_cons_of_mem _ List.mem_cons_self), message,
      retryAfter, rfl⟩
  | unstored =>
    refine ⟨by
      simp [assetOf], fun c hc => congrArg (fun c => [c]) (List.mem_singleton.mp hc).symm, ?_⟩
    rintro message retryAfter rfl
    exact ⟨_,
      List.mem_cons_of_mem _ (List.mem_cons_of_mem _ (List.mem_cons_of_mem _ List.mem_cons_self)),
      message, retryAfter, rfl⟩

end RefetchDialogue

/-! ### The result of a forced preload -/

section Preload

variable {cfg : ApiConfig} {cache : PilotCache} {grace : Int} {calls : List (Op × (Nat → Time))}
  {app app' last : App} {exchanges : List PilotExchange}
  {result : Except PilotError EnsureUrlResult}
  {raw : Text} {target : PilotTarget} {e : PilotError}

theorem backend_dialogue {α : Type} {others : App → App → Prop} {r : Except PilotError α}
    (h : Dialogue (Serves cfg cache.env) others (PilotCache.backend e) app exchanges app' r) :
    exchanges = [] ∧ app' = app ∧ ∃ e', r = .error e' := by
  have hraises : ∃ e', (PilotCache.backend e : PilotProg α) = .ret (.error e') := by
    cases e <;> exact ⟨_, rfl⟩
  obtain ⟨e', he⟩ := hraises
  rw [he] at h
  obtain ⟨rfl, rfl, rfl⟩ := Dialogue.ret_iff.mp h
  exact ⟨rfl, rfl, e', rfl⟩

/-- What follows a conflict: nothing, or one more lookup. -/
theorem recover_dialogue {others : App → App → Prop} {retryAfter : Option Text}
    (h : Dialogue (Serves cfg cache.env) others
      (cache.recover target retryAfter) app exchanges app' result) :
    (exchanges = [] ∧ ∃ e, result = .error e) ∨
      ∃ aliasName before answer, exchanges =
        [⟨.resolve "cache".toList aliasName, before, answer, app'⟩] ∧
        Serves cfg cache.env _ (.resolve "cache".toList aliasName) before answer app' ∧
        (((∃ e, answer = .error e) ∨ answer = .ok none) ∧ (∃ e, result = .error e) ∨
          ∃ asset res, answer = .ok (some asset) ∧ result = .ok res ∧
            res.assetId = asset.assetId) := by
  rcases Dialogue.ret_bind_iff.mp h with ⟨e, -, rfl, rfl, rfl⟩ | ⟨aliasName, -, h1⟩
  · exact .inl ⟨rfl, e, rfl⟩
  rcases Dialogue.bind_iff.mp h1 with ⟨e, h2, rfl⟩ | ⟨found, s1, first, second, h2, h3, rfl⟩
  · rcases Dialogue.tryCatch_iff.mp h2 with ⟨_, -, ⟨⟩⟩ | ⟨e', s1, first, second, h3, h4, rfl⟩
    obtain ⟨before, -, served, rfl⟩ := Dialogue.perform_iff.mp h3
    obtain ⟨rfl, rfl, -⟩ := backend_dialogue h4
    exact .inr ⟨aliasName, before, _, rfl, served, .inl ⟨.inl ⟨e', rfl⟩, e, rfl⟩⟩
  · rcases Dialogue.tryCatch_iff.mp h2 with
      ⟨found', h4, hfound⟩ | ⟨e', s2, first', second', -, h5, -⟩
    · obtain rfl := Except.ok.inj hfound
      obtain ⟨before, -, served, rfl⟩ := Dialogue.perform_iff.mp h4
      cases found with
      | some asset =>
        obtain ⟨rfl, rfl, rfl⟩ := Dialogue.ret_iff.mp h3
        exact .inr ⟨aliasName, before, _, rfl, served, .inr ⟨asset, _, rfl, rfl, rfl⟩⟩
      | none =>
        obtain ⟨rfl, rfl, rfl⟩ := Dialogue.ret_iff.mp h3
        exact .inr ⟨aliasName, before, _, rfl, served, .inl ⟨.inr rfl, _, rfl⟩⟩
    · obtain ⟨-, -, e, ⟨⟩⟩ := backend_dialogue h5

/-- The dialogues of a forced preload. -/
inductive PreloadDialogue (cfg : ApiConfig) (env : Env) :
    List PilotExchange → App → Except PilotError EnsureUrlResult → Prop
  | denied {last : App} {e : PilotError} : PreloadDialogue cfg env [] last (.error e)
  | returned {target : Target} {exchanges : List PilotExchange} {last : App} {res : EnsureUrlResult}
      (h : RefetchDialogue cfg env target exchanges (.ok res)) :
        PreloadDialogue cfg env exchanges last (.ok res)
  | raised {target : Target} {exchanges : List PilotExchange} {last : App} {e e' : PilotError}
      (h : RefetchDialogue cfg env target exchanges (.error e)) :
        PreloadDialogue cfg env exchanges last (.error e')
  | unrecovered {target : Target} {first : List PilotExchange} {before last : App}
      {message : String}
      {retryAfter : Option Text} {aliasName : Text} {answer : Except PilotError (Option Asset)}
      {e : PilotError}
      (h : RefetchDialogue cfg env target first (.error (.assetStore message 409 retryAfter)))
      (served : Serves cfg env _ (.resolve "cache".toList aliasName) before answer last)
      (nothing : (∃ e, answer = .error e) ∨ answer = .ok none) :
      PreloadDialogue cfg env (first ++ [⟨.resolve "cache".toList aliasName, before, answer, last⟩])
        last (.error e)
  | adopted {target : Target} {first : List PilotExchange} {before last : App} {message : String}
      {retryAfter : Option Text} {aliasName : Text} {asset : Asset} {res : EnsureUrlResult}
      (h : RefetchDialogue cfg env target first (.error (.assetStore message 409 retryAfter)))
      (served : Serves cfg env _ (.resolve "cache".toList aliasName) before (.ok (some asset)) last)
      (res_id : res.assetId = asset.assetId) :
      PreloadDialogue cfg env (first ++
        [⟨.resolve "cache".toList aliasName, before, .ok (some asset), last⟩]) last
        (.ok res)

theorem preloadFailed_cases (cache : PilotCache) (target : PilotTarget) (e : PilotError) :
    (∃ message retryAfter, e = .assetStore message 409 retryAfter ∧
    cache.preloadFailed target e = cache.recover target retryAfter) ∨
      cache.preloadFailed target e = PilotCache.backend e := by
  unfold PilotCache.preloadFailed
  split
  · exact .inl ⟨_, _, rfl, rfl⟩
  · exact .inr rfl

theorem preload_dialogue {others : App → App → Prop}
    (h : Dialogue (Serves cfg cache.env) others
      (cache.preload raw true) app exchanges last result) :
    PreloadDialogue cfg cache.env exchanges last result := by
  rcases Dialogue.ret_bind_iff.mp h with ⟨e, -, rfl, rfl, rfl⟩ | ⟨target, -, h1⟩
  · exact .denied
  rcases Dialogue.tryCatch_iff.mp h1 with ⟨res, h2, rfl⟩ | ⟨e, s1, first, second, h2, h3, rfl⟩
  · rcases ensureUrlCalls_dialogue h2 with ⟨-, e, ⟨⟩, -⟩ | ⟨target', hrefetch⟩
    exact .returned hrefetch
  · rcases ensureUrlCalls_dialogue h2 with ⟨rfl, e', he, hkind⟩ | ⟨target', hrefetch⟩
    · rcases preloadFailed_cases cache target e with
        ⟨message, retryAfter, rfl, -⟩ | hbackend
      · exact absurd ⟨message, 409, retryAfter, (Except.error.inj he).symm⟩ hkind
      · rw [hbackend] at h3
        obtain ⟨rfl, -, e'', rfl⟩ := backend_dialogue h3
        exact .denied
    · rcases preloadFailed_cases cache target e with
        ⟨message, retryAfter, rfl, hrecover⟩ | hbackend
      · rw [hrecover] at h3
        rcases recover_dialogue h3 with ⟨rfl, e', rfl⟩ | ⟨aliasName, before, answer, rfl,
          served, hanswer⟩
        · rw [List.append_nil]
          exact .raised hrefetch
        rcases hanswer with ⟨hnothing, e', rfl⟩ | ⟨asset, res, rfl, rfl, hid⟩
        · exact .unrecovered hrefetch served hnothing
        · exact .adopted hrefetch served hid
      · rw [hbackend] at h3
        obtain ⟨rfl, -, e'', rfl⟩ := backend_dialogue h3
        rw [List.append_nil]
        exact .raised hrefetch

/-- The states around a call are reached by calls of the registry, and so is the last state after
them. -/
structure Passed (env : Env) (grace : Int) (last : App) (x : PilotExchange) : Prop where
  before : ∃ calls, Runs env (Registry.initial grace) calls x.before.guard.reg
  after : ∃ calls, Runs env (Registry.initial grace) calls x.after.guard.reg
  onward : LedApp env x.before last ∧ LedApp env x.after last

section Registered

variable {env : Env} {target : Target}

theorem winnersAgree_concat {first : List PilotExchange} {x : PilotExchange} :
    WinnersAgree env (first ++ [x]) ↔ WinnersAgree env first ∧ ((∃ y ∈ first, IsConflict y) →
      ∀ space aliasName, lookupOf x = some (space, aliasName) →
        ∀ asset app', resolve "fetcher".toList space aliasName x.before = .ok asset app' →
          ∃ content ∈ first.filterMap contentOf, asset.checksum =
            some (computeChecksum env content.data)) := by
  constructor
  · intro h
    refine ⟨fun first' y rest hsplit => h first' y (rest ++ [x]) (by simp [hsplit]),
      h first x [] rfl⟩
  · rintro ⟨hfirst, hlast⟩ first' y rest hsplit
    rcases List.eq_nil_or_concat rest with rfl | ⟨init, z, rfl⟩
    · obtain ⟨rfl, hsame⟩ := List.append_inj' hsplit rfl
      obtain rfl := List.singleton_inj.mp hsame
      exact hlast
    · rw [List.concat_eq_append, ← List.cons_append, ← List.append_assoc] at hsplit
      exact hfirst first' y init (List.append_inj' hsplit rfl).1

/-- Where an ensured asset is returned, it is registered with the checksum of what was fetched. -/
theorem RefetchDialogue.registered {res : EnsureUrlResult}
    (h : RefetchDialogue cfg env target exchanges (.ok res))
    (passed : ∀ x ∈ exchanges, Passed env grace last x) : ∃ content, 
      exchanges.filterMap contentOf = [content] ∧ ∀ later, Leads env last.guard.reg later →
        ∃ a, later.assets.get res.assetId = some a ∧
          a.checksum = some (computeChecksum env content.data) := by
  cases h with
  | matched served fetched same res_id =>
    have hpassed := passed _ List.mem_cons_self
    obtain ⟨calls, hcalls⟩ := hpassed.before
    obtain ⟨hget, -⟩ := found_registered hcalls (serves_tells served)
    refine ⟨_, rfl, fun later hlater => ?_⟩
    rw [res_id]
    exact checksum_lasts hcalls hget same (Leads.trans hpassed.onward.1 hlater)
  | stored served res_id =>
    have hpassed := passed _ (List.mem_cons_of_mem _ (List.mem_cons_of_mem _
      (List.mem_cons_of_mem _ List.mem_cons_self)))
    obtain ⟨calls, hcalls⟩ := hpassed.after
    obtain ⟨newId, -, hput⟩ := serves_tells served
    obtain ⟨hget, hchecksum⟩ := stored_registered hcalls hput
    refine ⟨_, rfl, fun later hlater => ?_⟩
    rw [res_id]
    exact checksum_lasts hcalls hget hchecksum (Leads.trans hpassed.onward.2 hlater)

end Registered

/-- After a forced preload, the result hides no difference exactly when the winners of its conflicts
have the bytes that it fetched. -/
theorem forced_preload_iff (reached : Runs cache.env (Registry.initial grace) calls app.guard.reg)
    (h : Dialogue (Serves cfg cache.env) (LedApp cache.env)
      (cache.preload raw true) app exchanges last result) :
    NeverHides cache.env exchanges last result ↔ WinnersAgree cache.env exchanges := by
  have hwithin := (h.within (R := LedApp cache.env) (fun _ _ h => h) fun _ _ _ _ _ h =>
    serves_led h).2
  have hpassed : ∀ x ∈ exchanges, Passed cache.env grace last x := by
    intro x hx
    obtain ⟨⟨more, hmore⟩, hover, hfrom⟩ := hwithin x hx
    obtain ⟨during, hduring⟩ := id hover
    exact ⟨⟨_, reached.append hmore⟩, ⟨_, (reached.append hmore).append hduring⟩,
      Leads.trans hover hfrom, hfrom⟩
  cases preload_dialogue h with
  | denied =>
    refine iff_of_true ⟨fun res hres => (by cases hres), fun x hx => (by cases hx)⟩ ?_
    intro first x rest hsplit
    simp at hsplit
  | returned hrefetch =>
    refine iff_of_true ⟨fun res hres => ?_, hrefetch.differs⟩ hrefetch.winnersAgree
    obtain rfl := Except.ok.inj hres
    exact hrefetch.registered hpassed
  | raised hrefetch =>
    refine iff_of_true ⟨fun res hres => (by cases hres),
      fun x hx asset hasset content hcontent hne => ?_⟩
      hrefetch.winnersAgree
    exact ⟨⟨_, rfl⟩, (hrefetch.differs x hx asset hasset content hcontent hne).2⟩
  | unrecovered hrefetch served nothing =>
    obtain ⟨hnone, -, -⟩ := hrefetch.fromStore ⟨_, _, _, rfl⟩
    refine iff_of_true ⟨fun res hres => (by cases hres), fun x hx asset hasset => ?_⟩
      (winnersAgree_concat.mpr ⟨hrefetch.winnersAgree,
        fun _ space aliasName hlookup asset app' hresolve => ?_⟩)
    · rcases List.mem_append.mp hx with hx | hx
      · rw [hnone x hx] at hasset
        cases hasset
      · obtain rfl := List.mem_singleton.mp hx
        rcases nothing with ⟨e', rfl⟩ | rfl <;> cases hasset
    · rcases nothing with ⟨e', rfl⟩ | rfl
      · cases hlookup
      · obtain ⟨e', he⟩ := serves_tells served
        cases hlookup
        rw [hresolve] at he
        cases he
  | adopted hrefetch served res_id =>
    rename_i target first before message retryAfter aliasName asset res
    obtain ⟨hnone, hone, hconflict⟩ := hrefetch.fromStore ⟨_, _, _, rfl⟩
    have hfound : resolve "fetcher".toList "cache".toList aliasName before = .ok asset last :=
      serves_tells served
    have hlast := hpassed _ (List.mem_append_right first (List.mem_singleton_self _))
    obtain ⟨calls', hcalls⟩ := hlast.before
    obtain ⟨hget, hchecksum⟩ := found_registered hcalls hfound
    obtain ⟨checksum, hregistered⟩ := Option.ne_none_iff_exists'.mp hchecksum
    -- what the winner of the conflict must have
    have hwinner : WinnersAgree cache.env (first ++ [⟨.resolve "cache".toList aliasName, before,
        .ok (some asset), last⟩]) ↔ ∃ content ∈ first.filterMap contentOf,
          asset.checksum = some (computeChecksum cache.env content.data) := by
      rw [winnersAgree_concat]
      constructor
      · rintro ⟨-, hagrees⟩
        exact hagrees (hconflict _ _ rfl) _ _ rfl _ _ hfound
      · intro hagrees
        refine ⟨hrefetch.winnersAgree, fun _ space aliasName' hlookup asset' app' hresolve => ?_⟩
        cases hlookup
        rw [hfound] at hresolve
        cases hresolve
        exact hagrees
    have hcontents :
        (first ++ [(⟨.resolve "cache".toList aliasName, before, .ok (some asset), last⟩ :
        PilotExchange)]).filterMap contentOf = first.filterMap contentOf := by
      rw [List.filterMap_append]
      exact List.append_nil _
    rw [hwinner]
    constructor
    · intro hides
      obtain ⟨content, hcontent, hsame⟩ := hides.same res rfl
      rw [hcontents] at hcontent
      obtain ⟨a, ha, hadopted⟩ := hsame _ (Leads.refl _)
      obtain ⟨a', ha', hkept⟩ := checksum_lasts hcalls hget hregistered hlast.onward.1
      rw [res_id] at ha
      obtain rfl := Option.some.inj (ha.symm.trans ha')
      exact ⟨content, by simp [hcontent], by rw [hregistered, ← hkept, hadopted]⟩
    · rintro ⟨content, hcontent, hsame⟩
      have hsingle := hone content hcontent
      refine ⟨fun res' hres => ?_, fun x hx asset' hasset content' hcontent' hne => ?_⟩
      · obtain rfl := Except.ok.inj hres
        refine ⟨content, hcontents.trans hsingle, fun later hlater => ?_⟩
        rw [res_id]
        exact checksum_lasts hcalls hget hsame (Leads.trans hlast.onward.1 hlater)
      · rcases List.mem_append.mp hx with hx | hx
        · rw [hnone x hx] at hasset
          cases hasset
        · obtain rfl := List.mem_singleton.mp hx
          obtain rfl := Option.some.inj hasset
          rw [hcontents, hsingle, List.mem_singleton] at hcontent'
          exact absurd (hcontent' ▸ hsame) hne

end Preload

/-! ### A rival -/

/-- The hashes of the empty file and of `a`. -/
def twoHashes : Env :=
  { plainEnv with
    sha256 := fun data => if data.isEmpty then plainEnv.sha256 [] else
      "ca978112ca1bbdcafac231b39a23dc4da786eff8147c4e72b9807785afee48bb".toList.filterMap fun c =>
        (List.finRange 16).find? fun d => hexDigit d == c }

def rivalPilot : PilotCache := { plainPilot with env := twoHashes }

def currentAlias : Text :=
  "gallica-pilot/openapi.bnf.fr/iiif/image/v3/ark:/12148/b7/f1/full/max/0/default.jpg".toList

def emptyImage : FetchedContent := { data := [], mime := "image/jpeg".toList }

/-- After the first lookup. -/
def missedApp : App := final (resolve "fetcher".toList "cache".toList currentAlias freshApp)

/-- A client of the fetcher, with a capability of its own. -/
def rivalGranted : App :=
  final (mintCapability {} twoHashes "c0".toList "fetcher".toList .write
    ("cache".toList ++ '/' :: pilotPartition)
    300 false missedApp)

/-- The client has stored other bytes under the alias. -/
def rivalStored : App :=
  final (putObject {} twoHashes "0a".toList "c0".toList ("cache/".toList ++ currentAlias)
    [0x61] none rivalGranted)

def granted (app : App) : App :=
  final (mintCapability {} twoHashes "c1".toList "fetcher".toList .write
    ("cache".toList ++ '/' :: pilotPartition)
    300 false app)

/-- The preload has tried to store what it fetched. -/
def uploadedApp (app : App) : App :=
  final (putObject {} twoHashes "0b".toList "c1".toList ("cache/".toList ++ currentAlias) []
    (some "image/jpeg".toList)
    (granted app))

/-- It has looked the alias up again. -/
def adoptedApp : App :=
  final (resolve "fetcher".toList "cache".toList currentAlias (uploadedApp rivalStored))

section Rival

variable {α : Type} {m : AppM α} {app : App}

theorem final_of_returns {P : α → App → Bool} (h : returns P (m app) = true) :
    ∃ a, m app = .ok a (final (m app)) ∧ P a (final (m app)) = true := by
  obtain ⟨a, s, hrun, hP⟩ := exists_ok_of_returns h
  rw [hrun]
  exact ⟨a, rfl, hP⟩

theorem final_of_raises {P : Err → App → Bool} (h : raises P (m app) = true) :
    ∃ e, m app = .error e (final (m app)) ∧ P e (final (m app)) = true := by
  obtain ⟨e, s, hrun, hP⟩ := exists_error_of_raises h
  rw [hrun]
  exact ⟨e, rfl, hP⟩

theorem missed_served :
    Serves {} twoHashes _ (.resolve "cache".toList currentAlias) freshApp (.ok none) missedApp := by
  obtain ⟨e, hrun, hstatus⟩ := final_of_raises
    (show raises (fun e _ => e.cls.status == 404)
      (resolve "fetcher".toList "cache".toList currentAlias freshApp) = true
      by decide +kernel)
  exact .absent hrun (by simpa using hstatus)

/-- A preload of the current spelling up to its upload, while others go from one state to
another. -/
theorem refetch_uploads {app last : App} {answer : Except PilotError Asset}
    (moved : LedApp twoHashes missedApp app)
    (minted : Serves {} twoHashes _ (.mint .write ("cache".toList ++ '/' :: pilotPartition) 300) app
      (.ok "c1".toList) (granted app))
    (stored : Serves {} twoHashes _ (.put "c1".toList ("cache/".toList ++ currentAlias) []
      (some "image/jpeg".toList)) (granted app) answer last) :
    Dialogue (Serves {} rivalPilot.env) (LedApp rivalPilot.env)
      (ensureTarget rivalPilot.env rivalPilot.approvedFetch
        (PilotCache.requestFor currentTarget true)
        currentTarget.fetchUrl (pilotTarget currentAlias)) freshApp
      [⟨.resolve "cache".toList currentAlias, freshApp, .ok none, missedApp⟩,
        ⟨.fetch currentTarget.fetchUrl, app, .ok emptyImage, app⟩,
        ⟨.mint .write ("cache".toList ++ '/' :: pilotPartition) 300, app, .ok "c1".toList,
          granted app⟩,
        ⟨.put "c1".toList ("cache/".toList ++ currentAlias) [] (some "image/jpeg".toList),
          granted app, answer, last⟩]
      last (answer.map fun asset =>
        { assetId := asset.assetId, qualifiedAlias := "cache/".toList ++ currentAlias,
          cacheHit := false
          bucket := "cache".toList, partitionId := pilotPartition }) := by
  have hstill : ∀ app, LedApp twoHashes app app := fun app => Closed.refl app
  have happroved : GallicaPolicy.require rivalPilot.checks currentTarget.fetchUrl =
      .ok currentTarget := by
    decide +kernel
  have hfetch : Dialogue (Serves {} twoHashes) (LedApp twoHashes)
      (rivalPilot.approvedFetch currentTarget.fetchUrl)
      missedApp [⟨.fetch currentTarget.fetchUrl, app, .ok emptyImage, app⟩] app
        (.ok emptyImage) := by
    refine Dialogue.ret_bind_iff.mpr (.inr ⟨_, happroved, ?_⟩)
    refine Dialogue.perform_bind_iff.mpr ⟨app, app, moved, .inr ⟨emptyImage, [], .fetched, rfl, ?_⟩⟩
    refine Dialogue.ret_bind_iff.mpr (.inr ⟨(), by decide, ?_⟩)
    exact Dialogue.ret_bind_iff.mpr (.inr ⟨(), by decide, .ret⟩)
  have hqualified : (pilotTarget currentAlias).qualified = "cache/".toList ++ currentAlias :=
    pilotTarget_qualified
  refine Dialogue.perform_bind_iff.mpr
    ⟨freshApp, missedApp, hstill _, .inr ⟨none, _, missed_served, rfl, ?_⟩⟩
  refine Dialogue.bind_iff.mpr (.inr ⟨emptyImage, app, [_], _, hfetch, ?_, rfl⟩)
  refine Dialogue.perform_bind_iff.mpr ⟨app, granted app, hstill _, .inr ⟨_, _, minted, rfl, ?_⟩⟩
  rw [hqualified]
  cases answer with
  | ok asset =>
    exact Dialogue.perform_bind_iff.mpr
      ⟨granted app, last, hstill _, .inr ⟨asset, [], stored, rfl, .ret⟩⟩
  | error e =>
    exact Dialogue.perform_bind_iff.mpr
      ⟨granted app, last, hstill _, .inl ⟨e, stored, rfl, rfl, rfl⟩⟩

/-- The preload of the current spelling, without what the policy has checked. -/
theorem rivalPilot_preload : rivalPilot.preload currentSpelling true = Prog.tryCatch
    (ensureTarget rivalPilot.env rivalPilot.approvedFetch (PilotCache.requestFor currentTarget true)
      currentTarget.fetchUrl (pilotTarget currentAlias))
        (rivalPilot.preloadFailed currentTarget) := by
  have halias : aliasOf currentTarget.rendition.1 currentTarget.rendition.2 = currentAlias := by
    decide +kernel
  have hlaws : rivalPilot.lib.LowerLaws :=
    ⟨plainPilot_laws.idem, plainPilot_laws.ascii, plainPilot_laws.slash,
    plainPilot_laws.dot, plainPilot_laws.nonempty⟩
  rw [preload_eq hlaws current_required (by decide +kernel), halias]

section

variable {exchanges more : List PilotExchange} {s s1 s2 : App} {res : EnsureUrlResult}
  {e : PilotError}
  {result : Except PilotError EnsureUrlResult}

/-- The preload returns what its `ensure_url` returns. -/
theorem rivalPilot_returns (h : Dialogue (Serves {} rivalPilot.env) (LedApp rivalPilot.env)
    (ensureTarget rivalPilot.env rivalPilot.approvedFetch (PilotCache.requestFor currentTarget true)
      currentTarget.fetchUrl (pilotTarget currentAlias)) s exchanges s1 (.ok res)) :
    Dialogue (Serves {} rivalPilot.env) (LedApp rivalPilot.env)
      (rivalPilot.preload currentSpelling true) s
      exchanges s1 (.ok res) := by
  rw [rivalPilot_preload]
  exact Dialogue.tryCatch_iff.mpr (.inl ⟨res, h, rfl⟩)

/-- Where its `ensure_url` raises, it goes on with the handler. -/
theorem rivalPilot_recovers (h : Dialogue (Serves {} rivalPilot.env) (LedApp rivalPilot.env)
    (ensureTarget rivalPilot.env rivalPilot.approvedFetch (PilotCache.requestFor currentTarget true)
      currentTarget.fetchUrl (pilotTarget currentAlias)) s exchanges s1 (.error e))
    (hhandler : Dialogue (Serves {} rivalPilot.env) (LedApp rivalPilot.env)
      (rivalPilot.preloadFailed currentTarget e) s1 more s2 result) :
    Dialogue (Serves {} rivalPilot.env) (LedApp rivalPilot.env)
      (rivalPilot.preload currentSpelling true) s
      (exchanges ++ more) s2 result := by
  rw [rivalPilot_preload]
  exact Dialogue.tryCatch_iff.mpr (.inr ⟨e, s1, exchanges, more, h, hhandler, rfl⟩)

end

theorem granted_served {app : App} (h : returns (fun token _ => token == "c1".toList)
    (mintCapability {} twoHashes "c1".toList "fetcher".toList .write
      ("cache".toList ++ '/' :: pilotPartition) 300
      false app) = true) :
    Serves {} twoHashes _ (.mint .write ("cache".toList ++ '/' :: pilotPartition) 300) app
      (.ok "c1".toList)
      (granted app) := by
  obtain ⟨token, hrun, htoken⟩ := final_of_returns h
  obtain rfl : token = "c1".toList := by simpa using htoken
  exact .minted hrun

theorem preload_stores : ∃ exchanges last res,
    Dialogue (Serves {} rivalPilot.env) (LedApp rivalPilot.env)
      (rivalPilot.preload currentSpelling true) freshApp
      exchanges last (.ok res) ∧ WinnersAgree rivalPilot.env exchanges := by
  obtain ⟨asset, hput, -⟩ := final_of_returns
    (show returns (fun _ _ => true) (putObject {} twoHashes "0b".toList "c1".toList
      ("cache/".toList ++ currentAlias) []
      (some "image/jpeg".toList) (granted missedApp)) = true by decide +kernel)
  have hfresh : (granted missedApp).guard.reg.assets.get "0b".toList = none := by decide +kernel
  have huploads := refetch_uploads (Closed.refl missedApp) (granted_served (by decide +kernel))
    (.stored hfresh hput)
  have hdialogue := ensureTarget_dialogue rfl huploads
  exact ⟨_, _, _, rivalPilot_returns huploads, hdialogue.winnersAgree⟩

/-- A preload that nothing disturbs stores what it fetched. -/
theorem forced_preload_undisturbed : ∃ exchanges last res,
    Dialogue (Serves {} rivalPilot.env) (LedApp rivalPilot.env)
      (rivalPilot.preload currentSpelling true) freshApp
      exchanges last (.ok res) ∧ NeverHides rivalPilot.env exchanges last (.ok res) := by
  obtain ⟨exchanges, last, res, hdialogue, hagree⟩ := preload_stores
  have hreached : Runs rivalPilot.env (Registry.initial 0) [] freshApp.guard.reg := .nil
  exact ⟨exchanges, last, res, hdialogue, (forced_preload_iff hreached hdialogue).mpr hagree⟩

/-- A preload that a rival overtakes returns the asset of the rival, which has other bytes. -/
theorem forced_preload_overtaken : ∃ exchanges last res,
    Dialogue (Serves {} rivalPilot.env) (LedApp rivalPilot.env)
      (rivalPilot.preload currentSpelling true) freshApp
      exchanges last (.ok res) ∧ ¬NeverHides rivalPilot.env exchanges last (.ok res) := by
  have hmoved : LedApp twoHashes missedApp rivalStored := by
    have hgranted : LedApp twoHashes missedApp rivalGranted := led_mintCapability missedApp
    have hfresh : rivalGranted.guard.reg.assets.get "0a".toList = none := by decide +kernel
    exact Closed.trans (R := LedApp twoHashes) hgranted (led_putObject hfresh rfl)
  have hconflict : Serves {} twoHashes _ (.put "c1".toList ("cache/".toList ++ currentAlias) []
      (some "image/jpeg".toList)) (granted rivalStored)
        (.error (.assetStore "object write failed" 409 none))
      (uploadedApp rivalStored) := by
    obtain ⟨e, hput, hstatus⟩ := final_of_raises
      (show raises (fun e _ => e.cls.status == 409) (putObject {} twoHashes "0b".toList "c1".toList
        ("cache/".toList ++ currentAlias) [] (some "image/jpeg".toList) (granted rivalStored)) =
          true
        by decide +kernel)
    have hfresh : (granted rivalStored).guard.reg.assets.get "0b".toList = none := by decide +kernel
    rw [← show e.cls.status = 409 by simpa using hstatus]
    exact .unstored hfresh hput
  have huploads := refetch_uploads hmoved (granted_served (by decide +kernel)) hconflict
  obtain ⟨asset, hagain, hasset⟩ := final_of_returns
    (show returns (fun asset app => asset.checksum == some (computeChecksum twoHashes [0x61]) &&
        app.guard.reg.assets.get asset.assetId == some asset)
      (resolve "fetcher".toList "cache".toList currentAlias (uploadedApp rivalStored)) = true by
        decide +kernel)
  rw [Bool.and_eq_true, beq_iff_eq, beq_iff_eq] at hasset
  obtain ⟨hchecksum, hget⟩ := hasset
  have hrecover : Dialogue (Serves {} rivalPilot.env) (LedApp rivalPilot.env)
      (rivalPilot.recover currentTarget none)
      (uploadedApp rivalStored)
      [⟨.resolve "cache".toList currentAlias, uploadedApp rivalStored, .ok (some asset),
        adoptedApp⟩] adoptedApp
      (.ok { assetId := asset.assetId, qualifiedAlias := "cache/".toList ++ currentAlias,
             cacheHit := true
             bucket := "cache".toList, partitionId := pilotPartition }) := by
    refine Dialogue.ret_bind_iff.mpr (.inr ⟨currentAlias, by decide +kernel, ?_⟩)
    refine Dialogue.bind_iff.mpr (.inr
      ⟨some asset, _, [_], [], Dialogue.tryCatch_iff.mpr (.inl ⟨_, ?_, rfl⟩), .ret, rfl⟩)
    exact Dialogue.perform_iff.mpr ⟨uploadedApp rivalStored, Closed.refl _, .found hagain, rfl⟩
  refine ⟨_, _, _, rivalPilot_recovers huploads hrecover, fun hides => ?_⟩
  obtain ⟨content, hcontent, hsame⟩ := hides.same _ rfl
  obtain ⟨a, ha, hregistered⟩ := hsame _ (Leads.refl _)
  obtain rfl : emptyImage = content := (List.cons.inj hcontent).1
  obtain rfl : a = asset := Option.some.inj (ha.symm.trans hget)
  have hdiffer : computeChecksum twoHashes [0x61] ≠ computeChecksum twoHashes [] := by
    decide +kernel
  exact hdiffer (Option.some.inj (hchecksum.symm.trans hregistered))

end Rival

end AssetStore

import AssetStore.Registry.Accounting
import AssetStore.Service.Monitor

/-! Isolation under the access monitor. The assets of a service that takes no part are read at most,
the bindings and the limits stay while the admin is away, and an asset appears only in a bucket that
its owner may write to. -/

namespace AssetStore

open Lib Relation

variable {present used : Text → Prop} {env : Env} {grace : Int} {r : Registry}
  {v v' v'' : Vault} {op : Op}
  {id : Text} {a a' a'' : Asset}

/-! ### Assets that are read at most -/

/-- Nothing happened to the asset but reads, while it was available. -/
structure ReadAtMost (a a' : Asset) : Prop where
  same : a' = { a with lastReadAt := a'.lastReadAt, readCount := a'.readCount }
  counted : a.readCount ≤ a'.readCount
  idle : a.state ≠ .available → a' = a

namespace ReadAtMost

theorem refl (a : Asset) : ReadAtMost a a := ⟨rfl, le_rfl, fun _ => rfl⟩

theorem read {now : Time} (state : a.state = .available) :
    ReadAtMost a { a with lastReadAt := some now, readCount := a.readCount + 1 } :=
  ⟨rfl, by simp, fun hne => (hne state).elim⟩

theorem trans (h : ReadAtMost a a') (h' : ReadAtMost a' a'') : ReadAtMost a a'' where
  same := by
    rw [h'.same, h.same]
  counted := h.counted.trans h'.counted
  idle hne := by
    obtain rfl := h.idle hne
    exact h'.idle hne

theorem ownerServiceId (h : ReadAtMost a a') : a'.ownerServiceId = a.ownerServiceId := by
  rw [h.same]

theorem location (h : ReadAtMost a a') : a'.location = a.location := by
  rw [h.same, Asset.location, Asset.location]

end ReadAtMost

/-- What a stored asset keeps while neither its owner nor the admin takes part. -/
structure Spared (id : Text) (a : Asset) (v v' : Vault) : Prop where
  asset : ∃ a', v'.reg.assets.get id = some a' ∧ ReadAtMost a a'
  bindings : ∀ key b, v.reg.aliases.get key = some b → v'.reg.aliases.get key = some b
  payload : v'.store.get a.location = v.store.get a.location

theorem Spared.of_same (get : v.reg.assets.get id = some a) (reg : v'.reg = v.reg)
    (payload : v'.store.get a.location = v.store.get a.location) : Spared id a v v' where
  asset := ⟨a, reg ▸ get, .refl a⟩
  bindings _ _ hb := reg ▸ hb
  payload := payload

/-- The call of a licensed service spares the assets of the others. -/
theorem Deed.spared {t : Registry} (h : Deed present v.reg t) (get : v.reg.assets.get id = some a)
    (absent : ¬present a.ownerServiceId) : Spared id a v { v with reg := t } := by
  -- a deed changes at most one asset, which is new, owned by a present service or read
  have other : ∀ {i : Text} {c : Asset}, t.assets = v.reg.assets.set i c → i ≠ id →
      ∃ a', t.assets.get id = some a' ∧ ReadAtMost a a' := by
    intro i c hset hne
    exact ⟨a, by rw [hset, Dict.get_set_ne _ _ hne.symm, get], .refl a⟩
  have keep : t.aliases = v.reg.aliases → ∀ key b, v.reg.aliases.get key = some b →
      t.aliases.get key = some b := fun h _ _ hb => h ▸ hb
  cases h with
  | idle assets aliases => exact ⟨⟨a, by rw [assets, get], .refl a⟩, keep aliases, rfl⟩
  | @create i c fresh assets bindings =>
    refine ⟨other assets ?_, bindings, rfl⟩
    rintro rfl
    cases fresh.symm.trans get
  | @revise i c c' hget owner assets aliases =>
    refine ⟨other assets ?_, keep aliases, rfl⟩
    rintro rfl
    obtain rfl := Option.some.inj (get.symm.trans hget)
    exact absent owner
  | @read i c now hget state assets aliases =>
    refine ⟨?_, keep aliases, rfl⟩
    by_cases hi : i = id
    · subst hi
      obtain rfl := Option.some.inj (get.symm.trans hget)
      exact ⟨_, by rw [assets, Dict.get_set_self], .read state⟩
    · exact other assets hi

namespace Vault

theorem Step.spared (h : v.Step present env v') (sound : v.Sound present used env grace)
    (away : ¬present adminService) (get : v.reg.assets.get id = some a)
    (absent : ¬present a.ownerServiceId) : Spared id a v v' := by
  -- an object belongs to one asset, and that of a present owner is not this one
  have elsewhere : ∀ {i : Text} {c : Asset}, v.reg.assets.get i = some c →
      present c.ownerServiceId →
      a.location ≠ c.location := by
    intro i c hc owner heq
    obtain rfl := sound.keyed.location_inj get hc heq
    obtain rfl := Option.some.inj (get.symm.trans hc)
    exact absent owner
  cases h with
  | call licensed named run => exact (licensed.deed away named run).spared get absent
  | put hget owner => exact .of_same get rfl (Dict.get_set_ne _ _ (elsewhere hget owner))
  | remove hget owner => exact .of_same get rfl (Dict.get_erase_ne _ (elsewhere hget owner))
  | grant => exact .of_same get rfl rfl
  | retire => exact .of_same get rfl rfl

/-- An asset whose owner and the admin take no part is read at most; no binding is lost or changed,
and its object stays what it was. -/
theorem Leads.spared (h : v.Leads present env v') (sound : v.Sound present used env grace)
    (away : ¬present adminService) (get : v.reg.assets.get id = some a)
    (absent : ¬present a.ownerServiceId) : Spared id a v v' := by
  refine (h.induct (P := Spared id a v) sound (.of_same get rfl rfl) fun {w w'} hw hP hstep => ?_).2
  obtain ⟨⟨a1, get1, hread⟩, hbindings, hpayload⟩ := hP
  have absent1 : ¬present a1.ownerServiceId := by rwa [hread.ownerServiceId]
  obtain ⟨⟨a2, get2, hread2⟩, hbindings2, hpayload2⟩ := hstep.spared hw away get1 absent1
  refine ⟨⟨a2, get2, hread.trans hread2⟩, fun key b hb => hbindings2 key b (hbindings key b hb), ?_⟩
  rw [hread.location] at hpayload2
  exact hpayload2.trans hpayload

/-! ### Limits -/

theorem Step.sameLimits (h : v.Step present env v') (sound : v.Sound present used env grace)
    (away : ¬present adminService) : SameLimits v.reg.books v'.reg.books := by
  cases h with
  | @call op clock reply t licensed named run =>
    obtain ⟨calls, hcalls⟩ := sound.reached
    have hsets : ¬op.SetsLimits := by
      cases licensed with
      | administer admin => exact (away admin).elim
      | _ => exact id
    have hlimits :
        SameLimits (Session.books ⟨v.reg, clock⟩) (final (op.run env ⟨v.reg, clock⟩)).books :=
      Op.sameLimits hcalls.sound.1 named.fresh hsets
    rw [run, final_ok] at hlimits
    exact hlimits
  | _ => exact .refl _

/-- No limit changes while the admin takes no part. -/
theorem Leads.sameLimits (h : v.Leads present env v') (sound : v.Sound present used env grace)
    (away : ¬present adminService) : SameLimits v.reg.books v'.reg.books :=
  (h.induct (P := fun w => SameLimits v.reg.books w.reg.books) sound (.refl _)
    fun hw hP hstep => hP.trans (hstep.sameLimits hw away)).2

end Vault

/-! ### Ownership -/

/-- The asset belongs to a service that is present, in a bucket that it may write to. -/
def Owned (present : Text → Prop) (a : Asset) : Prop :=
  present a.ownerServiceId ∧ MayUse a.ownerServiceId a.space .write

theorem Owned.evolves (h : Owned present a) (hev : Evolves a a') : Owned present a' := by
  rw [Owned, hev.ownerServiceId, hev.space]
  exact h

namespace Vault

theorem Step.owned (h : v.Step present env v') (sound : v.Sound present used env grace)
    (get : v'.reg.assets.get id = some a') :
    (∃ a, v.reg.assets.get id = some a ∧ Evolves a a') ∨ Owned present a' := by
  cases h with
  | @call op clock reply t licensed named run =>
    obtain ⟨calls, hcalls⟩ := sound.reached
    have get' := get
    rw [← Op.exec_of_ok run] at get'
    cases licensed with
    | @reserve newId req owner mayWrite =>
      obtain ⟨a, hrun⟩ := replied run
      obtain ⟨hassets, -, -, howner, hspace, -⟩ := reserveAsset_stores hrun
      change t.reg.assets.get id = some a' at get
      rw [hassets, Dict.get_set] at get
      split at get
      · obtain rfl := Option.some.inj get
        rw [mayUse_normalized hspace, ← howner] at mayWrite
        exact .inr ⟨howner ▸ owner, mayWrite⟩
      · exact .inl ⟨a', get, .refl a'⟩
    | administer admin action =>
      refine .inl (Op.exec_stored hcalls (fun newId req heq => ?_) get')
      subst heq
      exact action.elim
    | _ => exact .inl (Op.exec_stored hcalls (fun _ _ => by simp) get')
  | _ => exact .inl ⟨a', get, .refl a'⟩

/-- An asset that is stored was stored before, for the same owner and in the same space, or its
owner is present and may write to its bucket. -/
theorem Leads.owned (h : v.Leads present env v') (sound : v.Sound present used env grace)
    (get : v'.reg.assets.get id = some a') :
    (∃ a, v.reg.assets.get id = some a ∧ Evolves a a') ∨ Owned present a' := by
  have hall := (h.induct (P := fun w => ∀ a', w.reg.assets.get id = some a' →
    (∃ a, v.reg.assets.get id = some a ∧ Evolves a a') ∨ Owned present a') sound
    (fun a' get => .inl ⟨a', get, .refl a'⟩) fun {w w'} hw hP hstep a' get => ?_).2
  · exact hall a' get
  · rcases hstep.owned hw get with ⟨a1, get1, hev1⟩ | howned
    · rcases hP a1 get1 with ⟨a, get0, hev⟩ | howned
      · exact .inl ⟨a, get0, hev.trans hev1⟩
      · exact .inr (howned.evolves hev1)
    · exact .inr howned

end Vault

end AssetStore

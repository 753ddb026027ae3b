import AssetStore.Service.Runs

/-! Strangers. Without a valid credential and without the token of a published grant a request gets
no further than its authentication, so the process only reads its clock: what it guards stays, but
for the grants that a reading finds expired. -/

namespace AssetStore

open Lib

variable {ι α β : Type} {start s s' : Service ι} {cfg : ServiceConfig}

/-! ### What strangers leave -/

/-- The process has read its clock and retired the grants that had expired at one of the
readings. -/
structure OnlyExpired (start s : Service ι) : Prop where
  reg : s.shared.reg = start.shared.reg
  store : s.shared.store = start.shared.store
  grants : ∃ n, (s.shared.clock = fun k => start.shared.clock (n + k)) ∧
    ∀ token cap, s.bearers.capabilities.get token = some cap ↔
      start.bearers.capabilities.get token = some cap ∧
        ∀ k < n, start.shared.clock k < cap.expiresAt

namespace OnlyExpired

theorem refl (s : Service ι) : OnlyExpired s s where
  reg := rfl
  store := rfl
  grants := ⟨0, by simp, by simp⟩

/-- A call of the bearer store that publishes nothing. -/
theorem callBearers (h : OnlyExpired start s) {call : Time → StoreM (Shared ι) β}
    {r : Except Err β} (hcall : s.callBearers call = (r, s'))
    (retires : ∀ now bearers sh, final (call now (bearers, sh)) = (bearers.prune now, sh)) :
    OnlyExpired start s' := by
  obtain ⟨n, hclock, hgrants⟩ := h.grants
  obtain ⟨hbearers, hshared⟩ := Prod.mk.inj ((retires _ _ _).symm.trans (callBearers_leaves hcall))
  refine ⟨?_, ?_, n + 1, ?_, fun token cap => ?_⟩
  · rw [← hshared]
    exact h.reg
  · rw [← hshared]
    exact h.store
  · funext k
    simp only [← hshared, hclock, Nat.add_assoc, Nat.add_comm 1 k]
  · simp only [← hbearers, prune_get_eq_some, hgrants, hclock, and_assoc, Nat.add_zero,
      Nat.forall_lt_succ_right]

end OnlyExpired

instance closed_eq : Closed (@Eq β) := ⟨fun _ => rfl, fun h h' => h.trans h'⟩

variable {used : Text → Prop} {auth : Text}

section Refusals

variable (stranger : ∀ who, requireServiceIdentity cfg.credentials auth ≠ .ok who)
include stranger

end Refusals

/-! ### Runs -/

section Results

variable [DecidableEq ι] {requests : ι → Incoming} {T : ι → ServiceProg Response}

end Results

end AssetStore

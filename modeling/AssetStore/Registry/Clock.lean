import AssetStore.Registry.Spec

/-! The operations that the guard calls take clock readings in their order and leave the rest of
them to the next. -/

namespace AssetStore

open Lib

/-- Some readings were taken. -/
def Later (s s' : Session) : Prop := ∃ n, s'.clock = fun k => s.clock (n + k)

instance : Frame Later where
  refl s := ⟨0, by simp⟩
  trans := by
    rintro s s' s'' ⟨n, h⟩ ⟨n', h'⟩
    refine ⟨n + n', ?_⟩
    rw [h', h]
    funext k
    rw [Nat.add_assoc]
  tick s := ⟨1, funext fun k => by simp [Session.tick, Nat.add_comm]⟩

namespace Later

variable {α β : Type} {env : Env}

theorem updateTables {g : Registry → Registry} : Within Later (updateTables g) :=
  Within.updateTables fun _ => ⟨0, by simp⟩

theorem audit {action : AuditAction} {target caller outcome : Text}
    {before after : List (Text × Text)} :
    Within Later (audit action target caller before after outcome) :=
  Within.bind Within.utcnow fun _ => updateTables

theorem acquireQuota {space pid : Text} {n : Int} : Within Later (acquireQuota space pid n) :=
  Within.bind Within.partitionQuota fun _ => Within.bind updateTables fun _ =>
    Within.bind Within.bucketQuota fun _ => updateTables

theorem releaseQuota {a : Asset} : Within Later (releaseQuota a) :=
  Within.ite (Within.bind Within.partitionQuota fun _ => Within.bind updateTables fun _ =>
    Within.bind Within.bucketQuota fun _ => updateTables) Within.pure

theorem bindNames {space pid id owner : Text} {now : Time} :
    ∀ names, Within Later (bindNames space pid id owner now names)
  | [] => Within.pure
  | _ :: rest =>
    Within.bind Within.attempt fun _ => Within.bind Within.attempt fun _ =>
      Within.bind updateTables fun _ => Within.bind audit fun _ => bindNames rest

theorem auditReservation {id owner : Text} : ∀ reserved,
    Within Later (auditReservation id owner reserved)
  | none => Within.pure
  | some _ => audit

theorem reserveAsset {newId : Text} {req : ReserveRequest} :
    Within Later (reserveAsset env newId req) := by
  refine Within.bind Within.attempt fun _ => Within.bind Within.attempt fun _ =>
    Within.bind Within.attempt fun _ => ?_
  refine Within.bind (Within.requireNamesAvailable (fun _ _ => ⟨0, by simp⟩) _) fun _ => ?_
  refine Within.bind (Within.admitReservation _) fun _ => Within.bind Within.utcnow fun _ => ?_
  refine Within.bind Within.attempt fun _ => Within.bind Within.attempt fun _ =>
    Within.bind Within.attempt fun _ => ?_
  exact Within.bind updateTables fun _ => Within.bind (bindNames _) fun _ =>
    Within.bind (auditReservation _) fun _ => Within.pure

theorem commitAsset {id checksum caller : Text} {size : Int} {mime expected : Option Text} :
    Within Later (commitAsset env id size checksum caller mime expected) := by
  refine Within.bind Within.attempt fun _ => Within.bind Within.attempt fun _ =>
    Within.bind Within.attempt fun _ => Within.bind Within.getAsset fun _ => ?_
  refine Within.bind Within.attempt fun _ => Within.bind Within.attempt fun _ =>
    Within.bind Within.enforceQuota fun _ => Within.bind Within.utcnow fun _ => ?_
  exact Within.bind updateTables fun _ => Within.bind acquireQuota fun _ =>
    Within.bind audit fun _ => Within.pure

theorem recordRead {id : Text} : Within Later (recordRead id) :=
  Within.bind Within.getAsset fun _ =>
    Within.ite (Within.bind Within.utcnow fun _ => updateTables) Within.pure

theorem lifecycleUpdate {a : Asset} {state : AssetState} {now : Time} {reason : Text}
    {purge : Bool} :
    Within Later (lifecycleUpdate a state now reason purge) :=
  Within.bind Within.getAsset fun _ => Within.bind Within.attempt fun _ =>
    Within.bind Within.attempt fun _ => Within.bind releaseQuota fun _ =>
      Within.bind updateTables fun _ => Within.bind audit fun _ => Within.pure

end Later

end AssetStore

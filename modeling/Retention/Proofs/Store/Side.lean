import Retention.Proofs.World
import Retention.Store.Rules

/-!
# The store's side of the world

Whatever the store is asked for, it makes at most two kinds of calls, so what those leave alone its
operations leave alone. However an operation ends, it touches the side of the admin API alone: the
ledger, the counters and the moment are as they were.

* `Store.keeps_send`: a call that may be given up on leaves alone what its effect does.
* `Store.keeps_live`, `Store.keeps_setPolicy`, `Store.keeps_drift`, `Store.keeps_apply`,
  `Store.keeps_release`: the operations of the store leave alone what their calls do.
* `Store.keeps_live_of_check`, `Store.keeps_listRules_of_check`, `Store.keeps_setPolicy_of_check`:
  they call for no more than names that follow their patterns.
* `Store.adminOnly_send`, `Store.adminOnly_apply`, `Store.adminOnly_release`: the store's side.
-/

namespace Retention.Store

open World

variable {α : Type}

/-! ### What calls leave alone -/

section Frame

variable {relation : World → World → Prop} [Std.Refl relation] [IsTrans World relation]
  {store : Store} {target : FamilyRef} {options : CallOptions}

/-- A call that may be given up on leaves alone what its effect does, when it may be noted and
cancelled. -/
theorem keeps_send {call : AdminCall} {effect : Step World α}
    (hnote : (noteCall call).Keeps relation)
    (hcancel : ∀ world count, relation world { world with cancelled := world.cancelled + count })
    (h : effect.Keeps relation) : (send options call effect).Keeps relation := by
  have hsettled : (settled call effect).Keeps relation := h.mapFailure _
  unfold send
  split
  · exact hnote.bind fun _ => hsettled
  · next signal _ =>
    split
    · exact Step.keeps_fail _
    · refine hnote.bind fun _ => (Step.keeps_modify fun world => hcancel world _).bind fun _ => ?_
      split
      · exact hsettled
      · split
        · exact hsettled.attempt.bind fun _ => Step.keeps_fail _
        · exact Step.keeps_fail _

section Reading

/-- Reading the policy of a family asks for its table only when its names follow their patterns. -/
theorem keeps_live_of_check (hget : target.check = .ok () → (send options
      (.getTable target.table (store.timeout options)) (showTable target.table)).Keeps relation) :
    (store.live target options).Keeps relation := by
  have hpolicy : (store.getPolicy target options).Keeps relation :=
    Step.keeps_ofExcept_bind fun _ hcheck =>
      ((hget hcheck).bind fun _ => Step.keeps_ofExcept _).bind fun families => by
        split
        · exact Step.keeps_fail _
        · exact (Step.keeps_ofExcept _).bind fun _ => Step.keeps_pure _
  refine (hpolicy.map _).recover fun failure => ?_
  split
  · exact Step.keeps_pure _
  · exact Step.keeps_fail _

/-- The policies of a table are listed only when its name follows its pattern. -/
theorem keeps_listRules_of_check {table : Text} (hget : ∀ name, TableName.check table = .ok name →
      (send options (.getTable table (store.timeout options)) (showTable table)).Keeps relation) :
    (store.listRules table options).Keeps relation := by
  have hpolicies : (store.listPolicies table options).Keeps relation :=
    Step.keeps_ofExcept_bind fun name hcheck =>
      ((hget name hcheck).bind fun _ => Step.keeps_ofExcept _).bind fun _ =>
        (Step.keeps_ofExcept _).map _
  exact hpolicies.bind fun _ => Step.keeps_ofExcept _

variable (hget : (send options (.getTable target.table (store.timeout options))
  (showTable target.table)).Keeps relation)

include hget

theorem keeps_live : (store.live target options).Keeps relation := keeps_live_of_check fun _ => hget

theorem keeps_drift (rules : Option Json) : (store.drift target rules options).Keeps relation :=
  (Step.keeps_ofExcept _).bind fun _ => (keeps_live hget).bind fun _ =>
    (Step.keeps_ofExcept _).bind fun _ => Step.keeps_pure _

end Reading

section Setting

/-- Setting a policy changes a family only when its names follow their patterns. -/
theorem keeps_setPolicy_of_check {policy : Policy} (hset : target.check = .ok () →
      (send options (.modifyFamilies target.table target.family policy.toMessage
        (store.timeout options)) (modifyFamily target.table target.family policy.toMessage)).Keeps
          relation) : (store.setPolicy target policy options).Keeps relation :=
  Step.keeps_ofExcept_bind fun _ hcheck => (hset hcheck).bind fun _ =>
    (Step.keeps_ofExcept _).bind fun _ => Step.keeps_ofExcept _

theorem keeps_apply_of_setPolicy
    (hset : ∀ policy, (store.setPolicy target policy options).Keeps relation)
    (rules : Option Json) : (store.apply target rules options).Keeps relation :=
  (Step.keeps_ofExcept _).bind fun policy => hset policy

theorem keeps_release_of_setPolicy
    (hset : (store.setPolicy target .noGc options).Keeps relation) (mode : DeletionMode) :
    (store.release target mode options).Keeps relation := by
  cases mode with
  | abandon => exact Step.keeps_pure _
  | default => exact hset.bind fun _ => Step.keeps_pure _

variable (hset : ∀ message, (send options (.modifyFamilies target.table target.family message
  (store.timeout options)) (modifyFamily target.table target.family message)).Keeps relation)

include hset

theorem keeps_setPolicy (policy : Policy) : (store.setPolicy target policy options).Keeps relation :=
  keeps_setPolicy_of_check fun _ => hset policy.toMessage

theorem keeps_apply (rules : Option Json) : (store.apply target rules options).Keeps relation :=
  keeps_apply_of_setPolicy (keeps_setPolicy hset) rules

theorem keeps_release (mode : DeletionMode) :
    (store.release target mode options).Keeps relation :=
  keeps_release_of_setPolicy (keeps_setPolicy hset .noGc) mode

end Setting

end Frame

/-! ### The side of the admin API -/

/-- A call touches no more than its effect does. -/
theorem adminOnly_send (options : CallOptions) (call : AdminCall) {effect : Step World α}
    (h : effect.Keeps AdminOnly) : (send options call effect).Keeps AdminOnly :=
  keeps_send (adminOnly_noteCall call) (fun _ _ => ⟨rfl, rfl, rfl, rfl, rfl, List.Sublist.refl _⟩) h

theorem adminOnly_apply (store : Store) (target : FamilyRef) (rules : Option Json)
    (options : CallOptions) : (store.apply target rules options).Keeps AdminOnly :=
  keeps_apply (fun _ => adminOnly_send _ _ (adminOnly_modifyFamily _ _ _)) rules

theorem adminOnly_release (store : Store) (target : FamilyRef) (mode : DeletionMode)
    (options : CallOptions) : (store.release target mode options).Keeps AdminOnly :=
  keeps_release (fun _ => adminOnly_send _ _ (adminOnly_modifyFamily _ _ _)) mode

end Retention.Store

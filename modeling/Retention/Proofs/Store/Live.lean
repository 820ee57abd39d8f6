import Retention.Proofs.Policy.Message
import Retention.Proofs.Quiet
import Retention.Proofs.Store.Side

/-!
# What a family is seen to have

When no fault strikes, the store sees of a family exactly what the world has: the policy of its rule
message, and none for a family that is missing. Setting a policy gives the family the message of the
policy, whatever the admin API answers, and it is then seen to have the policy. The calls here are
those of a caller who cannot give up; for one who could but waits they are the same.

## Main definitions

* `Store.liveOf`: the policy that a family is seen to have.

## Main results

* `Store.live_eq_ok`: what is seen of a family is there, unless a fault has hidden its table.
* `Store.live_of_faults_nil`: without faults a family is seen when its names follow their patterns.
* `Store.setPolicy_eq_ok`: what setting a policy changes.
* `Store.liveOf_given`: what is seen of a family whose policy was set.
* `Store.exists_setPolicy`: in a quiet world a policy is set when the table itself has the family.
* `Store.setPolicy_of_settle`, `Store.live_of_settle`: a caller who waits.
-/

namespace Retention.Store

variable {store : Store} {target : FamilyRef} {timeout : Option Json} {policy : Policy}
  {world after : World}

/-! ### Reading -/

theorem sameTables_send {α : Type} (call : AdminCall) {effect : Step World α}
    (h : effect.Keeps World.SameTables) :
    (send ⟨none, timeout⟩ call effect).Keeps World.SameTables := by
  have hnote : (World.noteCall call).Keeps World.SameTables := Step.keeps_modify fun _ => rfl
  exact hnote.bind fun _ => h.mapFailure _

theorem elsewhere_send {α : Type} (call : AdminCall) {effect : Step World α}
    (h : effect.Keeps (World.Elsewhere target)) :
    (send ⟨none, timeout⟩ call effect).Keeps (World.Elsewhere target) :=
  (World.elsewhere_noteCall call).bind fun _ => h.mapFailure _

theorem sameTables_live : (store.live target ⟨none, timeout⟩).Keeps World.SameTables :=
  keeps_live (sameTables_send _ (World.sameTables_showTable _))

/-- A call that its caller does not give up on ends as its effect does. -/
theorem send_apply {α : Type} (call : AdminCall) (effect : Step World α) (world : World) :
    send ⟨none, timeout⟩ call effect world =
      ((effect { world with calls := world.calls ++ [call] }).1.mapError
          (Failure.ofCall call.method),
        (effect { world with calls := world.calls ++ [call] }).2) :=
  Step.mapFailure_apply _ _ _

/-- The policy that a family is seen to have; one that is missing or not set has none. -/
def liveOf (family : Option Json) : Except ShapeFault Policy :=
  (family.filter Json.isTruthy).elim (.ok .noGc) Policy.ofFamily

/-- The column families of a table as the store sees them. -/
theorem families_fst (store : Store) (table : Text) (timeout : Option Json) (world : World) :
    (store.families table ⟨none, timeout⟩ world).1 =
      match (Fault.strike .getTable world.faults).1 with
      | some failure => .error (Failure.ofCall "getTable" failure)
      | none => (world.tables.lookup table).elim
        (.error (Failure.ofCall "getTable" (World.tableMissing table))) .ok := by
  rw [families, Step.bind_ofExcept_apply, send_apply, World.showTable_fst]
  dsimp only
  cases (Fault.strike .getTable world.faults).1 with
  | some failure => rfl
  | none => cases world.tables.lookup table <;> rfl

/-- The policy of a family among those of its table. -/
def policyIn (family : Text) (families : Json) : Except Failure (Option Policy) :=
  match (Families.find? family families).filter Json.isTruthy with
  | none => .error (familyNotFound family)
  | some family => ((Policy.ofFamily family).mapError Failure.shape).map fun policy =>
    if policy.isNoGc then none else some policy

/-- A policy that was asked for, where a family that is not found has none. -/
def orMissing (result : Except Failure (Option Policy)) : Except Failure Policy :=
  match result with
  | .ok policy => .ok (policy.getD .noGc)
  | .error failure => if failure.hasStoreCode .notFound then .ok .noGc else .error failure

theorem orMissing_error {failure : Failure} (h : failure.hasStoreCode .notFound = false) :
    orMissing (.error failure) = .error failure := by
  rw [orMissing, h]
  rfl

theorem getPolicy_eq (store : Store) (target : FamilyRef) (options : CallOptions) :
    store.getPolicy target options = (Step.ofExcept target.check >>= fun _ =>
      store.families target.table options >>= fun families =>
        Step.ofExcept (policyIn target.family families)) := by
  unfold getPolicy
  refine congrArg _ (funext fun _ => congrArg _ (funext fun families => funext fun world => ?_))
  unfold policyIn
  cases (Families.find? target.family families).filter Json.isTruthy with
  | none => rfl
  | some family =>
    dsimp only
    cases (Policy.ofFamily family).mapError Failure.shape <;> rfl

/-- The policy of a family is looked for among those of its table once its names have passed. -/
theorem getPolicy_fst (store : Store) (target : FamilyRef) (options : CallOptions) (world : World) :
    (store.getPolicy target options world).1 =
      target.check >>= fun _ => (store.families target.table options world).1 >>=
        policyIn target.family := by
  rw [getPolicy_eq]
  cases target.check with
  | error failure => rfl
  | ok _ => exact congrArg Prod.fst (Step.bind_ofExcept_apply _ _ _)

/-- A name that does not follow its pattern does not look like a missing family. -/
theorem hasStoreCode_of_check {failure : Failure} (h : target.check = .error failure) :
    failure.hasStoreCode .notFound = false := by
  have htable {failure : Failure} (h : TableName.check target.table = .error failure) :
      failure.hasStoreCode .notFound = false := by
    unfold TableName.check at h
    split at h
    · cases h
    · rw [← Except.error.inj h]
      rfl
  rw [FamilyRef.check] at h
  cases hname : TableName.check target.table with
  | error other =>
    rw [hname] at h
    rw [← Except.error.inj h]
    exact htable hname
  | ok name =>
    rw [hname] at h
    change checkFamilyId target.family = _ at h
    unfold checkFamilyId at h
    split at h
    · cases h
    · rw [← Except.error.inj h]
      rfl

theorem live_fst (store : Store) (target : FamilyRef) (options : CallOptions) (world : World) :
    (store.live target options world).1 = orMissing (store.getPolicy target options world).1 := by
  cases hget : store.getPolicy target options world with
  | mk result seen =>
    have hmap : ((fun policy => policy.getD .noGc) <$> store.getPolicy target options) world =
        (result.map fun policy => policy.getD .noGc, seen) := by
      rw [Step.map_apply, hget]
    cases result with
    | ok policy => exact congrArg Prod.fst (Step.recover_of_ok hmap)
    | error failure =>
      refine (congrArg Prod.fst (Step.recover_of_error hmap)).trans ?_
      dsimp only [orMissing]
      split <;> rfl

/-- A family of a table that is shown is seen as it is. -/
theorem orMissing_policyIn (family : Text) (families : Json) :
    orMissing (policyIn family families) =
      (liveOf (Families.find? family families)).mapError Failure.shape := by
  rw [policyIn, liveOf]
  cases (Families.find? family families).filter Json.isTruthy with
  | none => rfl
  | some family =>
    dsimp only [Option.elim]
    rcases Policy.ofFamily family with fault | policy
    · rfl
    · cases policy <;> rfl

/-- When no fault strikes, the store sees what the world has, provided that the names follow their
patterns. -/
theorem live_fst_of_quiet (store : Store) (target : FamilyRef) (timeout : Option Json)
    (hquiet : (Fault.strike .getTable world.faults).1 = none) :
    (store.live target ⟨none, timeout⟩ world).1 =
      target.check >>= fun _ => (liveOf (world.family? target)).mapError Failure.shape := by
  rw [live_fst, getPolicy_fst, families_fst, hquiet, World.family?]
  cases hcheck : target.check with
  | error failure => exact orMissing_error (hasStoreCode_of_check hcheck)
  | ok _ =>
    cases world.tables.lookup target.table with
    | none => rfl
    | some families => exact orMissing_policyIn target.family families

/-- What is seen of a family is what the world has, unless a fault has made its table look missing;
then no policy is seen. -/
theorem live_eq_ok (h : store.live target ⟨none, timeout⟩ world = (.ok policy, after)) :
    target.check = .ok () ∧
      (liveOf (world.family? target) = .ok policy ∨ (policy = .noGc ∧ world.HidesNext)) := by
  have hlive : (store.live target ⟨none, timeout⟩ world).1 = .ok policy := by rw [h]
  cases hstrike : (Fault.strike .getTable world.faults).1 with
  | none =>
    rw [live_fst_of_quiet store target timeout hstrike] at hlive
    obtain ⟨_, hcheck, hlive⟩ := bind_eq_ok_iff.mp hlive
    exact ⟨hcheck, Or.inl (mapError_eq_ok_iff.mp hlive)⟩
  | some failure =>
    rw [live_fst, getPolicy_fst, families_fst, hstrike] at hlive
    cases hcheck : target.check with
    | error failure =>
      rw [hcheck] at hlive
      cases (orMissing_error (hasStoreCode_of_check hcheck)).symm.trans hlive
    | ok _ =>
      rw [hcheck] at hlive
      cases hmissing : (Failure.ofCall "getTable" failure).hasStoreCode .notFound with
      | false => cases (orMissing_error hmissing).symm.trans hlive
      | true =>
        have hnone := (if_pos hmissing).symm.trans hlive
        exact ⟨rfl, Or.inr ⟨(Except.ok.inj hnone).symm, failure, hstrike, hmissing⟩⟩

/-- Without faults the policy of a family is seen when its names follow their patterns. -/
theorem live_of_faults_nil (store : Store) (target : FamilyRef) (timeout : Option Json)
    (hfaults : world.faults = []) :
    (∃ seen, store.live target ⟨none, timeout⟩ world = (.ok policy, seen)) ↔
      target.check = .ok () ∧ liveOf (world.family? target) = .ok policy := by
  have hlive := live_fst_of_quiet store target timeout (World.not_struck hfaults _)
  constructor
  · rintro ⟨seen, h⟩
    rw [h] at hlive
    obtain ⟨_, hcheck, hlive⟩ := bind_eq_ok_iff.mp hlive.symm
    exact ⟨hcheck, mapError_eq_ok_iff.mp hlive⟩
  · rintro ⟨hcheck, hpolicy⟩
    rw [hcheck, hpolicy] at hlive
    exact ⟨_, Prod.ext hlive rfl⟩

/-- What is read of a family is the text of the policy that it is seen to have. -/
theorem read_fst (store : Store) (target : FamilyRef) (options : CallOptions) (world : World) :
    (store.read target options world).1 =
      (store.live target options world).1 >>= Policy.text :=
  congrArg Prod.fst (Step.bind_ofExcept_apply _ _ _)

/-! ### Setting -/

/-- When a policy is set, the family has been given its message, whatever is then shown of it. -/
theorem setPolicy_eq_ok {held : Policy}
    (h : store.setPolicy target policy ⟨none, timeout⟩ world = (.ok held, after)) :
    target.check = .ok () ∧ world.Given after target policy.toMessage := by
  obtain ⟨_, hcheck, hrest⟩ := Step.ofExcept_bind_eq_ok_iff.mp h
  obtain ⟨shown, sent, hsend, hshown⟩ := Step.bind_eq_ok_iff.mp hrest
  obtain ⟨families, hfamilies, hheld⟩ := Step.ofExcept_bind_eq_ok_iff.mp hshown
  obtain ⟨-, rfl⟩ := Prod.mk.inj hheld
  rw [send_apply] at hsend
  obtain ⟨hmodified, hafter⟩ := Prod.mk.inj hsend
  have hgiven := World.given_of_modifyFamily (Prod.ext (mapError_eq_ok_iff.mp hmodified) hafter)
  exact ⟨hcheck, hgiven⟩

/-- A family that was given the message of a policy is seen to have the policy. -/
theorem liveOf_given (h : policy.Sendable) :
    liveOf (some (.object [("gcRule", policy.toMessage)])) = .ok policy := by
  have htruthy : policy.toMessage.isTruthy = true := by cases policy <;> rfl
  have hfamily : Policy.ofFamily (.object [("gcRule", policy.toMessage)]) =
      Policy.ofMessage policy.toMessage := by
    change Policy.ofMessageOr .noGc (some policy.toMessage) = _
    rw [Policy.ofMessageOr, Option.filter_some, if_pos htruthy]
  exact hfamily.trans h.ofMessage_toMessage

/-- The policy that an answer of the admin API shows a family with, or the one that was sent if it
shows none. -/
def policyShown (family : Text) (sent : Policy) (shown : Json) : Except Failure Policy := do
  let families ← (Families.ofTable shown).mapError Failure.shape
  (Policy.ofMessageOr sent ((Families.find? family families).bind fun family =>
    family.member? "gcRule")).mapError Failure.shape

/-- A table that shows the message of a policy shows the policy. -/
theorem policyShown_of_find? {families : Json} (hpolicy : policy.Sendable)
    (h : Families.find? target.family families = some (.object [("gcRule", policy.toMessage)])) :
    policyShown target.family policy (Families.shownTable families) = .ok policy := by
  have htruthy : policy.toMessage.isTruthy = true := by cases policy <;> rfl
  have hheld : Policy.ofMessageOr policy (some policy.toMessage) = .ok policy := by
    rw [Policy.ofMessageOr, Option.filter_some, if_pos htruthy]
    exact hpolicy.ofMessage_toMessage
  change (Policy.ofMessageOr policy ((Families.find? target.family families).bind _)).mapError
    Failure.shape = _
  rw [h]
  exact congrArg _ hheld

/-- A policy is sent once the names have passed, and the result is what the answer shows. -/
theorem setPolicy_eq (store : Store) (target : FamilyRef) (policy : Policy)
    (options : CallOptions) :
    store.setPolicy target policy options = (Step.ofExcept target.check >>= fun _ =>
      send options (.modifyFamilies target.table target.family policy.toMessage
          (store.timeout options))
        (World.modifyFamily target.table target.family policy.toMessage) >>= fun shown =>
      Step.ofExcept (policyShown target.family policy shown)) := by
  unfold setPolicy
  refine congrArg _ (funext fun _ => ?_)
  refine congrArg (Bind.bind (send _ _ _)) (funext fun shown => funext fun world => ?_)
  unfold policyShown
  cases (Families.ofTable shown).mapError Failure.shape <;> rfl

/-- Without faults the policy of a family is set when its names follow their patterns and the table
itself has it. The result is the policy, or what a prepared answer shows. -/
theorem exists_setPolicy_of_faults_nil (store : Store) (timeout : Option Json) {held : Json}
    (hfaults : world.faults = []) (hcheck : target.check = .ok ())
    (hentry : world.ownFamily? target = some held) (hpolicy : policy.Sendable) :
    ∃ after, store.setPolicy target policy ⟨none, timeout⟩ world =
        (world.reply.elim (.ok policy) (policyShown target.family policy), after) ∧
      after.faults = [] ∧ world.Given after target policy.toMessage := by
  obtain ⟨call, hcall⟩ : ∃ call : AdminCall, call = .modifyFamilies target.table target.family
    policy.toMessage (store.timeout ⟨none, timeout⟩) := ⟨_, rfl⟩
  obtain ⟨noted, hnoted⟩ : ∃ noted : World, noted = { world with calls := world.calls ++ [call] } :=
    ⟨_, rfl⟩
  have hnotedFaults : noted.faults = [] := by rw [hnoted, hfaults]
  have hnotedEntry : noted.ownFamily? target = some held := by
    rw [hnoted]
    exact hentry
  obtain ⟨changed, after, hmodify, hafter, hfind⟩ :=
    World.exists_modifyFamily hnotedFaults hnotedEntry policy.toMessage
  have hsend : send ⟨none, timeout⟩ call
      (World.modifyFamily target.table target.family policy.toMessage) world =
        (.ok (world.reply.getD (Families.shownTable changed)), after) := by
    rw [send_apply, ← hnoted, hmodify, hnoted]
    rfl
  subst hcall
  have hset : store.setPolicy target policy ⟨none, timeout⟩ world =
      (policyShown target.family policy (world.reply.getD (Families.shownTable changed)), after) := by
    rw [setPolicy_eq, hcheck]
    exact (Step.bind_of_ok (rfl : Step.ofExcept (.ok ()) world = (.ok (), world)) _).trans
      (Step.bind_of_ok hsend _)
  have hgiven : world.Given after target policy.toMessage :=
    (World.given_of_modifyFamily hmodify).congr (by rw [hnoted]) rfl
  refine ⟨after, hset.trans (congrArg (·, after) ?_), hafter, hgiven⟩
  cases world.reply with
  | none => exact policyShown_of_find? hpolicy hfind
  | some answer => rfl

/-- In a quiet world the policy of a family is set when its names follow their patterns and the
table itself has it, and the admin API then shows what was set. -/
theorem exists_setPolicy (store : Store) (timeout : Option Json) {held : Json}
    (hquiet : world.Quiet) (hcheck : target.check = .ok ())
    (hentry : world.ownFamily? target = some held) (hpolicy : policy.Sendable) :
    ∃ after, store.setPolicy target policy ⟨none, timeout⟩ world = (.ok policy, after) := by
  obtain ⟨after, hset, -⟩ :=
    exists_setPolicy_of_faults_nil store timeout hquiet.faults_eq hcheck hentry hpolicy
  rw [hquiet.reply_eq] at hset
  exact ⟨after, hset⟩

/-- The result of setting a policy in a quiet world. -/
theorem setPolicy_fst (store : Store) (timeout : Option Json) (hquiet : world.Quiet)
    (hpolicy : policy.Sendable) :
    (store.setPolicy target policy ⟨none, timeout⟩ world).1 = target.check >>= fun _ =>
      if (world.tables.lookup target.table).isSome then
        if (world.ownFamily? target).isSome then .ok policy
        else .error (Failure.ofCall "modifyColumnFamilies" (World.familyMissing target.family))
      else .error (Failure.ofCall "modifyColumnFamilies" (World.tableMissing target.table)) := by
  cases hcheck : target.check with
  | error failure =>
    rw [setPolicy_eq, hcheck]
    rfl
  | ok _ =>
    cases hentry : world.ownFamily? target with
    | some held =>
      obtain ⟨after, hset⟩ := exists_setPolicy store timeout hquiet hcheck hentry hpolicy
      obtain ⟨families, hlookup, -⟩ := Option.bind_eq_some_iff.mp hentry
      rw [hset, hlookup]
      rfl
    | none =>
      obtain ⟨noted, hfaults, htables, hsent⟩ : ∃ noted : World, noted.faults = [] ∧
          noted.tables = world.tables ∧ (store.setPolicy target policy ⟨none, timeout⟩ world).1 =
            ((World.modifyFamily target.table target.family policy.toMessage noted).1.mapError
              (Failure.ofCall "modifyColumnFamilies")) >>= policyShown target.family policy := by
        refine ⟨{ world with calls := world.calls ++ [.modifyFamilies target.table target.family
          policy.toMessage (store.timeout ⟨none, timeout⟩)] }, hquiet.faults_eq, rfl, ?_⟩
        rw [setPolicy_eq, hcheck]
        refine (congrArg Prod.fst (Step.bind_ofExcept_apply _ _ _)).trans ?_
        rw [send_apply]
        rfl
      have hmodify := World.modifyFamily_fst target.table target.family policy.toMessage hfaults
      rw [hsent, hmodify, htables]
      cases hlookup : world.tables.lookup target.table with
      | none => rfl
      | some families =>
        have hmember : families.member? target.family = none := by
          rw [World.ownFamily?, hlookup] at hentry
          exact hentry
        have hreplace : Families.replace? target.family policy.toMessage families = none := by
          rw [← Option.isNone_iff_eq_none, ← Option.not_isSome, Families.isSome_replace?, hmember]
          rfl
        dsimp only [Option.elim]
        rw [hreplace]
        rfl

/-- In a quiet world a policy is set, and the admin API then shows what was set; or no table has
changed, because the names do not follow their patterns or the table does not have the family. -/
theorem setPolicy_cases {result : Except Failure Policy} (hquiet : world.Quiet)
    (hpolicy : policy.Sendable)
    (h : store.setPolicy target policy ⟨none, timeout⟩ world = (result, after)) :
    (result = .ok policy ∧ target.check = .ok () ∧ world.Given after target policy.toMessage) ∨
      ∃ failure, result = .error failure ∧ after.tables = world.tables ∧
        (target.check = .ok () → world.ownFamily? target = none) := by
  have hset (hcheck : target.check = .ok ()) {held : Json}
      (hentry : world.ownFamily? target = some held) : result = .ok policy := by
    obtain ⟨last, hlast⟩ := exists_setPolicy store timeout hquiet hcheck hentry hpolicy
    exact congrArg Prod.fst (h.symm.trans hlast)
  cases result with
  | ok held =>
    obtain ⟨hcheck, hgiven⟩ := setPolicy_eq_ok h
    obtain ⟨_, hentry⟩ := hgiven.exists_ownFamily?
    exact Or.inl ⟨hset hcheck hentry, hcheck, hgiven⟩
  | error failure =>
    have hmissing (hcheck : target.check = .ok ()) : world.ownFamily? target = none := by
      cases hentry : world.ownFamily? target with
      | none => rfl
      | some held => cases hset hcheck hentry
    refine Or.inr ⟨failure, rfl, ?_, hmissing⟩
    rcases Step.bind_eq_error_iff.mp h with hcheck | ⟨_, _, hcheck, hrest⟩
    · rw [← (Prod.mk.inj hcheck).2]
    obtain ⟨hchecked, rfl⟩ := Prod.mk.inj hcheck
    rcases Step.bind_eq_error_iff.mp hrest with hsend | ⟨shown, sent, hsend, -⟩
    · rw [send_apply] at hsend
      obtain ⟨hmodified, hafter⟩ := Prod.mk.inj hsend
      generalize hmodify : World.modifyFamily target.table target.family policy.toMessage _ =
        outcome at hmodified hafter
      obtain ⟨modified, last⟩ := outcome
      obtain rfl : last = after := hafter
      cases modified with
      | ok _ => cases hmodified
      | error other => exact (World.sameTables_of_modifyFamily hmodify : World.SameTables _ last)
    · -- Once the call has passed nothing fails any more.
      rw [send_apply] at hsend
      obtain ⟨hmodified, hafter⟩ := Prod.mk.inj hsend
      have hgiven := World.given_of_modifyFamily (Prod.ext (mapError_eq_ok_iff.mp hmodified) hafter)
      obtain ⟨_, hentry⟩ := hgiven.exists_ownFamily?
      cases hentry.symm.trans (hmissing hchecked)

/-! ### Callers who wait -/

section Waiting

variable {signal : Signal} (haborted : signal.aborted = false)
  (hsettles : signal.Precedes .settle .abort)

include haborted hsettles

/-- For a caller who could give up but waits, a call goes as for one who cannot. -/
theorem send_of_settle {α : Type} (timeout : Option Json) (call : AdminCall)
    (effect : Step World α) :
    send ⟨some signal, timeout⟩ call effect = send ⟨none, timeout⟩ call effect := by
  have hwatched : watched call effect signal = settled call effect := by
    rw [watched, Signal.flight_of_settle hsettles]
    rfl
  simp only [send, haborted, hwatched]
  rfl

theorem setPolicy_of_settle (store : Store) (target : FamilyRef) (policy : Policy)
    (timeout : Option Json) : store.setPolicy target policy ⟨some signal, timeout⟩ =
      store.setPolicy target policy ⟨none, timeout⟩ := by
  simp only [setPolicy, send_of_settle haborted hsettles]
  rfl

theorem live_of_settle (store : Store) (target : FamilyRef) (timeout : Option Json) :
    store.live target ⟨some signal, timeout⟩ = store.live target ⟨none, timeout⟩ := by
  have hfamilies : store.families target.table ⟨some signal, timeout⟩ =
      store.families target.table ⟨none, timeout⟩ := by
    unfold families
    rw [send_of_settle haborted hsettles]
    rfl
  unfold live getPolicy
  rw [hfamilies]

end Waiting

end Retention.Store

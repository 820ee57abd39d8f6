import Retention.Proofs.Reconcile.Entry
import Retention.Proofs.Reconcile.Idle

/-!
# Dry runs

However a dry run goes, it changes nothing but the history: no call changes a family, and the policy
rows and the outbox are as they were. That a transaction is taken back does not matter, since the
ledger that it goes back to has the same rows and events.

Where no fault waits, a dry run says of every record what a run from the same world would do about it:
both compare the families of records that are to be present, and find the same.

## Main definitions

* `Ledger.Pinned`: the policy rows and events that a ledger has, and goes back to.
* `World.Spared`: nothing but the history may be different.
* `Reconciler.Compares`: what a comparison of a record's family with its rules finds.
* `Reconciler.Foretold`: what a dry run says of a record, beside what a run does.

## Main results

* `Reconciler.spared_reconcileAll`: a dry run changes nothing but the history.
* `Reconciler.Came.verdict`: what a record comes to, by what a comparison finds.
* `Reconciler.reconcileAll_dryRun`: what a dry run leaves as it is, and what it says.
-/

namespace Retention

/-- The policy rows and the events of a ledger are given ones, and so are those that an open
transaction goes back to. -/
structure Ledger.Pinned (policies : List PolicyRecord) (outbox : List OutboxEvent)
    (ledger : Ledger) : Prop where
  policies_eq : ledger.tables.policies = policies
  outbox_eq : ledger.tables.outbox = outbox
  savepoint : ∀ saved ∈ ledger.savepoint, saved.policies = policies ∧ saved.outbox = outbox

namespace World

/-! ### What a dry run leaves alone -/

/-- No family has changed, and the ledger is pinned to the same policy rows and events. -/
structure Spared (before after : World) : Prop extends Unmodified before after where
  pinned : ∀ policies outbox,
    before.ledger.Pinned policies outbox → after.ledger.Pinned policies outbox

instance : Std.Refl Spared := ⟨fun world => ⟨Std.Refl.refl world, fun _ _ => id⟩⟩

instance : IsTrans World Spared := ⟨fun _ _ _ h h' =>
  ⟨IsTrans.trans _ _ _ h.toUnmodified h'.toUnmodified,
    fun policies outbox hpinned => h'.pinned policies outbox (h.pinned policies outbox hpinned)⟩⟩

variable {α : Type} {before after : World}

theorem AdminSame.spared (h : AdminSame before after) (hledger : after.ledger = before.ledger) :
    Spared before after :=
  ⟨h.unmodified, fun _ _ hpinned => hledger ▸ hpinned⟩

/-- A statement spares what its effect leaves pinned. -/
theorem spared_execute (channel : Channel) (statement : Statement) {effect : Ledger → α × Ledger}
    (h : ∀ ledger policies outbox, ledger.Pinned policies outbox →
      (effect ledger).2.Pinned policies outbox) :
    (execute channel statement effect).Keeps Spared := by
  refine .intro fun world result after hrun =>
    ⟨((ledgerOnly_execute _ _ _).of_eq hrun).toAdminSame.unmodified,
      fun policies outbox hpinned => ?_⟩
  rcases execute_cases _ _ _ hrun with ⟨_, -, hledger⟩ | ⟨-, hledger⟩
  · rw [hledger]
    exact hpinned
  · rw [hledger]
    exact h _ policies outbox hpinned

theorem spared_createHistory (start : HistoryStart) : (createHistory start).Keeps Spared :=
  spared_execute _ _ fun _ _ _ hpinned =>
    ⟨hpinned.policies_eq, hpinned.outbox_eq, hpinned.savepoint⟩

theorem spared_completeHistory (channel : Channel) (id : Text) (outcome : HistoryEnd) :
    (completeHistory channel id outcome).Keeps Spared :=
  spared_execute _ _ fun _ _ _ hpinned =>
    ⟨hpinned.policies_eq, hpinned.outbox_eq, hpinned.savepoint⟩

/-- A transaction spares what its body spares, also when it is taken back. -/
theorem spared_transaction {body : Step World α} (h : body.Keeps Spared) :
    (session.transaction body).Keeps Spared := by
  refine Session.keeps_transaction (.intro fun world result after hconnect => ?_)
    (spared_execute _ _ fun ledger policies outbox hpinned => ?_) h
    (spared_execute _ _ fun ledger policies outbox hpinned => ?_)
    (spared_execute _ _ fun ledger policies outbox hpinned => ?_) fun world => ?_
  · exact (ledgerOnly_connect.of_eq hconnect).toAdminSame.spared (ledger_connect hconnect)
  · refine ⟨hpinned.policies_eq, hpinned.outbox_eq, fun saved hsaved => ?_⟩
    obtain rfl : ledger.tables = saved := Option.some.inj hsaved
    exact ⟨hpinned.policies_eq, hpinned.outbox_eq⟩
  · exact ⟨hpinned.policies_eq, hpinned.outbox_eq, nofun⟩
  · change ledger.rollback.Pinned policies outbox
    unfold Ledger.rollback
    cases hsaved : ledger.savepoint with
    | none => exact ⟨hpinned.policies_eq, hpinned.outbox_eq, by simp⟩
    | some saved =>
      obtain ⟨hpolicies, houtbox⟩ := hpinned.savepoint saved hsaved
      exact ⟨hpolicies, houtbox, fun other hother => hpinned.savepoint other (hsaved ▸ hother)⟩
  · refine ⟨(ledgerOnly_release world).toAdminSame.unmodified, fun policies outbox hpinned => ?_⟩
    change world.ledger.giveUp.Pinned policies outbox
    unfold Ledger.giveUp
    split
    · exact hpinned
    · exact ⟨hpinned.policies_eq, hpinned.outbox_eq, nofun⟩

end World

namespace Reconciler

open World

variable {reconciler : Reconciler} {record : PolicyRecord} {dryRun drifted : Bool} {entry : Entry}
  {outcome : Except Failure Finding} {world before worked after : World}

/-- In a dry run the parts of reconciling a record change nothing but the history. -/
theorem partsKeep_dryRun (reconciler : Reconciler) (record : PolicyRecord) :
    PartsKeep reconciler record true Spared where
  create := spared_createHistory
  work world := by
    have hwork : (reconciler.work record true).Keeps Unmodified :=
      keeps_work (unmodified_getTable _ _ _) nofun
    have hledger := (adminOnly_work reconciler record true world).ledger_eq
    exact ⟨hwork world, fun _ _ hpinned => hledger ▸ hpinned⟩
  conclude history finding := spared_transaction <|
    have hmoment : moment.Keeps Spared := fun _ => Std.Refl.refl _
    hmoment.bind fun _ => (spared_completeHistory _ _ _).bind fun _ => Step.keeps_pure _
  complete := spared_completeHistory .pool
  count _ _ world := AdminSame.spared (adminSame_of_count rfl).1 (adminSame_of_count rfl).2

/-- **A dry run changes nothing but the history.** -/
theorem spared_reconcileAll (reconciler : Reconciler) :
    (reconciler.reconcileAll true).Keeps Spared := by
  have hfind : findManaged.Keeps Spared := spared_execute _ _ fun _ _ _ => id
  exact hfind.bind fun records =>
    (keeps_reconcileRecords fun record _ => partsKeep_dryRun reconciler record).bind fun _ =>
      Step.keeps_pure _

/-! ### What a comparison finds -/

/-- A comparison of a record's family with its rules finds that it has drifted, or that it has
not. -/
def Compares (reconciler : Reconciler) (world : World) (record : PolicyRecord) (drifted : Bool) :
    Prop :=
  ∃ drift, (reconciler.store.drift (target record) record.rules? reconciler.options world).1 =
    .ok drift ∧ drift.drifted = drifted

/-- Where no fault waits, a comparison finds the same as long as the family is left alone. -/
theorem compares_congr (hfaults : before.Faultless)
    (h : Undisturbed (target record) before after) :
    reconciler.Compares after record drifted ↔ reconciler.Compares before record drifted := by
  have hsame : (reconciler.store.drift (target record) record.rules? reconciler.options before).1 =
      (reconciler.store.drift (target record) record.rules? reconciler.options after).1 :=
    (Store.agrees_drift record.rules? before after
      (h.alike hfaults nofun : Alike true (target record) before after)).1
  rw [Compares, Compares, hsame]

/-- What the work on a record that is to be present comes to, by what a comparison finds. -/
structure Verdict (reconciler : Reconciler) (record : PolicyRecord) (dryRun : Bool)
    (before : World) (action : Option Action) (after : World) : Prop where
  noop_iff : action = some .noop ↔ reconciler.Compares before record false
  drift_iff : dryRun = true → (action = some .drift ↔ reconciler.Compares before record true)
  called_iff : dryRun = false →
    (after.modificationsOf (target record) ≠ before.modificationsOf (target record) ↔
      reconciler.Compares before record true)

/-- The action of a record's history row, by the outcome of its work. -/
def actionOf : Except Failure Finding → Option Action
  | .ok finding => some finding.action
  | .error _ => none

theorem action_entryOf (record : PolicyRecord) (dryRun : Bool) (now : Text) (ledger : Ledger)
    (outcome : Except Failure Finding) :
    (entryOf record dryRun now ledger outcome).row.action = actionOf outcome := by
  cases outcome <;> rfl

/-- Where no call changes a family, none changes the family under a name. -/
theorem modificationsOf_of_unmodified (h : Unmodified before after) (target : FamilyRef) :
    after.modificationsOf target = before.modificationsOf target := by
  have hown (world : World) : world.modificationsOf target =
      world.modifications.filter (AdminCall.isModificationOf target) := by
    rw [modificationsOf, modifications, List.filter_filter]
    refine List.filter_congr fun call _ => ?_
    cases call <;> simp [AdminCall.isModificationOf, AdminCall.isModification]
  rw [hown, hown, h.modifications_eq]

/-- The family of a record that is to be present is set once when it has drifted. -/
theorem work_of_drifted {drift : Drift} {compared : World} (hpresent : record.desired = .present)
    (hdrift : reconciler.store.drift (target record) record.rules? reconciler.options world =
      (.ok drift, compared)) (hdrifted : drift.drifted = true)
    (h : reconciler.work record false world = (outcome, worked)) :
    (∀ finding, outcome = .ok finding → finding.action = .apply) ∧
      worked.calls = compared.calls ++ [.modifyFamilies (target record).table (target record).family
        drift.desired.toMessage (reconciler.store.timeout reconciler.options)] := by
  obtain ⟨hdesired, hlive, -⟩ := Store.drift_eq_ok_iff.mp hdrift
  obtain ⟨text, htext⟩ := (Policy.authored_of_ofText hdesired).exists_text
  have happly : reconciler.store.apply (target record) record.rules? reconciler.options =
      reconciler.store.setPolicy (target record) drift.desired reconciler.options := by
    rw [Store.apply, hdesired]
    rfl
  rw [work, hpresent] at h
  have hset := (converge_of_drifted hdrift htext hdrifted).symm.trans h
  rw [happly] at hset
  constructor
  · rintro finding rfl
    obtain ⟨applied, _, -, hended⟩ := Step.bind_eq_ok_iff.mp hset
    obtain ⟨rules, -, ⟨⟩⟩ := Step.ofExcept_bind_eq_ok_iff.mp hended
    rfl
  · have hworked : worked =
        (reconciler.store.setPolicy (target record) drift.desired reconciler.options compared).2 := by
      rw [← Step.bind_snd (fun applied => ?_) compared]
      · exact (congrArg Prod.snd hset).symm
      · exact (Step.keeps_ofExcept _).bind fun _ => Step.keeps_pure _
    rw [hworked]
    exact Store.calls_setPolicy _ _ (Store.live_eq_ok hlive).1 compared

theorem verdict_of_work (hpresent : record.desired = .present)
    (h : reconciler.work record dryRun world = (outcome, worked)) :
    Verdict reconciler record dryRun world (actionOf outcome) worked := by
  have hconverge : reconciler.work record dryRun = reconciler.converge record dryRun := by
    rw [work, hpresent]
  rcases hdrift : reconciler.store.drift (target record) record.rules? reconciler.options world with
    ⟨result, compared⟩
  have hfinds (drifted : Bool) : reconciler.Compares world record drifted ↔
      ∃ drift, result = .ok drift ∧ drift.drifted = drifted := by
    rw [Compares, hdrift]
  have hcompared : compared.modificationsOf (target record) =
      world.modificationsOf (target record) := modificationsOf_of_unmodified
    ((Store.keeps_drift (unmodified_getTable _ _ _) _).of_eq hdrift) _
  cases result with
  | error cause =>
    obtain ⟨rfl, rfl⟩ := Prod.mk.inj ((hconverge ▸ Step.bind_of_error hdrift _ :
      reconciler.work record dryRun world = (.error cause, compared)).symm.trans h)
    constructor <;> simp [hfinds, actionOf, hcompared]
  | ok drift =>
    obtain ⟨text, htext⟩ :=
      (Policy.authored_of_ofText (Store.drift_eq_ok_iff.mp hdrift).1).exists_text
    cases hdrifted : drift.drifted with
    | false =>
      obtain ⟨rfl, rfl⟩ := Prod.mk.inj
        ((hconverge ▸ converge_of_not_drifted hdrift htext hdrifted).symm.trans h)
      constructor <;> simp [hfinds, actionOf, hcompared, hdrifted]
    | true =>
      cases dryRun with
      | true =>
        obtain ⟨rfl, rfl⟩ := Prod.mk.inj
          ((hconverge ▸ converge_of_drifted hdrift htext hdrifted).symm.trans h)
        constructor <;> simp [hfinds, actionOf, hdrifted]
      | false =>
        obtain ⟨haction, hcalls⟩ := work_of_drifted hpresent hdrift hdrifted h
        have hcalled : worked.modificationsOf (target record) =
            compared.modificationsOf (target record) ++ [.modifyFamilies (target record).table
              (target record).family drift.desired.toMessage
              (reconciler.store.timeout reconciler.options)] := by
          rw [modificationsOf, hcalls, List.filter_append, modificationsOf]
          simp [AdminCall.isModificationOf]
        have hnoop : actionOf outcome ≠ some .noop := by
          rcases outcome with cause | finding
          · simp [actionOf]
          · simp [actionOf, haction finding rfl]
        constructor <;> simp [hfinds, hnoop, hdrifted, hcalled, hcompared]

/-- **What a record that is to be present comes to.** Where no fault waits, its history row says that
there was nothing to do exactly when a comparison in the world that the run starts from finds that its
family has not drifted. When the comparison finds that it has, a dry run says so, and a run makes a
call that changes the family. -/
theorem Came.verdict (hfaults : before.Faultless) (hpresent : record.desired = .present)
    (h : Came reconciler record dryRun before entry after) :
    Verdict reconciler record dryRun before entry.row.action after := by
  cases h with
  | @intro started worked after outcome ledger hbefore hwork hafter =>
    have hverdict := verdict_of_work hpresent hwork
    rw [action_entryOf]
    exact ⟨hverdict.noop_iff.trans (compares_congr hfaults hbefore),
      fun hdry => (hverdict.drift_iff hdry).trans (compares_congr hfaults hbefore),
      fun hwet => by
        rw [hafter.modificationsOf_eq, ← hbefore.modificationsOf_eq]
        exact (hverdict.called_iff hwet).trans (compares_congr hfaults hbefore)⟩

/-- In a dry run a record that is not to be present has drifted. -/
theorem Came.drift_of_absent (habsent : record.desired = .absent)
    (h : Came reconciler record true before entry after) :
    entry.row.action = some .drift ∧ entry.row.status = .success := by
  cases h with
  | intro ledger _ hwork _ =>
    rw [work, habsent] at hwork
    obtain ⟨rfl, -⟩ := Prod.mk.inj hwork
    exact ⟨rfl, rfl⟩

/-! ### Dry runs and runs -/

namespace CameAll

variable {records : List PolicyRecord} {entries : List Entry} {index : Nat} {row : HistoryRow}

/-- There is one new history row for each record. -/
theorem length_addedRows (h : CameAll reconciler dryRun before records entries after) :
    (before.ledger.tables.addedRows after.ledger.tables).length = records.length := by
  rw [h.ledger.addedRows_eq, List.length_map, h.came.length_eq]

/-- The new history row at some place is about the record at that place. -/
theorem exists_of_getElem? (h : CameAll reconciler dryRun before records entries after)
    (hrecord : records[index]? = some record)
    (hrow : (before.ledger.tables.addedRows after.ledger.tables)[index]? = some row) :
    ∃ entry, entry.row = row ∧ Came reconciler record dryRun before entry after := by
  rw [h.ledger.addedRows_eq, List.getElem?_map] at hrow
  obtain ⟨entry, hentry, rfl⟩ := Option.map_eq_some_iff.mp hrow
  obtain ⟨hindex, rfl⟩ := List.getElem?_eq_some_iff.mp hrecord
  obtain ⟨hplace, rfl⟩ := List.getElem?_eq_some_iff.mp hentry
  exact ⟨_, rfl, h.came.get hindex hplace⟩

end CameAll

/-- What the history row of a dry run says of a record, beside the row of a run from the same world
and the calls that the run has made. -/
structure Foretold (before after : World) (record : PolicyRecord) (dry wet : HistoryRow) :
    Prop where
  policy_eq : dry.policy = record.id ∧ wet.policy = record.id
  drift_iff : record.desired = .present → (dry.action = some .drift ↔
    after.modificationsOf (target record) ≠ before.modificationsOf (target record))
  noop_iff : record.desired = .present → (dry.action = some .noop ↔ wet.action = some .noop)
  absent : record.desired = .absent → dry.action = some .drift ∧ dry.status = .success

theorem foretold_of_came {dry wet : Entry} {dryAfter : World} (hfaults : before.Faultless)
    (hdry : Came reconciler record true before dry dryAfter)
    (hwet : Came reconciler record false before wet after) :
    Foretold before after record dry.row wet.row where
  policy_eq := ⟨hdry.isAbout.policy_eq, hwet.isAbout.policy_eq⟩
  drift_iff hpresent := ((hdry.verdict hfaults hpresent).drift_iff rfl).trans
    ((hwet.verdict hfaults hpresent).called_iff rfl).symm
  noop_iff hpresent := (hdry.verdict hfaults hpresent).noop_iff.trans
    (hwet.verdict hfaults hpresent).noop_iff.symm
  absent habsent := hdry.drift_of_absent habsent

/-- **Dry runs.** From a world in which no transaction is open, a dry run changes nothing but the
history, wherever faults strike and however it ends. Where no fault waits and no two managed records
stand for the same family, a dry run and a run from the same world both end with a summary and have
one history row for each managed record, in order. The dry run says that a record that is to be
present has drifted exactly when the run makes a call that changes its family, and that there is
nothing to do exactly when the run says so; a record that is not to be present has always drifted. -/
theorem reconcileAll_dryRun (reconciler : Reconciler) (before : World) :
    (before.ledger.savepoint = none → ∀ result after,
      reconciler.reconcileAll true before = (result, after) → Unmoved before after) ∧
    (before.faults = [] → (before.ledger.managed.map target).Nodup →
      ∃ drySummary dryAfter wetSummary wetAfter,
        reconciler.reconcileAll true before = (.ok drySummary, dryAfter) ∧
        reconciler.reconcileAll false before = (.ok wetSummary, wetAfter) ∧
        (before.ledger.tables.addedRows dryAfter.ledger.tables).length =
          before.ledger.managed.length ∧
        (before.ledger.tables.addedRows wetAfter.ledger.tables).length =
          before.ledger.managed.length ∧
        ∀ (index : Nat) record dry wet, before.ledger.managed[index]? = some record →
          (before.ledger.tables.addedRows dryAfter.ledger.tables)[index]? = some dry →
          (before.ledger.tables.addedRows wetAfter.ledger.tables)[index]? = some wet →
          Foretold before wetAfter record dry wet) := by
  constructor
  · intro hsavepoint result after hrun
    have hspared : Spared before after := (spared_reconcileAll reconciler).of_eq hrun
    obtain ⟨hpolicies, houtbox, -⟩ := hspared.pinned _ _ ⟨rfl, rfl, by simp [hsavepoint]⟩
    exact ⟨hspared.toUnmodified, hpolicies, houtbox⟩
  · intro hfaults hfamilies
    obtain ⟨-, _, drySummary, dryAfter, -, -, hdryRun, hdry⟩ :=
      exists_cameAll reconciler true hfaults hfamilies
    obtain ⟨-, _, wetSummary, wetAfter, -, -, hwetRun, hwet⟩ :=
      exists_cameAll reconciler false hfaults hfamilies
    refine ⟨drySummary, dryAfter, wetSummary, wetAfter, hdryRun, hwetRun, hdry.length_addedRows,
      hwet.length_addedRows, fun index record dry wet hrecord hdryRow hwetRow => ?_⟩
    obtain ⟨_, rfl, hdryCame⟩ := hdry.exists_of_getElem? hrecord hdryRow
    obtain ⟨_, rfl, hwetCame⟩ := hwet.exists_of_getElem? hrecord hwetRow
    exact foretold_of_came hfaults hdryCame hwetCame

/-- A dry run whose transaction cannot be committed changes nothing but the history; and of a record
that is not to be present, after one whose family has two versions, a dry run says that it has
drifted. -/
theorem reconcileAll_dryRun_two : ∃ faulty before absent result faultyAfter,
    faulty = worldWith [("f", twoVersions)] [aged] [⟨.commit, 0, .plain "lost" none⟩] ∧
      patient.reconcileAll true faulty = (result, faultyAfter) ∧ Unmoved faulty faultyAfter ∧
      absent = recordOf "policy-2" "g" .null .default .absent ∧
      before = worldWith [("f", twoVersions), ("g", twoVersions)] [aged, absent] [] ∧
      ∃ summary after first second wet, patient.reconcileAll true before = (.ok summary, after) ∧
        before.ledger.tables.addedRows after.ledger.tables = [first, second] ∧
        second.action = some .drift ∧
        (first.action = some .drift ↔
          (patient.reconcileAll false before).2.modificationsOf (target aged) ≠
            before.modificationsOf (target aged)) ∧
        Foretold before (patient.reconcileAll false before).2 aged first wet := by
  obtain ⟨absent, habsent⟩ : ∃ record, record = recordOf "policy-2" "g" .null .default .absent :=
    ⟨_, rfl⟩
  obtain ⟨before, hbefore⟩ : ∃ before, before =
    worldWith [("f", twoVersions), ("g", twoVersions)] [aged, absent] [] := ⟨_, rfl⟩
  have hmanaged : before.ledger.managed = [aged, absent] := by
    subst hbefore habsent
    exact managed_worldWith _ _ (by simp; exact ⟨rfl, rfl⟩) (by simp; rfl)
  have hfaults : before.faults = [] := by
    rw [hbefore]
    rfl
  have hfamilies : (before.ledger.managed.map target).Nodup := by
    rw [hmanaged]
    subst habsent
    decide
  obtain ⟨summary, after, wetSummary, wetAfter, hdry, hwet, hdryLength, hwetLength, hforetold⟩ :=
    (reconcileAll_dryRun patient before).2 hfaults hfamilies
  rw [hmanaged] at hforetold hdryLength hwetLength
  obtain ⟨first, second, hrows⟩ := List.length_eq_two.mp hdryLength
  obtain ⟨wet, other, hwetRows⟩ := List.length_eq_two.mp hwetLength
  rw [hrows, hwetRows] at hforetold
  have hfirst := hforetold 0 aged first wet rfl rfl rfl
  have hsecond := hforetold 1 absent second other rfl rfl rfl
  have hunmoved := (reconcileAll_dryRun patient
    (worldWith [("f", twoVersions)] [aged] [⟨.commit, 0, .plain "lost" none⟩])).1 rfl _ _ rfl
  refine ⟨_, before, absent, _, _, rfl, rfl, hunmoved, habsent, hbefore, summary, after, first,
    second, wet, hdry, hrows, (hsecond.absent (by rw [habsent]; rfl)).1, ?_, ?_⟩
  · rw [hwet]
    exact hfirst.drift_iff rfl
  · rw [hwet]
    exact hfirst

end Reconciler

end Retention

import Retention.Proofs.Reconcile.Convergence
import Retention.Proofs.Reconcile.Outbox

/-!
# Runs in a row

A family is set before its record's transaction, so a run may set a family and then fail to announce
it. What a later run does about that is up to the record. One that is not to be present is released
again, and announced then. One that is to be present is compared with its family first: the family
is in sync already, so the record succeeds and nothing is announced.

When nothing but runs touches a world, and the last of them has no failures, every change is
therefore announced, with this one exception.

## Main definitions

* `Reconciler.afterRuns`: the world after some runs.
* `Reconciler.Called`: in its turn the call that sets a record's family has passed.

## Main results

* `Reconciler.announced_or_inSync_of_success`: what a record that succeeded has announced.
* `Reconciler.announced_or_inSync`: what a run without failures has announced.
* `Reconciler.afterRuns_announce`: a change is announced, or the last run finds it in sync.
* `Reconciler.not_announced_of_retry`: a change that is never announced.
-/

namespace Retention

/-- A call that sets the policy of a family passes. -/
def Store.Sets (store : Store) (target : FamilyRef) (policy : Policy) (options : CallOptions)
    (world : World) : Prop :=
  target.check = .ok () ∧ ∃ shown after,
    send options
      (.modifyFamilies target.table target.family policy.toMessage (store.timeout options))
      (World.modifyFamily target.table target.family policy.toMessage) world = (.ok shown, after)

namespace Reconciler

open World

variable {reconciler : Reconciler} {record : PolicyRecord} {before after reached next : World}

/-- The world after some runs in a row. -/
def afterRuns (reconciler : Reconciler) (world : World) : Nat → World
  | 0 => world
  | count + 1 => (reconciler.reconcileAll false (reconciler.afterRuns world count)).2

/-- After one more run. -/
theorem reconcileAll_afterRuns (reconciler : Reconciler) (world : World) (count : Nat) :
    reconciler.reconcileAll false (reconciler.afterRuns world count) =
      ((reconciler.reconcileAll false (reconciler.afterRuns world count)).1,
        reconciler.afterRuns world (count + 1)) := rfl

/-- A run has come to a record, and the call that sets the record's family has passed: the family is
given the policy of its rules because it has drifted, or it is reset. -/
inductive Called (reconciler : Reconciler) (record : PolicyRecord) (reached : World) : Prop
  | applied {history : Text} {started compared : World} {drift : Drift} {expected : Option Json}
      (hpresent : record.desired = .present)
      (hcreate : createHistory (start record false reached.now) reached = (.ok history, started))
      (hdrift : reconciler.store.drift (target record) record.rules? reconciler.options started =
        (.ok drift, compared)) (hexpected : drift.desired.text = .ok expected)
      (hdrifted : drift.drifted = true)
      (hsets : reconciler.store.Sets (target record) drift.desired reconciler.options compared) :
      Called reconciler record reached
  | released {history : Text} {started : World} (habsent : record.desired = .absent)
      (hmode : record.deletionMode = .default)
      (hcreate : createHistory (start record false reached.now) reached = (.ok history, started))
      (hsets : reconciler.store.Sets (target record) .noGc reconciler.options started) :
      Called reconciler record reached

/-- The kind of event that announces what becomes of a record. -/
def announcing (record : PolicyRecord) : EventKind :=
  match record.desired with
  | .present => .applied
  | .absent => .released

/-- Between two ledgers an event has gone out about a record. -/
def EventSince (record : PolicyRecord) (before after : Ledger) : Prop :=
  ∃ event ∈ after.tables.outbox.drop before.tables.outbox.length,
    event.policy = record.id ∧ event.kind = announcing record

namespace EventSince

variable {first second third : Ledger} {rows : List HistoryRow} {event : OutboxEvent}

theorem of_adds (h : Ledger.Adds record.id first second rows [event])
    (hkind : event.kind = announcing record) : EventSince record first second := by
  have hmem : event ∈ first.tables.newEvents second.tables record.id := by
    rw [h.newEvents_eq]
    exact List.mem_singleton_self event
  obtain ⟨hdrop, hpolicy⟩ := List.mem_filter.mp hmem
  exact ⟨event, hdrop, by simpa using hpolicy, hkind⟩

/-- Events stay in the outbox. -/
theorem later (h : EventSince record first second)
    (hgrows : second.tables.outbox <+: third.tables.outbox) : EventSince record first third := by
  obtain ⟨event, hevent, hannounces⟩ := h
  obtain ⟨more, hmore⟩ := hgrows
  refine ⟨event, ?_, hannounces⟩
  rw [← hmore, List.drop_append]
  exact List.mem_append_left _ hevent

/-- What goes out after a ledger goes out after an earlier one. -/
theorem earlier (h : EventSince record second third)
    (hgrows : first.tables.outbox <+: second.tables.outbox) : EventSince record first third := by
  obtain ⟨event, hevent, hannounces⟩ := h
  exact ⟨event, List.drop_subset_drop_left _ hgrows.length_le hevent, hannounces⟩

end EventSince

/-! ### One record -/

/-- What announces a record says what was done about its family. -/
theorem Worked.kind_event {finding : Finding} {world worked : World} (now : Text)
    (h : Worked reconciler record false world finding worked) (haction : finding.action ≠ .noop) :
    (event record finding now).kind = announcing record := by
  cases h with
  | noop => exact absurd rfl haction
  | applied hpresent =>
    rw [announcing, hpresent]
    rfl
  | released habsent =>
    have hne : releaseAction record.deletionMode ≠ .apply := by
      cases record.deletionMode <;> decide
    rw [announcing, habsent]
    exact if_neg hne
  | drifted _ hdryRun | pending _ hdryRun => cases hdryRun

/-- A record that succeeds is announced, or it is to be present and its family was in sync. -/
theorem announced_or_inSync_of_success
    (h : reconciler.reconcileRecord record false reached = (.ok true, next)) :
    EventSince record reached.ledger next.ledger ∨
      record.desired = .present ∧ ¬Called reconciler record reached ∧
        ∃ row, Ledger.Adds record.id reached.ledger next.ledger [row] [] ∧
          row.status = .success ∧ row.action = some .noop := by
  obtain ⟨history, started, worked, finding, hcreate, hwork, -, hledger⟩ :=
    reconcileRecord_eq_true h
  have hworked := worked_of_work hwork
  have hadds := adds_of_concluded hcreate hledger record.id
  by_cases hnoop : finding.action = .noop
  · rw [if_pos rfl, if_neg fun hdone => by simp [hnoop] at hdone] at hadds
    cases hworked with
    | noop hpresent hdrift _ hdrifted =>
      refine Or.inr ⟨hpresent, ?_, _, hadds, rfl, rfl⟩
      rintro (⟨-, hcreate', hdrift', -, hdrifted', -⟩ | ⟨habsent, -, -, -⟩)
      · -- The comparison is made once, so it cannot have found both.
        obtain ⟨-, rfl⟩ := Prod.mk.inj (hcreate.symm.trans hcreate')
        obtain ⟨hsame, -⟩ := Prod.mk.inj (hdrift.symm.trans hdrift')
        rw [Except.ok.inj hsame] at hdrifted
        cases hdrifted.symm.trans hdrifted'
      · cases habsent.symm.trans hpresent
    | released =>
      have hne : releaseAction record.deletionMode ≠ .noop := by
        cases record.deletionMode <;> decide
      exact absurd hnoop hne
    | applied => cases hnoop
    | drifted _ hdryRun | pending _ hdryRun => cases hdryRun
  · rw [if_pos rfl, if_pos ⟨by simpa using hnoop, rfl⟩] at hadds
    exact Or.inl (.of_adds hadds (hworked.kind_event _ hnoop))

/-- Whatever becomes of a record in its turn, it is announced or its row is as it was. -/
theorem announced_or_kept_of_turn {outcome : Except Failure Bool} (hrest : reached.AtRest)
    (h : reconciler.reconcileRecord record false reached = (outcome, next)) :
    EventSince record reached.ledger next.ledger ∨
      next.ledger.tables.rowsOf record.id = reached.ledger.tables.rowsOf record.id := by
  obtain ⟨hpolicies, -⟩ | ⟨history, started, worked, finding, row, -, hworked, -, hnoop, -, -, -,
    hadds⟩ := (course_of_reconcileRecord hrest h).ledger_cases
  · refine Or.inr ?_
    rw [LedgerTables.rowsOf, hpolicies]
    rfl
  · have hadded := hadds record.id
    rw [if_pos rfl, if_pos rfl] at hadded
    exact Or.inl (.of_adds hadded (hworked.kind_event _ hnoop))

/-! ### One run -/

section Run

variable {result : Except Failure Summary} (hrest : before.AtRest)
  (hids : (before.ledger.tables.policies.map PolicyRecord.id).Nodup)
  (h : reconciler.reconcileAll false before = (result, after))

/-- Ids are given out once and never changed. -/
theorem ids_of_reconcileRecords {records : List PolicyRecord} {outcome : Except Failure Nat}
    (hrest : before.AtRest)
    (h : reconciler.reconcileRecords false records before = (outcome, after)) :
    after.ledger.tables.policies.map PolicyRecord.id =
      before.ledger.tables.policies.map PolicyRecord.id := by
  induction records generalizing before outcome with
  | nil =>
    obtain ⟨-, rfl⟩ := Prod.mk.inj h
    rfl
  | cons record records ih =>
    obtain ⟨_, next, hrecord, hnext⟩ := reconcileRecords_cons h
    have hcourse := course_of_reconcileRecord hrest hrecord
    have hids : next.ledger.tables.policies.map PolicyRecord.id =
        before.ledger.tables.policies.map PolicyRecord.id := by
      obtain ⟨hpolicies, -⟩ | ⟨_, _, _, finding, _, -, -, -, -, -, -, hpolicies, -⟩ :=
        hcourse.ledger_cases
      · rw [hpolicies]
      · rw [hpolicies, List.map_map]
        refine List.map_congr_left fun other _ => ?_
        rw [Function.comp_apply]
        split
        · exact id_marked _ _
        · rfl
    rcases hnext with ⟨_, -, -, rfl⟩ | ⟨_, others, -, hothers, -⟩
    · exact hids
    · exact (ih (hcourse.atRest hrest) hothers).trans hids

include hrest h

theorem ids_of_reconcileAll : after.ledger.tables.policies.map PolicyRecord.id =
    before.ledger.tables.policies.map PolicyRecord.id := by
  obtain ⟨_, -, -, hledger⟩ | ⟨found, _, -, honly, hledger, hrun, -⟩ := reconcileAll_cases h
  · rw [hledger]
  · rw [ids_of_reconcileRecords (hrest.mono (by rw [hledger, hrest.savepoint_eq])
      (by rw [hledger]) honly.faults_sublist) hrun, hledger]

include hids

/-- A run announces a managed record, or the record is managed still. -/
theorem announced_or_managed (hrecord : record ∈ before.ledger.managed) :
    EventSince record before.ledger after.ledger ∨ record ∈ after.ledger.managed := by
  obtain ⟨-, hapart⟩ | ⟨reached, hturn⟩ := exists_turn hrest hids h hrecord
  · exact Or.inr (Ledger.mem_managed_of_rowsOf hrecord hapart.2)
  · obtain ⟨outcome, next, hnext, hreached, hbefore, hafter, -⟩ := hturn.course hrest hids h
    rcases announced_or_kept_of_turn hreached hnext with hevent | hrows
    · exact Or.inl ((hevent.earlier hbefore.1.outbox_grows).later hafter.1.outbox_grows)
    · exact Or.inr (Ledger.mem_managed_of_rowsOf hrecord
        (hafter.2.trans (hrows.trans hbefore.2)))

end Run

/-- A run without failures announces a managed record, or the record is to be present and the run
found its family in sync. -/
theorem announced_or_inSync {processed : Nat} (hrest : before.AtRest)
    (hids : (before.ledger.tables.policies.map PolicyRecord.id).Nodup)
    (h : reconciler.reconcileAll false before = (.ok ⟨processed, 0⟩, after))
    (hrecord : record ∈ before.ledger.managed) :
    EventSince record before.ledger after.ledger ∨ record.desired = .present ∧
      ∃ row, before.ledger.tables.newRows after.ledger.tables record.id = [row] ∧
        row.status = .success ∧ row.action = some .noop := by
  obtain ⟨⟨_, ⟨⟩⟩, -⟩ | ⟨reached, hturn⟩ := exists_turn hrest hids h hrecord
  obtain ⟨outcome, next, hnext, -, hbefore, hafter, hzero⟩ := hturn.course hrest hids h
  rw [hzero processed rfl] at hnext
  obtain hevent | ⟨hpresent, -, row, hadds, hstatus, haction⟩ :=
    announced_or_inSync_of_success hnext
  · exact Or.inl ((hevent.earlier hbefore.1.outbox_grows).later hafter.1.outbox_grows)
  · exact Or.inr ⟨hpresent, row, ((hbefore.1.trans hadds).trans hafter.1).newRows_eq, hstatus,
      haction⟩

/-! ### Runs in a row -/

section Runs

variable (hrest : before.AtRest)
  (hids : (before.ledger.tables.policies.map PolicyRecord.id).Nodup)

include hrest hids

/-- After any number of runs the world is at rest, and ids tell the records apart. -/
theorem atRest_of_afterRuns (reconciler : Reconciler) (count : Nat) :
    (reconciler.afterRuns before count).AtRest ∧
    ((reconciler.afterRuns before count).ledger.tables.policies.map PolicyRecord.id).Nodup := by
  induction count with
  | zero => exact ⟨hrest, hids⟩
  | succ count ih =>
    have hrun := reconcileAll_afterRuns reconciler before count
    exact ⟨atRest_of_reconcileAll ih.1 hrun, (ids_of_reconcileAll ih.1 hrun).symm ▸ ih.2⟩

/-- Runs only add events. -/
theorem outbox_grows_of_afterRuns {earlier later : Nat} (hle : earlier ≤ later) :
    (reconciler.afterRuns before earlier).ledger.tables.outbox <+:
      (reconciler.afterRuns before later).ledger.tables.outbox := by
  induction hle with
  | refl => exact List.prefix_refl _
  | step _ ih =>
    exact ih.trans (outbox_grows_of_reconcileAll (atRest_of_afterRuns hrest hids _ _).1 rfl)

/-- Runs announce a managed record, or the record is managed still. -/
theorem announced_or_managed_of_afterRuns {earlier later : Nat} (hle : earlier ≤ later)
    (hrecord : record ∈ (reconciler.afterRuns before earlier).ledger.managed) :
    EventSince record (reconciler.afterRuns before earlier).ledger
        (reconciler.afterRuns before later).ledger ∨
      record ∈ (reconciler.afterRuns before later).ledger.managed := by
  induction hle with
  | refl => exact Or.inr hrecord
  | @step later hle ih =>
    obtain ⟨hatRest, hnodup⟩ := atRest_of_afterRuns hrest hids reconciler later
    have hrun := reconcileAll_afterRuns reconciler before later
    rcases ih with hevent | hmanaged
    · exact Or.inl (hevent.later (outbox_grows_of_reconcileAll hatRest hrun))
    · refine (announced_or_managed hatRest hnodup hrun hmanaged).imp_left fun hevent => ?_
      exact hevent.earlier (outbox_grows_of_afterRuns hrest hids hle)

end Runs

/-- **Changes are announced.** Let nothing but runs touch a world at rest whose records are told
apart by their ids, and let the last run have no failures. When the call that sets a record's family
has passed in some run, an event about the record goes out at that call or later, with one
exception: the record is to be present, it failed in the run that made the call, and the last run
found its family in sync, so that nothing was done about it then. -/
theorem afterRuns_announce {count run processed : Nat} {last : World} (hrest : before.AtRest)
    (hids : (before.ledger.tables.policies.map PolicyRecord.id).Nodup) (hrun : run ≤ count)
    (hlast : reconciler.reconcileAll false (reconciler.afterRuns before count) =
      (.ok ⟨processed, 0⟩, last))
    (hturn : Turn reconciler false (reconciler.afterRuns before run) record reached)
    (hcalled : Called reconciler record reached) :
    EventSince record reached.ledger last.ledger ∨
      record.desired = .present ∧ run < count ∧
        (∀ next, reconciler.reconcileRecord record false reached ≠ (.ok true, next)) ∧
        ∃ row, (reconciler.afterRuns before count).ledger.tables.newRows last.ledger.tables
          record.id = [row] ∧ row.status = .success ∧ row.action = some .noop := by
  obtain ⟨hatRest, hnodup⟩ := atRest_of_afterRuns hrest hids reconciler run
  obtain ⟨hlastRest, hlastNodup⟩ := atRest_of_afterRuns hrest hids reconciler count
  have hstep := reconcileAll_afterRuns reconciler before run
  obtain rfl : reconciler.afterRuns before (count + 1) = last := congrArg Prod.snd hlast
  obtain ⟨outcome, next, hnext, hreached, hbefore, hafter, hzero⟩ :=
    hturn.course hatRest hnodup hstep
  have hlater : next.ledger.tables.outbox <+:
      (reconciler.afterRuns before (count + 1)).ledger.tables.outbox :=
    hafter.1.outbox_grows.trans (outbox_grows_of_afterRuns hrest hids (Nat.succ_le_succ hrun))
  by_cases hsuccess : outcome = .ok true
  · rw [hsuccess] at hnext
    obtain hevent | ⟨-, hnot, -⟩ := announced_or_inSync_of_success hnext
    · exact Or.inl (hevent.later hlater)
    · exact absurd hcalled hnot
  obtain hevent | hrows := announced_or_kept_of_turn hreached hnext
  · exact Or.inl (hevent.later hlater)
  -- The record has failed, so a later run takes it up as it is.
  have hlt : run < count := by
    refine Nat.lt_of_le_of_ne hrun fun heq => hsuccess (hzero processed ?_)
    rw [heq, hlast]
  have hearlier := (course_of_reconcileRecord hreached hnext).outbox_grows.trans
    hafter.1.outbox_grows
  have hmanaged : record ∈ (reconciler.afterRuns before run).ledger.managed := by
    obtain ⟨front, rest, _, _, hfind, -⟩ := hturn
    obtain ⟨-, -, ⟨_, ⟨⟩⟩ | hrecords⟩ := ask_cases hfind
    rw [← Except.ok.inj hrecords]
    exact List.mem_append_right _ List.mem_cons_self
  obtain hevent | hmanaged := announced_or_managed_of_afterRuns hrest hids hlt
    (Ledger.mem_managed_of_rowsOf hmanaged (hafter.2.trans (hrows.trans hbefore.2)))
  · exact Or.inl ((hevent.earlier hearlier).later
      (outbox_grows_of_afterRuns hrest hids (Nat.le_succ count)))
  obtain hevent | ⟨hpresent, hrow⟩ := announced_or_inSync hlastRest hlastNodup hlast hmanaged
  · exact Or.inl (hevent.earlier (hearlier.trans (outbox_grows_of_afterRuns hrest hids hlt)))
  · refine Or.inr ⟨hpresent, hlt, fun _ hother => hsuccess ?_, hrow⟩
    exact (Prod.mk.inj (hnext.symm.trans hother)).1

/-- A run over one record where no fault waits. -/
theorem reconcileAll_single {world last : World} (hmanaged : record.isManaged = true)
    (hpolicies : world.ledger.tables.policies = [record]) (hnone : world.faults = [])
    (hrun : patient.reconcileRecord record false
      { world with traffic := world.traffic ++ [.statement .pool .findManaged] } =
        (.ok true, last)) :
    patient.reconcileAll false world = (.ok ⟨1, 0⟩, last) := by
  have hall : world.ledger.managed = [record] := by
    rw [Ledger.managed, hpolicies, List.filter_cons_of_pos hmanaged, List.filter_nil,
      List.mergeSort_singleton]
  have hfind : findManaged world = (.ok [record], { world with
      traffic := world.traffic ++ [.statement .pool .findManaged] }) := by
    rw [← hall]
    exact ask_of_notMem .findManaged Ledger.managed (by simp [hnone])
  exact reconcileAll_of_ok hfind (reconcileRecords_cons_of_ok hrun rfl)

/-- Two runs over one record, of which the first fails. -/
theorem reconcileAll_twice {families : List (Text × Json)} {faults : List Fault} {last : World}
    (hmanaged : record.isManaged = true) (hfaults : .findManaged ∉ faults.map Fault.point)
    (hfirst : patient.reconcileRecord record false (foundIn families [record] faults) =
      (.ok false, next))
    (hpolicies : next.ledger.tables.policies = [record]) (hnone : next.faults = [])
    (hsecond : patient.reconcileRecord record false
      { next with traffic := next.traffic ++ [.statement .pool .findManaged] } = (.ok true, last)) :
    Turn patient false (worldWith families [record] faults) record
        (foundIn families [record] faults) ∧
      patient.reconcileAll false (patient.afterRuns (worldWith families [record] faults) 1) =
        (.ok ⟨1, 0⟩, last) := by
  have hall : ∀ other ∈ [record], other.isManaged = true := by simpa using hmanaged
  obtain ⟨-, hrun⟩ := reconcileAll_worldWith [record] hall (List.pairwise_singleton _ _) hfaults
    (reconcileRecords_cons_of_ok hfirst rfl)
  have hfound : findManaged (worldWith families [record] faults) =
      (.ok ([] ++ record :: []), foundIn families [record] faults) :=
    findManaged_worldWith families hall (List.pairwise_singleton _ _) hfaults
  have hnext : patient.afterRuns (worldWith families [record] faults) 1 = next :=
    congrArg Prod.snd hrun
  refine ⟨⟨[], [], 0, _, hfound, rfl⟩, ?_⟩
  rw [hnext]
  exact reconcileAll_single hmanaged hpolicies hnone hsecond

/-- A closing statement that fails. -/
def lostCommit : Fault := ⟨.commit, 0, .plain "lost" none⟩

/-- A record that is released, though its first transaction fails: the second run announces it. -/
theorem afterRuns_announce_released : ∃ before absent reached last,
    absent = recordOf "policy-2" "g" .null .default .absent ∧
      before = worldWith [("g", twoVersions)] [absent] [lostCommit] ∧
      Turn patient false before absent reached ∧ Called patient absent reached ∧
      patient.reconcileAll false (patient.afterRuns before 1) = (.ok ⟨1, 0⟩, last) ∧
      EventSince absent reached.ledger last.ledger := by
  obtain ⟨absent, habsent⟩ : ∃ record, record = recordOf "policy-2" "g" .null .default .absent :=
    ⟨_, rfl⟩
  obtain ⟨next, last, hfirst, hpolicies, hnone, hsecond⟩ : ∃ next last,
      patient.reconcileRecord absent false (foundIn [("g", twoVersions)] [absent] [lostCommit]) =
        (.ok false, next) ∧ next.ledger.tables.policies = [absent] ∧ next.faults = [] ∧
      patient.reconcileRecord absent false { next with
        traffic := next.traffic ++ [.statement .pool .findManaged] } = (.ok true, last) := by
    subst habsent
    exact ⟨_, _, rfl, rfl, rfl, rfl⟩
  obtain ⟨hturn, hlast⟩ := reconcileAll_twice (by rw [habsent]; rfl) (by decide) hfirst hpolicies
    hnone hsecond
  have hcalled : Called patient absent (foundIn [("g", twoVersions)] [absent] [lostCommit]) := by
    subst habsent
    exact .released rfl rfl rfl ⟨rfl, _, _, rfl⟩
  have hrest : (worldWith [("g", twoVersions)] [absent] [lostCommit]).AtRest :=
    ⟨rfl, rfl, by simp [worldWith, lostCommit]⟩
  obtain hevent | ⟨hpresent, -⟩ := afterRuns_announce hrest
    (by simp [worldWith]) (Nat.zero_le 1) hlast hturn hcalled
  · exact ⟨_, absent, _, last, habsent, rfl, hturn, hcalled, hlast, hevent⟩
  · subst habsent
    cases hpresent

/-- A change that is never announced: the family of a record that is to be present is set, its
transaction fails, and the next run finds the family in sync. -/
theorem not_announced_of_retry : ∃ reached last,
    Turn patient false (worldWith [("f", twoVersions)] [aged] [lostCommit]) aged reached ∧
      Called patient aged reached ∧
      patient.reconcileAll false
        (patient.afterRuns (worldWith [("f", twoVersions)] [aged] [lostCommit]) 1) =
          (.ok ⟨1, 0⟩, last) ∧
      ¬EventSince aged reached.ledger last.ledger := by
  obtain ⟨next, last, hfirst, hpolicies, hnone, hsecond, houtbox⟩ : ∃ next last,
      patient.reconcileRecord aged false (foundIn [("f", twoVersions)] [aged] [lostCommit]) =
        (.ok false, next) ∧ next.ledger.tables.policies = [aged] ∧ next.faults = [] ∧
      patient.reconcileRecord aged false { next with
        traffic := next.traffic ++ [.statement .pool .findManaged] } = (.ok true, last) ∧
      last.ledger.tables.outbox = [] := ⟨_, _, rfl, rfl, rfl, rfl, rfl⟩
  obtain ⟨hturn, hlast⟩ := reconcileAll_twice rfl (by decide) hfirst hpolicies hnone hsecond
  refine ⟨_, last, hturn, .applied rfl rfl rfl rfl rfl ⟨rfl, _, _, rfl⟩, hlast, ?_⟩
  rintro ⟨event, hevent, -⟩
  rw [houtbox, List.drop_nil] at hevent
  cases hevent

end Reconciler

end Retention

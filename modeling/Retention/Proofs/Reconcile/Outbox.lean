import Retention.Proofs.Ledger
import Retention.Proofs.Reconcile.Run

/-!
# History, records and outbox move together

The statements that end a record's work are one transaction, so a record's history row says that
something was done exactly when the record is marked and an event says so too. Between two ledgers
of a run a record has therefore been announced, with all three, or its policy row and the outbox do
not show that it was taken up at all. This holds wherever faults strike, as long as a transaction
can be taken back, and however the run ends.

## Main definitions

* `Reconciler.SetInRun`: the policy that a family was left with when a run set it.
* `Reconciler.Announced`: what was done about a record shows in all three tables.
* `Reconciler.Untouched`: nothing about a record shows in the records and the outbox.

## Main results

* `Reconciler.Course.ledger_cases`: what one record adds to the ledger and changes in it.
* `Reconciler.exists_turn`, `Reconciler.Turn.course`: a run comes to its records one by one.
* `Reconciler.announced_or_untouched`: a run leaves every record announced or untouched.
* `Reconciler.reconcileAll_announced_xor_untouched`: exactly one of the two, and never the first in
  a dry run.
-/

namespace Retention.Reconciler

open World

variable {reconciler : Reconciler} {record : PolicyRecord} {dryRun : Bool} {before after : World}

/-! ### What one record does -/

section Created

variable {history : Text} {started : World}
  (hcreate : createHistory (start record dryRun before.now) before = (.ok history, started))

include hcreate

/-- A record's history row is added and left as it is. -/
theorem extends_of_created (hledger : after.ledger = started.ledger) :
    Ledger.Extends before.ledger after.ledger
      [before.ledger.startedRow (start record dryRun before.now)] [] := by
  rcases createHistory_cases hcreate with ⟨-, ⟨_, ⟨⟩, -⟩ | ⟨-, hstarted⟩⟩
  rw [hstarted] at hledger
  have hcount : after.ledger.historyCount = before.ledger.historyCount + 1 := by
    rw [hledger]
    rfl
  have houtbox : after.ledger.tables.outbox = before.ledger.tables.outbox ++ [] := by
    rw [hledger, List.append_nil]
    rfl
  exact Ledger.extends_started hcount houtbox (congrArg (·.tables.history) hledger)

theorem adds_of_created (hledger : after.ledger = started.ledger) (id : Text) :
    Ledger.Adds id before.ledger after.ledger (if record.id = id then
      [before.ledger.startedRow (start record dryRun before.now)] else []) [] :=
  (extends_of_created hcreate hledger).adds_one id

/-- A record's history row is added and ended, and events go out. -/
theorem extends_of_ended {outcome : HistoryEnd} {events : List OutboxEvent}
    (hcount : after.ledger.historyCount = started.ledger.historyCount)
    (hhistory : after.ledger.tables.history =
      (started.ledger.completeHistory history outcome).tables.history)
    (houtbox : after.ledger.tables.outbox = started.ledger.tables.outbox ++ events) :
    Ledger.Extends before.ledger after.ledger [Ledger.endedRow outcome
      (before.ledger.startedRow (start record dryRun before.now))] events := by
  rcases createHistory_cases hcreate with ⟨-, ⟨_, ⟨⟩, -⟩ | ⟨hid, hstarted⟩⟩
  rw [hstarted] at hcount hhistory houtbox
  rw [Except.ok.inj hid] at hhistory
  exact Ledger.extends_ended hcount houtbox hhistory

theorem adds_of_ended {outcome : HistoryEnd} {events : List OutboxEvent}
    (hcount : after.ledger.historyCount = started.ledger.historyCount)
    (hhistory : after.ledger.tables.history =
      (started.ledger.completeHistory history outcome).tables.history)
    (houtbox : after.ledger.tables.outbox = started.ledger.tables.outbox ++ events) (id : Text) :
    Ledger.Adds id before.ledger after.ledger (if record.id = id then [Ledger.endedRow outcome
      (before.ledger.startedRow (start record dryRun before.now))] else [])
      (events.filter fun event => event.policy = id) :=
  (extends_of_ended hcreate hcount hhistory houtbox).adds_one id

/-- A record's history row is added and has succeeded; an event goes out unless nothing was done. -/
theorem extends_of_concluded {finding : Finding}
    (hledger : after.ledger = { concluded record history dryRun finding before.now started.ledger with
      savepoint := none }) :
    Ledger.Extends before.ledger after.ledger
      [Ledger.endedRow (success finding before.now)
        (before.ledger.startedRow (start record dryRun before.now))]
      (if dryRun || finding.action = .noop then [] else [event record finding before.now]) := by
  have hcount : after.ledger.historyCount = started.ledger.historyCount := by
    rw [hledger, concluded_eq]
  split
  · next hquiet =>
    rw [concluded_of_quiet hquiet] at hledger
    have houtbox : after.ledger.tables.outbox = started.ledger.tables.outbox ++ [] := by
      rw [hledger, List.append_nil]
      rfl
    exact extends_of_ended hcreate hcount (congrArg (·.tables.history) hledger) houtbox
  · next hloud =>
    rw [concluded_of_not_quiet hloud] at hledger
    have houtbox : after.ledger.tables.outbox =
        started.ledger.tables.outbox ++ [event record finding before.now] := by
      rw [hledger]
      rfl
    exact extends_of_ended hcreate hcount (congrArg (·.tables.history) hledger) houtbox

theorem adds_of_concluded {finding : Finding}
    (hledger : after.ledger = { concluded record history dryRun finding before.now started.ledger with
      savepoint := none }) (id : Text) :
    Ledger.Adds id before.ledger after.ledger
      (if record.id = id then [Ledger.endedRow (success finding before.now)
        (before.ledger.startedRow (start record dryRun before.now))] else [])
      (if (dryRun || finding.action = .noop) = false ∧ record.id = id then
        [event record finding before.now] else []) := by
  have hadds := (extends_of_concluded hcreate hledger).adds_one id
  have hevents : (if dryRun || finding.action = .noop then [] else
      [event record finding before.now]).filter (fun event => event.policy = id) =
        if (dryRun || finding.action = .noop) = false ∧ record.id = id then
          [event record finding before.now] else [] := by
    by_cases hquiet : (dryRun || finding.action = .noop) = true
    · simp [hquiet]
    · by_cases hown : record.id = id <;> simp [event, hown, hquiet]
  rw [hevents] at hadds
  exact hadds

/-- The policy rows after the statements that end a record's work: those of the record are marked
if anything was done. -/
theorem policies_of_concluded {finding : Finding}
    (hledger : after.ledger = { concluded record history dryRun finding before.now started.ledger with
      savepoint := none }) :
    after.ledger.tables.policies = if dryRun || finding.action = .noop then
      before.ledger.tables.policies
    else before.ledger.tables.policies.map fun other =>
      if other.id = record.id then marked finding.action other else other := by
  rcases createHistory_cases hcreate with ⟨-, ⟨_, ⟨⟩, -⟩ | ⟨-, hstarted⟩⟩
  rw [hstarted] at hledger
  split
  · next hquiet =>
    rw [concluded_of_quiet hquiet] at hledger
    exact congrArg (·.tables.policies) hledger
  · next hloud =>
    rw [concluded_of_not_quiet hloud] at hledger
    exact congrArg (·.tables.policies) hledger

end Created

/-- Reconciling a record adds at most its history row to the ledger, or the row, the event and the
mark of what was done. -/
theorem Course.ledger_cases {result : Except Failure Bool}
    (h : Course reconciler record dryRun before after result) :
    (after.ledger.tables.policies = before.ledger.tables.policies ∧
      ∃ rows, ∀ id, Ledger.Adds id before.ledger after.ledger
        (if record.id = id then rows else []) []) ∨
    ∃ history started worked finding row,
      createHistory (start record dryRun before.now) before = (.ok history, started) ∧
      Worked reconciler record dryRun started finding worked ∧
      dryRun = false ∧ finding.action ≠ .noop ∧
      row.status = .success ∧ row.action = some finding.action ∧
      after.ledger.tables.policies = (before.ledger.tables.policies.map fun other =>
        if other.id = record.id then marked finding.action other else other) ∧
      ∀ id, Ledger.Adds id before.ledger after.ledger
        (if record.id = id then [row] else [])
        (if record.id = id then [event record finding before.now] else []) := by
  cases h with
  | unstarted hresult hside hledger =>
    refine Or.inl ⟨by rw [hledger], [], fun id => ?_⟩
    rw [hledger, ite_self]
    exact Ledger.Adds.refl id _
  | @failed _ history started worked _ hresult hcreate hwork hside hnoted =>
    have hpolicies : started.ledger.tables.policies = before.ledger.tables.policies := by
      rcases createHistory_cases hcreate with ⟨-, ⟨_, ⟨⟩, -⟩ | ⟨-, hstarted⟩⟩
      rw [hstarted]
      rfl
    rcases hnoted with hnoted | ⟨_, outcome, ⟨⟩, -, hnoted⟩
    · exact Or.inl ⟨(congrArg (·.tables.policies) hnoted).trans hpolicies, _,
        adds_of_created hcreate hnoted⟩
    · have houtbox : after.ledger.tables.outbox = started.ledger.tables.outbox ++ [] := by
        rw [hnoted, List.append_nil]
        rfl
      exact Or.inl ⟨(congrArg (·.tables.policies) hnoted).trans hpolicies, _,
        adds_of_ended hcreate (by rw [hnoted]; rfl) (congrArg (·.tables.history) hnoted) houtbox⟩
  | @succeeded history started worked finding hcreate hwork hside hledger =>
    have hadds := adds_of_concluded hcreate hledger
    have hpolicies := policies_of_concluded hcreate hledger
    by_cases hquiet : (dryRun || finding.action = .noop) = true
    · rw [if_pos hquiet] at hpolicies
      simp only [hquiet, Bool.true_eq_false, false_and, if_false] at hadds
      exact Or.inl ⟨hpolicies, _, hadds⟩
    · rw [if_neg hquiet] at hpolicies
      simp only [Bool.eq_false_of_not_eq_true hquiet, true_and] at hadds
      obtain ⟨hdryRun, hnoop⟩ : dryRun = false ∧ finding.action ≠ .noop := by simpa using hquiet
      exact Or.inr ⟨history, started, worked, finding, _, hcreate, worked_of_work hwork, hdryRun,
        hnoop, rfl, rfl, hpolicies, hadds⟩

/-! ### What is done for other records -/

/-- Between two ledgers nothing was added about a record, and its policy rows are as they were. -/
def Apart (id : Text) (before after : Ledger) : Prop :=
  Ledger.Adds id before after [] [] ∧ after.tables.rowsOf id = before.tables.rowsOf id

theorem Apart.refl (id : Text) (ledger : Ledger) : Apart id ledger ledger :=
  ⟨Ledger.Adds.refl id ledger, rfl⟩

theorem Apart.trans {id : Text} {first second third : Ledger} (h : Apart id first second)
    (h' : Apart id second third) : Apart id first third :=
  ⟨h.1.trans h'.1, h'.2.trans h.2⟩

/-- Reconciling a record does nothing about another one. -/
theorem Course.apart {result : Except Failure Bool} {id : Text} (hne : record.id ≠ id)
    (h : Course reconciler record dryRun before after result) :
    Apart id before.ledger after.ledger := by
  obtain ⟨hpolicies, rows, hadds⟩ | ⟨_, _, _, finding, _, -, -, -, -, -, -, hpolicies, hadds⟩ :=
    h.ledger_cases
  · have hadded := hadds id
    rw [if_neg hne] at hadded
    exact ⟨hadded, by rw [LedgerTables.rowsOf, hpolicies]; rfl⟩
  · have hadded := hadds id
    rw [if_neg hne, if_neg hne] at hadded
    refine ⟨hadded, ?_⟩
    rw [LedgerTables.rowsOf, hpolicies, LedgerTables.filter_map_of_id (id_marked finding.action),
      if_neg (Ne.symm hne)]
    rfl

/-- Reconciling some records does nothing about one that is not among them. -/
theorem apart_of_reconcileRecords {records : List PolicyRecord} {result : Except Failure Nat}
    {id : Text} (hne : ∀ record ∈ records, record.id ≠ id) (hrest : before.AtRest)
    (h : reconciler.reconcileRecords dryRun records before = (result, after)) :
    Apart id before.ledger after.ledger := by
  induction records generalizing before result with
  | nil =>
    obtain ⟨-, rfl⟩ := Prod.mk.inj h
    exact Apart.refl id _
  | cons record records ih =>
    obtain ⟨outcome, next, hrecord, hnext⟩ := reconcileRecords_cons h
    have hcourse := course_of_reconcileRecord hrest hrecord
    have hapart := hcourse.apart (hne record List.mem_cons_self)
    rcases hnext with ⟨_, -, -, rfl⟩ | ⟨_, others, -, hothers, -⟩
    · exact hapart
    · exact hapart.trans (ih (fun other hother => hne other (List.mem_cons_of_mem _ hother))
        (hcourse.atRest hrest) hothers)

/-! ### The turn of a record -/

section Turn

variable {reached : World} {result : Except Failure Summary} (hrest : before.AtRest)
  (hids : (before.ledger.tables.policies.map PolicyRecord.id).Nodup)
  (h : reconciler.reconcileAll dryRun before = (result, after))

include hrest hids h

/-- When a run comes to a record, nothing was done about it before, and after its turn nothing is.
In a run without failures it succeeds. -/
theorem Turn.course (hturn : Turn reconciler dryRun before record reached) :
    ∃ outcome next, reconciler.reconcileRecord record dryRun reached = (outcome, next) ∧
      reached.AtRest ∧ Apart record.id before.ledger reached.ledger ∧
      Apart record.id next.ledger after.ledger ∧
      ∀ processed, result = .ok ⟨processed, 0⟩ → outcome = .ok true := by
  obtain ⟨front, rest, failed, found, hfind, hreached⟩ := hturn
  obtain ⟨_, hnone, -, -⟩ | ⟨found', outcome, hfind', honly, hfound, hrun, hresult⟩ :=
    reconcileAll_cases h
  · cases (Prod.mk.inj (hfind.symm.trans hnone)).1
  obtain ⟨hmanaged, rfl⟩ := Prod.mk.inj (hfind.symm.trans hfind')
  have hnodup := Ledger.nodup_map_managed hids
  rw [← Except.ok.inj hmanaged, List.map_append, List.map_cons, List.nodup_append,
    List.nodup_cons] at hnodup
  obtain ⟨-, ⟨hlater, -⟩, hearlier⟩ := hnodup
  have hfront : ∀ other ∈ front, other.id ≠ record.id := fun other hother =>
    hearlier _ (List.mem_map_of_mem hother) _ List.mem_cons_self
  have hrestIds : ∀ other ∈ rest, other.id ≠ record.id := fun other hother heq =>
    hlater (heq ▸ List.mem_map_of_mem hother)
  have hfoundRest : found.AtRest :=
    hrest.mono (by rw [hfound, hrest.savepoint_eq]) (by rw [hfound]) honly.faults_sublist
  have hreachedRest := atRest_of_reconcileRecords hfoundRest hreached
  rw [← Except.ok.inj hmanaged] at hrun
  obtain ⟨_, -, hstopped⟩ | ⟨_, _, others, hreached', htail, houtcome⟩ := reconcileRecords_append hrun
  · cases (Prod.mk.inj (hreached.symm.trans hstopped)).1
  obtain ⟨hfailed, rfl⟩ := Prod.mk.inj (hreached.symm.trans hreached')
  obtain ⟨turned, next, hnext, hlast⟩ := reconcileRecords_cons htail
  have hbefore := apart_of_reconcileRecords hfront hfoundRest hreached
  rw [hfound] at hbefore
  refine ⟨turned, next, hnext, hreachedRest, hbefore, ?_, fun processed hzero => ?_⟩
  · rcases hlast with ⟨_, -, -, rfl⟩ | ⟨_, remaining, -, hremaining, -⟩
    · exact Apart.refl _ _
    · exact apart_of_reconcileRecords hrestIds (atRest_of_reconcileRecord hreachedRest hnext)
        hremaining
  · rw [hzero] at hresult
    obtain ⟨count, rfl, hcount⟩ := exceptMap_eq_ok_iff.mp hresult.symm
    obtain ⟨tail, rfl, htotal⟩ := exceptMap_eq_ok_iff.mp houtcome.symm
    have hnone : count = 0 := congrArg Summary.failed hcount
    obtain rfl : tail = 0 := by omega
    obtain ⟨next', hsucceeded, -⟩ := reconcileRecords_cons_eq_zero htail
    exact (Prod.mk.inj (hnext.symm.trans hsucceeded)).1

/-- A run comes to a managed record, or nothing is done about it. In a run that ends with a summary
it comes to all of them. -/
theorem exists_turn (hrecord : record ∈ before.ledger.managed) :
    ((∃ failure, result = .error failure) ∧ Apart record.id before.ledger after.ledger) ∨
      ∃ reached, Turn reconciler dryRun before record reached := by
  obtain ⟨failure, -, hresult, hledger⟩ | ⟨found, outcome, hfind, honly, hfound, hrun, hresult⟩ :=
    reconcileAll_cases h
  · exact Or.inl ⟨⟨failure, hresult⟩, hledger ▸ Apart.refl _ _⟩
  obtain ⟨front, rest, hmanaged⟩ := List.append_of_mem hrecord
  rw [hmanaged] at hrun hfind
  obtain ⟨failure, rfl, hstopped⟩ | ⟨failed, reached, _, hreached, -, -⟩ :=
    reconcileRecords_append hrun
  · have hnodup := Ledger.nodup_map_managed hids
    rw [hmanaged, List.map_append, List.map_cons, List.nodup_append] at hnodup
    have hfront : ∀ other ∈ front, other.id ≠ record.id := fun other hother =>
      hnodup.2.2 _ (List.mem_map_of_mem hother) _ List.mem_cons_self
    have hfoundRest : found.AtRest :=
      hrest.mono (by rw [hfound, hrest.savepoint_eq]) (by rw [hfound]) honly.faults_sublist
    have hapart := apart_of_reconcileRecords hfront hfoundRest hstopped
    rw [hfound] at hapart
    exact Or.inl ⟨⟨failure, hresult⟩, hapart⟩
  · exact Or.inr ⟨reached, front, rest, failed, found, hfind, hreached⟩

end Turn

/-! ### Announced or untouched -/

/-- The policy that a record's family was left with when a run set it: the run has come to the
record, has created its history row, has found that the family's policy had drifted from the one of
its rules, and has set that one. -/
def SetInRun (reconciler : Reconciler) (dryRun : Bool) (before : World) (record : PolicyRecord)
    (applied : Policy) : Prop :=
  ∃ front rest failed history drift found reached started compared finished,
    findManaged before = (.ok (front ++ record :: rest), found) ∧
    reconciler.reconcileRecords dryRun front found = (.ok failed, reached) ∧
    createHistory (start record dryRun reached.now) reached = (.ok history, started) ∧
    reconciler.store.drift (target record) record.rules? reconciler.options started =
      (.ok drift, compared) ∧
    reconciler.store.setPolicy (target record) drift.desired reconciler.options compared =
      (.ok applied, finished)

/-- What was done about a record shows in all three tables: its one new history row has succeeded
with an action that does something, one new event says the same with the record's deletion mode and
with the rules that the family was left with, and its policy row is marked. -/
structure Announced (reconciler : Reconciler) (dryRun : Bool) (before after : World)
    (record : PolicyRecord) (action : Action) : Prop where
  action_mem : action = .apply ∨ action = .release ∨ action = .abandon
  row : ∃ row, before.ledger.tables.newRows after.ledger.tables record.id = [row] ∧
    row.status = .success ∧ row.action = some action
  event : ∃ event, before.ledger.tables.newEvents after.ledger.tables record.id = [event] ∧
    event.kind.word = (if action = .apply then "gc_policy.applied" else "gc_policy.released") ∧
    event.action = action ∧ event.deletionMode = record.deletionMode ∧
    if action = .apply then
      ∃ applied rules, SetInRun reconciler dryRun before record applied ∧
        applied.write = .ok rules ∧ event.rules = (rules.getD .null).written
    else event.rules = .null
  policy : after.ledger.tables.rowsOf record.id =
    [if action = .apply then { record with lastApplied := true }
      else { record with released := true }]

/-- Nothing was done about a record: no new event is about it, and its policy row is as it was. -/
structure Untouched (before after : World) (record : PolicyRecord) : Prop where
  event : before.ledger.tables.newEvents after.ledger.tables record.id = []
  policy : after.ledger.tables.rowsOf record.id = [record]

/-- What a record is left as when nothing is done about it. -/
theorem untouched_of_adds {rows : List HistoryRow}
    (hadds : Ledger.Adds record.id before.ledger after.ledger rows [])
    (hrows : after.ledger.tables.rowsOf record.id = [record]) : Untouched before after record :=
  ⟨hadds.newEvents_eq, hrows⟩

/-- **Announced or untouched.** A run leaves every managed record in one of the two situations, and
in the first one only if it is no dry run. -/
theorem announced_or_untouched {result : Except Failure Summary} (hrest : before.AtRest)
    (hids : (before.ledger.tables.policies.map PolicyRecord.id).Nodup)
    (h : reconciler.reconcileAll dryRun before = (result, after))
    (hrecord : record ∈ before.ledger.managed) :
    (dryRun = false ∧ ∃ action, Announced reconciler dryRun before after record action) ∨
      Untouched before after record := by
  have hown : before.ledger.tables.rowsOf record.id = [record] :=
    LedgerTables.rowsOf_eq_singleton hids (Ledger.mem_managed.mp hrecord).1
  obtain ⟨-, hadds, hrows⟩ | ⟨reached, hturn⟩ := exists_turn hrest hids h hrecord
  · exact Or.inr (untouched_of_adds hadds (hrows.trans hown))
  obtain ⟨outcome, next, hnext, hreachedRest, hbefore, hafter, -⟩ := hturn.course hrest hids h
  have hcourse := course_of_reconcileRecord hreachedRest hnext
  have hreachedOwn := hbefore.2.trans hown
  obtain ⟨hpolicies, rows, hadds⟩ | ⟨history, started, worked, finding, row, hstart, hwork, hdryRun,
    hnoop, hstatus, haction, hpolicies, hadds⟩ := hcourse.ledger_cases
  · -- At most the history row was added.
    have hadded := (hbefore.1.trans (hadds record.id)).trans hafter.1
    refine Or.inr (untouched_of_adds hadded (hafter.2.trans ?_))
    rw [LedgerTables.rowsOf, hpolicies]
    exact hreachedOwn
  · -- The row, the event and the mark were added.
    have hadded := (hbefore.1.trans (hadds record.id)).trans hafter.1
    rw [if_pos rfl, if_pos rfl, List.nil_append, List.append_nil, List.nil_append,
      List.append_nil] at hadded
    refine Or.inl ⟨hdryRun, finding.action, ?_, ?_, ?_, ?_⟩
    · cases hwork with
      | noop => exact absurd rfl hnoop
      | drifted _ hdry => exact absurd hdry (by simp [hdryRun])
      | applied => exact Or.inl rfl
      | pending _ hdry => exact absurd hdry (by simp [hdryRun])
      | released =>
        cases record.deletionMode with
        | default => exact Or.inr (Or.inl rfl)
        | abandon => exact Or.inr (Or.inr rfl)
    · exact ⟨row, hadded.newRows_eq, hstatus, haction⟩
    · refine ⟨event record finding reached.now, hadded.newEvents_eq, ?_, rfl, rfl, ?_⟩
      · change (if finding.action = .apply then EventKind.applied else EventKind.released).word = _
        split <;> rfl
      · cases hwork with
        | noop => exact absurd rfl hnoop
        | drifted _ hdry => exact absurd hdry (by simp [hdryRun])
        | @applied drift expected rules applied compared _ _ _ hdrift _ _ hset hrules =>
          obtain ⟨front, rest, failed, found, hfind, hreached⟩ := hturn
          rw [if_pos rfl]
          exact ⟨applied, rules, ⟨front, rest, failed, history, drift, found, reached, started,
            compared, worked, hfind, hreached, hstart, hdrift, hset⟩,
            mapError_eq_ok_iff.mp hrules, rfl⟩
        | pending _ hdry => exact absurd hdry (by simp [hdryRun])
        | released =>
          have hne : releaseAction record.deletionMode ≠ .apply := by
            cases record.deletionMode <;> decide
          exact (if_neg hne).mpr rfl
    · rw [hafter.2, LedgerTables.rowsOf, hpolicies,
        LedgerTables.filter_map_of_id (id_marked finding.action), if_pos rfl]
      rw [LedgerTables.rowsOf] at hreachedOwn
      rw [hreachedOwn, List.map_singleton]
      rfl

/-- Events are only added. -/
theorem Course.outbox_grows {result : Except Failure Bool}
    (h : Course reconciler record dryRun before after result) :
    before.ledger.tables.outbox <+: after.ledger.tables.outbox := by
  rcases h.ledger_cases with ⟨-, _, hadds⟩ | ⟨_, _, _, _, _, -, -, -, -, -, -, -, hadds⟩
  · exact (hadds record.id).outbox_grows
  · exact (hadds record.id).outbox_grows

@[inherit_doc Course.outbox_grows]
theorem outbox_grows_of_reconcileRecords {records : List PolicyRecord}
    {result : Except Failure Nat} (hrest : before.AtRest)
    (h : reconciler.reconcileRecords dryRun records before = (result, after)) :
    before.ledger.tables.outbox <+: after.ledger.tables.outbox := by
  induction records generalizing before result with
  | nil =>
    obtain ⟨-, rfl⟩ := Prod.mk.inj h
    exact List.prefix_refl _
  | cons record records ih =>
    obtain ⟨outcome, next, hrecord, hnext⟩ := reconcileRecords_cons h
    have hcourse := course_of_reconcileRecord hrest hrecord
    rcases hnext with ⟨_, -, -, rfl⟩ | ⟨_, others, -, hothers, -⟩
    · exact hcourse.outbox_grows
    · exact hcourse.outbox_grows.trans (ih (hcourse.atRest hrest) hothers)

@[inherit_doc Course.outbox_grows]
theorem outbox_grows_of_reconcileAll {result : Except Failure Summary} (hrest : before.AtRest)
    (h : reconciler.reconcileAll dryRun before = (result, after)) :
    before.ledger.tables.outbox <+: after.ledger.tables.outbox := by
  obtain ⟨_, -, -, hledger⟩ | ⟨found, outcome, -, honly, hfound, hrun, -⟩ := reconcileAll_cases h
  · exact hledger ▸ List.prefix_refl _
  · have hfoundRest : found.AtRest :=
      hrest.mono (by rw [hfound, hrest.savepoint_eq]) (by rw [hfound]) honly.faults_sublist
    rw [← hfound]
    exact outbox_grows_of_reconcileRecords hfoundRest hrun

/-- An announced record is not untouched. -/
theorem Announced.not_untouched {action : Action}
    (h : Announced reconciler dryRun before after record action) :
    ¬Untouched before after record := by
  intro huntouched
  obtain ⟨event, hevent, -⟩ := h.event
  rw [huntouched.event] at hevent
  cases hevent

/-- **History, records and outbox move together.** When a transaction can be taken back and ids tell
the records apart, a run leaves every managed record in exactly one of two situations, wherever
faults strike and however the run ends: what was done about it is announced, or it is untouched. In
a dry run it is never announced. -/
theorem reconcileAll_announced_xor_untouched {result : Except Failure Summary}
    (hrest : before.AtRest)
    (hids : (before.ledger.tables.policies.map PolicyRecord.id).Nodup)
    (h : reconciler.reconcileAll dryRun before = (result, after)) :
    before.ledger.tables.outbox <+: after.ledger.tables.outbox ∧
      ∀ record ∈ before.ledger.managed,
        (((∃ action, Announced reconciler dryRun before after record action) ∧
            ¬Untouched before after record) ∨
          (Untouched before after record ∧
            ¬∃ action, Announced reconciler dryRun before after record action)) ∧
        (dryRun = true → ¬∃ action, Announced reconciler dryRun before after record action) := by
  constructor
  · exact outbox_grows_of_reconcileAll hrest h
  · intro record hrecord
    have hnever : Untouched before after record →
        ¬∃ action, Announced reconciler dryRun before after record action :=
      fun huntouched ⟨_, hannounced⟩ => hannounced.not_untouched huntouched
    obtain ⟨hdryRun, action, hannounced⟩ | huntouched := announced_or_untouched hrest hids h hrecord
    · refine ⟨Or.inl ⟨⟨action, hannounced⟩, hannounced.not_untouched⟩, fun hdry => ?_⟩
      rw [hdryRun] at hdry
      cases hdry
    · exact ⟨Or.inr ⟨huntouched, hnever huntouched⟩, fun _ => hnever huntouched⟩

/-- A record to be released, and a closing statement that will fail: it is announced or untouched,
and not both. -/
theorem reconcileAll_announced_xor_untouched_commit :
    ∃ (before : World) (record : PolicyRecord), before.AtRest ∧ record ∈ before.ledger.managed ∧
      before.faults.map Fault.point = [.commit] ∧
      ((∃ action, Announced ⟨⟨none⟩, none⟩ false before
          (reconcileAll ⟨⟨none⟩, none⟩ false before).2 record action) ↔
        ¬Untouched before (reconcileAll ⟨⟨none⟩, none⟩ false before).2 record) := by
  obtain ⟨record, hrecord⟩ : ∃ record : PolicyRecord, record =
    ⟨"policy-1", "projects/pp/instances/ii/tables/t", "f", .null, .default, .absent, true, true,
      false⟩ := ⟨_, rfl⟩
  obtain ⟨before, hbefore⟩ : ∃ before : World, before = { World.empty false "now" "id" with
    tables := [("projects/pp/instances/ii/tables/t", .object [("f", .object [])])],
    ledger := { Ledger.empty false with tables := ⟨[record], [], []⟩ },
    faults := [⟨.commit, 0, .plain "lost" none⟩] } := ⟨_, rfl⟩
  have hmem : record ∈ before.ledger.managed := by
    subst hbefore hrecord
    exact Ledger.mem_managed.mpr ⟨List.mem_singleton_self _, rfl⟩
  have hrest : before.AtRest := by
    subst hbefore
    exact ⟨rfl, rfl, by simp⟩
  have hids : (before.ledger.tables.policies.map PolicyRecord.id).Nodup := by
    subst hbefore
    simp
  obtain ⟨result, after, hrun⟩ : ∃ result after,
    reconcileAll ⟨⟨none⟩, none⟩ false before = (result, after) := ⟨_, _, rfl⟩
  have hone := ((reconcileAll_announced_xor_untouched hrest hids hrun).2 record hmem).1
  refine ⟨before, record, hrest, hmem, by subst hbefore; rfl, ?_⟩
  rw [hrun]
  rcases hone with ⟨hannounced, hnot⟩ | ⟨huntouched, hnot⟩
  · exact ⟨fun _ => hnot, fun _ => hannounced⟩
  · exact ⟨fun hannounced => absurd hannounced hnot, fun hne => absurd huntouched hne⟩

end Retention.Reconciler

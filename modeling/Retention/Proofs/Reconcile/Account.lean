import Retention.Proofs.Reconcile.Convergence
import Retention.Proofs.Reconcile.Handled

/-!
# Accounting for a run

Where faults have words, a run ends with a summary unless the managed records could not be found.
Every managed record is then handled once, in the order in which they were found, each counts once
and asks for one history row, and the summary counts the failures. The history rows of the run say
how its records went.

A raised value without words is the one thing that can end a run at a record: what is written down
about a failure is its words.

## Main definitions

* `Reconciler.HandledAll`: some records are handled one after another.
* `Reconciler.outcomes`, `Reconciler.statuses`: what they count as, and how their rows are left.

## Main results

* `Reconciler.exists_handledAll`: a run handles all of its records.
* `Reconciler.reconcileAll_accounts`: what a run over all managed records comes to.
* `Reconciler.not_accounts_of_wordless`: a fault without words may end a run.
-/

namespace Retention.Reconciler

open World

variable {reconciler : Reconciler} {record : PolicyRecord} {dryRun : Bool}
  {records : List PolicyRecord} {reports : List Report} {world before after : World}

/-! ### One after another -/

/-- Some records are handled one after another. -/
inductive HandledAll (reconciler : Reconciler) (dryRun : Bool) :
    World → List PolicyRecord → List Report → World → Prop
  | nil {world : World} : HandledAll reconciler dryRun world [] [] world
  | cons {before next after : World} {record : PolicyRecord} {report : Report}
      {records : List PolicyRecord} {reports : List Report}
      (hfirst : Handled reconciler record dryRun before report next)
      (hrest : HandledAll reconciler dryRun next records reports after) :
      HandledAll reconciler dryRun before (record :: records) (report :: reports) after

/-- What some records are counted as. -/
def outcomes (records : List PolicyRecord) (reports : List Report) : List Outcome :=
  List.zipWith (fun record report => report.outcome record) records reports

/-- How the history rows of the records with an id are left. -/
def statuses (id : Text) (records : List PolicyRecord) (reports : List Report) : List Status :=
  (records.zip reports).filterMap fun (record, report) =>
    if record.id = id then report.status? else none

namespace HandledAll

/-- Every record is handled once. -/
theorem length_eq (h : HandledAll reconciler dryRun before records reports after) :
    reports.length = records.length := by
  induction h with
  | nil => rfl
  | cons _ _ ih => rw [List.length_cons, List.length_cons, ih]

theorem now_eq (h : HandledAll reconciler dryRun before records reports after) :
    after.now = before.now := by
  induction h with
  | nil => rfl
  | cons hfirst _ ih => rw [ih, hfirst.now_eq]

/-- One history row is asked for per record, in the order of the records. -/
theorem starts_eq (h : HandledAll reconciler dryRun before records reports after) :
    after.starts = before.starts ++ records.map fun record => start record dryRun before.now := by
  induction h with
  | nil => exact (List.append_nil _).symm
  | cons hfirst _ ih =>
    rw [ih, hfirst.starts_eq, hfirst.now_eq, List.append_assoc, List.map_cons,
      List.singleton_append]

/-- One outcome is counted per record. -/
theorem counters_eq (h : HandledAll reconciler dryRun before records reports after) :
    after.counters = (outcomes records reports).foldl (fun counters outcome =>
      counters.count outcome) before.counters := by
  induction h with
  | nil => rfl
  | cons hfirst _ ih => rw [ih, hfirst.counters_eq, outcomes, outcomes, List.zipWith_cons_cons,
      List.foldl_cons]

/-- A run over the records says how many of them were counted as failed. -/
theorem result_eq (h : HandledAll reconciler dryRun before records reports after) :
    reconciler.reconcileRecords dryRun records before =
      (.ok ((outcomes records reports).countP fun outcome => outcome.status = .failed), after) := by
  induction h with
  | nil => rfl
  | @cons _ _ _ record report _ _ hfirst _ ih =>
    rw [reconcileRecords_cons_of_ok hfirst.result_eq ih, outcomes, outcomes, List.zipWith_cons_cons,
      List.countP_cons]
    have hstatus := report.outcome_status record
    cases hsuccess : report.isSuccess <;> simp [hsuccess] at hstatus <;>
      simp [Except.map, hstatus, Nat.add_comm]

/-- From a world at rest, the records add the history rows that their reports speak of. -/
theorem adds (hrest : before.AtRest)
    (h : HandledAll reconciler dryRun before records reports after) (id : Text) :
    ∃ rows events, rows.map HistoryRow.status = statuses id records reports ∧
      Ledger.Adds id before.ledger after.ledger rows events := by
  induction h with
  | nil => exact ⟨[], [], rfl, Ledger.Adds.refl id _⟩
  | @cons _ _ _ record report _ _ hfirst _ ih =>
    obtain ⟨hnext, rows, hrows, hadds⟩ := hfirst.went.adds hrest
    obtain ⟨events, hadded⟩ := hadds id
    obtain ⟨others, moreEvents, hothers, hlater⟩ := ih hnext
    refine ⟨_, _, ?_, hadded.trans hlater⟩
    rw [List.map_append, hothers, statuses, statuses, List.zip_cons_cons, List.filterMap_cons]
    by_cases hown : record.id = id
    · simp only [hown, if_true, hrows]
      cases report.status? <;> rfl
    · simp [hown]

end HandledAll

/-- Where faults have words, a run handles all of its records. -/
theorem exists_handledAll (reconciler : Reconciler) (dryRun : Bool) (records : List PolicyRecord)
    (hspoken : before.Spoken) :
    ∃ reports after, HandledAll reconciler dryRun before records reports after := by
  induction records generalizing before with
  | nil => exact ⟨[], before, .nil⟩
  | cons record records ih =>
    obtain ⟨report, next, hfirst, hnext⟩ := exists_handled reconciler record dryRun hspoken
    obtain ⟨reports, after, hrest⟩ := ih hnext
    exact ⟨report :: reports, after, .cons hfirst hrest⟩

/-! ### All managed records -/

/-- When the managed records cannot be found, the question is all that was sent. -/
theorem findManaged_eq_error {failure : Failure} (h : findManaged world = (.error failure, after)) :
    after = { world with
      traffic := world.traffic ++ [.statement .pool .findManaged], faults := after.faults } := by
  rw [findManaged, ask, execute_apply] at h
  split at h
  · rw [← (Prod.mk.inj h).2]
  · cases (Prod.mk.inj h).1

theorem sameStarts_findManaged : findManaged.Keeps SameStarts := fun world => by
  have htraffic : (findManaged world).2.traffic =
      world.traffic ++ [.statement .pool .findManaged] := by
    rw [findManaged, ask, execute_apply]
    split <;> rfl
  rw [SameStarts, starts, htraffic, List.filterMap_append]
  exact List.append_nil _

/-- **Accounting for a run.** Where faults of the ledger have words, a run fails only when the
managed records cannot be found, and then nothing else was done. Else every managed record is
handled once, in order; one history row is asked for and one outcome counted for each; and the
summary counts the records and those counted as failed. From a world at rest, the history rows that
the run has added say how the records went. -/
theorem reconcileAll_accounts {result : Except Failure Summary} (hspoken : before.Spoken)
    (h : reconciler.reconcileAll dryRun before = (result, after)) :
    (∃ failure, findManaged before = (.error failure, after) ∧ result = .error failure ∧
        after = { before with
          traffic := before.traffic ++ [.statement .pool .findManaged], faults := after.faults }) ∨
      ∃ found reports, findManaged before = (.ok before.ledger.managed, found) ∧
        found = { before with traffic := found.traffic, faults := found.faults } ∧
        HandledAll reconciler dryRun found before.ledger.managed reports after ∧
        reports.length = before.ledger.managed.length ∧
        result = .ok ⟨before.ledger.managed.length,
          (outcomes before.ledger.managed reports).countP fun outcome => outcome.status = .failed⟩ ∧
        after.starts = before.starts ++
          before.ledger.managed.map (fun record => start record dryRun before.now) ∧
        after.counters = (outcomes before.ledger.managed reports).foldl
          (fun counters outcome => counters.count outcome) before.counters ∧
        (before.AtRest → ∀ id,
          (before.ledger.tables.newRows after.ledger.tables id).map HistoryRow.status =
            statuses id before.ledger.managed reports) := by
  obtain ⟨failure, hfind, hresult, -⟩ | ⟨found, outcome, hfind, honly, hledger, hrun, hresult⟩ :=
    reconcileAll_cases h
  · exact Or.inl ⟨failure, hfind, hresult, findManaged_eq_error hfind⟩
  have hfound : found.Spoken := hspoken.mono honly.faults_sublist
  obtain ⟨reports, last, hall⟩ :=
    exists_handledAll reconciler dryRun before.ledger.managed hfound
  obtain ⟨rfl, rfl⟩ := Prod.mk.inj (hall.result_eq.symm.trans hrun)
  have hstarts : found.starts = before.starts := sameStarts_findManaged.of_eq hfind
  refine Or.inr
    ⟨found, reports, hfind, ?_, hall, hall.length_eq, hresult, ?_, ?_, fun hrest id => ?_⟩
  · obtain ⟨⟨htables, hreply, hcalls, hcancelled, hnow, hcorrelation, -⟩, hcounters⟩ := honly
    rw [← htables, ← hreply, ← hcalls, ← hcancelled, ← hledger, ← hcounters, ← hnow, ← hcorrelation]
  · rw [hall.starts_eq, hstarts, honly.now_eq]
  · rw [hall.counters_eq, honly.counters_eq]
  · have hfoundRest : found.AtRest :=
      hrest.mono (by rw [hledger, hrest.savepoint_eq]) (by rw [hledger]) honly.faults_sublist
    obtain ⟨rows, events, hrows, hadds⟩ := hall.adds hfoundRest id
    rw [← hrows, ← hadds.newRows_eq, hledger]

/-- Two records where the transaction of the first cannot be committed and its failure cannot be
written down either: its row is left running, it counts as failed, and the second is handled. -/
theorem reconcileAll_accounts_running : ∃ before after absent found reports,
    absent = recordOf "policy-2" "g" .null .abandon .absent ∧
      before = worldWith [] [bare, absent] [⟨.commit, 0, .plain "lost" none⟩,
        ⟨.completeHistory, 1, .plain "gone" none⟩] ∧
      before.Spoken ∧ before.AtRest ∧
      patient.reconcileAll false before = (.ok ⟨2, 1⟩, after) ∧
      HandledAll patient false found [bare, absent] reports after ∧ reports.length = 2 ∧
      after.starts = [start bare false "now", start absent false "now"] ∧
      statuses bare.id [bare, absent] reports = [.running] ∧
      statuses absent.id [bare, absent] reports = [.success] := by
  obtain ⟨absent, habsent⟩ : ∃ record, record = recordOf "policy-2" "g" .null .abandon .absent :=
    ⟨_, rfl⟩
  obtain ⟨faults, hfaults⟩ : ∃ faults : List Fault, faults = [⟨.commit, 0, .plain "lost" none⟩,
    ⟨.completeHistory, 1, .plain "gone" none⟩] := ⟨_, rfl⟩
  have hspoken : (worldWith [] [bare, absent] faults).Spoken := by
    subst hfaults
    intro kind hkind _
    rcases List.mem_cons.mp hkind with rfl | hkind
    · exact ⟨_, rfl⟩
    · rw [List.mem_singleton.mp hkind]
      exact ⟨_, rfl⟩
  have hrest : (worldWith [] [bare, absent] faults).AtRest := by
    subst hfaults
    exact ⟨rfl, rfl, by simp [worldWith]⟩
  obtain ⟨next, after, hfirst, hsecond, hrunning, hsuccess⟩ : ∃ next after,
      patient.reconcileRecord bare false (foundIn [] [bare, absent] faults) = (.ok false, next) ∧
        patient.reconcileRecord absent false next = (.ok true, after) ∧
        ((worldWith [] [bare, absent] faults).ledger.tables.newRows after.ledger.tables
          bare.id).map HistoryRow.status = [.running] ∧
        ((worldWith [] [bare, absent] faults).ledger.tables.newRows after.ledger.tables
          absent.id).map HistoryRow.status = [.success] := by
    subst habsent hfaults
    exact ⟨_, _, rfl, rfl, rfl, rfl⟩
  obtain ⟨hmanaged, hall⟩ := reconcileAll_worldWith [bare, absent]
    (by subst habsent; simp; exact ⟨rfl, rfl⟩) (by subst habsent; simp; rfl)
    (by subst hfaults; decide)
    (reconcileRecords_cons_of_ok hfirst (reconcileRecords_cons_of_ok hsecond rfl))
  obtain ⟨_, -, ⟨⟩, -⟩ | ⟨found, reports, -, -, hhandled, hlength, -, hstarts, -, hrows⟩ :=
    reconcileAll_accounts hspoken hall
  rw [hmanaged] at hhandled hlength hstarts hrows
  exact ⟨_, after, absent, found, reports, habsent, by rw [hfaults], hspoken, hrest, hall, hhandled,
    hlength, hstarts, (hrows hrest bare.id).symm.trans hrunning,
    (hrows hrest absent.id).symm.trans hsuccess⟩

/-- A statement that raises a value without words. -/
def wordless : Fault := ⟨.createHistory, 0, .raised (.object [("toString", .number 1)])⟩

/-- A fault without words may end a run at its record: the managed records are found, and yet there
is no summary. -/
theorem not_accounts_of_wordless :
    ∃ failure found after,
      findManaged (worldWith [] [bare] [wordless]) = (.ok [bare], found) ∧
      patient.reconcileAll false (worldWith [] [bare] [wordless]) = (.error failure, after) := by
  obtain ⟨failure, after, hrun⟩ : ∃ failure after,
      patient.reconcileRecord bare false (foundIn [] [bare] [wordless]) = (.error failure, after) :=
    ⟨_, _, rfl⟩
  obtain ⟨hmanaged, hall⟩ := reconcileAll_worldWith [bare] (by simp; rfl)
    (List.pairwise_singleton _ _) (by decide) (reconcileRecords_cons_of_error hrun)
  have hfind : findManaged (worldWith [] [bare] [wordless]) = _ :=
    ask_of_notMem .findManaged Ledger.managed (by decide)
  rw [hmanaged] at hfind
  exact ⟨failure, _, after, hfind, hall⟩

end Retention.Reconciler

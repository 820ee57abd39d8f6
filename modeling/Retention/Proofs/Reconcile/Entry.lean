import Retention.Proofs.Alike
import Retention.Proofs.Reconcile.Healing

/-!
# What a record comes to where no fault waits

Where no fault waits, all statements about a record pass, so its work alone decides how it goes: its
history row, its event and what becomes of the policy rows follow from the outcome of the work. The
work in turn depends on the looks of the record's family alone, and records of other families leave
those as they are. What a record comes to in a run is therefore what it comes to in the world that
the run starts from.

## Main definitions

* `World.Undisturbed`: a family was left alone.
* `Reconciler.Entry`, `Reconciler.entryOf`: what a record adds, by the outcome of its work.
* `Reconciler.Came`: what a record has come to.
* `Reconciler.Report.touch`, `Reconciler.touched`: a policy row after a record, and after a run.
* `Reconciler.CameAll`: what the records of a run have come to.

## Main results

* `Reconciler.agrees_work`: the work on a record depends on the looks of its family.
* `Reconciler.Handled.exists_came`: a record that is handled has come to something.
* `Reconciler.HandledAll.exists_cameAll`: what a run has added is what its records have come to.
-/

namespace Retention

namespace World

variable {target other : FamilyRef} {before after later : World} {dryRun : Bool}

/-- A family was left alone: it looks as before, and no call was made that changes it. -/
structure Undisturbed (target : FamilyRef) (before after : World) : Prop where
  looksAlike : LooksAlike target before after
  modificationsOf_eq : after.modificationsOf target = before.modificationsOf target
  quiet : before.Quiet → after.Quiet
  faults_sublist : (after.faults.map Fault.kind).Sublist (before.faults.map Fault.kind)
  now_eq : after.now = before.now

theorem Undisturbed.refl (target : FamilyRef) (world : World) : Undisturbed target world world :=
  ⟨LooksAlike.refl target world, rfl, id, List.Sublist.refl _, rfl⟩

theorem Undisturbed.trans (h : Undisturbed target before after)
    (h' : Undisturbed target after later) : Undisturbed target before later where
  looksAlike := h.looksAlike.trans h'.looksAlike
  modificationsOf_eq := h'.modificationsOf_eq.trans h.modificationsOf_eq
  quiet hquiet := h'.quiet (h.quiet hquiet)
  faults_sublist := h'.faults_sublist.trans h.faults_sublist
  now_eq := h'.now_eq.trans h.now_eq

/-- What is done about one family leaves every other alone. -/
theorem Beside.undisturbed (h : Beside target before after) (hnow : after.now = before.now)
    (hne : other ≠ target) : Undisturbed other before after :=
  ⟨h.looksAlike_of_ne other hne, h.modificationsOf_of_ne other hne, h.quiet, h.faults_sublist, hnow⟩

/-- What leaves the admin API as it is leaves every family alone. -/
theorem AdminSame.undisturbed (h : AdminSame before after) (target : FamilyRef) :
    Undisturbed target before after :=
  ⟨looksAlike_of_tables h.tables_eq target, by rw [modificationsOf, h.calls_eq, modificationsOf],
    fun hquiet => hquiet.mono h.reply_eq h.faults_sublist, h.faults_sublist, h.now_eq⟩

/-- Operations on a family that was left alone end as they would have before. -/
theorem Undisturbed.alike (h : Undisturbed target before after) (hfaults : before.Faultless)
    (hquiet : dryRun = false → before.Quiet) : Alike dryRun target before after where
  faults_eq := ⟨hfaults, Faultless.mono hfaults h.faults_sublist⟩
  reply_eq hwet := ⟨(hquiet hwet).reply_eq, (h.quiet (hquiet hwet)).reply_eq⟩
  looksAlike := h.looksAlike

end World

namespace Reconciler

open World

variable {reconciler : Reconciler} {record : PolicyRecord} {dryRun : Bool} {family : FamilyRef}
  {records : List PolicyRecord} {report : Report} {reports : List Report} {entry : Entry}
  {history : Text} {cause : Failure} {before started after earlier later : World}

/-! ### The work -/

/-- The work on a record touches the record's own family at most. -/
theorem beside_work (reconciler : Reconciler) (record : PolicyRecord) (dryRun : Bool) :
    (reconciler.work record dryRun).Keeps (Beside (target record)) :=
  keeps_work (Store.beside_getTable _ _) fun _ message => Store.beside_modifyFamilies message _

/-- The work on a record depends on the looks of its family. -/
theorem agrees_work (reconciler : Reconciler) (record : PolicyRecord) (dryRun : Bool) :
    (reconciler.work record dryRun).Agrees (Alike dryRun (target record)) := by
  unfold work
  split
  · refine (Store.agrees_drift _).bind fun drift => Step.agrees_ofExcept_bind fun _ _ => ?_
    split
    · exact Step.agrees_pure _
    · cases dryRun with
      | true => exact Step.agrees_pure _
      | false =>
        exact (Store.agrees_apply _).bind fun _ =>
          Step.agrees_ofExcept_bind fun _ _ => Step.agrees_pure _
  · cases dryRun with
    | true => exact Step.agrees_pure _
    | false => exact (Store.agrees_release _).bind fun _ => Step.agrees_pure _

/-- The work and the transaction that ends it fail only when the work does. -/
theorem work_of_attempt (hfaults : started.Faultless)
    (h : reconciler.attempt record dryRun history started = (.error cause, after)) :
    reconciler.work record dryRun started = (.error cause, after) := by
  rcases Step.bind_eq_error_iff.mp h with hwork | ⟨finding, worked, hwork, htransaction⟩
  · exact hwork
  · have hworked : worked.Faultless := Faultless.mono hfaults
      ((adminOnly_work reconciler record dryRun).of_eq hwork).faults_sublist
    have hpasses : (session.transaction (conclusion record history dryRun finding) >>= fun _ =>
        (pure finding : Step World Finding)).Passes Faultless :=
      (passes_transaction (passes_conclusion record history dryRun finding)).bind fun _ =>
        Step.failsWith_pure finding
    exact (hpasses.of_eq hworked htransaction).elim

/-! ### By the outcome of the work -/

/-- How a record went, its history row, and the events about it. -/
structure Entry where
  report : Report
  row : HistoryRow
  events : List OutboxEvent

/-- What a record adds to a ledger, by the outcome of its work. -/
def entryOf (record : PolicyRecord) (dryRun : Bool) (now : Text) (ledger : Ledger) :
    Except Failure Finding → Entry
  | .ok finding =>
    ⟨.succeeded finding.action,
      Ledger.endedRow (success finding now) (ledger.startedRow (start record dryRun now)),
      if dryRun || finding.action = .noop then [] else [event record finding now]⟩
  | .error cause =>
    ⟨.failed true,
      Ledger.endedRow (failure now (cause.words.toOption.getD ""))
        (ledger.startedRow (start record dryRun now)), []⟩

/-- A record's entry is about the record: its history row and its events name the record and its
family. -/
structure Entry.IsAbout (record : PolicyRecord) (entry : Entry) : Prop where
  policy_eq : entry.row.policy = record.id
  table_eq : entry.row.table = record.table
  family_eq : entry.row.family = record.family
  events : ∀ event ∈ entry.events, event.table = record.table ∧ event.family = record.family

theorem isAbout_entryOf (record : PolicyRecord) (dryRun : Bool) (now : Text) (ledger : Ledger)
    (outcome : Except Failure Finding) :
    (entryOf record dryRun now ledger outcome).IsAbout record := by
  cases outcome with
  | error cause => exact ⟨rfl, rfl, rfl, nofun⟩
  | ok finding =>
    refine ⟨rfl, rfl, rfl, fun sent hsent => ?_⟩
    rw [entryOf] at hsent
    dsimp only at hsent
    split at hsent
    · cases hsent
    · rw [List.mem_singleton.mp hsent]
      exact ⟨rfl, rfl⟩

/-- The action that policy rows are marked for after a record went in some way. -/
def Report.mark? (dryRun : Bool) : Report → Option Action
  | succeeded action => if dryRun || action = .noop then none else some action
  | _ => none

/-- A policy row after a record went in some way: it is marked if it has the id of the record and
something was done. -/
def Report.touch (dryRun : Bool) (record : PolicyRecord) (report : Report) (row : PolicyRecord) :
    PolicyRecord :=
  match report.mark? dryRun with
  | some action => if row.id = record.id then marked action row else row
  | none => row

theorem Report.id_touch (report : Report) (row : PolicyRecord) :
    (report.touch dryRun record row).id = row.id := by
  unfold touch
  split
  · split
    · exact id_marked _ row
    · rfl
  · rfl

/-- A record touches the rows with its id. -/
theorem touch_of_eq {report : Report} {row : PolicyRecord} (h : row.id = record.id) :
    report.touch dryRun record row =
      (report.mark? dryRun).elim row fun action => marked action row := by
  unfold Report.touch
  cases report.mark? dryRun with
  | none => rfl
  | some action => exact if_pos h

/-- A record touches no row with another id. -/
theorem touch_of_ne {report : Report} {row : PolicyRecord} (hne : row.id ≠ record.id) :
    report.touch dryRun record row = row := by
  unfold Report.touch
  split
  · exact if_neg hne
  · rfl

/-- What a record has come to when its family was left alone until its work began, and after it. -/
inductive Came (reconciler : Reconciler) (record : PolicyRecord) (dryRun : Bool) (before : World) :
    Entry → World → Prop
  | intro {started worked after : World} {outcome : Except Failure Finding} (ledger : Ledger)
      (hbefore : Undisturbed (target record) before started)
      (hwork : reconciler.work record dryRun started = (outcome, worked))
      (hafter : Undisturbed (target record) worked after) :
      Came reconciler record dryRun before (entryOf record dryRun before.now ledger outcome) after

/-- A record has come to the same while its family is left alone before and after. -/
theorem Came.of_undisturbed (h : Came reconciler record dryRun before entry after)
    (hbefore : Undisturbed (target record) earlier before)
    (hafter : Undisturbed (target record) after later) :
    Came reconciler record dryRun earlier entry later := by
  cases h with
  | intro ledger hstarted hwork hworked =>
    rw [hbefore.now_eq]
    exact .intro ledger (hbefore.trans hstarted) hwork (hworked.trans hafter)

theorem Came.isAbout (h : Came reconciler record dryRun before entry after) :
    entry.IsAbout record := by
  cases h with
  | intro ledger _ _ _ => exact isAbout_entryOf _ _ _ ledger _

/-- What a record has added, by what it has come to. -/
structure Added (record : PolicyRecord) (dryRun : Bool) (before after : Ledger) (entry : Entry) :
    Prop where
  ledger : before.Extends after [entry.row] entry.events
  policies_eq : after.tables.policies =
    before.tables.policies.map (entry.report.touch dryRun record)

theorem undisturbed_counted (target : FamilyRef) (outcome : Outcome) (world : World) :
    Undisturbed target world (counted outcome world) :=
  ⟨⟨rfl, rfl, rfl⟩, rfl, fun hquiet => ⟨hquiet.faults_eq, hquiet.reply_eq⟩, List.Sublist.refl _,
    rfl⟩

/-- **One record.** Where no fault waits, a record that is handled has come to something, and has
added that. -/
theorem Handled.exists_came (hfaults : before.Faultless)
    (h : Handled reconciler record dryRun before report after) : ∃ entry, entry.report = report ∧
      Came reconciler record dryRun before entry after ∧
      Added record dryRun before.ledger after.ledger entry := by
  cases h.went with
  | unstarted hcreate => exact ((passes_execute _ _ _).of_eq hfaults hcreate).elim
  | @failed history message started stopped noted cause ended hcreate hattempt hwords hnoted =>
    obtain ⟨hcreated, ⟨_, ⟨⟩, -⟩ | ⟨-, hstartedLedger⟩⟩ := createHistory_cases hcreate
    have hstarted := Faultless.mono hfaults hcreated.faults_sublist
    have hwork := work_of_attempt hstarted hattempt
    have hadmin := (adminOnly_work reconciler record dryRun).of_eq hwork
    have hstopped := Faultless.mono hstarted hadmin.faults_sublist
    have honly : LedgerOnly stopped noted := (ledgerOnly_change _ _ _).of_eq hnoted
    cases ended with
    | error other => exact ((passes_change _ _ _).of_eq hstopped hnoted).elim
    | ok _ =>
      have hledger : noted.ledger =
          started.ledger.completeHistory history (failure before.now message) := by
        rw [ledger_change hnoted, hadmin.ledger_eq, hadmin.now_eq, hcreated.now_eq]
      have hmessage : cause.words.toOption.getD "" = message := by
        rw [hwords]
        rfl
      have houtbox : noted.ledger.tables.outbox = started.ledger.tables.outbox ++ [] := by
        rw [hledger, List.append_nil]
        rfl
      refine ⟨_, rfl, .intro before.ledger (hcreated.toAdminSame.undisturbed _) hwork
        ((honly.toAdminSame.undisturbed _).trans (undisturbed_counted _ _ _)), ?_, ?_⟩
      · rw [entryOf, hmessage]
        exact extends_of_ended hcreate (congrArg (·.historyCount) hledger)
          (congrArg (·.tables.history) hledger) houtbox
      · have hpolicies : noted.ledger.tables.policies = before.ledger.tables.policies := by
          rw [hledger, hstartedLedger]
          rfl
        exact hpolicies.trans (List.map_id' _).symm
  | @succeeded history started done finding hcreate hattempt =>
    obtain ⟨worked, hwork, hside, hledger⟩ := attempt_eq_ok hattempt
    have hcreated := (createHistory_cases hcreate).1
    rw [hcreated.now_eq] at hledger
    refine ⟨_, rfl, .intro before.ledger (hcreated.toAdminSame.undisturbed _) hwork
      ((hside.undisturbed _).trans (undisturbed_counted _ _ _)),
      extends_of_concluded hcreate hledger, ?_⟩
    refine (policies_of_concluded hcreate hledger).trans ?_
    unfold entryOf Report.touch Report.mark?
    by_cases hquiet : (dryRun || finding.action = .noop) = true
    · simp only [hquiet, if_true, List.map_id']
    · simp only [hquiet, Bool.false_eq_true, if_false]

/-! ### Records of other families -/

/-- However a record goes, it touches its own family at most. -/
theorem Handled.beside (h : Handled reconciler record dryRun before report after) :
    Beside (target record) before after :=
  (keeps_reconcileRecord (partsKeep_of_work (fun _ _ h => h.beside)
    (beside_work reconciler record dryRun))).of_eq h.result_eq

theorem Handled.undisturbed (h : Handled reconciler record dryRun before report after)
    (hne : family ≠ target record) : Undisturbed family before after :=
  h.beside.undisturbed h.now_eq hne

/-- Records of other families leave a family alone. -/
theorem HandledAll.undisturbed (h : HandledAll reconciler dryRun before records reports after)
    (hne : ∀ record ∈ records, family ≠ target record) : Undisturbed family before after := by
  induction h with
  | nil => exact .refl _ _
  | cons hfirst _ ih =>
    exact (hfirst.undisturbed (hne _ List.mem_cons_self)).trans
      (ih fun other hother => hne other (List.mem_cons_of_mem _ hother))

/-! ### Runs -/

/-- A policy row after some records have gone in some ways. -/
def touched (dryRun : Bool) (entries : List (PolicyRecord × Report)) (row : PolicyRecord) :
    PolicyRecord :=
  entries.foldl (fun row entry => entry.2.touch dryRun entry.1 row) row

/-- What some records have come to in a run over them, and what the run has added. -/
structure CameAll (reconciler : Reconciler) (dryRun : Bool) (before : World)
    (records : List PolicyRecord) (entries : List Entry) (after : World) : Prop where
  came : List.Forall₂ (fun record entry => Came reconciler record dryRun before entry after)
    records entries
  ledger : before.ledger.Extends after.ledger (entries.map Entry.row) (entries.flatMap Entry.events)
  policies_eq : after.ledger.tables.policies = before.ledger.tables.policies.map
    (touched dryRun (records.zip (entries.map Entry.report)))

/-- **A run.** Where no fault waits and no two records stand for the same family, a run adds what
its records have come to, in their order. -/
theorem HandledAll.exists_cameAll (hfaults : before.Faultless)
    (hfamilies : (records.map target).Nodup)
    (h : HandledAll reconciler dryRun before records reports after) :
    ∃ entries : List Entry, entries.map Entry.report = reports ∧
      CameAll reconciler dryRun before records entries after := by
  induction h with
  | nil => exact ⟨[], rfl, .nil, .refl _, (List.map_id' _).symm⟩
  | @cons before next after record report records reports hfirst hrest ih =>
    rw [List.map_cons, List.nodup_cons] at hfamilies
    have hne : ∀ other ∈ records, target other ≠ target record := fun other hother heq =>
      hfamilies.1 (heq ▸ List.mem_map_of_mem hother)
    obtain ⟨entry, rfl, hcame, hadded⟩ := hfirst.exists_came hfaults
    obtain ⟨entries, rfl, hothers, hledger, hpolicies⟩ :=
      ih (Faultless.mono hfaults hfirst.beside.faults_sublist) hfamilies.2
    refine ⟨entry :: entries, rfl, .cons ?_ ?_, hadded.ledger.trans hledger, ?_⟩
    · exact hcame.of_undisturbed (.refl _ _)
        (hrest.undisturbed fun other hother => Ne.symm (hne other hother))
    · exact ((List.forall₂_and_left _ _).mpr ⟨hne, hothers⟩).imp fun other entry hother =>
        hother.2.of_undisturbed (hfirst.undisturbed hother.1) (.refl _ _)
    · rw [hpolicies, hadded.policies_eq, List.map_map]
      rfl

/-- A run over all managed records, where no fault waits and no two of them stand for the same
family. -/
theorem exists_cameAll (reconciler : Reconciler) (dryRun : Bool) (hfaults : before.Faultless)
    (hfamilies : (before.ledger.managed.map target).Nodup) :
    ∃ found entries summary after, findManaged before = (.ok before.ledger.managed, found) ∧
      HandledAll reconciler dryRun found before.ledger.managed (entries.map Entry.report) after ∧
      reconciler.reconcileAll dryRun before = (.ok summary, after) ∧
      CameAll reconciler dryRun before before.ledger.managed entries after := by
  obtain ⟨found, reports, after, hfind, honly, hledger, hall, hrun⟩ :=
    exists_reconcileAll reconciler dryRun hfaults
  obtain ⟨entries, rfl, hcame, hextends, hpolicies⟩ :=
    hall.exists_cameAll (Faultless.mono hfaults honly.faults_sublist) hfamilies
  rw [hledger] at hextends hpolicies
  refine ⟨found, entries, _, after, hfind, hall, hrun, hcame.imp fun record entry h => ?_, hextends,
    hpolicies⟩
  exact h.of_undisturbed (honly.toAdminSame.undisturbed _) (.refl _ _)

end Reconciler

end Retention

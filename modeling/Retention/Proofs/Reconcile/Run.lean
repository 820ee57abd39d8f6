import Retention.Proofs.Reconcile.Record

/-!
# Runs over several records

The records of a run are taken up in order, and a run over some records and then some more is the
one run after the other. A run ends early only where a failure cannot be put into words.

* `Reconciler.keeps_reconcileRecord`, `Reconciler.keeps_reconcileRecords`: what a run leaves alone.
* `Reconciler.reconcileRecords_append`: a run in two parts.
* `Reconciler.reconcileAll_cases`: how reconciling all managed records goes.
* `Reconciler.Turn`: such a run comes to a record.
* `Reconciler.Course.atRest`, `Reconciler.atRest_of_reconcileRecords`: the world is at rest again.
-/

namespace Retention.Reconciler

open World

variable {reconciler : Reconciler} {record : PolicyRecord} {dryRun : Bool} {world after : World}

/-! ### What a run leaves alone -/

/-- A relation holds across each of the parts of reconciling a record. -/
structure PartsKeep (reconciler : Reconciler) (record : PolicyRecord) (dryRun : Bool)
    (relation : World → World → Prop) : Prop where
  create : ∀ start, (createHistory start).Keeps relation
  work : (reconciler.work record dryRun).Keeps relation
  conclude : ∀ history finding,
    (session.transaction (conclusion record history dryRun finding)).Keeps relation
  complete : ∀ history outcome, (completeHistory .pool history outcome).Keeps relation
  count : ∀ action status, (count action status).Keeps relation

section Keeps

variable {relation : World → World → Prop} [Std.Refl relation] [IsTrans World relation]

/-- What all parts of reconciling a record leave alone, reconciling it leaves alone. -/
theorem keeps_reconcileRecord (h : PartsKeep reconciler record dryRun relation) :
    (reconciler.reconcileRecord record dryRun).Keeps relation := by
  have hmoment : moment.Keeps relation := fun _ => Std.Refl.refl _
  have hsaid (failure : Failure) : (said failure).Keeps relation := Step.keeps_ofExcept _
  have hrecord (history message : Text) : (recordFailure history message).Keeps relation :=
    hmoment.bind fun _ => (h.complete _ _).recover fun failure =>
      (hsaid failure).bind fun _ => Step.keeps_pure _
  have hfail (history : Option Text) (failure : Failure) :
      (fail record history failure).Keeps relation := by
    refine (hsaid failure).bind fun message => ?_
    cases history with
    | none => exact h.count _ _
    | some history => exact (hrecord history message).bind fun _ => h.count _ _
  refine hmoment.bind fun now => (h.create _).attempt.bind fun created => ?_
  cases created with
  | error failure => exact (hfail none failure).bind fun _ => Step.keeps_pure _
  | ok history =>
    have hattempt : (reconciler.attempt record dryRun history).Keeps relation :=
      h.work.bind fun finding => (h.conclude history finding).bind fun _ => Step.keeps_pure finding
    refine hattempt.attempt.bind fun attempted => ?_
    cases attempted with
    | error failure => exact (hfail (some history) failure).bind fun _ => Step.keeps_pure _
    | ok finding => exact (h.count _ _).bind fun _ => Step.keeps_pure _

/-- What is left alone for each record is left alone in a run. -/
theorem keeps_reconcileRecords {records : List PolicyRecord}
    (h : ∀ record ∈ records, PartsKeep reconciler record dryRun relation) :
    (reconciler.reconcileRecords dryRun records).Keeps relation := by
  induction records with
  | nil => exact Step.keeps_pure _
  | cons record rest ih =>
    refine (keeps_reconcileRecord (h record List.mem_cons_self)).bind fun _ => ?_
    exact (ih fun other hother => h other (List.mem_cons_of_mem _ hother)).bind fun _ =>
      Step.keeps_pure _

end Keeps

/-- What the work leaves alone all parts leave alone, if no more is said than of the admin API. -/
theorem partsKeep_of_work {relation : World → World → Prop}
    (hadmin : ∀ before after, AdminSame before after → relation before after)
    (hwork : (reconciler.work record dryRun).Keeps relation) :
    PartsKeep reconciler record dryRun relation where
  create _ world := hadmin _ _ (ledgerOnly_execute _ _ _ world).toAdminSame
  work := hwork
  conclude history finding world := hadmin _ _ (ledgerOnly_transaction (fun world =>
    (tablesOnly_conclusion record history dryRun finding world).toLedgerOnly) world).toAdminSame
  complete _ _ world := hadmin _ _ (ledgerOnly_change _ _ _ world).toAdminSame
  count _ _ _ := hadmin _ _ (adminSame_of_count rfl).1

/-! ### One after the other -/

/-- A record that ends without words for its failure ends the run. -/
theorem reconcileRecords_cons_of_error {rest : List PolicyRecord} {next : World}
    {failure : Failure}
    (h : reconciler.reconcileRecord record dryRun world = (.error failure, next)) :
    reconciler.reconcileRecords dryRun (record :: rest) world = (.error failure, next) :=
  Step.bind_of_error h _

/-- After a record the others are taken up, and it counts if it failed. -/
theorem reconcileRecords_cons_of_ok {rest : List PolicyRecord} {next last : World}
    {succeeded : Bool} {others : Except Failure Nat}
    (h : reconciler.reconcileRecord record dryRun world = (.ok succeeded, next))
    (hrest : reconciler.reconcileRecords dryRun rest next = (others, last)) :
    reconciler.reconcileRecords dryRun (record :: rest) world =
      (others.map ((if succeeded then 0 else 1) + ·), last) := by
  have hgo : reconciler.reconcileRecords dryRun (record :: rest) world =
      ((fun failed => (if succeeded then 0 else 1) + failed) <$>
        reconciler.reconcileRecords dryRun rest) next := Step.bind_of_ok h _
  rw [hgo, Step.map_apply, hrest]

/-- A run over a record and others has reconciled the record, and then the others unless it ended
there. -/
theorem reconcileRecords_cons {rest : List PolicyRecord} {result : Except Failure Nat}
    (h : reconciler.reconcileRecords dryRun (record :: rest) world = (result, after)) :
    ∃ outcome next, reconciler.reconcileRecord record dryRun world = (outcome, next) ∧
      ((∃ failure, outcome = .error failure ∧ result = .error failure ∧ after = next) ∨
        ∃ succeeded others, outcome = .ok succeeded ∧
          reconciler.reconcileRecords dryRun rest next = (others, after) ∧
          result = others.map ((if succeeded then 0 else 1) + ·)) := by
  cases hrecord : reconciler.reconcileRecord record dryRun world with
  | mk outcome next =>
    refine ⟨outcome, next, rfl, ?_⟩
    cases outcome with
    | error failure =>
      rw [reconcileRecords_cons_of_error hrecord] at h
      obtain ⟨rfl, rfl⟩ := Prod.mk.inj h
      exact Or.inl ⟨failure, rfl, rfl, rfl⟩
    | ok succeeded =>
      cases hothers : reconciler.reconcileRecords dryRun rest next with
      | mk others last =>
        rw [reconcileRecords_cons_of_ok hrecord hothers] at h
        obtain ⟨rfl, rfl⟩ := Prod.mk.inj h
        exact Or.inr ⟨succeeded, others, rfl, rfl, rfl⟩

/-- In a run without failures every record succeeds. -/
theorem reconcileRecords_cons_eq_zero {rest : List PolicyRecord}
    (h : reconciler.reconcileRecords dryRun (record :: rest) world = (.ok 0, after)) :
    ∃ next, reconciler.reconcileRecord record dryRun world = (.ok true, next) ∧
      reconciler.reconcileRecords dryRun rest next = (.ok 0, after) := by
  obtain ⟨outcome, next, hrecord, ⟨_, -, ⟨⟩, -⟩ | ⟨succeeded, others, rfl, hothers, hresult⟩⟩ :=
    reconcileRecords_cons h
  obtain ⟨failed, rfl, hzero⟩ := exceptMap_eq_ok_iff.mp hresult.symm
  cases succeeded with
  | false => simp at hzero
  | true =>
    obtain rfl : failed = 0 := by simpa using hzero
    exact ⟨next, hrecord, hothers⟩

/-- A run over some records and then some more stops within the first part or goes on to the
second. -/
theorem reconcileRecords_append {front rest : List PolicyRecord} {result : Except Failure Nat}
    (h : reconciler.reconcileRecords dryRun (front ++ rest) world = (result, after)) :
    (∃ failure, result = .error failure ∧
        reconciler.reconcileRecords dryRun front world = (.error failure, after)) ∨
      ∃ failed middle others, reconciler.reconcileRecords dryRun front world = (.ok failed, middle) ∧
        reconciler.reconcileRecords dryRun rest middle = (others, after) ∧
        result = others.map (failed + ·) := by
  induction front generalizing world result with
  | nil =>
    refine Or.inr ⟨0, world, result, rfl, h, ?_⟩
    cases result <;> simp [Except.map]
  | cons record front ih =>
    obtain ⟨outcome, next, hrecord, ⟨failure, rfl, rfl, rfl⟩ | ⟨succeeded, others, rfl, hothers, rfl⟩⟩ :=
      reconcileRecords_cons (List.cons_append ▸ h)
    · exact Or.inl ⟨failure, rfl, reconcileRecords_cons_of_error hrecord⟩
    · obtain ⟨failure, rfl, hfront⟩ | ⟨failed, middle, remaining, hfront, hrest, rfl⟩ := ih hothers
      · exact Or.inl ⟨failure, rfl, reconcileRecords_cons_of_ok hrecord hfront⟩
      · refine Or.inr ⟨_, middle, remaining, reconcileRecords_cons_of_ok hrecord hfront, hrest, ?_⟩
        cases remaining <;> simp [Except.map, Nat.add_assoc]

/-- In a run without failures both parts are without failures. -/
theorem reconcileRecords_append_eq_zero {front rest : List PolicyRecord}
    (h : reconciler.reconcileRecords dryRun (front ++ rest) world = (.ok 0, after)) :
    ∃ middle, reconciler.reconcileRecords dryRun front world = (.ok 0, middle) ∧
      reconciler.reconcileRecords dryRun rest middle = (.ok 0, after) := by
  obtain ⟨_, ⟨⟩, -⟩ | ⟨failed, middle, _, hfront, hrest, hresult⟩ := reconcileRecords_append h
  obtain ⟨others, rfl, hsum⟩ := exceptMap_eq_ok_iff.mp hresult.symm
  obtain ⟨rfl, rfl⟩ : failed = 0 ∧ others = 0 := Nat.add_eq_zero_iff.mp hsum
  exact ⟨middle, hfront, hrest⟩

/-- When the managed records are found, reconciling all of them is a run over them. -/
theorem reconcileAll_of_ok {records : List PolicyRecord} {found last : World}
    {outcome : Except Failure Nat} (hfind : findManaged world = (.ok records, found))
    (hrun : reconciler.reconcileRecords dryRun records found = (outcome, last)) :
    reconciler.reconcileAll dryRun world =
      (outcome.map fun failed => ⟨records.length, failed⟩, last) := by
  have hgo : reconciler.reconcileAll dryRun world =
      ((fun failed => Summary.mk records.length failed) <$>
        reconciler.reconcileRecords dryRun records) found := Step.bind_of_ok hfind _
  rw [hgo, Step.map_apply, hrun]

/-- Reconciling all managed records fails at once, when they cannot be found, or it is a run over
them. -/
theorem reconcileAll_cases {result : Except Failure Summary}
    (h : reconciler.reconcileAll dryRun world = (result, after)) :
    (∃ failure, findManaged world = (.error failure, after) ∧ result = .error failure ∧
        after.ledger = world.ledger) ∨
      ∃ found outcome, findManaged world = (.ok world.ledger.managed, found) ∧
        LedgerOnly world found ∧ found.ledger = world.ledger ∧
        reconciler.reconcileRecords dryRun world.ledger.managed found = (outcome, after) ∧
        result = outcome.map fun failed => ⟨world.ledger.managed.length, failed⟩ := by
  cases hfind : findManaged world with
  | mk managed found =>
    rcases ask_cases hfind with ⟨honly, hledger, ⟨failure, rfl⟩ | rfl⟩
    · have hrun : reconciler.reconcileAll dryRun world = (.error failure, found) :=
        Step.bind_of_error hfind _
      obtain ⟨rfl, rfl⟩ := Prod.mk.inj (hrun.symm.trans h)
      exact Or.inl ⟨failure, rfl, rfl, hledger⟩
    · cases hrecords : reconciler.reconcileRecords dryRun world.ledger.managed found with
      | mk outcome last =>
        obtain ⟨rfl, rfl⟩ := Prod.mk.inj ((reconcileAll_of_ok hfind hrecords).symm.trans h)
        exact Or.inr ⟨found, outcome, rfl, honly, hledger, hrecords, rfl⟩

/-- Reconciling all managed records without failures is a run over them without failures. -/
theorem reconcileAll_eq_zero {summary : Summary}
    (h : reconciler.reconcileAll dryRun world = (.ok summary, after))
    (hfailed : summary.failed = 0) :
    ∃ found, findManaged world = (.ok world.ledger.managed, found) ∧ LedgerOnly world found ∧
      found.ledger = world.ledger ∧
      reconciler.reconcileRecords dryRun world.ledger.managed found = (.ok 0, after) := by
  obtain ⟨_, -, ⟨⟩, -⟩ | ⟨found, outcome, hfind, honly, hledger, hrun, hresult⟩ :=
    reconcileAll_cases h
  obtain ⟨failed, rfl, rfl⟩ := exceptMap_eq_ok_iff.mp hresult.symm
  obtain rfl : failed = 0 := hfailed
  exact ⟨found, hfind, honly, hledger, hrun⟩

/-- A run comes to a record: it has found the managed records, and those before this one have not
ended it. -/
def Turn (reconciler : Reconciler) (dryRun : Bool) (before : World) (record : PolicyRecord)
    (reached : World) : Prop :=
  ∃ front rest failed found, findManaged before = (.ok (front ++ record :: rest), found) ∧
    reconciler.reconcileRecords dryRun front found = (.ok failed, reached)

/-- A run comes to the first record when it has found the managed records. -/
theorem Turn.eq_found {rest : List PolicyRecord} {found reached : World}
    (hturn : Turn reconciler dryRun world record reached)
    (hfind : findManaged world = (.ok (record :: rest), found)) (hnot : record ∉ rest) :
    reached = found := by
  obtain ⟨front, others, failed, found', hfind', hfront⟩ := hturn
  obtain ⟨hmanaged, rfl⟩ := Prod.mk.inj (hfind.symm.trans hfind')
  cases front with
  | nil => exact (Prod.mk.inj hfront).2.symm
  | cons first front =>
    rw [(List.cons.inj (Except.ok.inj hmanaged)).2] at hnot
    exact absurd (List.mem_append_right _ List.mem_cons_self) hnot

/-! ### The world is at rest again -/

/-- After a record the world is at rest again. -/
theorem Course.atRest {result : Except Failure Bool} (hrest : world.AtRest)
    (h : Course reconciler record dryRun world after result) : after.AtRest := by
  cases h with
  | unstarted hresult hside hledger =>
    exact hrest.mono (by rw [hledger, hrest.savepoint_eq]) (by rw [hledger]) hside.faults_sublist
  | @failed _ history started worked _ hresult hstart hwork hside hnoted =>
    have hstarted := atRest_of_createHistory hrest hstart
    have hadmin := (adminOnly_work reconciler record dryRun).of_eq hwork
    have hfaults := hside.faults_sublist.trans hadmin.faults_sublist
    rcases hnoted with hnoted | ⟨_, _, -, -, hnoted⟩
    · exact hstarted.mono (by rw [hnoted, hstarted.savepoint_eq]) (by rw [hnoted]) hfaults
    · exact hstarted.mono (by rw [hnoted]; exact hstarted.savepoint_eq) (by rw [hnoted]; rfl) hfaults
  | @succeeded history started worked finding hstart hwork hside hledger =>
    have hstarted := atRest_of_createHistory hrest hstart
    have hadmin := (adminOnly_work reconciler record dryRun).of_eq hwork
    refine hstarted.mono (by rw [hledger]) ?_ (hside.faults_sublist.trans hadmin.faults_sublist)
    rw [hledger, concluded_eq]

theorem atRest_of_reconcileRecord {result : Except Failure Bool} (hrest : world.AtRest)
    (h : reconciler.reconcileRecord record dryRun world = (result, after)) : after.AtRest :=
  (course_of_reconcileRecord hrest h).atRest hrest

/-- After some records the world is at rest again. -/
theorem atRest_of_reconcileRecords {records : List PolicyRecord} {result : Except Failure Nat}
    (hrest : world.AtRest)
    (h : reconciler.reconcileRecords dryRun records world = (result, after)) : after.AtRest := by
  induction records generalizing world result with
  | nil =>
    obtain ⟨-, rfl⟩ := Prod.mk.inj h
    exact hrest
  | cons record records ih =>
    obtain ⟨outcome, next, hrecord, ⟨_, -, -, rfl⟩ | ⟨_, others, -, hothers, -⟩⟩ :=
      reconcileRecords_cons h
    · exact atRest_of_reconcileRecord hrest hrecord
    · exact ih (atRest_of_reconcileRecord hrest hrecord) hothers

/-- After a run over all managed records the world is at rest again. -/
theorem atRest_of_reconcileAll {result : Except Failure Summary} (hrest : world.AtRest)
    (h : reconciler.reconcileAll dryRun world = (result, after)) : after.AtRest := by
  obtain ⟨_, hfind, -, hledger⟩ | ⟨found, _, -, honly, hledger, hrun, -⟩ := reconcileAll_cases h
  · exact hrest.mono (by rw [hledger, hrest.savepoint_eq]) (by rw [hledger])
      (ask_cases hfind).1.faults_sublist
  · exact atRest_of_reconcileRecords (hrest.mono (by rw [hledger, hrest.savepoint_eq])
      (by rw [hledger]) honly.faults_sublist) hrun

end Retention.Reconciler

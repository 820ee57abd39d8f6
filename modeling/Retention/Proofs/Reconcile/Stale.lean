import Retention.Proofs.Reconcile.Entry
import Retention.Proofs.Service.Course

/-!
# Records that were loaded before an order

A run loads the managed records once and then takes them up one by one. An order to give a family a
policy may be answered in between. The family's record is then taken up as it was loaded: its old
rules are applied again, or the family is released, although it was given a policy since. The row
keeps what the order wrote, apart from the mark of a release.

So an order survives a record that was loaded before it only where the record has nothing to do with
it: the record was to be abandoned, its rules are refused, or they come to the same policy.

## Main definitions

* `Ledger.Holds`: a record stands in a ledger that tells its records apart.
* `Reconciler.PassedOver`: what other records leave alone.
* `Reconciler.policyLeft`, `Reconciler.rowLeft`: what a family and its row are left with.
* `Reconciler.Leaves`: what a record leaves that was loaded before an order.

## Main results

* `Service.carriedOut_of_respond`: an order that is answered with success was carried out.
* `Reconciler.passedOver_of_reconcileRecords`: a run over other records passes over a family and
  its row.
* `Reconciler.work_of_given`: the work on a record whose family was given a policy.
* `Reconciler.reconcileRecord_of_given`: what is left when such a record is taken up.
* `Reconciler.reconcileRecord_after_order`: what is left of an order that came in between.
* `Reconciler.not_kept_of_stale`: orders that are lost.
-/

namespace Retention

open Reconciler (target)

/-! ### The rows of a ledger -/

namespace Ledger

variable {ledger other : Ledger} {record : PolicyRecord}

/-- A record stands in a ledger in which no two records stand for one family. -/
structure Holds (ledger : Ledger) (record : PolicyRecord) : Prop where
  nodup : (ledger.tables.policies.map target).Nodup
  mem : record ∈ ledger.tables.policies

/-- Rows are changed one by one, and keep their families. -/
theorem Holds.map (h : ledger.Holds record) (change : PolicyRecord → PolicyRecord)
    (htarget : ∀ row, target (change row) = target row)
    (hpolicies : other.tables.policies = ledger.tables.policies.map change) :
    other.Holds (change record) where
  nodup := by
    rw [hpolicies, List.map_map, show target ∘ change = target from funext htarget]
    exact h.nodup
  mem := hpolicies ▸ List.mem_map_of_mem h.mem

/-- The record takes over rules that its family is given from outside. -/
theorem Holds.upsert (h : ledger.Holds record) (rules : Json) (mode : DeletionMode) :
    (ledger.upsert (target record).table (target record).family rules mode).Holds
      (takenOver rules mode record) := by
  have hupsert : ledger.upsert (target record).table (target record).family rules mode =
      ledger.withPolicies (changeAt (target record) (takenOver rules mode)) :=
    upsert_of_some h.nodup (find?_of_mem h.nodup h.mem)
  have hchanged := h.map
    (fun row => if target row = target record then takenOver rules mode row else row)
    (fun row => by split <;> rfl) (congrArg (fun last => last.tables.policies) hupsert)
  rwa [if_pos rfl] at hchanged

end Ledger

/-! ### The order -/

namespace World

/-- A call that replaces a rule uses up the answer that was prepared. -/
theorem reply_of_modifyFamily {table family : Text} {message shown : Json} {world after : World}
    (h : modifyFamily table family message world = (.ok shown, after)) : after.reply = none := by
  obtain ⟨_, struck, -, hmodify⟩ := Step.bind_eq_ok_iff.mp h
  split at hmodify
  · cases hmodify
  · split at hmodify
    · cases hmodify
    · rw [← (Prod.mk.inj hmodify).2]

end World

namespace Service

open Http World

variable {service : Service} {request : Request} {disconnects : Bool} {table : TableName}
  {family : Text} {query : List Char} {value : Json} {response : Response} {world after : World}

/-- Where no fault waits, an order to give a family a policy that succeeds is carried out, and then
no answer of the admin API is prepared any more. -/
theorem carriedOut_of_putPolicy {target : FamilyRef} (hfaults : world.Faultless)
    (h : service.putPolicy target value disconnects world = (.ok response, after)) :
    ∃ policy mode, Policy.ofText (value.member? "gc_rules") = .ok policy ∧
      GivesMode (value.member? "deletion_mode") mode ∧
      CarriedOut target world (.put ((value.member? "gc_rules").getD .null) policy mode) after ∧
      after.Quiet := by
  obtain ⟨_, ⟨⟩, -⟩ | ⟨mode, -, hmode, hgive⟩ := giveRules_of_putPolicy h
  obtain ⟨applied, set, happly, hwrite⟩ := Step.bind_eq_ok_iff.mp hgive
  obtain ⟨_, ⟨⟩, -⟩ | ⟨policy, hpolicy, hset, -⟩ := Store.applied_or_of_apply happly
  obtain ⟨_, -, hsetPolicy⟩ := Store.apply_eq_ok_iff.mp happly
  obtain ⟨_, hcheck, -⟩ := Step.ofExcept_bind_eq_ok_iff.mp hsetPolicy
  obtain ⟨_, written, hupsert, hshown⟩ := Step.bind_eq_ok_iff.mp hwrite
  obtain ⟨_, -, hend⟩ := Step.ofExcept_bind_eq_ok_iff.mp hshown
  obtain ⟨-, rfl⟩ := Prod.mk.inj hend
  obtain ⟨_, _, ⟨⟩, hchange⟩ := Step.bind_eq_ok_iff.mp hupsert
  have honly : LedgerOnly set written := (ledgerOnly_change _ _ _).of_eq hchange
  have hside := (Store.adminOnly_apply _ _ _ _).of_eq happly
  refine ⟨policy, mode, hpolicy, hmode, .put ((ofText_getD_null _).trans hpolicy) hcheck
    (hset.given.congr rfl honly.tables_eq) ?_, ?_⟩
  · rw [ledger_change hchange, hset.ledger_eq]
  · obtain ⟨_, _, -, hmodify⟩ := hset.passed
    exact Quiet.mono ⟨Faultless.mono hfaults hside.faults_sublist, reply_of_modifyFamily hmodify⟩
      honly.reply_eq honly.faults_sublist

/-- Only an order that succeeds is answered with success. -/
theorem carriedOut_of_respond (hfaults : world.Faultless) (hmethod : request.method = .put)
    (hasked : service.asked? request = some ⟨.policy table family, query, value⟩)
    (h : service.respond request disconnects world = (response, after))
    (hstatus : response.status = 200) :
    ∃ policy mode, Policy.ofText (value.member? "gc_rules") = .ok policy ∧
      GivesMode (value.member? "deletion_mode") mode ∧
      CarriedOut (target table family) world
        (.put ((value.member? "gc_rules").getD .null) policy mode) after ∧ after.Quiet := by
  obtain ⟨-, hrefused, -⟩ | ⟨asked, full, hfound, hfullStatus, hfull⟩ := respond_cases h
  · omega
  obtain rfl := Option.some.inj (hasked.symm.trans hfound)
  rw [hmethod] at hfull
  change answer (service.putPolicy (target table family) value disconnects) world = _ at hfull
  rw [answer_apply] at hfull
  rcases hput : service.putPolicy (target table family) value disconnects world with
    ⟨failure | answered, last⟩
  · rw [hput] at hfull
    obtain ⟨rfl, -⟩ := Prod.mk.inj hfull
    have hfailed := Response.le_status_ofFailure failure
    omega
  · rw [hput] at hfull
    obtain ⟨-, rfl⟩ := Prod.mk.inj hfull
    exact carriedOut_of_putPolicy hfaults hput

end Service

namespace Reconciler

open World

variable {reconciler : Reconciler} {record : PolicyRecord} {records : List PolicyRecord}
  {family : FamilyRef} {id : Text} {given desired : Policy} {rules : Json} {mode : DeletionMode}
  {report : Report} {before started worked after later : World}

/-! ### Other records -/

theorem target_touch (dryRun : Bool) (record : PolicyRecord) (report : Report)
    (row : PolicyRecord) : target (report.touch dryRun record row) = target row := by
  unfold Report.touch
  split
  · split
    · unfold marked
      split <;> rfl
    · rfl
  · rfl

/-- A family and the rows with an id were left alone while other records were taken up. -/
structure PassedOver (family : FamilyRef) (id : Text) (before after : World) : Prop where
  undisturbed : Undisturbed family before after
  holds : ∀ row, row.id = id → before.ledger.Holds row → after.ledger.Holds row

theorem PassedOver.trans (h : PassedOver family id before after)
    (h' : PassedOver family id after later) : PassedOver family id before later :=
  ⟨h.undisturbed.trans h'.undisturbed, fun row hid hrow => h'.holds row hid (h.holds row hid hrow)⟩

/-- Where no fault waits, a record passes over the families and rows of others. -/
theorem Handled.passedOver (hfaults : before.Faultless)
    (h : Handled reconciler record false before report after) (hfamily : family ≠ target record)
    (hid : id ≠ record.id) : PassedOver family id before after := by
  refine ⟨h.undisturbed hfamily, fun row hrow hholds => ?_⟩
  obtain ⟨entry, rfl, -, hadded⟩ := h.exists_came hfaults
  have hafter := hholds.map (entry.report.touch false record) (target_touch false record _)
    hadded.policies_eq
  rwa [touch_of_ne (by rw [hrow]; exact hid)] at hafter

/-- Where no fault waits, a run over other records passes over a family and its row. -/
theorem passedOver_of_reconcileRecords {result : Except Failure Nat} (hfaults : before.Faultless)
    (h : reconciler.reconcileRecords false records before = (result, after))
    (hfamily : ∀ other ∈ records, family ≠ target other) (hid : ∀ other ∈ records, id ≠ other.id) :
    PassedOver family id before after := by
  obtain ⟨reports, last, hall⟩ := exists_handledAll reconciler false records hfaults.spoken
  obtain rfl : last = after := (Prod.mk.inj (hall.result_eq.symm.trans h)).2
  clear h
  induction hall with
  | nil => exact ⟨.refl _ _, fun _ _ hholds => hholds⟩
  | cons hfirst _ ih =>
    have hpassed :=
      hfirst.passedOver hfaults (hfamily _ List.mem_cons_self) (hid _ List.mem_cons_self)
    exact hpassed.trans (ih (Faultless.mono hfaults hpassed.undisturbed.faults_sublist)
      (fun other hother => hfamily other (List.mem_cons_of_mem _ hother))
      fun other hother => hid other (List.mem_cons_of_mem _ hother))

/-! ### The record -/

/-- The policy that a family is left with when a record is taken up as it was loaded, although the
family was given another policy since. -/
def policyLeft (record : PolicyRecord) (given : Policy) : Policy :=
  match record.desired, record.deletionMode with
  | .present, _ => (Policy.ofText record.rules?).toOption.getD given
  | .absent, .default => .noGc
  | .absent, .abandon => given

/-- The row that is left of the record: it has the rules and the mode of the order, and it is
released if the record was to be absent. -/
def rowLeft (record : PolicyRecord) (rules : Json) (mode : DeletionMode) : PolicyRecord :=
  { Ledger.takenOver rules mode record with released := record.desired = .absent }

/-- What a record leaves that was loaded before its family was given a policy: how its work ended,
and what its report does to the row that the order has written. -/
structure Leaves (record : PolicyRecord) (given : Policy) (outcome : Except Failure Finding)
    (worked : World) : Prop where
  live : Store.liveOf (worked.family? (target record)) = .ok (policyLeft record given)
  row : ∀ now ledger rules mode,
    (entryOf record false now ledger outcome).report.touch false record
      (Ledger.takenOver rules mode record) = rowLeft record rules mode

/-- Applying a record anew, or not, changes nothing about a row that was just written. -/
theorem touch_takenOver {action : Action} (hpresent : record.desired = .present)
    (haction : action = .noop ∨ action = .apply) (rules : Json) (mode : DeletionMode) :
    (Report.succeeded action).touch false record (Ledger.takenOver rules mode record) =
      rowLeft record rules mode := by
  have hid : (Ledger.takenOver rules mode record).id = record.id := rfl
  have hleft : rowLeft record rules mode = Ledger.takenOver rules mode record := by
    rw [rowLeft, hpresent]
    rfl
  rw [touch_of_eq hid, hleft]
  rcases haction with rfl | rfl <;> rfl

/-- Releasing a record marks the row. -/
theorem touch_takenOver_of_absent (habsent : record.desired = .absent) (rules : Json)
    (mode : DeletionMode) :
    (Report.succeeded (releaseAction record.deletionMode)).touch false record
      (Ledger.takenOver rules mode record) = rowLeft record rules mode := by
  have hid : (Ledger.takenOver rules mode record).id = record.id := rfl
  rw [touch_of_eq hid, rowLeft, habsent]
  cases record.deletionMode <;> rfl

/-- A record that is to be present, but whose rules are refused, fails before its family is
touched. -/
theorem leaves_of_refused (hpresent : record.desired = .present) {failure : Failure}
    (hrefused : Policy.ofText record.rules? = .error failure)
    (hlive : Store.liveOf (started.family? (target record)) = .ok given)
    {outcome : Except Failure Finding}
    (h : reconciler.work record false started = (outcome, worked)) :
    Leaves record given outcome worked := by
  have hfails : reconciler.work record false started = (.error failure, started) := by
    rw [work, hpresent]
    exact Step.bind_of_error (Step.bind_of_error (by rw [hrefused]; rfl) _) _
  obtain ⟨rfl, rfl⟩ := Prod.mk.inj (hfails.symm.trans h)
  refine ⟨?_, fun now ledger rules mode => ?_⟩
  · rw [policyLeft, hpresent, hrefused]
    exact hlive
  · rw [rowLeft, hpresent]
    rfl

section Given

variable (hquiet : started.Quiet) (hcheck : (target record).check = .ok ())
  (hauthored : given.Authored)
  (hentry : started.ownFamily? (target record) = some (.object [("gcRule", given.toMessage)]))

include hquiet hcheck hauthored hentry

/-- A record that is to be present has its own rules applied again. -/
theorem leaves_of_accepted (hpresent : record.desired = .present)
    (hdesired : Policy.ofText record.rules? = .ok desired) {outcome : Except Failure Finding}
    (h : reconciler.work record false started = (outcome, worked)) :
    Leaves record given outcome worked := by
  have hlive := Store.liveOf_given hauthored.sendable
  obtain ⟨finding, reached, hwork⟩ := exists_work hdesired hcheck hentry hlive
    (hauthored.imp_right Policy.Compiled.expressible) reconciler hpresent hquiet
  obtain ⟨rfl, rfl⟩ := Prod.mk.inj (hwork.symm.trans h)
  obtain ⟨hleft, haction⟩ : Store.liveOf (reached.family? (target record)) = .ok desired ∧
      (finding.action = .noop ∨ finding.action = .apply) := by
    cases worked_of_work hwork with
    | @noop drift _ _ _ hdrift _ hdrifted =>
      -- Nothing has drifted, so what was given is what the record's rules come to.
      obtain ⟨hread, hseen, hdiffers⟩ := Store.drift_eq_ok_iff.mp hdrift
      obtain rfl := Except.ok.inj (hdesired.symm.trans hread)
      obtain ⟨-, hpolicy⟩ :=
        (Store.live_of_faults_nil _ _ _ hquiet.faults_eq).mp ⟨reached, hseen⟩
      rw [family?_of_ownFamily? hentry, hlive] at hpolicy
      obtain ⟨_, hsame, hiff⟩ := (Policy.authored_of_ofText hdesired).differs_eq hauthored
      rw [Except.ok.inj hpolicy, hdiffers, hdrifted] at hsame
      have hgiven := hiff.mp (Except.ok.inj hsame).symm
      rw [family?_congr (tables_of_drift hdrift), family?_of_ownFamily? hentry, ← hgiven]
      exact ⟨hlive, Or.inl rfl⟩
    | applied _ _ hdrift _ _ hset =>
      obtain ⟨hread, -, -⟩ := Store.drift_eq_ok_iff.mp hdrift
      obtain rfl := Except.ok.inj (hdesired.symm.trans hread)
      rw [(Store.setPolicy_eq_ok hset).2.family?_self]
      exact ⟨Store.liveOf_given (Policy.authored_of_ofText hdesired).sendable, Or.inr rfl⟩
    | released habsent => cases habsent.symm.trans hpresent
    | drifted _ hdryRun | pending _ hdryRun => cases hdryRun
  refine ⟨?_, fun now ledger rules mode => touch_takenOver hpresent haction rules mode⟩
  rw [policyLeft, hpresent, hdesired]
  exact hleft

/-- A record that is to be absent has its family released. -/
theorem leaves_of_absent (habsent : record.desired = .absent) {outcome : Except Failure Finding}
    (h : reconciler.work record false started = (outcome, worked)) :
    Leaves record given outcome worked := by
  have hrelease : reconciler.work record false = reconciler.release record false := by
    rw [work, habsent]
  obtain ⟨released, hreleased⟩ : ∃ released, reconciler.store.release (target record)
      record.deletionMode reconciler.options started = (.ok (), released) := by
    cases record.deletionMode with
    | abandon => exact ⟨started, rfl⟩
    | default =>
      obtain ⟨reset, hset⟩ :=
        Store.exists_setPolicy reconciler.store reconciler.timeout hquiet hcheck hentry .noGc
      exact ⟨reset, Step.bind_of_ok hset _⟩
  have hwork : reconciler.work record false started =
      (.ok ⟨releaseAction record.deletionMode, false, .null⟩, released) := by
    rw [hrelease]
    exact Step.bind_of_ok hreleased _
  obtain ⟨rfl, rfl⟩ := Prod.mk.inj (hwork.symm.trans h)
  refine ⟨?_, fun now ledger rules mode => touch_takenOver_of_absent habsent rules mode⟩
  rw [policyLeft, habsent]
  obtain ⟨hmode, rfl⟩ | ⟨hmode, hgiven⟩ := release_cases hreleased
  · rw [hmode, family?_of_ownFamily? hentry]
    exact Store.liveOf_given hauthored.sendable
  · rw [hmode, hgiven.family?_self]
    exact Store.liveOf_given .noGc

end Given

/-- **The work on a record whose family was given a policy.** In a quiet world the work leaves the
family and the row with one policy and one row, by what the record was loaded with. -/
theorem work_of_given (hquiet : started.Quiet) (hcheck : (target record).check = .ok ())
    (hauthored : given.Authored)
    (hentry : started.ownFamily? (target record) = some (.object [("gcRule", given.toMessage)]))
    {outcome : Except Failure Finding}
    (h : reconciler.work record false started = (outcome, worked)) :
    Leaves record given outcome worked := by
  cases hdesired : record.desired with
  | absent => exact leaves_of_absent hquiet hcheck hauthored hentry hdesired h
  | present =>
    cases hrules : Policy.ofText record.rules? with
    | ok desired => exact leaves_of_accepted hquiet hcheck hauthored hentry hdesired hrules h
    | error failure =>
      refine leaves_of_refused hdesired hrules ?_ h
      rw [family?_of_ownFamily? hentry]
      exact Store.liveOf_given hauthored.sendable

/-- **A record whose family was given a policy.** In a quiet world, taking up a record leaves its
family and its row by what the record was loaded with, although the family was given a policy and
the row was written since. -/
theorem reconcileRecord_of_given (hquiet : before.Quiet) (hcheck : (target record).check = .ok ())
    (hauthored : given.Authored)
    (hentry : before.ownFamily? (target record) = some (.object [("gcRule", given.toMessage)]))
    (hholds : before.ledger.Holds (Ledger.takenOver rules mode record))
    {result : Except Failure Bool}
    (h : reconciler.reconcileRecord record false before = (result, after)) :
    Store.liveOf (after.family? (target record)) = .ok (policyLeft record given) ∧
      after.ledger.find? record.table record.family = some (rowLeft record rules mode) := by
  obtain ⟨report, last, hhandled, -⟩ :=
    exists_handled reconciler record false (Faultless.spoken hquiet.faults_eq)
  obtain rfl : last = after := (Prod.mk.inj (hhandled.result_eq.symm.trans h)).2
  obtain ⟨entry, -, hcame, hadded⟩ := hhandled.exists_came hquiet.faults_eq
  have hrows := hholds.map (entry.report.touch false record) (target_touch false record _)
    hadded.policies_eq
  cases hcame with
  | intro ledger hstarted hwork hended =>
    have hleaves := work_of_given (hstarted.quiet hquiet) hcheck hauthored
      (hstarted.looksAlike.ownFamily?_eq.trans hentry) hwork
    rw [hleaves.row] at hrows
    rw [hended.looksAlike.family?_eq]
    exact ⟨hleaves.live, Ledger.find?_of_mem hrows.nodup hrows.mem⟩

/-! ### An order in between -/

/-- The order is kept exactly where the record was to be present and its rules are refused or come
to the same policy. -/
theorem kept_iff :
    (policyLeft record given = given ∧ (rowLeft record rules mode).released = false) ↔
      record.desired = .present ∧
        ∀ policy, Policy.ofText record.rules? = .ok policy → policy = given := by
  cases hdesired : record.desired with
  | absent => simp [rowLeft, hdesired]
  | present =>
    cases hrules : Policy.ofText record.rules? with
    | error failure => simp [policyLeft, rowLeft, hdesired, hrules, Except.toOption]
    | ok policy => simp [policyLeft, rowLeft, hdesired, hrules, Except.toOption]

/-- What tells the records of a run apart tells a record from those before it. -/
theorem ne_of_nodup {α : Type} {key : PolicyRecord → α} {front rest : List PolicyRecord}
    (h : ((front ++ record :: rest).map key).Nodup) : ∀ other ∈ front, key record ≠ key other := by
  intro other hother heq
  rw [List.map_append, List.map_cons, List.nodup_append] at h
  exact h.2.2 _ (List.mem_map_of_mem hother) _ List.mem_cons_self heq.symm

/-- **A record is taken up after an order.** Where no fault waits and the policy rows have families
and ids of their own, let a run have loaded its records, and let a request to give the family of one
of them a policy succeed before that record is taken up as it was loaded. The family is then left
with what the record comes to, and its row with the rules and the mode of the request. The order is
kept as a whole exactly where the record was to be present and its rules are refused or come to the
same policy. -/
theorem reconcileRecord_after_order {service : Service} {request : Http.Request}
    {disconnects : Bool} {table : TableName} {name : Text} {query : List Char} {value : Json}
    {response : Http.Response} {initial found asked answered reached after : World}
    {earlier between later : List PolicyRecord} {first second : Except Failure Nat}
    {result : Except Failure Bool} (hfaults : initial.Faultless)
    (hfamilies : (initial.ledger.tables.policies.map target).Nodup)
    (hids : (initial.ledger.tables.policies.map PolicyRecord.id).Nodup)
    (hfind : findManaged initial = (.ok (earlier ++ between ++ record :: later), found))
    (hearlier : reconciler.reconcileRecords false earlier found = (first, asked))
    (hmethod : request.method = .put)
    (hasked : service.asked? request = some ⟨.policy table name, query, value⟩)
    (htarget : Service.target table name = target record)
    (hrespond : service.respond request disconnects asked = (response, answered))
    (hstatus : response.status = 200)
    (hbetween : reconciler.reconcileRecords false between answered = (second, reached))
    (hrecord : reconciler.reconcileRecord record false reached = (result, after)) :
    ∃ policy mode, Policy.ofText (value.member? "gc_rules") = .ok policy ∧
      Service.GivesMode (value.member? "deletion_mode") mode ∧
      Store.liveOf (answered.family? (target record)) = .ok policy ∧
      Store.liveOf (after.family? (target record)) = .ok (policyLeft record policy) ∧
      after.ledger.find? record.table record.family =
        some (rowLeft record ((value.member? "gc_rules").getD .null) mode) ∧
      ((Store.liveOf (after.family? (target record)) = .ok policy ∧
          (rowLeft record ((value.member? "gc_rules").getD .null) mode).released = false) ↔
        record.desired = .present ∧
          ∀ own, Policy.ofText record.rules? = .ok own → own = policy) := by
  obtain ⟨honly, hledger, ⟨_, ⟨⟩⟩ | hmanaged⟩ := ask_cases hfind
  have hmanaged : earlier ++ between ++ record :: later = initial.ledger.managed :=
    Except.ok.inj hmanaged
  have hmem : record ∈ initial.ledger.tables.policies := by
    refine (Ledger.mem_managed.mp ?_).1
    rw [← hmanaged]
    exact List.mem_append_right _ List.mem_cons_self
  have hothers {α : Type} {key : PolicyRecord → α}
      (h : (initial.ledger.tables.policies.map key).Nodup) :
      ∀ other ∈ earlier ++ between, key record ≠ key other := by
    have hloaded := Ledger.nodup_map_managed h
    rw [← hmanaged] at hloaded
    exact ne_of_nodup hloaded
  -- The records before the order.
  have hfound := Faultless.mono hfaults honly.faults_sublist
  have hbefore := passedOver_of_reconcileRecords hfound hearlier
    (fun other hother => hothers hfamilies other (List.mem_append_left _ hother))
    (fun other hother => hothers hids other (List.mem_append_left _ hother))
  have hholds : asked.ledger.Holds record := by
    refine hbefore.holds record rfl ?_
    rw [hledger]
    exact ⟨hfamilies, hmem⟩
  -- The order.
  obtain ⟨policy, mode, hpolicy, hmode, hcarried, hquiet⟩ :=
    Service.carriedOut_of_respond (Faultless.mono hfound hbefore.undisturbed.faults_sublist) hmethod
      hasked hrespond hstatus
  rw [htarget] at hcarried
  obtain ⟨rules, hrules⟩ : ∃ rules, rules = (value.member? "gc_rules").getD .null := ⟨_, rfl⟩
  rw [← hrules] at hcarried ⊢
  have hauthored := Policy.authored_of_ofText hpolicy
  cases hcarried with
  | put _ hcheck hgiven hupserted =>
    have hanswered : answered.ledger.Holds (Ledger.takenOver rules mode record) := by
      rw [hupserted]
      exact hholds.upsert rules mode
    -- The records after the order.
    have hpassed := passedOver_of_reconcileRecords hquiet.faults_eq hbetween
      (fun other hother => hothers hfamilies other (List.mem_append_right _ hother))
      (fun other hother => hothers hids other (List.mem_append_right _ hother))
    have hreached : reached.ledger.Holds (Ledger.takenOver rules mode record) :=
      hpassed.holds _ rfl hanswered
    obtain ⟨hlive, hrow⟩ := reconcileRecord_of_given (hpassed.undisturbed.quiet hquiet) hcheck
      hauthored (hpassed.undisturbed.looksAlike.ownFamily?_eq.trans hgiven.ownFamily?_self) hreached
      hrecord
    refine ⟨policy, mode, hpolicy, hmode, ?_, hlive, hrow, ?_⟩
    · rw [hgiven.family?_self]
      exact Store.liveOf_given hauthored.sendable
    · rw [hlive, Except.ok.injEq]
      exact kept_iff

/-- A record whose family is to keep two versions. -/
def older : PolicyRecord :=
  recordOf "policy-1" "f" (.object [("max_version", .number 2)]) .default .present

/-- A record whose family is to be reset. -/
def leaving : PolicyRecord := recordOf "policy-2" "e" .null .default .absent

/-- A family is given an age of five seconds in a world where its record was loaded. -/
theorem respond_putAge {response : Http.Response} {found answered : World}
    (hput : Service.plain.putPolicy (Service.target ⟨"pp", "ii", "t"⟩ "f") Service.ageBody false
      found = (.ok response, answered)) :
    Service.plain.respond Service.putAge false found = (response, answered) := by
  rw [Service.respond_of_put rfl Service.asked?_putAge, Service.answer_apply, hput]

/-- After another record was reset, a family is given an age of five seconds, but its record was
loaded with two versions. -/
theorem reconcileRecord_after_order_older : ∃ initial found asked answered after response mode,
    initial = worldWith [("e", twoVersions), ("f", twoVersions)] [leaving, older] [] ∧
      findManaged initial = (.ok [leaving, older], found) ∧
      patient.reconcileRecords false [leaving] found = (.ok 0, asked) ∧
      Service.plain.respond Service.putAge false asked = (response, answered) ∧
      response.status = 200 ∧ patient.reconcileRecord older false answered = (.ok true, after) ∧
      Store.liveOf (after.family? (target older)) = .ok (.maxVersions 2) ∧
      after.ledger.find? older.table older.family =
        some (rowLeft older (.object [("max_age", .string "5s")]) mode) := by
  obtain ⟨initial, hinitial⟩ : ∃ initial, initial =
    worldWith [("e", twoVersions), ("f", twoVersions)] [leaving, older] [] := ⟨_, rfl⟩
  obtain ⟨asked, response, answered, after, hfirst, hput, hstatus, hrecord⟩ :
      ∃ asked response answered after, patient.reconcileRecord leaving false
          (foundIn [("e", twoVersions), ("f", twoVersions)] [leaving, older] []) =
            (.ok true, asked) ∧
        Service.plain.putPolicy (Service.target ⟨"pp", "ii", "t"⟩ "f") Service.ageBody false asked =
          (.ok response, answered) ∧ response.status = 200 ∧
        patient.reconcileRecord older false answered = (.ok true, after) :=
    ⟨_, _, _, _, rfl, rfl, rfl, rfl⟩
  have hfind : findManaged initial = (.ok ([leaving] ++ [] ++ older :: []),
      foundIn [("e", twoVersions), ("f", twoVersions)] [leaving, older] []) := by
    rw [hinitial]
    exact findManaged_worldWith _ (by simp; exact ⟨rfl, rfl⟩) (by simp; rfl) (by decide)
  have hearlier := reconcileRecords_cons_of_ok hfirst
    (rfl : patient.reconcileRecords false [] asked = (.ok 0, asked))
  have hfaults : initial.Faultless := by
    rw [hinitial]
    rfl
  have hfamilies : (initial.ledger.tables.policies.map target).Nodup := by
    rw [hinitial]
    decide
  have hids : (initial.ledger.tables.policies.map PolicyRecord.id).Nodup := by
    rw [hinitial]
    decide
  have hrespond := respond_putAge hput
  obtain ⟨policy, mode, -, -, -, hlive, hrow, -⟩ := reconcileRecord_after_order hfaults hfamilies
    hids hfind hearlier rfl Service.asked?_putAge rfl hrespond hstatus rfl hrecord
  exact ⟨initial, _, asked, answered, after, response, mode, hinitial, hfind, hearlier, hrespond,
    hstatus, hrecord, hlive, hrow⟩

/-- A record whose family is to be left as it is. -/
def abandoned : PolicyRecord := recordOf "policy-1" "f" .null .abandon .absent

/-- A record whose family is to be reset. -/
def unwanted : PolicyRecord := recordOf "policy-1" "f" .null .default .absent

/-- A family is given an age of five seconds after its record was loaded. When the record is then
taken up, its old rules are applied again, or the family is reset, or at least the row is
released. -/
theorem not_kept_of_stale :
    Policy.ofText (Service.ageBody.member? "gc_rules") = .ok (.maxAge 5) ∧
      ∀ entry ∈ [(older, Policy.maxVersions 2, false), (unwanted, .noGc, true),
          (abandoned, .maxAge 5, true)],
        ∃ found response answered after,
          findManaged (worldWith [("f", twoVersions)] [entry.1] []) = (.ok [entry.1], found) ∧
            Service.plain.respond Service.putAge false found = (response, answered) ∧
            response.status = 200 ∧
            patient.reconcileRecord entry.1 false answered = (.ok true, after) ∧
            Store.liveOf (after.family? (target entry.1)) = .ok entry.2.1 ∧
            (after.ledger.find? entry.1.table entry.1.family).map PolicyRecord.released =
              some entry.2.2 := by
  have hruns : ∀ entry ∈ [(older, Policy.maxVersions 2, false), (unwanted, .noGc, true),
      (abandoned, .maxAge 5, true)], entry.1.isManaged = true ∧
        ∃ response answered after,
          Service.plain.putPolicy (Service.target ⟨"pp", "ii", "t"⟩ "f") Service.ageBody false
              (foundIn [("f", twoVersions)] [entry.1] []) = (.ok response, answered) ∧
            response.status = 200 ∧
            patient.reconcileRecord entry.1 false answered = (.ok true, after) ∧
            Store.liveOf (after.family? (target entry.1)) = .ok entry.2.1 ∧
            (after.ledger.find? entry.1.table entry.1.family).map PolicyRecord.released =
              some entry.2.2 := by
    simp only [List.forall_mem_cons]
    exact ⟨⟨rfl, _, _, _, rfl, rfl, rfl, rfl, rfl⟩, ⟨rfl, _, _, _, rfl, rfl, rfl, rfl, rfl⟩,
      ⟨rfl, _, _, _, rfl, rfl, rfl, rfl, rfl⟩, nofun⟩
  refine ⟨rfl, fun entry hentry => ?_⟩
  obtain ⟨hmanaged, response, answered, after, hput, hstatus, hrecord, hlive, hrow⟩ :=
    hruns entry hentry
  exact ⟨_, response, answered, after, findManaged_worldWith _ (by simpa using hmanaged)
    (List.pairwise_singleton _ _) (by decide), respond_putAge hput, hstatus, hrecord, hlive, hrow⟩

end Reconciler

end Retention

import Retention.Proofs.Policy.Canonical
import Retention.Proofs.Reconcile.Account

/-!
# Families are healed

In a quiet world every record that is to be present succeeds when its rules are accepted and its
family is there, whatever policy the family has, as long as that policy has a canonical form. The
family then has the policy of the rules. It is left with the policy that it had when that one only
differs in wrappers, and is set otherwise.

Other records do not get in the way: however they go, they leave the family and the quiet alone.

## Main definitions

* `Reconciler.Healed`: what a family is left with.

## Main results

* `Reconciler.elsewhere_reconcileRecord`: a record touches its own family at most.
* `Reconciler.exists_reconcileRecord`: where no fault waits, a record succeeds when its work does.
* `Reconciler.reconcileAll_heals`: what becomes of a family whose policy has a canonical form.
* `Reconciler.not_heals_of_wrapped_or_unwritable`: what becomes of wrappers and of policies without
  a rule text.
-/

namespace Retention.Reconciler

open World

variable {reconciler : Reconciler} {record : PolicyRecord} {dryRun : Bool} {history : Text}
  {finding : Finding} {records : List PolicyRecord} {reports : List Report} {family : FamilyRef}
  {world before after : World} {desired live : Policy} {held : Json}

/-! ### Other records -/

/-- The work on a record touches the record's own family at most. -/
theorem elsewhere_work (reconciler : Reconciler) (record : PolicyRecord) (dryRun : Bool) :
    (reconciler.work record dryRun).Keeps (Elsewhere (target record)) :=
  keeps_work (Store.elsewhere_send _ (elsewhere_showTable _))
    fun _ message => Store.elsewhere_send _ (elsewhere_modifyFamily message)

/-- However a record goes, it touches its own family at most. -/
theorem elsewhere_reconcileRecord (reconciler : Reconciler) (record : PolicyRecord)
    (dryRun : Bool) :
    (reconciler.reconcileRecord record dryRun).Keeps (Elsewhere (target record)) :=
  keeps_reconcileRecord (partsKeep_of_work (fun _ _ h => h.elsewhere)
    (elsewhere_work reconciler record dryRun))

theorem Handled.elsewhere {report : Report}
    (h : Handled reconciler record dryRun before report after) :
    Elsewhere (target record) before after :=
  (elsewhere_reconcileRecord reconciler record dryRun).of_eq h.result_eq

namespace HandledAll

/-- Records of other families leave a family as it is. -/
theorem ownFamily?_of_ne (h : HandledAll reconciler dryRun before records reports after)
    (hne : ∀ record ∈ records, target record ≠ family) :
    after.ownFamily? family = before.ownFamily? family := by
  induction h with
  | nil => rfl
  | @cons _ _ _ record _ _ _ hfirst _ ih =>
    rw [ih fun other hother => hne other (List.mem_cons_of_mem _ hother)]
    exact hfirst.elsewhere.ownFamily?_of_ne family (Ne.symm (hne record List.mem_cons_self))

theorem quiet (h : HandledAll reconciler dryRun before records reports after)
    (hquiet : before.Quiet) : after.Quiet := by
  induction h with
  | nil => exact hquiet
  | cons hfirst _ ih => exact ih (hfirst.elsewhere.quiet hquiet)

/-- Before a record of a run others are handled, then the record, then others again. -/
theorem exists_middle {front rest : List PolicyRecord}
    (h : HandledAll reconciler dryRun before (front ++ record :: rest) reports after) :
    ∃ reached report next earlier later,
      HandledAll reconciler dryRun before front earlier reached ∧
      Handled reconciler record dryRun reached report next ∧
      HandledAll reconciler dryRun next rest later after ∧
      reports = earlier ++ report :: later := by
  induction front generalizing before reports with
  | nil =>
    cases h with
    | cons hfirst hrest => exact ⟨before, _, _, [], _, .nil, hfirst, hrest, rfl⟩
  | cons first front ih =>
    cases h with
    | cons hfirst hrest =>
      obtain ⟨reached, report, next, earlier, later, hfront, hmiddle, hlast, rfl⟩ := ih hrest
      exact ⟨reached, report, next, _ :: earlier, later, .cons hfirst hfront, hmiddle, hlast, rfl⟩

end HandledAll

/-! ### A record succeeds -/

theorem passes_conclusion (record : PolicyRecord) (history : Text) (dryRun : Bool)
    (finding : Finding) : (conclusion record history dryRun finding).Passes Faultless := by
  have hmoment : moment.Passes Faultless := fun _ h => ⟨h, nofun⟩
  have hpublish (event : OutboxEvent) : (publish event).Passes Faultless :=
    fun world => passes_change _ _ _ world
  refine hmoment.bind fun now => (passes_change _ _ _).bind fun _ => ?_
  split
  · exact Step.failsWith_pure _
  · dsimp only
    split
    · exact (passes_change _ _ _).bind fun _ => hpublish _
    · exact (passes_change _ _ _).bind fun _ => hpublish _

/-- Where no fault waits, a record succeeds when its work does, with the history row created first
and nothing but the ledger touched afterwards. -/
theorem exists_reconcileRecord (hfaults : world.Faultless)
    (hwork : ∀ started, LedgerOnly world started →
      ∃ finding worked, reconciler.work record dryRun started = (.ok finding, worked)) :
    ∃ after, reconciler.reconcileRecord record dryRun world = (.ok true, after) := by
  obtain ⟨history, started, hcreate, hstarted⟩ :=
    (passes_execute .pool (.createHistory (start record dryRun world.now))
      (Ledger.createHistory (start record dryRun world.now))).exists_ok hfaults
  obtain ⟨finding, worked, hworked⟩ := hwork started (createHistory_cases hcreate).1
  have hused := ((adminOnly_work reconciler record dryRun).of_eq hworked).faults_sublist
  obtain ⟨_, done, hdone, -⟩ := (passes_transaction
    (passes_conclusion record history dryRun finding)).exists_ok (Faultless.mono hstarted hused)
  have hattempt : reconciler.attempt record dryRun history started = (.ok finding, done) :=
    (Step.bind_of_ok hworked _).trans (Step.bind_of_ok hdone _)
  exact ⟨_, reconcileRecord_of_attempt hcreate hattempt⟩

/-! ### A family is healed -/

/-- What a family is left with: the policy that it had, whose canonical form is the one that it
should have, or else exactly that one. -/
def Healed (before after : World) (family : FamilyRef) (live desired : Policy) : Prop :=
  (after.ownFamily? family = before.ownFamily? family ∧ live.normal = .ok desired) ∨
    ∃ healed, after.ownFamily? family = some healed ∧ Policy.ofFamily healed = .ok desired

/-- When nothing has drifted there is nothing to do. -/
theorem converge_of_not_drifted {drift : Drift} {expected : Option Json}
    (hdrift : reconciler.store.drift (target record) record.rules? reconciler.options before =
      (.ok drift, after)) (hexpected : drift.desired.text = .ok expected)
    (hdrifted : drift.drifted = false) :
    reconciler.converge record dryRun before =
      (.ok ⟨.noop, false, expected.getD .null⟩, after) := by
  refine (Step.bind_of_ok hdrift _).trans
    (Step.ofExcept_bind_eq_ok_iff.mpr ⟨expected, hexpected, ?_⟩)
  rw [hdrifted]
  rfl

/-- What has drifted is set, or in a dry run only said. -/
theorem converge_of_drifted {drift : Drift} {expected : Option Json}
    (hdrift : reconciler.store.drift (target record) record.rules? reconciler.options before =
      (.ok drift, after)) (hexpected : drift.desired.text = .ok expected)
    (hdrifted : drift.drifted = true) :
    reconciler.converge record dryRun before =
      if dryRun then (.ok ⟨.drift, true, expected.getD .null⟩, after)
      else (reconciler.store.apply (target record) record.rules? reconciler.options >>= fun applied =>
        Step.ofExcept applied.text >>= fun rules =>
          pure (⟨.apply, true, rules.getD .null⟩ : Finding)) after := by
  have hread : (Step.ofExcept drift.desired.text : Step World (Option Json)) after =
      (.ok expected, after) := by
    rw [hexpected]
    rfl
  refine (Step.bind_of_ok hdrift _).trans ((Step.bind_of_ok hread _).trans ?_)
  rw [hdrifted]
  cases dryRun <;> rfl

section Present

variable (hdesired : Policy.ofText record.rules? = .ok desired)
  (hcheck : (target record).check = .ok ()) (hentry : world.ownFamily? (target record) = some held)
  (hlive : Store.liveOf (some held) = .ok live) (hform : live = .noGc ∨ live.Expressible)

include hdesired hcheck hentry hlive hform

/-- In a quiet world the record's family can be compared with its rules, which changes no table. -/
theorem exists_drift (reconciler : Reconciler) (hquiet : world.Quiet) : ∃ drift compared,
    reconciler.store.drift (target record) record.rules? reconciler.options world =
      (.ok drift, compared) ∧ drift.desired = desired ∧ compared.tables = world.tables ∧
        compared.Quiet := by
  obtain ⟨form, hnormal, -⟩ := Policy.exists_normal hform
  obtain ⟨compared, hseen⟩ := (Store.live_of_faults_nil reconciler.store (target record)
    reconciler.timeout hquiet.faults_eq).mpr ⟨hcheck, family?_of_ownFamily? hentry ▸ hlive⟩
  have hdiffers := Policy.differs_eq_ok (Policy.authored_of_ofText hdesired) hnormal
  have hquietly : Elsewhere (target record) world compared :=
    (Store.keeps_live (Store.elsewhere_send _ (elsewhere_showTable _))).of_eq hseen
  exact ⟨⟨!desired.same form, desired, live⟩, compared,
    Store.drift_eq_ok_iff.mpr ⟨hdesired, hseen, hdiffers⟩, rfl,
    Store.sameTables_live.of_eq hseen, hquietly.quiet hquiet⟩

/-- In a quiet world the work on a record that is to be present succeeds. -/
theorem exists_work (reconciler : Reconciler) (hpresent : record.desired = .present)
    (hquiet : world.Quiet) :
    ∃ finding after, reconciler.work record false world = (.ok finding, after) := by
  have hauthored := Policy.authored_of_ofText hdesired
  obtain ⟨text, htext⟩ := hauthored.exists_text
  obtain ⟨drift, compared, hdrift, rfl, htables, hcompared⟩ :=
    exists_drift hdesired hcheck hentry hlive hform reconciler hquiet
  have hwork : reconciler.work record false = reconciler.converge record false := by
    rw [work, hpresent]
  rw [hwork]
  cases hdrifted : drift.drifted with
  | false =>
    exact ⟨_, compared, converge_of_not_drifted hdrift htext hdrifted⟩
  | true =>
    have hcomparedEntry := (ownFamily?_congr htables (target record)).trans hentry
    obtain ⟨after, hset⟩ := Store.exists_setPolicy reconciler.store reconciler.timeout hcompared
      hcheck hcomparedEntry hauthored.sendable
    have happly : reconciler.store.apply (target record) record.rules? reconciler.options compared =
        (.ok drift.desired, after) := Store.apply_eq_ok_iff.mpr ⟨_, hdesired, hset⟩
    exact ⟨⟨.apply, true, text.getD .null⟩, after, (converge_of_drifted hdrift htext hdrifted).trans
      ((Step.bind_of_ok happly _).trans (Step.ofExcept_bind_eq_ok_iff.mpr ⟨text, htext, rfl⟩))⟩

omit hcheck in
/-- What the work on a record that is to be present leaves its family with. -/
theorem Worked.healed (hpresent : record.desired = .present) (hquiet : world.Quiet)
    (h : Worked reconciler record false world finding after) :
    Healed world after (target record) live desired := by
  cases h with
  | @noop drift _ _ _ hdrift _ hdrifted =>
    obtain ⟨hread, hseen, hdiffers⟩ := Store.drift_eq_ok_iff.mp hdrift
    obtain rfl : desired = drift.desired := Except.ok.inj (hdesired.symm.trans hread)
    obtain ⟨-, hpolicy | ⟨-, hhidden⟩⟩ := Store.live_eq_ok hseen
    · rw [family?_of_ownFamily? hentry, hlive] at hpolicy
      obtain rfl : live = drift.live := Except.ok.inj hpolicy
      rw [hdrifted] at hdiffers
      obtain ⟨form, hnormal, -⟩ := Policy.exists_normal hform
      exact Or.inl ⟨ownFamily?_congr (tables_of_drift hdrift) _,
        Policy.normal_eq_of_differs (Policy.authored_of_ofText hdesired) hnormal hdiffers⟩
    · exact absurd hhidden (Faultless.not_hidesNext hquiet.faults_eq)
  | applied _ _ hdrift _ _ hset =>
    obtain ⟨hread, -, -⟩ := Store.drift_eq_ok_iff.mp hdrift
    obtain rfl := Except.ok.inj (hdesired.symm.trans hread)
    exact Or.inr ⟨_, (Store.setPolicy_eq_ok hset).2.ownFamily?_self,
      Store.liveOf_given (Policy.authored_of_ofText hdesired).sendable⟩
  | released habsent => cases habsent.symm.trans hpresent
  | drifted _ hdryRun | pending _ hdryRun => cases hdryRun

/-- **One record is healed.** In a quiet world a record that is to be present succeeds, and its
family is left with the policy that it should have. -/
theorem Handled.healed {report : Report} (hpresent : record.desired = .present)
    (hquiet : world.Quiet) (h : Handled reconciler record false world report after) :
    (∃ action, report = .succeeded action) ∧ Healed world after (target record) live desired := by
  obtain ⟨last, hlast⟩ : ∃ last, reconciler.reconcileRecord record false world = (.ok true, last) :=
    exists_reconcileRecord hquiet.faults_eq fun started hstarted =>
      exists_work hdesired hcheck ((ownFamily?_congr hstarted.tables_eq _).trans hentry) hlive hform
        reconciler hpresent (hquiet.mono hstarted.reply_eq hstarted.faults_sublist)
  obtain ⟨hsuccess, rfl⟩ := Prod.mk.inj (h.result_eq.symm.trans hlast)
  obtain ⟨history, started, worked, finding, hcreate, hwork, hside, -⟩ :=
    reconcileRecord_eq_true hlast
  have hcreated := (createHistory_cases hcreate).1
  have hstarted : started.ownFamily? (target record) = world.ownFamily? (target record) :=
    ownFamily?_congr hcreated.tables_eq _
  have hafter : after.ownFamily? (target record) = worked.ownFamily? (target record) :=
    ownFamily?_congr hside.tables_eq _
  constructor
  · cases report with
    | succeeded action => exact ⟨action, rfl⟩
    | _ => cases hsuccess
  · have hstartedQuiet := hquiet.mono hcreated.reply_eq hcreated.faults_sublist
    have hhealed := (worked_of_work hwork).healed hdesired (hstarted.trans hentry) hlive hform
      hpresent hstartedQuiet
    rwa [Healed, hstarted, ← hafter] at hhealed

end Present

/-! ### All managed records -/

/-- Where no fault waits, the managed records are found and handled, and the run ends with a
summary. -/
theorem exists_reconcileAll (reconciler : Reconciler) (dryRun : Bool) (hfaults : before.Faultless) :
    ∃ found reports after, findManaged before = (.ok before.ledger.managed, found) ∧
      LedgerOnly before found ∧ found.ledger = before.ledger ∧
      HandledAll reconciler dryRun found before.ledger.managed reports after ∧
      reconciler.reconcileAll dryRun before = (.ok ⟨before.ledger.managed.length,
        (outcomes before.ledger.managed reports).countP fun outcome => outcome.status = .failed⟩,
        after) := by
  obtain ⟨found, hfind, honly, hledger⟩ := exists_ask .findManaged Ledger.managed hfaults
  have hfound := Faultless.mono hfaults honly.faults_sublist
  obtain ⟨reports, after, hall⟩ :=
    exists_handledAll reconciler dryRun before.ledger.managed hfound.spoken
  exact ⟨found, reports, after, hfind, honly, hledger, hall,
    reconcileAll_of_ok hfind hall.result_eq⟩

/-- **Families are healed.** In a quiet world where no two managed records stand for the same
family, a run ends with a summary, and a record that is to be present is counted as succeeded when
its rules are accepted, its names follow their patterns, and its table has the family with a policy
that has a canonical form. The family is left with the policy of the rules. -/
theorem reconcileAll_heals (reconciler : Reconciler) (hquiet : before.Quiet)
    (hfamilies : (before.ledger.managed.map target).Nodup)
    (hrecord : record ∈ before.ledger.managed) (hpresent : record.desired = .present)
    (hdesired : Policy.ofText record.rules? = .ok desired)
    (hcheck : (target record).check = .ok ())
    (hentry : before.ownFamily? (target record) = some held)
    (hlive : Store.liveOf (some held) = .ok live) (hform : live = .noGc ∨ live.Expressible) :
    ∃ found reports summary after, findManaged before = (.ok before.ledger.managed, found) ∧
      HandledAll reconciler false found before.ledger.managed reports after ∧
      reconciler.reconcileAll false before = (.ok summary, after) ∧
      (∃ action, (record, Report.succeeded action) ∈ before.ledger.managed.zip reports) ∧
      Healed before after (target record) live desired := by
  obtain ⟨found, reports, after, hfind, honly, -, hall, hrun⟩ :=
    exists_reconcileAll reconciler false hquiet.faults_eq
  refine ⟨found, reports, _, after, hfind, hall, hrun, ?_⟩
  obtain ⟨front, rest, hmanaged⟩ := List.append_of_mem hrecord
  rw [hmanaged] at hall hfamilies ⊢
  obtain ⟨reached, report, next, earlier, later, hfront, hmiddle, hlast, rfl⟩ := hall.exists_middle
  rw [List.map_append, List.map_cons, List.nodup_append, List.nodup_cons] at hfamilies
  obtain ⟨-, ⟨hlater, -⟩, hearlier⟩ := hfamilies
  -- The records before this one and those after it stand for other families.
  have hreached : reached.ownFamily? (target record) = before.ownFamily? (target record) := by
    rw [hfront.ownFamily?_of_ne fun other hother => hearlier _ (List.mem_map_of_mem hother) _
      List.mem_cons_self]
    exact ownFamily?_congr honly.tables_eq _
  have hafter : after.ownFamily? (target record) = next.ownFamily? (target record) :=
    hlast.ownFamily?_of_ne fun other hother heq => hlater (heq ▸ List.mem_map_of_mem hother)
  have hreachedQuiet := hfront.quiet (hquiet.mono honly.reply_eq honly.faults_sublist)
  obtain ⟨⟨action, rfl⟩, hhealed⟩ := hmiddle.healed hdesired hcheck (hreached.trans hentry) hlive
    hform hpresent hreachedQuiet
  rw [Healed, hreached, ← hafter] at hhealed
  refine ⟨⟨action, ?_⟩, hhealed⟩
  rw [List.zip_append hfront.length_eq.symm, List.zip_cons_cons]
  exact List.mem_append_right _ List.mem_cons_self

/-- An age of five seconds, or two versions, under a union that wraps it. -/
def nested : Json :=
  .object [("gcRule", .object [("union", .object [("rules", .array [.object [("intersection",
    .object [("rules", .array [.object [("maxAge", .object [("seconds", .string "5")])],
      .object [("maxNumVersions", .number 2)]])])]])])])]

/-- After a record whose rules are no rules, a record is healed whose family has a nested policy. -/
theorem reconcileAll_heals_nested : ∃ before after broken found reports summary,
    broken = recordOf "policy-2" "e" (.bool true) .default .present ∧
      before = worldWith [("e", twoVersions), ("f", nested)] [broken, aged] [] ∧
      HandledAll patient false found before.ledger.managed reports after ∧
      patient.reconcileAll false before = (.ok summary, after) ∧
      (∃ action, (aged, Report.succeeded action) ∈ before.ledger.managed.zip reports) ∧
      Healed before after (target aged) (.combined .union [.combined .intersection
        [.maxAge 5, .maxVersions 2]]) (.maxAge 5) := by
  obtain ⟨broken, hbroken⟩ :
      ∃ record, record = recordOf "policy-2" "e" (.bool true) .default .present := ⟨_, rfl⟩
  obtain ⟨before, hbefore⟩ : ∃ before,
    before = worldWith [("e", twoVersions), ("f", nested)] [broken, aged] [] := ⟨_, rfl⟩
  have hquiet : before.Quiet := by
    subst hbefore
    exact ⟨rfl, rfl⟩
  have hfamilies : (before.ledger.managed.map target).Nodup := by
    refine Ledger.nodup_map_managed ?_
    subst hbefore hbroken
    decide
  have hrecord : aged ∈ before.ledger.managed := by
    subst hbefore
    exact Ledger.mem_managed.mpr ⟨List.mem_cons_of_mem _ List.mem_cons_self, rfl⟩
  have hentry : before.ownFamily? (target aged) = some nested := by
    subst hbefore
    rfl
  have hform : Policy.Expressible (.combined .union [.combined .intersection
      [.maxAge 5, .maxVersions 2]]) := by
    have hage : Policy.Expressible (.maxAge 5) := @Policy.Expressible.maxAge 5 (by omega)
    have hversions : Policy.Expressible (.maxVersions 2) :=
      @Policy.Expressible.maxVersions 2 (by omega) (by omega)
    refine .combined (by simp) fun child hchild => ?_
    rw [List.mem_singleton.mp hchild]
    refine .combined (by simp) fun child hchild => ?_
    rcases List.mem_cons.mp hchild with rfl | hchild
    · exact hage
    · rw [List.mem_singleton.mp hchild]
      exact hversions
  obtain ⟨found, reports, summary, after, -, hall, hrun, hcounted, hhealed⟩ :=
    reconcileAll_heals patient hquiet hfamilies hrecord rfl rfl rfl hentry rfl (Or.inr hform)
  exact ⟨before, after, broken, found, reports, summary, hbroken, hbefore, hall, hrun, hcounted,
    hhealed⟩

/-- A union of some rules. -/
def unionOf (rules : List Json) : Json :=
  .object [("union", .object [("rules", .array rules)])]

/-- The policy of `aged` in a wrapper. -/
def wrapped : Json := unionOf [.object [("maxAge", .object [("seconds", .string "5")])]]

/-- Rules that no rule text can be written for: a combination of nothing, one of a rule that collects
nothing, an age below zero, and a count that is too large. -/
def unwritable : List Json :=
  [unionOf [], unionOf [.object []], .object [("maxAge", .object [("seconds", .string "-5")])],
    .object [("maxNumVersions", .number 2147483648)]]

/-- A family whose policy is wrapped is left as it is, and a record fails whose family has a policy
without a rule text. -/
theorem not_heals_of_wrapped_or_unwritable :
    (Policy.ofText aged.rules? = .ok (.maxAge 5) ∧ ∃ after,
      patient.reconcileAll false (worldWith [("f", .object [("gcRule", wrapped)])] [aged] []) =
          (.ok ⟨1, 0⟩, after) ∧
        after.ownFamily? (target aged) = some (.object [("gcRule", wrapped)]) ∧
        Policy.ofFamily (.object [("gcRule", wrapped)]) = .ok (.combined .union [.maxAge 5])) ∧
    ∀ rule ∈ unwritable, ∃ after,
      patient.reconcileAll false (worldWith [("f", .object [("gcRule", rule)])] [aged] []) =
          (.ok ⟨1, 1⟩, after) ∧
        after.ownFamily? (target aged) = some (.object [("gcRule", rule)]) := by
  -- One record is reconciled and found as it was.
  have halone {rule : Json} {succeeded : Bool} {after : World} (hrun :
      patient.reconcileRecord aged false
        (foundIn [("f", .object [("gcRule", rule)])] [aged] []) = (.ok succeeded, after)) :
      patient.reconcileAll false (worldWith [("f", .object [("gcRule", rule)])] [aged] []) =
        (.ok ⟨1, (if succeeded then 0 else 1) + 0⟩, after) :=
    (reconcileAll_worldWith [aged] (by simp; rfl) (List.pairwise_singleton _ _) (by decide)
      (reconcileRecords_cons_of_ok hrun rfl)).2
  constructor
  · obtain ⟨after, hrun, hafter⟩ : ∃ after,
        patient.reconcileRecord aged false
          (foundIn [("f", .object [("gcRule", wrapped)])] [aged] []) = (.ok true, after) ∧
        after.ownFamily? (target aged) = some (.object [("gcRule", wrapped)]) := ⟨_, rfl, rfl⟩
    exact ⟨rfl, after, halone hrun, hafter, rfl⟩
  · have hfails : ∀ rule ∈ unwritable, ∃ after,
        patient.reconcileRecord aged false
          (foundIn [("f", .object [("gcRule", rule)])] [aged] []) = (.ok false, after) ∧
        after.ownFamily? (target aged) = some (.object [("gcRule", rule)]) := by
      simp only [unwritable, List.forall_mem_cons]
      exact ⟨⟨_, rfl, rfl⟩, ⟨_, rfl, rfl⟩, ⟨_, rfl, rfl⟩, ⟨_, rfl, rfl⟩, nofun⟩
    intro rule hrule
    obtain ⟨after, hrun, hafter⟩ := hfails rule hrule
    exact ⟨after, halone hrun, hafter⟩

end Retention.Reconciler

import Retention.Proofs.Reconcile.Record
import Retention.Proofs.Store.Live

/-!
# What the work on a record does to its family

The work on a record touches the record's own family alone. Afterwards the family of a record that is
to be present is in sync with the record's rules, and the family of one that is not has been reset or
left as it is. A family that is in sync is not set again.

A family that is missing counts as one without a policy, and a call for a table may fail as if the
table were missing. Where a fault does that, a record whose rules ask for no collection is taken to
have converged although its family may have a policy, and a family that is in sync may be given its
policy once more.

## Main definitions

* `Reconciler.InSync`: without faults, a comparison finds that a family has not drifted.

## Main results

* `Reconciler.inSync_iff`: what it takes for a family to be in sync.
* `Reconciler.Worked.family?_of_ne`: other families are not touched.
* `Reconciler.Worked.inSync`, `Reconciler.Worked.family?_of_inSync`, `Reconciler.Worked.reset`: what
  becomes of the record's own.
-/

namespace Retention.Reconciler

open World

variable {reconciler : Reconciler} {record : PolicyRecord} {world before after : World}

/-! ### Families in sync -/

/-- A comparison that no fault strikes finds that the record's family has not drifted. -/
def InSync (reconciler : Reconciler) (world : World) (record : PolicyRecord) : Prop :=
  ∃ drift compared, reconciler.store.drift (target record) record.rules? reconciler.options
    { world with faults := [] } = (.ok drift, compared) ∧ drift.drifted = false

/-- A family is in sync when its names follow their patterns and the policy of the record's rules
does not differ from the one that the world has. -/
theorem inSync_iff : reconciler.InSync world record ↔
    (target record).check = .ok () ∧ ∃ desired live, Policy.ofText record.rules? = .ok desired ∧
      Store.liveOf (world.family? (target record)) = .ok live ∧
      Store.differs desired live = .ok false := by
  constructor
  · rintro ⟨⟨_, desired, live⟩, compared, hdrift, rfl⟩
    obtain ⟨hdesired, hlive, hdiffers⟩ := Store.drift_eq_ok_iff.mp hdrift
    obtain ⟨hcheck, hpolicy⟩ := (Store.live_of_faults_nil _ _ _ rfl).mp ⟨compared, hlive⟩
    exact ⟨hcheck, desired, live, hdesired, hpolicy, hdiffers⟩
  · rintro ⟨hcheck, desired, live, hdesired, hpolicy, hdiffers⟩
    have hnone : ({ world with faults := [] } : World).faults = [] := rfl
    obtain ⟨compared, hlive⟩ := (Store.live_of_faults_nil reconciler.store (target record)
      reconciler.timeout hnone).mpr ⟨hcheck, hpolicy⟩
    exact ⟨⟨false, desired, live⟩, compared,
      Store.drift_eq_ok_iff.mpr ⟨hdesired, hlive, hdiffers⟩, rfl⟩

/-- Whether a family is in sync depends on the family alone. -/
theorem InSync.congr (h : reconciler.InSync before record)
    (hfamily : after.family? (target record) = before.family? (target record)) :
    reconciler.InSync after record := by
  rw [inSync_iff] at h ⊢
  rwa [hfamily]

/-- A family that was given the policy of the record's rules is in sync. -/
theorem inSync_of_given {desired : Policy} (hcheck : (target record).check = .ok ())
    (hdesired : Policy.ofText record.rules? = .ok desired)
    (h : Given before after (target record) desired.toMessage) : reconciler.InSync after record := by
  have hauthored := Policy.authored_of_ofText hdesired
  refine inSync_iff.mpr ⟨hcheck, desired, desired, hdesired, ?_, hauthored.differs_self⟩
  rw [h.family?_self]
  exact Store.liveOf_given hauthored.sendable

/-! ### The work on a family -/

variable {dryRun : Bool} {finding : Finding}

/-- Comparing a family changes no table. -/
theorem tables_of_drift {drift : Drift}
    (h : reconciler.store.drift (target record) record.rules? reconciler.options before =
      (.ok drift, after)) : after.tables = before.tables :=
  Store.sameTables_live.of_eq (Store.drift_eq_ok_iff.mp h).2.1

/-- What becomes of a family when it is released: it is left as it is, or its policy is reset. -/
theorem release_cases
    (h : reconciler.store.release (target record) record.deletionMode reconciler.options before =
      (.ok (), after)) :
    (record.deletionMode = .abandon ∧ after = before) ∨
      (record.deletionMode = .default ∧
        Given before after (target record) (Policy.toMessage .noGc)) := by
  cases hmode : record.deletionMode with
  | abandon =>
    rw [hmode] at h
    exact Or.inl ⟨rfl, (Prod.mk.inj h).2.symm⟩
  | default =>
    rw [hmode] at h
    obtain ⟨held, reset, hset, ⟨⟩⟩ := Step.bind_eq_ok_iff.mp h
    exact Or.inr ⟨rfl, (Store.setPolicy_eq_ok hset).2⟩

/-- The work on a record's family touches no other family. -/
theorem Worked.family?_of_ne {other : FamilyRef} (hne : other ≠ target record)
    (h : Worked reconciler record dryRun before finding after) :
    after.family? other = before.family? other := by
  cases h with
  | noop _ hdrift | drifted _ _ hdrift => exact family?_congr (tables_of_drift hdrift) other
  | applied _ _ hdrift _ _ hset =>
    rw [(Store.setPolicy_eq_ok hset).2.family?_of_ne hne]
    exact family?_congr (tables_of_drift hdrift) other
  | pending => rfl
  | released _ _ hrelease =>
    rcases release_cases hrelease with ⟨-, rfl⟩ | ⟨-, hgiven⟩
    · rfl
    · exact hgiven.family?_of_ne hne

/-- When the work is done the family of a record that is to be present is in sync, unless no policy
was asked for and a fault has hidden its table. -/
theorem Worked.inSync (hpresent : record.desired = .present)
    (hseen : ¬before.HidesNext ∨ Policy.ofText record.rules? ≠ .ok .noGc)
    (h : Worked reconciler record false before finding after) : reconciler.InSync after record := by
  cases h with
  | @noop drift _ _ _ hdrift _ hdrifted =>
    obtain ⟨hdesired, hlive, hdiffers⟩ := Store.drift_eq_ok_iff.mp hdrift
    rw [hdrifted] at hdiffers
    rcases Store.live_eq_ok hlive with ⟨hcheck, hpolicy | ⟨hnone, hhidden⟩⟩
    · have hbefore : reconciler.InSync before record :=
        inSync_iff.mpr ⟨hcheck, _, _, hdesired, hpolicy, hdiffers⟩
      exact hbefore.congr (family?_congr (tables_of_drift hdrift) _)
    · -- A rule text that asks for collection differs from the policy that is then seen.
      rw [hnone] at hdiffers
      have hdesiredNone := (Policy.authored_of_ofText hdesired).eq_noGc_of_differs hdiffers
      rw [hdesiredNone] at hdesired
      exact (hseen.elim (fun hshown => hshown hhidden) fun hne => hne hdesired).elim
  | applied _ _ hdrift _ _ hset =>
    obtain ⟨hcheck, hgiven⟩ := Store.setPolicy_eq_ok hset
    exact inSync_of_given hcheck (Store.drift_eq_ok_iff.mp hdrift).1 hgiven
  | released hdesired => cases hdesired.symm.trans hpresent
  | drifted _ hdryRun | pending _ hdryRun => cases hdryRun

/-- A family that is in sync is left as it is, unless a policy was asked for and a fault has hidden
its table. -/
theorem Worked.family?_of_inSync (hpresent : record.desired = .present)
    (hsync : reconciler.InSync before record)
    (hseen : ¬before.HidesNext ∨ Policy.ofText record.rules? = .ok .noGc)
    (h : Worked reconciler record dryRun before finding after) :
    after.family? (target record) = before.family? (target record) := by
  cases h with
  | noop _ hdrift | drifted _ _ hdrift => exact family?_congr (tables_of_drift hdrift) _
  | @applied drift _ _ _ _ _ _ _ hdrift _ hdrifted =>
    obtain ⟨hdesired, hlive, hdiffers⟩ := Store.drift_eq_ok_iff.mp hdrift
    obtain ⟨_, desired, live, hdesired', hpolicy, hsame⟩ := inSync_iff.mp hsync
    obtain rfl : desired = drift.desired := Except.ok.inj (hdesired'.symm.trans hdesired)
    -- Nothing has drifted from what is seen either, so the work ends without setting anything.
    have hcontra : Store.differs drift.desired drift.live = .ok false := by
      rcases Store.live_eq_ok hlive with ⟨-, hseenPolicy | ⟨hnone, hhidden⟩⟩
      · obtain rfl : live = drift.live := Except.ok.inj (hpolicy.symm.trans hseenPolicy)
        exact hsame
      · have hdesiredNone := hseen.resolve_left fun hshown => hshown hhidden
        have hauthored := Policy.authored_of_ofText hdesired
        rw [hdesired] at hdesiredNone
        rw [hnone, ← Except.ok.inj hdesiredNone]
        exact hauthored.differs_self
    rw [hdrifted] at hdiffers
    cases hdiffers.symm.trans hcontra
  | pending => rfl
  | released habsent => cases habsent.symm.trans hpresent

/-- A family that is abandoned is left as it is. -/
theorem Worked.family?_of_abandoned (habsent : record.desired = .absent)
    (hmode : record.deletionMode = .abandon)
    (h : Worked reconciler record dryRun before finding after) :
    after.family? (target record) = before.family? (target record) := by
  cases h with
  | noop hpresent | drifted hpresent | applied hpresent => cases habsent.symm.trans hpresent
  | pending => rfl
  | released _ _ hrelease =>
    rcases release_cases hrelease with ⟨-, rfl⟩ | ⟨hdefault, -⟩
    · rfl
    · cases hdefault.symm.trans hmode

/-- A family whose policy was set has the message of the policy of its rules. -/
theorem Worked.given_of_apply (h : Worked reconciler record dryRun before finding after)
    (happly : finding.action = .apply) : ∃ desired, Policy.ofText record.rules? = .ok desired ∧
      after.family? (target record) = some (.object [("gcRule", desired.toMessage)]) := by
  cases h with
  | applied _ _ hdrift _ _ hset =>
    exact ⟨_, (Store.drift_eq_ok_iff.mp hdrift).1, (Store.setPolicy_eq_ok hset).2.family?_self⟩
  | released =>
    have hne : releaseAction record.deletionMode ≠ .apply := by
      cases record.deletionMode <;> decide
    exact absurd happly hne
  | noop | drifted | pending => cases happly

/-- A family that is released by default has been given no policy. -/
theorem Worked.reset (hdesired : record.desired = .absent) (hmode : record.deletionMode = .default)
    (h : Worked reconciler record false before finding after) :
    ∃ family, after.family? (target record) = some family ∧ Policy.ofFamily family = .ok .noGc := by
  cases h with
  | noop hpresent | applied hpresent => cases hdesired.symm.trans hpresent
  | released _ _ hrelease =>
    rcases release_cases hrelease with ⟨habandon, -⟩ | ⟨-, hgiven⟩
    · cases hmode.symm.trans habandon
    · exact ⟨_, hgiven.family?_self, rfl⟩
  | drifted _ hdryRun | pending _ hdryRun => cases hdryRun

end Retention.Reconciler

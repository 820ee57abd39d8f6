import Retention.Proofs.Store.Drift
import Retention.Proofs.Store.Live

/-!
# Families that look alike

All that the service sees of a family is whether its table is there, the family that the world shows
under its name, and the one that its table has. What is done about one family leaves every other
looking as it did, and makes no call that changes it. Where no fault waits, an operation of the store
ends in the same way in any two worlds in which its family looks the same.

## Main definitions

* `World.LooksAlike`: a family looks the same in two worlds.
* `World.modificationsOf`: the calls that change a family.
* `World.Beside`: at most one family was touched.
* `World.Alike`: two worlds in which the store's operations on a family end in the same way.

## Main results

* `World.Given.looksAlike_of_ne`, `World.Given.looksAlike`: what becomes of the looks of families
  when one is given a rule message.
* `Store.beside_getTable`, `Store.beside_modifyFamilies`: the calls of the store.
* `Store.agrees_drift`, `Store.agrees_apply`, `Store.agrees_release`: what its operations depend on.
-/

namespace Retention

/-- Whether a call changes a given family. -/
def AdminCall.isModificationOf (target : FamilyRef) : AdminCall → Bool
  | modifyFamilies table family _ _ => table = target.table && family = target.family
  | _ => false

/-- A call that changes a family changes no other. -/
theorem AdminCall.isModificationOf_of_ne {target other : FamilyRef} (hne : other ≠ target)
    (message : Json) (timeout : Option Json) :
    (modifyFamilies target.table target.family message timeout).isModificationOf other = false := by
  refine Bool.eq_false_iff.mpr fun hown => hne ?_
  obtain ⟨htable, hfamily⟩ : target.table = other.table ∧ target.family = other.family := by
    simpa [isModificationOf] using hown
  exact FamilyRef.ext htable.symm hfamily.symm

namespace World

variable {target other : FamilyRef} {world before after later : World}

/-! ### Looking alike -/

/-- A family looks the same in two worlds: its table is in both or in neither, and both worlds and
both tables have the same family under its name. -/
structure LooksAlike (target : FamilyRef) (before after : World) : Prop where
  table_eq : (after.tables.lookup target.table).isSome = (before.tables.lookup target.table).isSome
  family?_eq : after.family? target = before.family? target
  ownFamily?_eq : after.ownFamily? target = before.ownFamily? target

theorem LooksAlike.refl (target : FamilyRef) (world : World) : LooksAlike target world world :=
  ⟨rfl, rfl, rfl⟩

theorem LooksAlike.symm (h : LooksAlike target before after) : LooksAlike target after before :=
  ⟨h.table_eq.symm, h.family?_eq.symm, h.ownFamily?_eq.symm⟩

theorem LooksAlike.trans (h : LooksAlike target before after)
    (h' : LooksAlike target after later) : LooksAlike target before later :=
  ⟨h'.table_eq.trans h.table_eq, h'.family?_eq.trans h.family?_eq,
    h'.ownFamily?_eq.trans h.ownFamily?_eq⟩

theorem looksAlike_of_tables (h : after.tables = before.tables) (target : FamilyRef) :
    LooksAlike target before after :=
  ⟨by rw [h], family?_congr h target, ownFamily?_congr h target⟩

/-- A table is there after a family was given a rule message if it was there before. -/
theorem Given.isSome_lookup {message : Json} (h : Given before after target message)
    (table : Text) : (after.tables.lookup table).isSome = (before.tables.lookup table).isSome := by
  obtain ⟨families, changed, hlookup, -, htables⟩ := h
  rw [htables]
  by_cases htable : table = target.table
  · rw [htable, Entries.lookup_put_self, hlookup]
    rfl
  · rw [Entries.lookup_put_of_ne htable]

/-- A family that was not given a rule message looks as before. -/
theorem Given.looksAlike_of_ne {message : Json} (h : Given before after target message)
    (hne : other ≠ target) : LooksAlike other before after :=
  ⟨h.isSome_lookup _, h.family?_of_ne hne, h.ownFamily?_of_ne hne⟩

/-- Whatever two worlds were, a family that was given the same rule message looks the same. -/
theorem Given.looksAlike {first second : World} {message : Json}
    (h : Given before first target message) (h' : Given after second target message)
    (hlooks : LooksAlike target before after) : LooksAlike target first second :=
  ⟨by rw [h'.isSome_lookup, hlooks.table_eq, h.isSome_lookup],
    h'.family?_self.trans h.family?_self.symm, h'.ownFamily?_self.trans h.ownFamily?_self.symm⟩

/-! ### At most one family was touched -/

/-- The calls that change a family, in order. -/
def modificationsOf (target : FamilyRef) (world : World) : List AdminCall :=
  world.calls.filter (AdminCall.isModificationOf target)

/-- At most the family under one name was touched: every other looks as before, no call was made that
changes it, and faults have at most been used up. -/
structure Beside (target : FamilyRef) (before after : World) : Prop extends
    Elsewhere target before after where
  looksAlike_of_ne : ∀ other, other ≠ target → LooksAlike other before after
  modificationsOf_of_ne : ∀ other, other ≠ target →
    after.modificationsOf other = before.modificationsOf other
  faults_sublist : (after.faults.map Fault.kind).Sublist (before.faults.map Fault.kind)

instance : Std.Refl (Beside target) := ⟨fun world =>
  ⟨Std.Refl.refl world, fun other _ => LooksAlike.refl other world, fun _ _ => rfl,
    List.Sublist.refl _⟩⟩

instance : IsTrans World (Beside target) := ⟨fun _ _ _ h h' =>
  ⟨IsTrans.trans _ _ _ h.toElsewhere h'.toElsewhere,
    fun other hne => (h.looksAlike_of_ne other hne).trans (h'.looksAlike_of_ne other hne),
    fun other hne => (h'.modificationsOf_of_ne other hne).trans (h.modificationsOf_of_ne other hne),
    h'.faults_sublist.trans h.faults_sublist⟩⟩

/-- What leaves the admin API as it is touches no family. -/
theorem AdminSame.beside (h : AdminSame before after) : Beside target before after :=
  ⟨h.elsewhere, fun other _ => looksAlike_of_tables h.tables_eq other,
    fun other _ => by rw [modificationsOf, h.calls_eq, modificationsOf], h.faults_sublist⟩

theorem beside_noteCall {call : AdminCall}
    (h : ∀ other, other ≠ target → call.isModificationOf other = false) :
    (noteCall call).Keeps (Beside target) := by
  refine Step.keeps_modify fun world => ⟨elsewhere_noteCall call world,
    fun other _ => ⟨rfl, rfl, rfl⟩, fun other hne => ?_, List.Sublist.refl _⟩
  rw [modificationsOf, List.filter_append, List.filter_cons_of_neg (by simp [h other hne]),
    List.filter_nil, List.append_nil, modificationsOf]

theorem beside_strike (point : FaultPoint) : (strike point).Keeps (Beside target) :=
  fun world => (ledgerOnly_strike point world).beside

theorem beside_showTable (table : Text) : (showTable table).Keeps (Beside target) :=
  (beside_strike _).bind fun _ world => by
    split <;> exact Std.Refl.refl _

/-- The admin API changes the family that it is asked to change, if any. -/
theorem beside_modifyFamily (message : Json) :
    (modifyFamily target.table target.family message).Keeps (Beside target) := by
  refine .intro fun world result after h => ?_
  have hcalls := ((noCall_modifyFamily _ _ _).of_eq h).calls_eq
  refine ⟨(elsewhere_modifyFamily message).of_eq h, fun other hne => ?_, fun other _ => ?_,
    ((adminOnly_modifyFamily _ _ _).of_eq h).faults_sublist⟩
  · cases result with
    | ok shown => exact (given_of_modifyFamily h).looksAlike_of_ne hne
    | error failure => exact looksAlike_of_tables (sameTables_of_modifyFamily h) other
  · rw [modificationsOf, hcalls, modificationsOf]

end World

namespace Store

open World

variable {target : FamilyRef} {timeout : Option Json}

/-- Asking for a table touches no family. -/
theorem beside_getTable (table : Text) (limit : Option Json) :
    (send ⟨none, timeout⟩ (.getTable table limit) (showTable table)).Keeps (Beside target) :=
  (beside_noteCall fun _ _ => rfl).bind fun _ => (beside_showTable table).mapFailure _

theorem beside_modifyFamilies (message : Json) (limit : Option Json) :
    (send ⟨none, timeout⟩ (.modifyFamilies target.table target.family message limit)
      (modifyFamily target.table target.family message)).Keeps (Beside target) :=
  (beside_noteCall fun _ hne => AdminCall.isModificationOf_of_ne hne message limit).bind fun _ =>
    (beside_modifyFamily message).mapFailure _

/-- Setting the policy of a family whose names follow their patterns makes one call. -/
theorem calls_setPolicy (store : Store) (policy : Policy) (hcheck : target.check = .ok ())
    (world : World) : (store.setPolicy target policy ⟨none, timeout⟩ world).2.calls =
      world.calls ++ [.modifyFamilies target.table target.family policy.toMessage
        (store.timeout ⟨none, timeout⟩)] := by
  rw [setPolicy_eq, hcheck, Step.bind_of_ok (Step.ofExcept_apply _ _), Step.bind_ofExcept_apply,
    send_apply]
  exact (noCall_modifyFamily _ _ _ _).calls_eq

end Store

/-! ### What the operations depend on -/

namespace World

variable {dryRun : Bool} {target : FamilyRef} {first second later last : World}

/-- Two worlds in which no fault waits and a family looks the same. If something may be set, no other
answer was prepared in either. -/
structure Alike (dryRun : Bool) (target : FamilyRef) (first second : World) : Prop where
  faults_eq : first.Faultless ∧ second.Faultless
  reply_eq : dryRun = false → first.reply = none ∧ second.reply = none
  looksAlike : LooksAlike target first second

/-- Worlds stay alike as long as the family looks the same. -/
theorem Alike.of_beside {other : FamilyRef} (h : Alike dryRun target first second)
    (hfirst : Beside other first later) (hsecond : Beside other second last)
    (hlooks : LooksAlike target later last) : Alike dryRun target later last where
  faults_eq := ⟨Faultless.mono h.faults_eq.1 hfirst.faults_sublist,
    Faultless.mono h.faults_eq.2 hsecond.faults_sublist⟩
  reply_eq hwet := ⟨(hfirst.quiet ⟨h.faults_eq.1, (h.reply_eq hwet).1⟩).reply_eq,
    (hsecond.quiet ⟨h.faults_eq.2, (h.reply_eq hwet).2⟩).reply_eq⟩
  looksAlike := hlooks

end World

namespace Store

open World

variable {dryRun : Bool} {store : Store} {target : FamilyRef} {timeout : Option Json}
  {policy : Policy}

theorem beside_live : (store.live target ⟨none, timeout⟩).Keeps (Beside target) :=
  keeps_live (beside_getTable _ _)

theorem beside_setPolicy : (store.setPolicy target policy ⟨none, timeout⟩).Keeps (Beside target) :=
  keeps_setPolicy (fun message => beside_modifyFamilies message _) policy

/-- What is seen of a family depends on its looks. -/
theorem agrees_live : (store.live target ⟨none, timeout⟩).Agrees (Alike dryRun target) := by
  intro first second h
  constructor
  · rw [live_fst_of_quiet store target timeout (not_struck h.faults_eq.1 _),
      live_fst_of_quiet store target timeout (not_struck h.faults_eq.2 _), h.looksAlike.family?_eq]
  · have hlive (world : World) :
        LooksAlike target world (store.live target ⟨none, timeout⟩ world).2 :=
      looksAlike_of_tables (sameTables_live world) target
    exact h.of_beside (beside_live first) (beside_live second)
      ((hlive first).symm.trans (h.looksAlike.trans (hlive second)))

/-- How the policy of a family is set depends on its looks. -/
theorem agrees_setPolicy (hpolicy : policy.Sendable) :
    (store.setPolicy target policy ⟨none, timeout⟩).Agrees (Alike false target) := by
  intro first second h
  obtain ⟨hreply, hreply'⟩ := h.reply_eq rfl
  have hquiet : first.Quiet := ⟨h.faults_eq.1, hreply⟩
  have hquiet' : second.Quiet := ⟨h.faults_eq.2, hreply'⟩
  have hsame : (store.setPolicy target policy ⟨none, timeout⟩ first).1 =
      (store.setPolicy target policy ⟨none, timeout⟩ second).1 := by
    rw [setPolicy_fst store timeout hquiet hpolicy, setPolicy_fst store timeout hquiet' hpolicy,
      h.looksAlike.table_eq, h.looksAlike.ownFamily?_eq]
  refine ⟨hsame, h.of_beside (beside_setPolicy first) (beside_setPolicy second) ?_⟩
  rcases hset : store.setPolicy target policy ⟨none, timeout⟩ first with ⟨result, later⟩
  rcases hset' : store.setPolicy target policy ⟨none, timeout⟩ second with ⟨other, last⟩
  rw [hset, hset'] at hsame
  obtain rfl : result = other := hsame
  obtain ⟨rfl, -, hgiven⟩ | ⟨_, rfl, htables, -⟩ := setPolicy_cases hquiet hpolicy hset
  · exact hgiven.looksAlike (setPolicy_eq_ok hset').2 h.looksAlike
  · obtain ⟨⟨⟩, -⟩ | ⟨_, -, htables', -⟩ := setPolicy_cases hquiet' hpolicy hset'
    exact (looksAlike_of_tables htables target).symm.trans
      (h.looksAlike.trans (looksAlike_of_tables htables' target))

theorem agrees_drift (rules : Option Json) :
    (store.drift target rules ⟨none, timeout⟩).Agrees (Alike dryRun target) :=
  Step.agrees_ofExcept_bind fun _ _ => agrees_live.bind fun _ =>
    Step.agrees_ofExcept_bind fun _ _ => Step.agrees_pure _

theorem agrees_apply (rules : Option Json) :
    (store.apply target rules ⟨none, timeout⟩).Agrees (Alike false target) :=
  Step.agrees_ofExcept_bind fun _ hpolicy =>
    agrees_setPolicy (Policy.authored_of_ofText hpolicy).sendable

theorem agrees_release (mode : DeletionMode) :
    (store.release target mode ⟨none, timeout⟩).Agrees (Alike false target) := by
  cases mode with
  | abandon => exact Step.agrees_pure _
  | default => exact (agrees_setPolicy .noGc).bind fun _ => Step.agrees_pure _

end Store

end Retention

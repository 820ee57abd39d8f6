import Retention.Proofs.Step
import Retention.World

/-!
# What the calls of a world change

The world has two sides that the service calls: the admin API and the ledger. A call of one side
leaves the other as it is, and no call touches the moment or the counters. Faults are only ever
used up, so a kind of call that no fault waits at keeps passing.

## Main definitions

* `World.AdminOnly`, `World.LedgerOnly`: at most the one side of a world has changed.
* `World.AdminSame`: the one side has not.
* `World.NoCall`: no call was made or cancelled.

## Main results

* `Fault.strike_sublist`, `Fault.strike_of_notMem`: what becomes of the faults at a call.
* `World.execute_cases`: a statement has its effect on the ledger, or a fault strikes and it has
  none.
-/

namespace Retention

/-! ### Faults are used up -/

namespace Fault

/-- The kind of call that a fault waits at, and the failure that it is. -/
def kind (fault : Fault) : FaultPoint × Failure := (fault.point, fault.failure)

/-- What no fault waits at before, no fault waits at when faults have been used up. -/
theorem points_subset {faults later : List Fault}
    (h : (later.map kind).Sublist (faults.map kind)) :
    later.map Fault.point ⊆ faults.map Fault.point := by
  have hpoints := (h.map Prod.fst).subset
  rwa [List.map_map, List.map_map] at hpoints

/-- The faults that still wait after a call waited before it. -/
theorem strike_sublist (point : FaultPoint) (faults : List Fault) :
    ((strike point faults).2.map kind).Sublist (faults.map kind) := by
  induction faults with
  | nil => exact List.Sublist.refl _
  | cons fault rest ih =>
    rw [strike]
    split
    · split
      · exact List.sublist_cons_self _ _
      · exact List.Sublist.refl _
    · exact ih.cons_cons _

/-- What strikes at a call is the failure of a fault that waits at its kind. -/
theorem kind_mem_of_strike {point : FaultPoint} {faults : List Fault} {failure : Failure}
    (h : (strike point faults).1 = some failure) : (point, failure) ∈ faults.map kind := by
  induction faults with
  | nil => simp at h
  | cons fault rest ih =>
    rw [strike] at h
    split at h
    · next hpoint =>
      split at h
      · rw [← Option.some.inj h, ← hpoint]
        exact List.mem_cons_self
      · simp at h
    · exact List.mem_cons_of_mem _ (ih h)

/-- A call of a kind that no fault waits at passes, and all faults still wait. -/
theorem strike_of_notMem {point : FaultPoint} {faults : List Fault}
    (h : point ∉ faults.map Fault.point) : strike point faults = (none, faults) := by
  induction faults with
  | nil => rfl
  | cons fault rest ih =>
    rw [List.map_cons, List.mem_cons, not_or] at h
    rw [strike, if_neg (Ne.symm h.1), ih h.2]

/-- What strikes at the next call of a kind is the same after a call of another kind. -/
theorem strike_fst_of_ne {point other : FaultPoint} (hne : other ≠ point) (faults : List Fault) :
    (strike point (strike other faults).2).1 = (strike point faults).1 := by
  induction faults with
  | nil => rfl
  | cons fault rest ih =>
    by_cases hother : fault.point = other
    · -- The fault that the other call meets is passed over by this one.
      have hpoint : fault.point ≠ point := fun heq => hne (hother.symm.trans heq)
      rw [strike, if_pos hother]
      cases fault.skip with
      | zero => rw [strike, if_neg hpoint]
      | succ skip =>
        rw [strike, strike, if_neg hpoint, if_neg hpoint]
    · rw [strike, if_neg hother]
      by_cases hpoint : fault.point = point
      · rw [strike, strike, if_pos hpoint, if_pos hpoint]
        cases fault.skip <;> rfl
      · rw [strike, strike, if_neg hpoint, if_neg hpoint]
        exact ih

end Fault

namespace World

/-! ### The two sides -/

/-- At most the side of the admin API has changed, and faults have at most been used up. -/
structure AdminOnly (before after : World) : Prop where
  ledger_eq : after.ledger = before.ledger
  traffic_eq : after.traffic = before.traffic
  counters_eq : after.counters = before.counters
  now_eq : after.now = before.now
  correlation_eq : after.correlation = before.correlation
  faults_sublist : (after.faults.map Fault.kind).Sublist (before.faults.map Fault.kind)

/-- The side of the admin API is as it was, and faults have at most been used up. -/
structure AdminSame (before after : World) : Prop where
  tables_eq : after.tables = before.tables
  reply_eq : after.reply = before.reply
  calls_eq : after.calls = before.calls
  cancelled_eq : after.cancelled = before.cancelled
  now_eq : after.now = before.now
  correlation_eq : after.correlation = before.correlation
  faults_sublist : (after.faults.map Fault.kind).Sublist (before.faults.map Fault.kind)

/-- At most the side of the ledger has changed. -/
structure LedgerOnly (before after : World) : Prop extends AdminSame before after where
  counters_eq : after.counters = before.counters

theorem AdminOnly.refl (world : World) : AdminOnly world world :=
  ⟨rfl, rfl, rfl, rfl, rfl, List.Sublist.refl _⟩

theorem AdminOnly.trans {first second third : World} (h : AdminOnly first second)
    (h' : AdminOnly second third) : AdminOnly first third :=
  ⟨h'.ledger_eq.trans h.ledger_eq, h'.traffic_eq.trans h.traffic_eq,
    h'.counters_eq.trans h.counters_eq, h'.now_eq.trans h.now_eq,
    h'.correlation_eq.trans h.correlation_eq, h'.faults_sublist.trans h.faults_sublist⟩

instance : Std.Refl AdminOnly := ⟨AdminOnly.refl⟩

instance : IsTrans World AdminOnly := ⟨fun _ _ _ => AdminOnly.trans⟩

theorem AdminSame.refl (world : World) : AdminSame world world :=
  ⟨rfl, rfl, rfl, rfl, rfl, rfl, List.Sublist.refl _⟩

theorem AdminSame.trans {first second third : World} (h : AdminSame first second)
    (h' : AdminSame second third) : AdminSame first third :=
  ⟨h'.tables_eq.trans h.tables_eq, h'.reply_eq.trans h.reply_eq, h'.calls_eq.trans h.calls_eq,
    h'.cancelled_eq.trans h.cancelled_eq, h'.now_eq.trans h.now_eq,
    h'.correlation_eq.trans h.correlation_eq, h'.faults_sublist.trans h.faults_sublist⟩

theorem LedgerOnly.refl (world : World) : LedgerOnly world world := ⟨AdminSame.refl world, rfl⟩

theorem LedgerOnly.trans {first second third : World} (h : LedgerOnly first second)
    (h' : LedgerOnly second third) : LedgerOnly first third :=
  ⟨h.toAdminSame.trans h'.toAdminSame, h'.counters_eq.trans h.counters_eq⟩

instance : Std.Refl LedgerOnly := ⟨LedgerOnly.refl⟩

instance : IsTrans World LedgerOnly := ⟨fun _ _ _ => LedgerOnly.trans⟩

/-! ### Calls -/

/-- A call that a fault may strike does nothing but use up faults. -/
theorem strike_snd (point : FaultPoint) (world : World) :
    (strike point world).2 = { world with faults := (Fault.strike point world.faults).2 } := by
  rw [strike]
  split <;> simp [*]

theorem strike_of_none {point : FaultPoint} {world : World} {faults : List Fault}
    (h : Fault.strike point world.faults = (none, faults)) :
    strike point world = (.ok (), { world with faults := faults }) := by
  rw [strike, h]

/-- Where no fault waits none strikes. -/
theorem not_struck {world : World} (hfaults : world.faults = []) (point : FaultPoint) :
    (Fault.strike point world.faults).1 = none := by
  rw [hfaults, Fault.strike_nil]

theorem strike_of_faults_nil {world : World} (hfaults : world.faults = []) (point : FaultPoint) :
    strike point world = (.ok (), { world with faults := [] }) :=
  strike_of_none (by rw [hfaults, Fault.strike_nil])

theorem strike_of_some {point : FaultPoint} {world : World} {faults : List Fault}
    {failure : Failure} (h : Fault.strike point world.faults = (some failure, faults)) :
    strike point world = (.error failure, { world with faults := faults }) := by
  rw [strike, h]

theorem adminOnly_strike (point : FaultPoint) : (strike point).Keeps AdminOnly := fun world => by
  rw [strike_snd]
  exact ⟨rfl, rfl, rfl, rfl, rfl, Fault.strike_sublist _ _⟩

theorem ledgerOnly_strike (point : FaultPoint) : (strike point).Keeps LedgerOnly := fun world => by
  rw [strike_snd]
  exact ⟨⟨rfl, rfl, rfl, rfl, rfl, rfl, Fault.strike_sublist _ _⟩, rfl⟩

theorem adminOnly_noteCall (call : AdminCall) : (noteCall call).Keeps AdminOnly :=
  Step.keeps_modify fun _ => ⟨rfl, rfl, rfl, rfl, rfl, List.Sublist.refl _⟩

theorem ledgerOnly_noteTraffic (traffic : Traffic) : (noteTraffic traffic).Keeps LedgerOnly :=
  Step.keeps_modify fun _ => ⟨⟨rfl, rfl, rfl, rfl, rfl, rfl, List.Sublist.refl _⟩, rfl⟩

/-- The admin API shows a table without touching the ledger. -/
theorem adminOnly_showTable (table : Text) : (showTable table).Keeps AdminOnly :=
  (adminOnly_strike _).bind fun _ world => by
    split <;> exact AdminOnly.refl _

/-- The admin API changes a family without touching the ledger. -/
theorem adminOnly_modifyFamily (table family : Text) (message : Json) :
    (modifyFamily table family message).Keeps AdminOnly :=
  (adminOnly_strike _).bind fun _ world => by
    split
    · exact AdminOnly.refl _
    · split
      · exact AdminOnly.refl _
      · exact ⟨rfl, rfl, rfl, rfl, rfl, List.Sublist.refl _⟩

section Statements

variable {α : Type} (channel : Channel) (statement : Statement) (effect : Ledger → α × Ledger)

/-- A statement does not touch the admin API. -/
theorem ledgerOnly_execute : (execute channel statement effect).Keeps LedgerOnly :=
  (ledgerOnly_noteTraffic _).bind fun _ => (ledgerOnly_strike _).bind fun _ _ =>
    ⟨⟨rfl, rfl, rfl, rfl, rfl, rfl, List.Sublist.refl _⟩, rfl⟩

/-- A statement is sent, and then a fault strikes or it has its effect. -/
theorem execute_apply (world : World) :
    execute channel statement effect world =
      match Fault.strike statement.point world.faults with
      | (some failure, faults) =>
        (.error failure, { world with
          traffic := world.traffic ++ [.statement channel statement], faults := faults })
      | (none, faults) =>
        (.ok (effect world.ledger).1, { world with
          traffic := world.traffic ++ [.statement channel statement], faults := faults,
          ledger := (effect world.ledger).2 }) := by
  obtain ⟨noted, hnoted⟩ : ∃ noted : World, noted = { world with
    traffic := world.traffic ++ [.statement channel statement] } := ⟨_, rfl⟩
  have hnote : noteTraffic (.statement channel statement) world = (.ok (), noted) := by
    rw [hnoted]
    rfl
  have hfaults : noted.faults = world.faults := by rw [hnoted]
  rw [execute, Step.bind_of_ok hnote, ← hfaults]
  cases hstrike : Fault.strike statement.point noted.faults with
  | mk struck faults =>
    cases struck with
    | none =>
      refine (Step.bind_of_ok (strike_of_none hstrike) _).trans ?_
      subst hnoted
      rfl
    | some failure =>
      refine (Step.bind_of_error (strike_of_some hstrike) _).trans ?_
      subst hnoted
      rfl

/-- A statement is one call of its kind. -/
theorem faults_execute (world : World) : (execute channel statement effect world).2.faults =
    (Fault.strike statement.point world.faults).2 := by
  rw [execute_apply]
  rcases Fault.strike statement.point world.faults with ⟨_ | _, _⟩ <;> rfl

/-- A statement has its effect on the ledger, or a fault strikes and it has none. -/
theorem execute_cases {world after : World} {result : Except Failure α}
    (h : execute channel statement effect world = (result, after)) :
    (∃ failure, result = .error failure ∧ after.ledger = world.ledger) ∨
      (result = .ok (effect world.ledger).1 ∧ after.ledger = (effect world.ledger).2) := by
  rw [execute_apply] at h
  split at h
  · obtain ⟨rfl, rfl⟩ := Prod.mk.inj h
    exact Or.inl ⟨_, rfl, rfl⟩
  · obtain ⟨rfl, rfl⟩ := Prod.mk.inj h
    exact Or.inr ⟨rfl, rfl⟩

/-- A statement that no fault waits at has its effect. -/
theorem execute_of_notMem {world : World}
    (h : statement.point ∉ world.faults.map Fault.point) :
    execute channel statement effect world =
      (.ok (effect world.ledger).1, { world with
        traffic := world.traffic ++ [.statement channel statement],
        ledger := (effect world.ledger).2 }) := by
  rw [execute_apply, Fault.strike_of_notMem h]

end Statements

/-! ### No call is made -/

/-- No call of the admin API was made, and none was cancelled. -/
structure NoCall (before after : World) : Prop where
  calls_eq : after.calls = before.calls
  cancelled_eq : after.cancelled = before.cancelled

instance : Std.Refl NoCall := ⟨fun _ => ⟨rfl, rfl⟩⟩

instance : IsTrans World NoCall :=
  ⟨fun _ _ _ h h' => ⟨h'.calls_eq.trans h.calls_eq, h'.cancelled_eq.trans h.cancelled_eq⟩⟩

theorem AdminSame.noCall {before after : World} (h : AdminSame before after) :
    NoCall before after :=
  ⟨h.calls_eq, h.cancelled_eq⟩

theorem noCall_moment : moment.Keeps NoCall := fun _ => ⟨rfl, rfl⟩

theorem noCall_strike (point : FaultPoint) : (strike point).Keeps NoCall :=
  fun world => (ledgerOnly_strike point world).noCall

theorem noCall_execute {α : Type} (channel : Channel) (statement : Statement)
    (effect : Ledger → α × Ledger) : (execute channel statement effect).Keeps NoCall :=
  fun world => (ledgerOnly_execute channel statement effect world).noCall

/-- A call is noted when it is made, and not once more when it takes effect. -/
theorem noCall_showTable (table : Text) : (showTable table).Keeps NoCall :=
  (noCall_strike _).bind fun _ world => by
    split <;> exact Std.Refl.refl _

@[inherit_doc noCall_showTable]
theorem noCall_modifyFamily (table family : Text) (message : Json) :
    (modifyFamily table family message).Keeps NoCall :=
  (noCall_strike _).bind fun _ world => by
    split
    · exact Std.Refl.refl _
    · split
      · exact Std.Refl.refl _
      · exact ⟨rfl, rfl⟩

/-! ### Statements that only ask or only change -/

variable {world after : World}

/-- A statement that only asks leaves the ledger as it is, and answers from it if it passes. -/
theorem ask_cases {α : Type} {statement : Statement} {answer : Ledger → α}
    {result : Except Failure α} (h : ask statement answer world = (result, after)) :
    LedgerOnly world after ∧ after.ledger = world.ledger ∧
      ((∃ failure, result = .error failure) ∨ result = .ok (answer world.ledger)) := by
  refine ⟨(ledgerOnly_execute _ _ _).of_eq h, ?_⟩
  rcases execute_cases _ _ _ h with ⟨failure, rfl, hledger⟩ | ⟨rfl, hledger⟩
  · exact ⟨hledger, Or.inl ⟨failure, rfl⟩⟩
  · exact ⟨hledger, Or.inr rfl⟩

/-- A statement that only asks is answered when no fault waits at it. -/
theorem ask_of_notMem {α : Type} (statement : Statement) (answer : Ledger → α)
    (h : statement.point ∉ world.faults.map Fault.point) :
    ask statement answer world = (.ok (answer world.ledger), { world with
      traffic := world.traffic ++ [.statement .pool statement] }) :=
  execute_of_notMem .pool statement (fun ledger => (answer ledger, ledger)) h

theorem ledgerOnly_change (channel : Channel) (statement : Statement)
    (effect : Ledger → Ledger) : (change channel statement effect).Keeps LedgerOnly :=
  ledgerOnly_execute _ _ _

/-- A statement that passes has its effect. -/
theorem ledger_change {channel : Channel} {statement : Statement} {effect : Ledger → Ledger}
    (h : change channel statement effect world = (.ok (), after)) :
    after.ledger = effect world.ledger := by
  rcases execute_cases _ _ _ h with ⟨_, ⟨⟩, -⟩ | ⟨-, hledger⟩
  exact hledger

/-- A statement that fails has no effect. -/
theorem ledger_change_of_error {channel : Channel} {statement : Statement}
    {effect : Ledger → Ledger} {failure : Failure}
    (h : change channel statement effect world = (.error failure, after)) :
    after.ledger = world.ledger := by
  rcases execute_cases _ _ _ h with ⟨_, -, hledger⟩ | ⟨⟨⟩, -⟩
  exact hledger

/-- A statement that no fault waits at has its effect. -/
theorem ledger_change_of_notMem (channel : Channel) {statement : Statement}
    (effect : Ledger → Ledger) (h : statement.point ∉ world.faults.map Fault.point) :
    (change channel statement effect world).2.ledger = effect world.ledger := by
  rw [change, execute_of_notMem _ _ _ h]

end World

end Retention

import Mathlib
import Retention.Ledger

/-!
# What is added to a ledger

History rows and events are only ever added at the end. A history row is changed by its id, and ids
are given out once, so the rows that were there before a run of the service are out of its reach, as
are those that an earlier part of the run has added.

## Main definitions

* `LedgerTables.newRows`, `LedgerTables.newEvents`: what was added about a record.
* `LedgerTables.rowsOf`: the policy rows with an id.
* `Ledger.Extends`: between two ledgers some history rows and events were added.
* `Ledger.Adds`: what of it is about a record.

## Main results

* `Ledger.historyId_inj`: ids are given out once.
* `Ledger.Extends.trans`, `Ledger.Adds.trans`: what is added in two parts of a run is added in order.
* `Ledger.extends_started`, `Ledger.extends_ended`: what is added with a history row.
-/

namespace Retention

namespace LedgerTables

/-- The history rows that the later of two ledgers has more. -/
def addedRows (before after : LedgerTables) : List HistoryRow :=
  after.history.drop before.history.length

/-- The events that the later of two ledgers has more. -/
def addedEvents (before after : LedgerTables) : List OutboxEvent :=
  after.outbox.drop before.outbox.length

/-- The history rows about a record that the later of two ledgers has more. -/
def newRows (before after : LedgerTables) (id : Text) : List HistoryRow :=
  (after.history.drop before.history.length).filter fun row => row.policy = id

/-- The events about a record that the later of two ledgers has more. -/
def newEvents (before after : LedgerTables) (id : Text) : List OutboxEvent :=
  (after.outbox.drop before.outbox.length).filter fun event => event.policy = id

/-- The policy rows with an id. -/
def rowsOf (tables : LedgerTables) (id : Text) : List PolicyRecord :=
  tables.policies.filter fun record => record.id = id

end LedgerTables

namespace Ledger

/-! ### Ids are given out once -/

theorem historyId_inj {number other : Nat} : historyId number = historyId other ↔ number = other := by
  constructor
  · intro h
    have hrepr : "history-" ++ number.repr = "history-" ++ other.repr := Text.whole.inj h
    exact Nat.repr_injective (String.append_right_inj _ |>.mp hrepr)
  · rintro rfl
    rfl

/-- A row that no id still to be given out reaches. -/
def Settled (historyCount : Nat) (row : HistoryRow) : Prop :=
  ∀ number, historyCount < number → row.id ≠ historyId number

theorem Settled.mono {historyCount later : Nat} {row : HistoryRow} (h : Settled historyCount row)
    (hle : historyCount ≤ later) : Settled later row :=
  fun number hnumber => h number (Nat.lt_of_le_of_lt hle hnumber)

/-! ### What is added -/

/-- Between two ledgers some history rows and events were added. The rows that were there before may
have been changed by ids that were still to be given out, but by no others. -/
structure Extends (before after : Ledger) (rows : List HistoryRow) (events : List OutboxEvent) :
    Prop where
  historyCount_le : before.historyCount ≤ after.historyCount
  history : ∃ change, after.tables.history = before.tables.history.map change ++ rows ∧
    (∀ row, Settled before.historyCount row → change row = row) ∧
    ∀ row ∈ rows, Settled after.historyCount row
  outbox : after.tables.outbox = before.tables.outbox ++ events

namespace Extends

variable {first second third : Ledger} {rows moreRows : List HistoryRow}
  {events moreEvents : List OutboxEvent}

theorem refl (ledger : Ledger) : Extends ledger ledger [] [] where
  historyCount_le := Nat.le_refl _
  history := ⟨fun row => row, by simp, fun _ _ => rfl, by simp⟩
  outbox := (List.append_nil _).symm

/-- What is added in two parts is added in order. -/
theorem trans (h : Extends first second rows events)
    (h' : Extends second third moreRows moreEvents) :
    Extends first third (rows ++ moreRows) (events ++ moreEvents) where
  historyCount_le := Nat.le_trans h.historyCount_le h'.historyCount_le
  history := by
    obtain ⟨change, hhistory, hkept, hnew⟩ := h.history
    obtain ⟨change', hhistory', hkept', hmore⟩ := h'.history
    -- The rows that the first part has added are out of reach of the second.
    have hnew' : rows.map change' = rows := by
      rw [List.map_congr_left fun row hrow => hkept' row (hnew row hrow), List.map_id']
    refine ⟨change' ∘ change, ?_, fun row hrow => ?_, fun row hrow => ?_⟩
    · rw [hhistory', hhistory, List.map_append, List.map_map, hnew', List.append_assoc]
    · rw [Function.comp_apply, hkept row hrow, hkept' row (hrow.mono h.historyCount_le)]
    · rcases List.mem_append.mp hrow with hrow | hrow
      · exact (hnew row hrow).mono h'.historyCount_le
      · exact hmore row hrow
  outbox := by rw [h'.outbox, h.outbox, List.append_assoc]

/-- What is added is what the later ledger has more. -/
theorem addedRows_eq (h : Extends first second rows events) :
    first.tables.addedRows second.tables = rows := by
  obtain ⟨change, hhistory, -⟩ := h.history
  have hlength : (first.tables.history.map change).length = first.tables.history.length :=
    List.length_map _
  rw [LedgerTables.addedRows, hhistory, ← hlength, List.drop_left]

@[inherit_doc addedRows_eq]
theorem addedEvents_eq (h : Extends first second rows events) :
    first.tables.addedEvents second.tables = events := by
  rw [LedgerTables.addedEvents, h.outbox, List.drop_left]

end Extends

/-- Between two ledgers some history rows and events about a record were added. The rows that were
there before may have been changed by ids that were still to be given out, but by no others. -/
structure Adds (id : Text) (before after : Ledger) (rows : List HistoryRow)
    (events : List OutboxEvent) : Prop where
  historyCount_le : before.historyCount ≤ after.historyCount
  history : ∃ change new, after.tables.history = before.tables.history.map change ++ new ∧
    (∀ row, Settled before.historyCount row → change row = row) ∧
    (∀ row ∈ new, Settled after.historyCount row) ∧ new.filter (fun row => row.policy = id) = rows
  outbox : ∃ new, after.tables.outbox = before.tables.outbox ++ new ∧
    new.filter (fun event => event.policy = id) = events

/-- Of all that was added, some is about a record. -/
theorem adds_iff {id : Text} {before after : Ledger} {rows : List HistoryRow}
    {events : List OutboxEvent} : Adds id before after rows events ↔
      ∃ allRows allEvents, Extends before after allRows allEvents ∧
        allRows.filter (fun row => row.policy = id) = rows ∧
        allEvents.filter (fun event => event.policy = id) = events := by
  constructor
  · rintro ⟨hcount, ⟨change, allRows, hhistory, hkept, hnew, hrows⟩, allEvents, houtbox, hevents⟩
    exact ⟨allRows, allEvents, ⟨hcount, ⟨change, hhistory, hkept, hnew⟩, houtbox⟩, hrows, hevents⟩
  · rintro ⟨allRows, allEvents, ⟨hcount, ⟨change, hhistory, hkept, hnew⟩, houtbox⟩, hrows, hevents⟩
    exact ⟨hcount, ⟨change, allRows, hhistory, hkept, hnew, hrows⟩, allEvents, houtbox, hevents⟩

theorem Extends.adds {before after : Ledger} {rows : List HistoryRow} {events : List OutboxEvent}
    (h : Extends before after rows events) (id : Text) : Adds id before after
      (rows.filter fun row => row.policy = id) (events.filter fun event => event.policy = id) :=
  adds_iff.mpr ⟨rows, events, h, rfl, rfl⟩

/-- When one row was added, it is about its own record. -/
theorem Extends.adds_one {before after : Ledger} {row : HistoryRow} {events : List OutboxEvent}
    (h : Extends before after [row] events) (id : Text) : Adds id before after
      (if row.policy = id then [row] else []) (events.filter fun event => event.policy = id) := by
  have hadds := h.adds id
  rw [List.filter_singleton] at hadds
  by_cases hown : row.policy = id <;> simpa [hown] using hadds

namespace Adds

variable {id : Text} {first second third : Ledger} {rows moreRows : List HistoryRow}
  {events moreEvents : List OutboxEvent}

theorem refl (id : Text) (ledger : Ledger) : Adds id ledger ledger [] [] :=
  (Extends.refl ledger).adds id

/-- What is added in two parts is added in order. -/
theorem trans (h : Adds id first second rows events)
    (h' : Adds id second third moreRows moreEvents) :
    Adds id first third (rows ++ moreRows) (events ++ moreEvents) := by
  obtain ⟨allRows, allEvents, hextends, rfl, rfl⟩ := adds_iff.mp h
  obtain ⟨allMore, allMoreEvents, hextends', rfl, rfl⟩ := adds_iff.mp h'
  exact adds_iff.mpr
    ⟨_, _, hextends.trans hextends', List.filter_append .., List.filter_append ..⟩

/-- What is added is what the later ledger has more. -/
theorem newRows_eq (h : Adds id first second rows events) :
    first.tables.newRows second.tables id = rows := by
  obtain ⟨allRows, allEvents, hextends, rfl, -⟩ := adds_iff.mp h
  rw [← hextends.addedRows_eq]
  rfl

@[inherit_doc newRows_eq]
theorem newEvents_eq (h : Adds id first second rows events) :
    first.tables.newEvents second.tables id = events := by
  obtain ⟨allRows, allEvents, hextends, -, rfl⟩ := adds_iff.mp h
  rw [← hextends.addedEvents_eq]
  rfl

/-- Events are added at the end. -/
theorem outbox_grows (h : Adds id first second rows events) :
    first.tables.outbox <+: second.tables.outbox := by
  obtain ⟨allRows, allEvents, hextends, -, -⟩ := adds_iff.mp h
  exact ⟨allEvents, hextends.outbox.symm⟩

end Adds

/-! ### A new history row -/

/-- The history row that a record starts with. -/
def startedRow (ledger : Ledger) (start : HistoryStart) : HistoryRow :=
  ⟨historyId (ledger.historyCount + 1), start.policy, start.table, start.family, none, false,
    start.status, none, start.dryRun, false⟩

/-- A history row as its end leaves it. -/
def endedRow (outcome : HistoryEnd) (row : HistoryRow) : HistoryRow :=
  { row with
    action := outcome.action, driftDetected := outcome.driftDetected, status := outcome.status,
    error := outcome.error?, completed := true }

theorem history_createHistory (start : HistoryStart) (ledger : Ledger) :
    (ledger.createHistory start).2.tables.history =
      ledger.tables.history ++ [ledger.startedRow start] := rfl

section Created

variable {before after : Ledger} {start : HistoryStart} {events : List OutboxEvent}
  (hcount : after.historyCount = before.historyCount + 1)
  (houtbox : after.tables.outbox = before.tables.outbox ++ events)

include hcount houtbox

/-- A history row is created and events go out: the row and the events are what was added. -/
theorem extends_started
    (hhistory : after.tables.history = (before.createHistory start).2.tables.history) :
    Extends before after [before.startedRow start] events where
  historyCount_le := by omega
  history := by
    refine ⟨fun row => row, ?_, fun _ _ => rfl, fun row hrow => ?_⟩
    · rw [hhistory, history_createHistory, List.map_id']
    · rw [List.mem_singleton] at hrow
      subst hrow
      intro number hnumber heq
      have := historyId_inj.mp heq
      omega
  outbox := houtbox

/-- The same when the row has been ended by its id. -/
theorem extends_ended {outcome : HistoryEnd}
    (hhistory : after.tables.history = ((before.createHistory start).2.completeHistory
      (before.createHistory start).1 outcome).tables.history) :
    Extends before after [endedRow outcome (before.startedRow start)] events where
  historyCount_le := by omega
  history := by
    refine ⟨fun row => if row.id = historyId (before.historyCount + 1) then endedRow outcome row
      else row, ?_, fun row hrow => ?_, fun row hrow => ?_⟩
    · have hstarted : (before.startedRow start).id = historyId (before.historyCount + 1) := rfl
      rw [hhistory, completeHistory, withHistory, history_createHistory, List.map_append,
        List.map_singleton]
      exact congrArg _ (congrArg (fun row => [row]) (if_pos hstarted))
    · exact if_neg (hrow _ (Nat.lt_succ_self _))
    · rw [List.mem_singleton] at hrow
      subst hrow
      intro number hnumber heq
      have := historyId_inj.mp heq
      omega
  outbox := houtbox

end Created

/-! ### Managed records -/

theorem mem_managed {ledger : Ledger} {record : PolicyRecord} :
    record ∈ ledger.managed ↔ record ∈ ledger.tables.policies ∧ record.isManaged = true := by
  rw [managed, List.mem_mergeSort, List.mem_filter]

/-- What tells all records apart tells the managed ones apart. -/
theorem nodup_map_managed {α : Type} {key : PolicyRecord → α} {ledger : Ledger}
    (h : (ledger.tables.policies.map key).Nodup) : (ledger.managed.map key).Nodup := by
  have hperm := (List.mergeSort_perm (ledger.tables.policies.filter PolicyRecord.isManaged)
    recordLe).map key
  exact hperm.nodup_iff.mpr ((List.filter_sublist.map key).nodup h)

end Ledger

namespace LedgerTables

variable {tables : LedgerTables} {id : Text}

/-- Among rows with ids of their own, a row is the one with its id. -/
theorem rowsOf_eq_singleton (h : (tables.policies.map PolicyRecord.id).Nodup)
    {record : PolicyRecord} (hmem : record ∈ tables.policies) :
    tables.rowsOf record.id = [record] := by
  unfold rowsOf
  generalize tables.policies = policies at h hmem
  induction policies with
  | nil => cases hmem
  | cons first rest ih =>
    rw [List.map_cons, List.nodup_cons] at h
    rw [List.filter_cons]
    rcases List.mem_cons.mp hmem with rfl | hrest
    · rw [if_pos (by simp), List.filter_eq_nil_iff.mpr]
      intro other hother hid
      exact h.1 (List.mem_map.mpr ⟨other, hother, by simpa using hid⟩)
    · have hne : first.id ≠ record.id := fun heq => h.1 (List.mem_map.mpr ⟨record, hrest, heq.symm⟩)
      rw [if_neg (by simpa using hne), ih h.2 hrest]

/-- Changing the rows with an id changes the rows that have it, as long as it stays theirs. -/
theorem filter_map_of_id {policies : List PolicyRecord} {change : PolicyRecord → PolicyRecord}
    (hid : ∀ record, (change record).id = record.id) (own : Text) :
    ((policies.map fun record => if record.id = own then change record else record).filter
      fun record => record.id = id) =
      if id = own then (policies.filter fun record => record.id = id).map change
      else policies.filter fun record => record.id = id := by
  have hsame (record : PolicyRecord) :
      (if record.id = own then change record else record).id = record.id := by
    split
    · exact hid record
    · rfl
  have hmem {record : PolicyRecord} (h : record ∈ policies.filter fun record => record.id = id) :
      record.id = id := by
    simpa using (List.mem_filter.mp h).2
  rw [List.filter_map]
  simp only [Function.comp_def, hsame]
  split
  · next hown =>
    exact List.map_congr_left fun record hrecord => if_pos ((hmem hrecord).trans hown)
  · next hown =>
    rw [List.map_congr_left fun record hrecord => if_neg fun heq => hown ((hmem hrecord) ▸ heq),
      List.map_id']

end LedgerTables

namespace Ledger

/-- Whether a record is managed shows in the rows with its id. -/
theorem mem_managed_iff_rowsOf {ledger : Ledger} {record : PolicyRecord} :
    record ∈ ledger.managed ↔
      record ∈ ledger.tables.rowsOf record.id ∧ record.isManaged = true := by
  rw [mem_managed, LedgerTables.rowsOf, List.mem_filter]
  simp

/-- A managed record is managed as long as the rows with its id are the same. -/
theorem mem_managed_of_rowsOf {before after : Ledger} {record : PolicyRecord}
    (hrecord : record ∈ before.managed)
    (hrows : after.tables.rowsOf record.id = before.tables.rowsOf record.id) :
    record ∈ after.managed := by
  rw [mem_managed_iff_rowsOf] at hrecord ⊢
  rwa [hrows]

end Ledger

end Retention

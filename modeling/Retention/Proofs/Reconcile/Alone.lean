import Retention.Proofs.Reconcile.Entry

/-!
# Records are reconciled independently

In a quiet world where no two managed records stand for the same family, what a run comes to for a
record can be told from the record, its policy rows and the looks of its family alone. Other records do
not matter, nor how they are ordered, whether they fail, or what other families of the table are
like. In particular the run comes to the same when all other records are disabled.

Policy rows are marked by their ids. Where records share one, they are one record here: its rows get
all the marks, and the marks do not depend on the order in which they are set.

## Main definitions

* `Reconciler.Share`: what a run comes to for one record.
* `Reconciler.ComesTo`: a run comes to that.
* `Reconciler.shareOf`: the same, told from the world that the run starts from.
* `World.SharesRecord`: worlds that have a record and the looks of its family in common.
* `World.alone`: a world with all other records disabled.

## Main results

* `Reconciler.comesTo_shareOf`: a run comes to what can be told from the start.
* `Reconciler.shareOf_congr`: this is the same in worlds that have the record in common.
* `Reconciler.reconcileAll_alone`: a run comes to the same for a record without the others.
-/

namespace Retention

/-- Whether a history row is about a family. -/
def HistoryRow.isAbout (family : FamilyRef) (row : HistoryRow) : Bool :=
  row.table = family.table && row.family = family.family

/-- Whether an event is about a family. -/
def OutboxEvent.isAbout (family : FamilyRef) (event : OutboxEvent) : Bool :=
  event.table = family.table && event.family = family.family

/-- A history row but for its id. -/
def HistoryRow.unnumbered (row : HistoryRow) : HistoryRow := { row with id := "" }

namespace World

/-- Two worlds have a record in common: the moment, the policy rows with its id, and the looks of the
families of the managed ones among them. -/
structure SharesRecord (id : Text) (before other : World) : Prop where
  now_eq : other.now = before.now
  rowsOf_eq : other.ledger.tables.rowsOf id = before.ledger.tables.rowsOf id
  looksAlike : ∀ record ∈ before.ledger.managed, record.id = id →
    LooksAlike (Reconciler.target record) before other

/-- A record that stays enabled only if it has an id. -/
def only (id : Text) (record : PolicyRecord) : PolicyRecord :=
  if record.id = id then record else { record with enabled := false }

/-- A world with all records disabled but those with an id. -/
def alone (id : Text) (world : World) : World :=
  { world with ledger := world.ledger.withPolicies (List.map (only id)) }

/-! ### Records in common -/

variable {id : Text} {before other : World} {record : PolicyRecord}

theorem SharesRecord.mem_managed (h : SharesRecord record.id before other)
    (hrecord : record ∈ before.ledger.managed) : record ∈ other.ledger.managed :=
  Ledger.mem_managed_of_rowsOf hrecord h.rowsOf_eq

theorem id_only (id : Text) (record : PolicyRecord) : (only id record).id = record.id := by
  unfold only
  split <;> rfl

theorem isManaged_only (id : Text) (record : PolicyRecord) :
    (only id record).isManaged = (decide (record.id = id) && record.isManaged) := by
  unfold only
  split
  · next hown => simp [hown]
  · next hother => simp [hother, PolicyRecord.isManaged]

/-- With all other records disabled, a world has the record in common with what it was. -/
theorem sharesRecord_alone (id : Text) (before : World) :
    SharesRecord id before (before.alone id) where
  now_eq := rfl
  rowsOf_eq := by
    change (before.ledger.tables.policies.map (only id)).filter (fun record => record.id = id) =
      before.ledger.tables.rowsOf id
    rw [List.filter_map]
    simp only [Function.comp_def, id_only]
    refine (List.map_congr_left fun record hrecord => ?_).trans (List.map_id' _)
    exact if_pos (by simpa using (List.mem_filter.mp hrecord).2)
  looksAlike _ _ _ := ⟨rfl, rfl, rfl⟩

/-- The records that are managed then are those with the id. -/
theorem managed_alone (id : Text) (before : World) : (before.alone id).ledger.managed.Perm
    (before.ledger.managed.filter fun record => record.id = id) := by
  have hkept : (before.alone id).ledger.tables.policies.filter PolicyRecord.isManaged =
      (before.ledger.tables.policies.filter PolicyRecord.isManaged).filter fun record =>
        record.id = id := by
    change (before.ledger.tables.policies.map (only id)).filter PolicyRecord.isManaged = _
    rw [List.filter_map, List.filter_filter]
    simp only [Function.comp_def, isManaged_only]
    refine (List.map_congr_left fun record hrecord => ?_).trans (List.map_id' _)
    exact if_pos (by simpa using (Bool.and_eq_true_iff.mp (List.mem_filter.mp hrecord).2).1)
  refine (List.mergeSort_perm _ _).trans ?_
  rw [hkept]
  exact ((List.mergeSort_perm _ _).filter _).symm

end World

namespace Reconciler

open World

variable {reconciler : Reconciler} {record : PolicyRecord} {dryRun : Bool}
  {records : List PolicyRecord} {entry : Entry} {entries : List Entry}
  {before other after : World}

/-- What a run comes to for one record: how the record went, its history row but for the id of the
row, the events about its family, the policy rows with its id, and its family as the world has it and
as its table has it. -/
structure Share where
  report : Report
  row : HistoryRow
  events : List OutboxEvent
  policies : List PolicyRecord
  shown : Option Json
  own : Option Json

/-- A run from a world comes to a share for a record. -/
def ComesTo (reconciler : Reconciler) (dryRun : Bool) (before : World) (record : PolicyRecord)
    (share : Share) : Prop :=
  ∃ found reports summary after, findManaged before = (.ok before.ledger.managed, found) ∧
    HandledAll reconciler dryRun found before.ledger.managed reports after ∧
    reconciler.reconcileAll dryRun before = (.ok summary, after) ∧
    (record, share.report) ∈ before.ledger.managed.zip reports ∧
    ((before.ledger.tables.addedRows after.ledger.tables).filter
      (HistoryRow.isAbout (target record))).map HistoryRow.unnumbered = [share.row] ∧
    (before.ledger.tables.addedEvents after.ledger.tables).filter
      (OutboxEvent.isAbout (target record)) = share.events ∧
    after.ledger.tables.rowsOf record.id = share.policies ∧
    after.family? (target record) = share.shown ∧ after.ownFamily? (target record) = share.own

/-! ### Told from the start -/

/-- What a record adds, told from the world that a run starts from. -/
def entryFrom (reconciler : Reconciler) (dryRun : Bool) (before : World) (record : PolicyRecord) :
    Entry :=
  entryOf record dryRun before.now before.ledger (reconciler.work record dryRun before).1

/-- How the managed records with an id go, told from the world that a run starts from. -/
def reportsFrom (reconciler : Reconciler) (dryRun : Bool) (before : World) (id : Text) :
    List (PolicyRecord × Report) :=
  (before.ledger.managed.filter fun record => record.id = id).map fun record =>
    (record, (entryFrom reconciler dryRun before record).report)

/-- What a run comes to for a record, told from the world that it starts from. -/
def shareOf (reconciler : Reconciler) (dryRun : Bool) (before : World) (record : PolicyRecord) :
    Share where
  report := (entryFrom reconciler dryRun before record).report
  row := (entryFrom reconciler dryRun before record).row.unnumbered
  events := (entryFrom reconciler dryRun before record).events
  policies := (before.ledger.tables.rowsOf record.id).map
    (touched dryRun (reportsFrom reconciler dryRun before record.id))
  shown := (reconciler.work record dryRun before).2.family? (target record)
  own := (reconciler.work record dryRun before).2.ownFamily? (target record)

/-- Entries that differ at most in the id of the history row. -/
structure Entry.Matches (entry other : Entry) : Prop where
  report_eq : entry.report = other.report
  row_eq : entry.row.unnumbered = other.row.unnumbered
  events_eq : entry.events = other.events

/-- The id of its history row is all that a record's entry takes from the ledger. -/
theorem matches_entryOf (record : PolicyRecord) (dryRun : Bool) (now : Text) (ledger last : Ledger)
    (outcome : Except Failure Finding) : (entryOf record dryRun now ledger outcome).Matches
      (entryOf record dryRun now last outcome) := by
  cases outcome <;> exact ⟨rfl, rfl, rfl⟩

/-- **What a record comes to can be told from the start.** -/
theorem Came.matches (hquiet : before.Quiet)
    (h : Came reconciler record dryRun before entry after) :
    entry.Matches (entryFrom reconciler dryRun before record) ∧
      LooksAlike (target record) (reconciler.work record dryRun before).2 after := by
  cases h with
  | @intro started worked after outcome ledger hbefore hwork hafter =>
    obtain ⟨hsame, hworked⟩ := agrees_work reconciler record dryRun before started
      (hbefore.alike hquiet.faults_eq fun _ => hquiet)
    rw [hwork] at hsame hworked
    rw [entryFrom, hsame]
    exact ⟨matches_entryOf _ _ _ _ _ _, hworked.looksAlike.trans hafter.looksAlike⟩

/-! ### Rows and events about a family -/

/-- What a record has added is about the record's family. -/
theorem Entry.IsAbout.filter_self (h : entry.IsAbout record) :
    [entry.row].filter (HistoryRow.isAbout (target record)) = [entry.row] ∧
      entry.events.filter (OutboxEvent.isAbout (target record)) = entry.events := by
  constructor
  · refine List.filter_cons_of_pos ?_
    simp [HistoryRow.isAbout, target, h.table_eq, h.family_eq]
  · refine List.filter_eq_self.mpr fun event hevent => ?_
    obtain ⟨htable, hfamily⟩ := h.events event hevent
    simp [OutboxEvent.isAbout, target, htable, hfamily]

/-- What a record has added is about no other family. -/
theorem Entry.IsAbout.filter_of_ne (h : entry.IsAbout record) {family : FamilyRef}
    (hne : target record ≠ family) :
    [entry.row].filter (HistoryRow.isAbout family) = [] ∧
      entry.events.filter (OutboxEvent.isAbout family) = [] := by
  constructor
  · refine List.filter_cons_of_neg fun habout => hne ?_
    obtain ⟨htable, hfamily⟩ : record.table = family.table ∧ record.family = family.family := by
      simpa [HistoryRow.isAbout, h.table_eq, h.family_eq] using habout
    exact FamilyRef.ext htable hfamily
  · refine List.filter_eq_nil_iff.mpr fun event hevent habout => hne ?_
    obtain ⟨htable, hfamily⟩ : event.table = family.table ∧ event.family = family.family := by
      simpa [OutboxEvent.isAbout] using habout
    obtain ⟨hown, hown'⟩ := h.events event hevent
    exact FamilyRef.ext (hown.symm.trans htable) (hown'.symm.trans hfamily)

/-- What some records have added is about no family that none of them stands for. -/
theorem filter_of_ne {family : FamilyRef}
    (h : List.Forall₂ (fun record entry => Entry.IsAbout record entry) records entries)
    (hne : ∀ record ∈ records, target record ≠ family) :
    (entries.map Entry.row).filter (HistoryRow.isAbout family) = [] ∧
      (entries.flatMap Entry.events).filter (OutboxEvent.isAbout family) = [] := by
  induction h with
  | nil => exact ⟨rfl, rfl⟩
  | @cons first own records entries hfirst _ ih =>
    obtain ⟨hrow, hevents⟩ := hfirst.filter_of_ne (hne first List.mem_cons_self)
    obtain ⟨hrows, hmore⟩ := ih fun other hother => hne other (List.mem_cons_of_mem _ hother)
    constructor
    · rw [List.map_cons, ← List.singleton_append, List.filter_append, hrow, hrows, List.append_nil]
    · rw [List.flatMap_cons, List.filter_append, hevents, hmore, List.append_nil]

/-- Of what some records of different families have added, what is about one of them is its own. -/
theorem filter_of_mem (hfamilies : (records.map target).Nodup)
    (h : List.Forall₂ (fun record entry => Entry.IsAbout record entry) records entries)
    (hentry : (record, entry) ∈ records.zip entries) :
    (entries.map Entry.row).filter (HistoryRow.isAbout (target record)) = [entry.row] ∧
      (entries.flatMap Entry.events).filter (OutboxEvent.isAbout (target record)) =
        entry.events := by
  induction h with
  | nil => cases hentry
  | @cons first own records entries hfirst hrest ih =>
    rw [List.map_cons, List.nodup_cons] at hfamilies
    rw [List.map_cons, ← List.singleton_append, List.filter_append, List.flatMap_cons,
      List.filter_append]
    rcases List.mem_cons.mp hentry with heq | hlater
    · obtain ⟨rfl, rfl⟩ := Prod.mk.inj heq
      obtain ⟨hrow, hevents⟩ := hfirst.filter_self
      have hne : ∀ other ∈ records, target other ≠ target record := fun other hother heq =>
        hfamilies.1 (heq ▸ List.mem_map_of_mem hother)
      obtain ⟨hrows, hmore⟩ := filter_of_ne hrest hne
      rw [hrow, hevents, hrows, hmore, List.append_nil, List.append_nil]
      exact ⟨rfl, rfl⟩
    · have hne : target first ≠ target record := fun heq =>
        hfamilies.1 (heq ▸ List.mem_map_of_mem (List.of_mem_zip hlater).1)
      obtain ⟨hrow, hevents⟩ := hfirst.filter_of_ne hne
      rw [hrow, hevents, List.nil_append, List.nil_append]
      exact ih hfamilies.2 hlater

/-! ### Policy rows -/

/-- Marks are set in any order. -/
theorem marked_comm (action other : Action) (row : PolicyRecord) :
    marked action (marked other row) = marked other (marked action row) := by
  unfold marked
  split <;> split <;> rfl

theorem touch_comm (first second : PolicyRecord × Report) (row : PolicyRecord) :
    second.2.touch dryRun second.1 (first.2.touch dryRun first.1 row) =
      first.2.touch dryRun first.1 (second.2.touch dryRun second.1 row) := by
  have hid (pair : PolicyRecord × Report) : (pair.2.touch dryRun pair.1 row).id = row.id :=
    Report.id_touch _ row
  by_cases hfirst : row.id = first.1.id
  · by_cases hsecond : row.id = second.1.id
    · rw [touch_of_eq ((hid first).trans hsecond), touch_of_eq ((hid second).trans hfirst),
        touch_of_eq hfirst, touch_of_eq hsecond]
      cases first.2.mark? dryRun with
      | none => rfl
      | some action =>
        cases second.2.mark? dryRun with
        | none => rfl
        | some other => exact marked_comm other action row
    · rw [touch_of_ne hsecond, touch_of_ne (hid first ▸ hsecond)]
  · rw [touch_of_ne hfirst]
    exact (touch_of_ne fun heq => hfirst ((hid second).symm.trans heq)).symm

/-- The order of the records does not matter to a policy row. -/
theorem touched_of_perm {pairs others : List (PolicyRecord × Report)} (h : pairs.Perm others)
    (row : PolicyRecord) : touched dryRun pairs row = touched dryRun others row := by
  have : RightCommutative fun (row : PolicyRecord) (pair : PolicyRecord × Report) =>
      pair.2.touch dryRun pair.1 row := ⟨fun row first second => touch_comm first second row⟩
  exact h.foldl_eq row

/-- Only records with its id matter to a policy row. -/
theorem touched_filter (pairs : List (PolicyRecord × Report)) (row : PolicyRecord) :
    touched dryRun pairs row =
      touched dryRun (pairs.filter fun pair => pair.1.id = row.id) row := by
  induction pairs generalizing row with
  | nil => rfl
  | cons pair rest ih =>
    have hid : (pair.2.touch dryRun pair.1 row).id = row.id := Report.id_touch _ row
    by_cases hown : pair.1.id = row.id
    · rw [List.filter_cons_of_pos (by simpa using hown)]
      refine (ih _).trans ?_
      rw [hid]
      rfl
    · rw [List.filter_cons_of_neg (by simpa using hown), ← ih row]
      exact congrArg (touched dryRun rest) (touch_of_ne (Ne.symm hown))

theorem id_touched (pairs : List (PolicyRecord × Report)) (row : PolicyRecord) :
    (touched dryRun pairs row).id = row.id := by
  induction pairs generalizing row with
  | nil => rfl
  | cons pair rest ih => exact (ih _).trans (Report.id_touch _ row)

/-- What becomes of the policy rows with an id is up to the records with that id. -/
theorem rowsOf_of_touched {tables later : LedgerTables} {pairs : List (PolicyRecord × Report)}
    (h : later.policies = tables.policies.map (touched dryRun pairs)) (id : Text) :
    later.rowsOf id =
      (tables.rowsOf id).map (touched dryRun (pairs.filter fun pair => pair.1.id = id)) := by
  rw [LedgerTables.rowsOf, h, List.filter_map, LedgerTables.rowsOf]
  simp only [Function.comp_def, id_touched]
  refine List.map_congr_left fun row hrow => ?_
  obtain rfl : row.id = id := by simpa using (List.mem_filter.mp hrow).2
  exact touched_filter pairs row

/-! ### Runs -/

/-- The reports of some records, when each can be told from its record. -/
theorem zip_report {report : PolicyRecord → Report}
    (h : List.Forall₂ (fun record entry => Entry.report entry = report record) records entries) :
    records.zip (entries.map Entry.report) = records.map fun record => (record, report record) := by
  induction h with
  | nil => rfl
  | cons hfirst _ ih => rw [List.map_cons, List.zip_cons_cons, ih, hfirst, List.map_cons]

/-- **Told from the start.** In a quiet world where no two managed records stand for the same family,
a run comes for each of them to what can be told from the world it starts from. -/
theorem comesTo_shareOf (reconciler : Reconciler) (dryRun : Bool) (hquiet : before.Quiet)
    (hfamilies : (before.ledger.managed.map target).Nodup)
    (hrecord : record ∈ before.ledger.managed) :
    ComesTo reconciler dryRun before record (shareOf reconciler dryRun before record) := by
  obtain ⟨found, entries, summary, after, hfind, hall, hrun, hcame, hledger, hpolicies⟩ :=
    exists_cameAll reconciler dryRun hquiet.faults_eq hfamilies
  obtain ⟨entry, hentry⟩ : ∃ entry, (record, entry) ∈ before.ledger.managed.zip entries := by
    have hfst : (before.ledger.managed.zip entries).map Prod.fst = before.ledger.managed :=
      List.map_fst_zip (Nat.le_of_eq hcame.length_eq)
    obtain ⟨⟨_, entry⟩, hpair, rfl⟩ := List.mem_map.mp (hfst ▸ hrecord)
    exact ⟨entry, hpair⟩
  obtain ⟨⟨hreport, hrow, hevents⟩, hlooks⟩ := (List.forall₂_zip hcame hentry).matches hquiet
  have hzip := zip_report (hcame.imp fun record entry h => (h.matches hquiet).1.report_eq)
  obtain ⟨hrows, hsent⟩ :=
    filter_of_mem hfamilies (hcame.imp fun record entry h => h.isAbout) hentry
  refine ⟨found, entries.map Entry.report, summary, after, hfind, hall, hrun, ?_, ?_, ?_, ?_,
    hlooks.family?_eq, hlooks.ownFamily?_eq⟩
  · rw [hzip]
    exact List.mem_map.mpr ⟨record, hrecord, rfl⟩
  · rw [hledger.addedRows_eq, hrows, List.map_singleton, hrow]
    rfl
  · rw [hledger.addedEvents_eq, hsent, hevents]
    rfl
  · rw [rowsOf_of_touched hpolicies, hzip, List.filter_map]
    rfl

section Sharing

variable (hquiet : before.Quiet) (hother : other.Quiet)

include hquiet hother

/-- What a record adds, but for the id of its history row, and how its family looks after the work are
the same in worlds where its family looks the same. -/
theorem entryFrom_congr (reconciler : Reconciler) (dryRun : Bool) (hnow : other.now = before.now)
    (hlooks : LooksAlike (target record) before other) :
    (entryFrom reconciler dryRun before record).Matches
        (entryFrom reconciler dryRun other record) ∧
      LooksAlike (target record) (reconciler.work record dryRun before).2
        (reconciler.work record dryRun other).2 := by
  obtain ⟨hsame, hworked⟩ := agrees_work reconciler record dryRun before other
    ⟨⟨hquiet.faults_eq, hother.faults_eq⟩, fun _ => ⟨hquiet.reply_eq, hother.reply_eq⟩, hlooks⟩
  rw [entryFrom, entryFrom, hnow, hsame]
  exact ⟨matches_entryOf _ _ _ _ _ _, hworked.looksAlike⟩

/-- The records with an id go the same in worlds that have them in common. -/
theorem reportsFrom_congr {id : Text} (reconciler : Reconciler) (dryRun : Bool)
    (hfamilies : (before.ledger.managed.map target).Nodup)
    (hothers : (other.ledger.managed.map target).Nodup) (h : SharesRecord id before other) :
    (reportsFrom reconciler dryRun before id).Perm (reportsFrom reconciler dryRun other id) := by
  have hmem (world : World) (record : PolicyRecord) :
      record ∈ world.ledger.managed.filter (fun record => record.id = id) ↔
        record ∈ world.ledger.tables.rowsOf id ∧ record.isManaged = true := by
    rw [List.mem_filter, Ledger.mem_managed, LedgerTables.rowsOf, List.mem_filter]
    exact and_right_comm
  have hperm : (before.ledger.managed.filter fun record => record.id = id).Perm
      (other.ledger.managed.filter fun record => record.id = id) := by
    refine (List.perm_ext_iff_of_nodup (hfamilies.of_map.filter _) (hothers.of_map.filter _)).mpr
      fun record => ?_
    rw [hmem, hmem, h.rowsOf_eq]
  refine (List.Perm.of_eq (List.map_congr_left fun record hrecord => ?_)).trans (hperm.map _)
  obtain ⟨hmanaged, hid⟩ := List.mem_filter.mp hrecord
  have hlooks := h.looksAlike record hmanaged (by simpa using hid)
  rw [(entryFrom_congr hquiet hother reconciler dryRun h.now_eq hlooks).1.report_eq]

/-- What can be told from the start is the same in worlds that have the record in common. -/
theorem shareOf_congr (reconciler : Reconciler) (dryRun : Bool)
    (hfamilies : (before.ledger.managed.map target).Nodup)
    (hothers : (other.ledger.managed.map target).Nodup) (hrecord : record ∈ before.ledger.managed)
    (h : SharesRecord record.id before other) :
    shareOf reconciler dryRun before record = shareOf reconciler dryRun other record := by
  obtain ⟨⟨hreport, hrow, hevents⟩, hworked⟩ := entryFrom_congr hquiet hother reconciler dryRun
    h.now_eq (h.looksAlike record hrecord rfl)
  have hpolicies : (before.ledger.tables.rowsOf record.id).map
        (touched dryRun (reportsFrom reconciler dryRun before record.id)) =
      (other.ledger.tables.rowsOf record.id).map
        (touched dryRun (reportsFrom reconciler dryRun other record.id)) := by
    rw [h.rowsOf_eq]
    refine List.map_congr_left fun row _ => touched_of_perm ?_ row
    exact reportsFrom_congr hquiet hother reconciler dryRun hfamilies hothers h
  rw [shareOf, shareOf, hreport, hrow, hevents, hpolicies, hworked.family?_eq, hworked.ownFamily?_eq]

end Sharing

/-- **Records are reconciled independently.** In a quiet world where no two managed records stand for
the same family, a run comes to something for each managed record, and comes to the same in the world
with all other records disabled, and in any other quiet world that has the record, its policy rows
and the looks of its family in common and where no two managed records stand for the same family. -/
theorem reconcileAll_alone (reconciler : Reconciler) (dryRun : Bool) (hquiet : before.Quiet)
    (hfamilies : (before.ledger.managed.map target).Nodup)
    (hrecord : record ∈ before.ledger.managed) :
    ∃ share, ComesTo reconciler dryRun before record share ∧
      ComesTo reconciler dryRun (before.alone record.id) record share ∧
      ∀ other : World, other.Quiet → (other.ledger.managed.map target).Nodup →
        SharesRecord record.id before other → ComesTo reconciler dryRun other record share := by
  have hothers : ∀ other : World, other.Quiet → (other.ledger.managed.map target).Nodup →
      SharesRecord record.id before other → ComesTo reconciler dryRun other record
        (shareOf reconciler dryRun before record) := by
    intro other hother hnodup hshares
    rw [shareOf_congr hquiet hother reconciler dryRun hfamilies hnodup hrecord hshares]
    exact comesTo_shareOf reconciler dryRun hother hnodup (hshares.mem_managed hrecord)
  refine ⟨shareOf reconciler dryRun before record,
    comesTo_shareOf reconciler dryRun hquiet hfamilies hrecord,
    hothers _ ⟨hquiet.faults_eq, hquiet.reply_eq⟩ ?_ (sharesRecord_alone _ _), hothers⟩
  have hperm := (managed_alone record.id before).map target
  exact hperm.nodup_iff.mpr ((List.filter_sublist.map target).nodup hfamilies)

/-- After a record whose rules are no rules, a record comes to the same as alone, and as before a
record whose family is missing. -/
theorem reconcileAll_alone_broken : ∃ before other broken missing share,
    broken = recordOf "policy-2" "e" (.bool true) .default .present ∧
      missing = recordOf "policy-3" "g" .null .default .absent ∧
      before = worldWith [("e", twoVersions), ("f", twoVersions)] [broken, aged] [] ∧
      other = worldWith [("f", twoVersions)] [aged, missing] [] ∧
      ComesTo patient false before aged share ∧
      ComesTo patient false (before.alone aged.id) aged share ∧
      ComesTo patient false other aged share := by
  obtain ⟨broken, hbroken⟩ :
      ∃ record, record = recordOf "policy-2" "e" (.bool true) .default .present := ⟨_, rfl⟩
  obtain ⟨missing, hmissing⟩ : ∃ record, record = recordOf "policy-3" "g" .null .default .absent :=
    ⟨_, rfl⟩
  obtain ⟨before, hbefore⟩ : ∃ before,
    before = worldWith [("e", twoVersions), ("f", twoVersions)] [broken, aged] [] := ⟨_, rfl⟩
  obtain ⟨other, hother⟩ : ∃ other,
    other = worldWith [("f", twoVersions)] [aged, missing] [] := ⟨_, rfl⟩
  have hquiet : before.Quiet ∧ other.Quiet := by
    subst hbefore hother
    exact ⟨⟨rfl, rfl⟩, ⟨rfl, rfl⟩⟩
  have hfamilies : (before.ledger.managed.map target).Nodup := by
    refine Ledger.nodup_map_managed ?_
    subst hbefore hbroken
    decide
  have hothers : (other.ledger.managed.map target).Nodup := by
    refine Ledger.nodup_map_managed ?_
    subst hother hmissing
    decide
  have hrecord : aged ∈ before.ledger.managed := by
    subst hbefore
    exact Ledger.mem_managed.mpr ⟨List.mem_cons_of_mem _ List.mem_cons_self, rfl⟩
  have hshares : SharesRecord aged.id before other := by
    have hrows : before.ledger.tables.rowsOf aged.id = [aged] ∧
        other.ledger.tables.rowsOf aged.id = [aged] := by
      subst hbefore hother hbroken hmissing
      exact ⟨rfl, rfl⟩
    have hlooks : LooksAlike (target aged) before other := by
      subst hbefore hother
      exact ⟨rfl, rfl, rfl⟩
    refine ⟨by rw [hbefore, hother]; rfl, hrows.2.trans hrows.1.symm, fun record hmanaged hid => ?_⟩
    have hown := (Ledger.mem_managed_iff_rowsOf.mp hmanaged).1
    rw [hid, hrows.1] at hown
    rwa [List.mem_singleton.mp hown]
  obtain ⟨share, hcomes, halone, hall⟩ :=
    reconcileAll_alone patient false hquiet.1 hfamilies hrecord
  exact ⟨before, other, broken, missing, share, hbroken, hmissing, hbefore, hother, hcomes, halone,
    hall other hquiet.2 hothers hshares⟩

end Reconciler

end Retention

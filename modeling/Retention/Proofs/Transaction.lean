import Retention.Proofs.World

/-!
# Transactions stand or are taken back

A transaction that ends with a value has run its body between an opening and a closing statement
that passed. One that fails leaves the ledger as it was, provided that no other transaction was
open, that a savepoint goes with its connection, and that no fault waits at the statement that takes
a transaction back.

## Main definitions

* `World.AtRest`: what has to hold for a failed transaction to leave no trace.
* `World.TablesOnly`: at most the tables of the ledger have changed.

## Main results

* `Session.transaction_eq_ok_iff`: a transaction that stands.
* `Session.keeps_transaction`: what a transaction leaves alone.
* `World.transaction_eq_ok`: the ledger after a transaction that stands.
* `World.transaction_eq_error`: the ledger after one that is taken back.
-/

namespace Retention

namespace Session

variable {σ α : Type} {session : Session σ} {body : Step σ α} {s t : σ}

/-- A transaction ends with a value exactly when its body does and no statement fails. -/
theorem transaction_eq_ok_iff {value : α} :
    session.transaction body s = (.ok value, t) ↔
      ∃ connected opened done closed, session.connect s = (.ok (), connected) ∧
        session.begin connected = (.ok (), opened) ∧ body opened = (.ok value, done) ∧
        session.commit done = (.ok (), closed) ∧ t = session.release closed := by
  have hbracket {connected closed : σ} :
      session.bracket body connected = (.ok value, closed) ↔
        ∃ opened done, session.begin connected = (.ok (), opened) ∧
          body opened = (.ok value, done) ∧ session.commit done = (.ok (), closed) := by
    rw [bracket, Step.bind_eq_ok_iff]
    constructor
    · rintro ⟨_, opened, hbegin, hrest⟩
      obtain ⟨first, done, hbody, hcommit⟩ := Step.bind_eq_ok_iff.mp hrest
      obtain ⟨_, closed, hcommit, ⟨⟩⟩ := Step.bind_eq_ok_iff.mp hcommit
      exact ⟨opened, done, hbegin, hbody, hcommit⟩
    · rintro ⟨opened, done, hbegin, hbody, hcommit⟩
      exact ⟨(), opened, hbegin, Step.bind_eq_ok_iff.mpr
        ⟨value, done, hbody, Step.bind_eq_ok_iff.mpr ⟨(), closed, hcommit, rfl⟩⟩⟩
  have hfinish {connected : σ} : session.finish (session.bracket body connected) = (.ok value, t) ↔
      ∃ closed, session.bracket body connected = (.ok value, closed) ∧
        t = session.release closed := by
    rcases session.bracket body connected with ⟨failure | found, closed⟩
    · rw [finish]
      rcases session.rollback closed with ⟨other | _, undone⟩ <;> simp
    · simp only [finish, Prod.mk.injEq, Except.ok.injEq]
      constructor
      · rintro ⟨rfl, rfl⟩
        exact ⟨closed, ⟨rfl, rfl⟩, rfl⟩
      · rintro ⟨_, ⟨rfl, rfl⟩, rfl⟩
        exact ⟨rfl, rfl⟩
  refine Step.bind_eq_ok_iff.trans ⟨?_, ?_⟩
  · rintro ⟨_, connected, hconnect, hrest⟩
    obtain ⟨closed, hclosed, rfl⟩ := hfinish.mp hrest
    obtain ⟨opened, done, hbegin, hbody, hcommit⟩ := hbracket.mp hclosed
    exact ⟨connected, opened, done, closed, hconnect, hbegin, hbody, hcommit, rfl⟩
  · rintro ⟨connected, opened, done, closed, hconnect, hbegin, hbody, hcommit, rfl⟩
    exact ⟨(), connected, hconnect,
      hfinish.mpr ⟨closed, hbracket.mpr ⟨opened, done, hbegin, hbody, hcommit⟩, rfl⟩⟩

/-- A transaction that has a connection is aborted with a cause: its opening statement, its body or
its closing statement fails, and what came before it has passed. -/
inductive Aborted (session : Session σ) (body : Step σ α) (connected : σ) (cause : Failure)
    (stopped : σ) : Prop
  | opening (hbegin : session.begin connected = (.error cause, stopped))
  | body {opened : σ} (hbegin : session.begin connected = (.ok (), opened))
      (hbody : body opened = (.error cause, stopped))
  | closing {opened done : σ} {value : α} (hbegin : session.begin connected = (.ok (), opened))
      (hbody : body opened = (.ok value, done)) (hcommit : session.commit done = (.error cause, stopped))

/-- The failure that an aborted transaction ends with: its cause, or the failure to take it back. -/
def reported (cause : Failure) : Except Failure Unit → Failure
  | .ok () => cause
  | .error other => other

variable {connected stopped : σ} {cause : Failure}

theorem bracket_eq_error_iff :
    session.bracket body connected = (.error cause, stopped) ↔
      session.Aborted body connected cause stopped := by
  rw [bracket, Step.bind_eq_error_iff]
  constructor
  · rintro (hbegin | ⟨_, opened, hbegin, hrest⟩)
    · exact .opening hbegin
    · obtain hbody | ⟨value, done, hbody, hclosed⟩ := Step.bind_eq_error_iff.mp hrest
      · exact .body hbegin hbody
      · obtain hcommit | ⟨_, _, _, ⟨⟩⟩ := Step.bind_eq_error_iff.mp hclosed
        exact .closing hbegin hbody hcommit
  · rintro (hbegin | ⟨hbegin, hbody⟩ | ⟨hbegin, hbody, hcommit⟩)
    · exact Or.inl hbegin
    · exact Or.inr ⟨(), _, hbegin, Step.bind_eq_error_iff.mpr (Or.inl hbody)⟩
    · exact Or.inr ⟨(), _, hbegin, Step.bind_eq_error_iff.mpr (Or.inr ⟨_, _, hbody,
        Step.bind_eq_error_iff.mpr (Or.inl hcommit)⟩)⟩

/-- What has failed is taken back, and the connection is given up whether or not that fails too. -/
theorem finish_error (session : Session σ) (cause : Failure) (stopped : σ) :
    session.finish ((.error cause, stopped) : Except Failure α × σ) =
      (.error (reported cause (session.rollback stopped).1),
        session.release (session.rollback stopped).2) := by
  rw [finish]
  rcases session.rollback stopped with ⟨other | _, undone⟩ <;> rfl

/-- **The failure of an aborted transaction.** It is taken back and ends with its cause, unless
taking it back fails: then it ends with that failure. -/
theorem transaction_of_aborted (hconnect : session.connect s = (.ok (), connected))
    (haborted : session.Aborted body connected cause stopped) :
    session.transaction body s = (.error (reported cause (session.rollback stopped).1),
      session.release (session.rollback stopped).2) := by
  refine (Step.bind_of_ok hconnect _).trans ?_
  rw [bracket_eq_error_iff.mpr haborted, finish_error]

/-- A transaction that fails has had no connection, or it was aborted and is taken back. -/
theorem transaction_eq_error {failure : Failure}
    (h : session.transaction body s = (.error failure, t)) :
    session.connect s = (.error failure, t) ∨
      ∃ connected stopped cause, session.connect s = (.ok (), connected) ∧
        session.Aborted body connected cause stopped ∧
        failure = reported cause (session.rollback stopped).1 ∧
        t = session.release (session.rollback stopped).2 := by
  rcases Step.bind_eq_error_iff.mp h with hconnect | ⟨_, connected, hconnect, hrest⟩
  · exact Or.inl hconnect
  · refine Or.inr ⟨connected, ?_⟩
    rcases hbracket : session.bracket body connected with ⟨cause | value, stopped⟩
    · rw [hbracket, finish_error] at hrest
      obtain ⟨hfailure, hafter⟩ := Prod.mk.inj hrest
      exact ⟨stopped, cause, hconnect, bracket_eq_error_iff.mp hbracket,
        (Except.error.inj hfailure).symm, hafter.symm⟩
    · rw [hbracket] at hrest
      cases hrest

/-- What the body and the statements of a transaction leave alone, the transaction leaves alone. -/
theorem keeps_transaction {relation : σ → σ → Prop} [Std.Refl relation] [IsTrans σ relation]
    (hconnect : session.connect.Keeps relation) (hbegin : session.begin.Keeps relation)
    (hbody : body.Keeps relation) (hcommit : session.commit.Keeps relation)
    (hrollback : session.rollback.Keeps relation)
    (hrelease : ∀ s, relation s (session.release s)) :
    (session.transaction body).Keeps relation := by
  have hbracket : (session.bracket body).Keeps relation :=
    hbegin.bind fun _ => hbody.bind fun value => hcommit.bind fun _ => Step.keeps_pure value
  refine hconnect.bind fun _ s => ?_
  have hdone := hbracket s
  generalize session.bracket body s = outcome at hdone ⊢
  rcases outcome with ⟨failure | value, t⟩
  · have hback := hrollback t
    rw [finish]
    generalize session.rollback t = undone at hback ⊢
    rcases undone with ⟨other | _, u⟩ <;>
      exact IsTrans.trans _ _ _ (IsTrans.trans _ _ _ hdone hback) (hrelease u)
  · exact IsTrans.trans _ _ _ hdone (hrelease t)

end Session

namespace Ledger

variable {ledger : Ledger} (hsavepoint : ledger.savepoint = none)
  (hkeeps : ledger.keepsSavepoint = false)

include hsavepoint hkeeps

/-- When no transaction is open, taking one back and giving up the connection change nothing. -/
theorem giveUp_rollback : ledger.rollback.giveUp = ledger := by
  obtain ⟨tables, savepoint, policyCount, historyCount, keepsSavepoint⟩ := ledger
  dsimp only at hsavepoint hkeeps
  subst hsavepoint hkeeps
  rfl

/-- An open transaction is taken back to where it started, whatever became of the tables. -/
theorem giveUp_rollback_openTransaction (tables : LedgerTables) :
    ({ ledger.openTransaction with tables := tables } : Ledger).rollback.giveUp = ledger := by
  obtain ⟨_, savepoint, policyCount, historyCount, keepsSavepoint⟩ := ledger
  dsimp only at hsavepoint hkeeps
  subst hsavepoint hkeeps
  rfl

end Ledger

namespace World

/-- No transaction is open, a savepoint goes with its connection, and no fault waits at the
statement that takes a transaction back. -/
structure AtRest (world : World) : Prop where
  savepoint_eq : world.ledger.savepoint = none
  keepsSavepoint_eq : world.ledger.keepsSavepoint = false
  rollback_passes : .rollback ∉ world.faults.map Fault.point

/-- A world stays at rest as long as no transaction is left open. -/
theorem AtRest.mono {before after : World} (h : before.AtRest)
    (hsavepoint : after.ledger.savepoint = none)
    (hkeeps : after.ledger.keepsSavepoint = before.ledger.keepsSavepoint)
    (hfaults : (after.faults.map Fault.kind).Sublist (before.faults.map Fault.kind)) :
    after.AtRest :=
  ⟨hsavepoint, hkeeps.trans h.keepsSavepoint_eq,
    fun hmem => h.rollback_passes (Fault.points_subset hfaults hmem)⟩

/-- At most the tables of the ledger have changed: its savepoint and the numbers given out are as
they were. -/
structure TablesOnly (before after : World) : Prop extends LedgerOnly before after where
  ledger_eq : after.ledger = { before.ledger with tables := after.ledger.tables }

instance : Std.Refl TablesOnly := ⟨fun world => ⟨LedgerOnly.refl world, rfl⟩⟩

instance : IsTrans World TablesOnly := ⟨fun _ _ _ h h' =>
  ⟨h.toLedgerOnly.trans h'.toLedgerOnly, by rw [h'.ledger_eq, h.ledger_eq]⟩⟩

/-- A statement that only changes tables. -/
theorem tablesOnly_change {channel : Channel} {statement : Statement} {effect : Ledger → Ledger}
    (h : ∀ ledger, effect ledger = { ledger with tables := (effect ledger).tables }) :
    (change channel statement effect).Keeps TablesOnly :=
  .intro fun world result after hchange => by
    refine ⟨(ledgerOnly_execute _ _ _).of_eq hchange, ?_⟩
    rcases execute_cases _ _ _ hchange with ⟨_, -, hledger⟩ | ⟨-, hledger⟩
    · rw [hledger]
    · rw [hledger]
      exact h _

/-! ### Transactions of the world -/

variable {α : Type} {body : Step World α} {world after : World}

theorem ledgerOnly_connect : session.connect.Keeps LedgerOnly :=
  (ledgerOnly_noteTraffic _).bind fun _ => ledgerOnly_strike _

theorem ledgerOnly_begin : session.begin.Keeps LedgerOnly := ledgerOnly_execute _ _ _

theorem ledgerOnly_commit : session.commit.Keeps LedgerOnly := ledgerOnly_execute _ _ _

theorem ledgerOnly_rollback : session.rollback.Keeps LedgerOnly := ledgerOnly_execute _ _ _

theorem ledgerOnly_release (world : World) : LedgerOnly world (session.release world) :=
  ⟨⟨rfl, rfl, rfl, rfl, rfl, rfl, List.Sublist.refl _⟩, rfl⟩

theorem ledgerOnly_transaction (h : body.Keeps LedgerOnly) :
    (session.transaction body).Keeps LedgerOnly :=
  Session.keeps_transaction ledgerOnly_connect ledgerOnly_begin h ledgerOnly_commit
    ledgerOnly_rollback ledgerOnly_release

/-- Taking a connection changes nothing in the ledger. -/
theorem ledger_connect {result : Except Failure Unit}
    (h : session.connect world = (result, after)) : after.ledger = world.ledger := by
  have hconnect : session.connect world =
      strike .connect { world with traffic := world.traffic ++ [.connect] } := rfl
  have hafter : after = (session.connect world).2 := by rw [h]
  rw [hafter, hconnect, strike_snd]

/-- **A transaction that stands.** The body has run on the ledger with a transaction opened, and
what it left is the ledger then, with none open. -/
theorem transaction_eq_ok {value : α}
    (h : session.transaction body world = (.ok value, after)) :
    ∃ opened done, LedgerOnly world opened ∧ opened.ledger = world.ledger.openTransaction ∧
      body opened = (.ok value, done) ∧ LedgerOnly done after ∧
      after.ledger = { done.ledger with savepoint := none } := by
  obtain ⟨connected, opened, done, closed, hconnect, hbegin, hbody, hcommit, rfl⟩ :=
    Session.transaction_eq_ok_iff.mp h
  have hopened : opened.ledger = world.ledger.openTransaction := by
    rw [ledger_change hbegin, ledger_connect hconnect]
  have hclosed : closed.ledger = done.ledger.commit := ledger_change hcommit
  refine ⟨opened, done, (ledgerOnly_connect.of_eq hconnect).trans (ledgerOnly_begin.of_eq hbegin),
    hopened, hbody, (ledgerOnly_commit.of_eq hcommit).trans (ledgerOnly_release closed), ?_⟩
  change closed.ledger.giveUp = _
  rw [hclosed, Ledger.giveUp]
  split <;> rfl

/-- **A transaction that is taken back.** From a world at rest, a transaction that fails leaves the
ledger as it was. -/
theorem transaction_eq_error (hrest : world.AtRest) (hbody : body.Keeps TablesOnly)
    {failure : Failure} (h : session.transaction body world = (.error failure, after)) :
    after.ledger = world.ledger ∧ LedgerOnly world after := by
  obtain ⟨hsavepoint, hkeeps, hpasses⟩ := hrest
  obtain hconnect | ⟨connected, stopped, cause, hconnect, haborted, -, rfl⟩ :=
    Session.transaction_eq_error h
  · exact ⟨ledger_connect hconnect, ledgerOnly_connect.of_eq hconnect⟩
  have hconnected := ledger_connect hconnect
  have hopen {opened : World} (hbegin : session.begin connected = (.ok (), opened)) :
      opened.ledger = world.ledger.openTransaction := by
    rw [ledger_change hbegin, hconnected]
  -- Wherever the transaction stopped, going back gives the ledger it started from.
  have hback : LedgerOnly connected stopped ∧ stopped.ledger.rollback.giveUp = world.ledger := by
    cases haborted with
    | opening hbegin =>
      refine ⟨ledgerOnly_begin.of_eq hbegin, ?_⟩
      rw [ledger_change_of_error hbegin, hconnected, Ledger.giveUp_rollback hsavepoint hkeeps]
    | body hbegin hfailed =>
      have htables := hbody.of_eq hfailed
      refine ⟨(ledgerOnly_begin.of_eq hbegin).trans htables.toLedgerOnly, ?_⟩
      rw [htables.ledger_eq, hopen hbegin]
      exact Ledger.giveUp_rollback_openTransaction hsavepoint hkeeps _
    | closing hbegin hdone hcommit =>
      have htables := hbody.of_eq hdone
      refine ⟨(ledgerOnly_begin.of_eq hbegin).trans
        (htables.toLedgerOnly.trans (ledgerOnly_commit.of_eq hcommit)), ?_⟩
      rw [ledger_change_of_error hcommit, htables.ledger_eq, hopen hbegin]
      exact Ledger.giveUp_rollback_openTransaction hsavepoint hkeeps _
  obtain ⟨honly, hledger⟩ := hback
  have hstart := (ledgerOnly_connect.of_eq hconnect).trans honly
  have hrolled : (session.rollback stopped).2.ledger = stopped.ledger.rollback := by
    have hnot : Statement.rollback.point ∉ stopped.faults.map Fault.point :=
      fun hmem => hpasses (Fault.points_subset hstart.faults_sublist hmem)
    exact ledger_change_of_notMem .transaction Ledger.rollback hnot
  refine ⟨?_, hstart.trans ((ledgerOnly_rollback stopped).trans (ledgerOnly_release _))⟩
  change (session.rollback stopped).2.ledger.giveUp = _
  rw [hrolled, hledger]

end World

end Retention

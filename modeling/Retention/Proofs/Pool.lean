import Retention.Pool
import Retention.Proofs.Transaction

/-!
# What goes over a pool

A callback is what runs inside a transaction on a pool: a query is sent, what it comes to decides
how it goes on, and after any number of queries it ends with a value or a failure. Whatever the
callback is and whichever of the calls fail, a transaction writes one protocol into the log. A
connection is taken, and over it go the opening statement, then the queries of the callback, then
the closing statement; it is taken back if any of them failed. The connection is given up last and
once.

## Main definitions

* `Pool.Callback`: what runs inside a transaction.
* `Pool.Callback.calls`, `Pool.Callback.result`: the calls of a callback and what it ends with.
* `Pool.conversation`: what a transaction sends over its connection.

## Main results

* `Pool.Callback.run_apply`: a callback logs its calls and ends with its result.
* `Pool.transaction_eq_run_ofQueries`: some queries in turn are a callback.
* `Pool.transaction_of_stands`, `Pool.transaction_of_aborted`: how a transaction ends.
* `Pool.transaction_follows_protocol`: the log of a transaction, and when it ends with a value.
-/

namespace Retention

/-- What a query comes to once its rows are taken. -/
def PoolQuery.outcome (query : PoolQuery) : Except Failure Json :=
  query.answer >>= query.taking.ofRows

/-- A query on the connection of a transaction, as it is logged. -/
def PoolQuery.call (query : PoolQuery) : PoolCall := .query true query.sql query.params

/-- One of a transaction's own statements, as it is logged. -/
def PoolCall.command (sql : Text) : PoolCall := .query true sql none

namespace Pool

/-- What runs inside a transaction: it is done, or it asks a query and goes on with what that comes
to. -/
inductive Callback (α : Type) where
  | done (result : Except Failure α)
  | ask (query : PoolQuery) (next : Except Failure Json → Callback α)

namespace Callback

variable {α : Type}

/-- A callback on the connection of a transaction. -/
def run : Callback α → PoolStep α
  | done result => Step.ofExcept result
  | ask query next => do
    let outcome ← (Pool.query true query).attempt
    (next outcome).run

/-- The calls that a callback makes, in order. -/
def calls : Callback α → List PoolCall
  | done _ => []
  | ask query next => query.call :: (next query.outcome).calls

/-- What a callback ends with. -/
def result : Callback α → Except Failure α
  | done result => result
  | ask query next => (next query.outcome).result

/-- Whether a callback ends with a value. -/
def resolves (callback : Callback α) : Bool := callback.result.isOk

/-- Some queries in turn as a callback, after earlier ones with their results. A query that is not
watched ends it with its failure. -/
def ofQueries (failure : Option Failure) (results : List (Except Failure Json)) :
    List PoolQuery → Callback (List (Except Failure Json))
  | [] => done (failure.elim (.ok results) .error)
  | query :: rest => ask query fun
    | .ok value => ofQueries failure (results ++ [.ok value]) rest
    | .error other =>
      if query.watched then ofQueries failure (results ++ [.error other]) rest
      else done (.error other)

end Callback

variable {α : Type} {faults : PoolFaults} {callback : Callback α} {log stopped : List PoolCall}

/-! ### Calls -/

theorem call_of_none {fault : Option Failure} (h : fault = none) (call : PoolCall)
    (log : List PoolCall) : Pool.call call fault log = (.ok (), log ++ [call]) := by
  subst h
  rfl

theorem call_of_some {fault : Option Failure} {failure : Failure} (h : fault = some failure)
    (call : PoolCall) (log : List PoolCall) :
    Pool.call call fault log = (.error failure, log ++ [call]) := by
  subst h
  rfl

theorem command_of_none {fault : Option Failure} (h : fault = none) (sql : Text)
    (log : List PoolCall) : command sql fault log = (.ok (), log ++ [.command sql]) :=
  call_of_none h _ log

theorem command_of_some {fault : Option Failure} {failure : Failure} (h : fault = some failure)
    (sql : Text) (log : List PoolCall) :
    command sql fault log = (.error failure, log ++ [.command sql]) :=
  call_of_some h _ log

theorem query_apply (query : PoolQuery) (log : List PoolCall) :
    Pool.query true query log = (query.outcome, log ++ [query.call]) := by
  unfold Pool.query PoolQuery.outcome
  cases query.answer <;> rfl

/-- A callback logs its calls and ends with its result. -/
theorem Callback.run_apply (callback : Callback α) (log : List PoolCall) :
    callback.run log = (callback.result, log ++ callback.calls) := by
  induction callback generalizing log with
  | done result => rw [run, calls, List.append_nil]; rfl
  | ask query next ih =>
    have hquery := Step.attempt_eq_ok_iff.mpr (query_apply query log)
    rw [run, Step.bind_of_ok hquery, ih, List.append_assoc]
    rfl

/-- A callback makes queries and nothing else. -/
theorem Callback.release_notMem_calls (callback : Callback α) : .release ∉ callback.calls := by
  induction callback with
  | done => exact List.not_mem_nil
  | ask query next ih =>
    rw [calls, List.mem_cons, not_or]
    exact ⟨nofun, ih query.outcome⟩

/-! ### Queries in turn -/

/-- Steps in a row may be taken together in any way. -/
theorem lawfulMonad_poolStep : LawfulMonad PoolStep :=
  LawfulMonad.mk' PoolStep
    (fun step => funext fun log => by
      rw [Step.map_apply]
      rcases step log with ⟨_ | _, _⟩ <;> rfl)
    (fun _ _ => rfl)
    (fun step _ _ => funext fun log => by
      simp only [Step.bind_apply]
      rcases step log with ⟨_ | _, _⟩ <;> rfl)

theorem member_apply (query : PoolQuery) (log : List PoolCall) :
    member query log =
      (if query.watched then .ok query.outcome else query.outcome.map .ok, log ++ [query.call]) := by
  unfold member
  split
  · exact Step.attempt_eq_ok_iff.mpr (query_apply query log)
  · rw [Step.bind_apply, query_apply]
    cases query.outcome <;> rfl

/-- Some queries in turn, and then possibly a failure, run as their callback does. -/
theorem run_ofQueries (failure : Option Failure) (results : List (Except Failure Json))
    (queries : List PoolQuery) :
    (Callback.ofQueries failure results queries).run =
      queries.mapM member >>= fun later =>
        Step.ofExcept (failure.elim (.ok (results ++ later)) .error) := by
  have := lawfulMonad_poolStep
  induction queries generalizing results with
  | nil => rw [List.mapM_nil, pure_bind, List.append_nil]; rfl
  | cons query rest ih =>
    funext log
    have hquery := Step.attempt_eq_ok_iff.mpr (query_apply query log)
    have hmember := member_apply query log
    rw [List.mapM_cons, bind_assoc, Callback.ofQueries, Callback.run, Step.bind_of_ok hquery]
    cases houtcome : query.outcome with
    | ok value =>
      have hpassed : member query log = (.ok (.ok value), log ++ [query.call]) := by
        rw [hmember, houtcome]
        split <;> rfl
      rw [Step.bind_of_ok hpassed]
      simp [ih]
    | error other =>
      cases hwatched : query.watched with
      | true =>
        have hpassed : member query log = (.ok (.error other), log ++ [query.call]) := by
          rw [hmember, houtcome, hwatched]
          rfl
        rw [Step.bind_of_ok hpassed]
        simp [ih]
      | false =>
        have hfailed : member query log = (.error other, log ++ [query.call]) := by
          rw [hmember, houtcome, hwatched]
          rfl
        rw [Step.bind_of_error hfailed]
        rfl

/-- A transaction of some queries is that of their callback. -/
theorem transaction_eq_run_ofQueries (faults : PoolFaults) (queries : List PoolQuery)
    (failure : Option Failure) :
    transaction faults queries failure =
      (session faults).transaction (Callback.ofQueries failure [] queries).run := by
  rw [transaction, body, run_ofQueries]
  refine congrArg (session faults).transaction (congrArg (Bind.bind _) (funext fun results => ?_))
  cases failure <;> rfl

/-! ### Transactions -/

/-- Whether a transaction stands: its opening statement, its callback and its closing statement
pass. -/
def stands (faults : PoolFaults) (callback : Callback α) : Bool :=
  faults.begin.isNone && callback.resolves && faults.commit.isNone

/-- What a transaction sends over its connection. The callback runs when the opening statement has
passed, the closing statement is sent when the callback has ended with a value, and what does not
stand is taken back. -/
def conversation (faults : PoolFaults) (callback : Callback α) : List PoolCall :=
  [.command "BEGIN"] ++ (if faults.begin.isNone then callback.calls else []) ++
    (if faults.begin.isNone && callback.resolves then [.command "COMMIT"] else []) ++
    (if stands faults callback then [] else [.command "ROLLBACK"])

theorem release_notMem_conversation (faults : PoolFaults) (callback : Callback α) :
    .release ∉ conversation faults callback := by
  have hcommand (sql : Text) : .release ≠ PoolCall.command sql := nofun
  simp only [conversation, List.mem_append, List.mem_singleton, hcommand, or_false,
    apply_ite (PoolCall.release ∈ ·), callback.release_notMem_calls, List.not_mem_nil, ite_self,
    not_false_eq_true]

/-- A transaction that does not stand is aborted before it is taken back. -/
theorem exists_aborted_of_stands (h : stands faults callback = false) (log : List PoolCall) :
    ∃ cause stopped, (session faults).Aborted callback.run log cause stopped ∧
      stopped ++ [.command "ROLLBACK"] = log ++ conversation faults callback := by
  rw [conversation, h]
  cases hbegin : faults.begin with
  | some cause => exact ⟨cause, _, .opening (command_of_some hbegin "BEGIN" log), by simp⟩
  | none =>
    have hopened := command_of_none hbegin "BEGIN" log
    have hdone := callback.run_apply (log ++ [.command "BEGIN"])
    cases hresult : callback.result with
    | error cause =>
      have hresolves : callback.resolves = false := by rw [Callback.resolves, hresult]; rfl
      rw [hresult] at hdone
      exact ⟨cause, _, .body hopened hdone, by simp [hresolves]⟩
    | ok value =>
      have hresolves : callback.resolves = true := by rw [Callback.resolves, hresult]; rfl
      rw [hresult] at hdone
      cases hcommit : faults.commit with
      | none => simp [stands, hbegin, hresolves, hcommit] at h
      | some cause =>
        have hclosed := command_of_some hcommit "COMMIT"
          (log ++ [.command "BEGIN"] ++ callback.calls)
        exact ⟨cause, _, .closing hopened hdone hclosed, by simp [hresolves]⟩

theorem stands_eq_true_iff : stands faults callback = true ↔ faults.begin = none ∧
    (∃ value, callback.result = .ok value) ∧ faults.commit = none := by
  have hresolves : callback.resolves = true ↔ ∃ value, callback.result = .ok value := by
    rw [Callback.resolves]
    cases callback.result <;> simp [Except.isOk, Except.toBool]
  simp [stands, hresolves, and_assoc]

section Connected

variable (hconnect : faults.connect = none)

include hconnect

/-- A transaction on a pool that is aborted ends with its cause, unless taking it back fails. -/
theorem transaction_of_aborted {body : PoolStep α} {cause : Failure}
    (haborted : (session faults).Aborted body (log ++ [.connect]) cause stopped) :
    (session faults).transaction body log =
      (.error (faults.rollback.getD cause), stopped ++ [.command "ROLLBACK"] ++ [.release]) := by
  have hrollback : (session faults).rollback stopped = command "ROLLBACK" faults.rollback stopped :=
    rfl
  rw [Session.transaction_of_aborted (call_of_none hconnect _ log) haborted, hrollback]
  cases hback : faults.rollback with
  | none => rw [command_of_none rfl]; rfl
  | some other => rw [command_of_some rfl]; rfl

/-- A transaction on a pool whose statements and callback all pass ends with the value of the
callback. -/
theorem transaction_of_stands (hstands : stands faults callback = true) :
    (session faults).transaction callback.run log =
      (callback.result, log ++ [.connect] ++ conversation faults callback ++ [.release]) := by
  obtain ⟨hbegin, ⟨value, hresult⟩, hcommit⟩ := stands_eq_true_iff.mp hstands
  have hresolves : callback.resolves = true := by rw [Callback.resolves, hresult]; rfl
  have hconversation : conversation faults callback =
      [.command "BEGIN"] ++ callback.calls ++ [.command "COMMIT"] := by
    simp [conversation, hstands, hbegin, hresolves]
  have hdone := callback.run_apply (log ++ [.connect] ++ [.command "BEGIN"])
  rw [hresult] at hdone ⊢
  rw [hconversation, ← List.append_assoc, ← List.append_assoc]
  exact Session.transaction_eq_ok_iff.mpr ⟨_, _, _, _, call_of_none hconnect _ log,
    command_of_none hbegin "BEGIN" _, hdone, command_of_none hcommit "COMMIT" _, rfl⟩

end Connected

/-- **The protocol of a transaction.** Where no connection can be had, nothing else is done. Else
the log goes on with the conversation, whatever the callback does and whichever calls fail, and the
connection is given up last and only then. A transaction ends with the value of its callback exactly
when it stands. -/
theorem transaction_follows_protocol (faults : PoolFaults) (callback : Callback α)
    (log : List PoolCall) :
    (∀ failure, faults.connect = some failure →
      (session faults).transaction callback.run log = (.error failure, log ++ [.connect])) ∧
    (faults.connect = none → ∃ result,
      (session faults).transaction callback.run log =
        (result, log ++ [.connect] ++ conversation faults callback ++ [.release]) ∧
      ∀ value, result = .ok value ↔ callback.result = .ok value ∧ stands faults callback = true) ∧
    .release ∉ conversation faults callback := by
  refine ⟨fun failure hfailed => ?_, fun hconnect => ?_, release_notMem_conversation _ _⟩
  · exact Step.bind_of_error (call_of_some hfailed _ log) _
  · cases hstands : stands faults callback with
    | true => exact ⟨_, transaction_of_stands hconnect hstands, fun value => by simp⟩
    | false =>
      obtain ⟨cause, stopped, haborted, hlog⟩ :=
        exists_aborted_of_stands hstands (log ++ [.connect])
      have hfailed := transaction_of_aborted hconnect haborted
      rw [hlog] at hfailed
      exact ⟨_, hfailed, fun value => by simp⟩

end Pool

end Retention

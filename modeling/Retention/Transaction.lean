import Retention.Step

/-!
# Transactions

A transaction runs a body of steps on a connection of its own, between the opening and the
closing statement. When anything in it fails it is taken back; a failure to take it back is
then the failure that is reported. The connection is given up last, whatever happened. When
no connection can be had, nothing else is done.
-/

namespace Retention

/-- What a transaction does to a state besides its body. -/
structure Session (σ : Type) where
  connect : Step σ Unit
  «begin» : Step σ Unit
  commit : Step σ Unit
  rollback : Step σ Unit
  release : σ → σ

namespace Session

variable {σ α : Type}

/-- The body between the opening and the closing statement. -/
def bracket (session : Session σ) (body : Step σ α) : Step σ α := do
  session.begin
  let value ← body
  session.commit
  pure value

/-- What is left to do once the body and its statements have ended: a failure is taken
back, and the connection is given up. -/
def finish (session : Session σ) : Except Failure α × σ → Except Failure α × σ
  | (.ok value, s) => (.ok value, session.release s)
  | (.error failure, s) =>
    match session.rollback s with
    | (.ok (), s) => (.error failure, session.release s)
    | (.error other, s) => (.error other, session.release s)

/-- A body of steps as one transaction. -/
def transaction (session : Session σ) (body : Step σ α) : Step σ α := do
  session.connect
  fun s => session.finish (session.bracket body s)

end Session

end Retention

import Retention.Store.Signal
import Retention.Table.Check
import Retention.Table.Listing
import Retention.World

/-!
# The policy store

The store sets, gets and lists the policies of column families by calls of the admin API.
Names are checked before a call is made. A call is made once; its failure is a store
failure, with a code for the status it came with.
-/

namespace Retention

/-- What a caller may say about a call: when it gives up, and how long the call may take. -/
structure CallOptions where
  signal : Option Signal
  timeout : Option Json

/-- No options. -/
def CallOptions.none : CallOptions := ⟨Option.none, Option.none⟩

/-- A store, with the timeout of calls that come without one. -/
structure Store where
  defaultTimeout : Option Json

namespace Store

variable {α : Type}

/-- The timeout of a call. -/
def timeout (store : Store) (options : CallOptions) : Option Json :=
  options.timeout.or store.defaultTimeout

/-- The failure of a call whose caller gave up before it was sent. -/
def neverSent (call : AdminCall) (signal : Signal) : Failure :=
  .store .cancelled (call.method ++ " cancelled before it was sent") (some signal.reason)

/-- The failure of a call whose caller gave up while it was pending. -/
def cancelled (call : AdminCall) (signal : Signal) : Failure :=
  .store .cancelled (call.method ++ " cancelled") (some signal.reason)

/-- The outcome of a call that has been sent. -/
def settled (call : AdminCall) (effect : Step World α) : Step World α :=
  effect.mapFailure (Failure.ofCall call.method)

/-- The outcome of a call whose caller may give up. A call that its caller gave up on may
still be answered, or have been answered by then, but nobody sees how. -/
def watched (call : AdminCall) (effect : Step World α) (signal : Signal) : Step World α := do
  Step.modify fun world => { world with cancelled := world.cancelled + signal.flight.cancels }
  match signal.flight.decided with
  | some .settle => settled call effect
  | _ => do
    if signal.answered then
      let _ ← (settled call effect).attempt
    Step.fail (cancelled call signal)

/-- A call is sent, unless its caller has given up already. -/
def send (options : CallOptions) (call : AdminCall) (effect : Step World α) : Step World α :=
  match options.signal with
  | none => do
    World.noteCall call
    settled call effect
  | some signal =>
    if signal.aborted then Step.fail (neverSent call signal)
    else do
      World.noteCall call
      watched call effect signal

/-- The column families of a table. -/
def families (store : Store) (table : Text) (options : CallOptions) : Step World Json := do
  let shown ← send options (.getTable table (store.timeout options)) (World.showTable table)
  Step.ofExcept ((Families.ofTable shown).mapError Failure.shape)

/-- The policy of a column family is replaced; the result is the policy that the admin API
then shows, or the policy that was sent if it shows none. -/
def setPolicy (store : Store) (target : FamilyRef) (policy : Policy) (options : CallOptions) :
    Step World Policy := do
  Step.ofExcept target.check
  let message := policy.toMessage
  let shown ← send options
    (.modifyFamilies target.table target.family message (store.timeout options))
    (World.modifyFamily target.table target.family message)
  let families ← Step.ofExcept ((Families.ofTable shown).mapError Failure.shape)
  let held := (Families.find? target.family families).bind fun family => family.member? "gcRule"
  Step.ofExcept ((Policy.ofMessageOr policy held).mapError Failure.shape)

/-- The failure of a column family that its table does not show. -/
def familyNotFound (family : Text) : Failure :=
  .store .notFound ("Column family " ++ family ++ " not found") none

/-- The policy of a column family, if it has one. -/
def getPolicy (store : Store) (target : FamilyRef) (options : CallOptions) :
    Step World (Option Policy) := do
  Step.ofExcept target.check
  let families ← store.families target.table options
  match (Families.find? target.family families).filter Json.isTruthy with
  | none => Step.fail (familyNotFound target.family)
  | some family => do
    let policy ← Step.ofExcept ((Policy.ofFamily family).mapError Failure.shape)
    pure (if policy.isNoGc then none else some policy)

/-- The policies of some column families. -/
def policies : List (Text × Json) → Except ShapeFault (List (Text × Policy))
  | [] => .ok []
  | (id, family) :: rest => do
    let policy ← Policy.ofFamily family
    let others ← policies rest
    pure ((id, policy) :: others)

/-- The entries whose policy collects something, in the order of a listing. -/
def listing (entries : List (Text × Policy)) : List (Text × Policy) :=
  (entries.filter fun entry => !entry.2.isNoGc).mergeSort fun a b =>
    Listing.nameLe a.1.shown b.1.shown

/-- The policies of the column families of a table that have one. -/
def listPolicies (store : Store) (table : Text) (options : CallOptions) :
    Step World (List (Text × Policy)) := do
  let _ ← Step.ofExcept (TableName.check table)
  let families ← store.families table options
  listing <$> Step.ofExcept ((policies (Families.entries families)).mapError Failure.shape)

end Store

end Retention

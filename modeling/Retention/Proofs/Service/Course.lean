import Retention.Proofs.Alike
import Retention.Proofs.Service.Refinement

/-!
# The order of a request's effects

A request that asks for a change is checked first, then the admin API is called, and only when that
call has passed is anything written to the ledger. What is refused as the client's own fault is
refused before a call has passed, so it has changed nothing. This holds in every world, whatever
faults wait at the admin API, and also for a client who goes away while a call is pending.

## Main definitions

* `World.OnlyAsked`: no table and no row has changed, and the ledger was at most asked.
* `World.Applied`: the policy of a family was set by a call that passed.
* `Service.Course`: how far a request was taken.

## Main results

* `Store.applied_or_of_setPolicy`: a policy is set by one call, or no table changes.
* `Service.course_of_put`, `Service.course_of_delete`: the courses of the two orders.
* `Service.respond_course`: every request is taken some way, and leaves everything as it was if it
  is refused as the client's own fault.
-/

namespace Retention

open Http

/-! ### What is written to the ledger -/

/-- Whether a statement changes rows. -/
def Statement.writes : Statement → Bool
  | upsert _ _ _ _ _ | updateLastApplied _ _ | markReleased _ _ | createHistory _
  | completeHistory _ _ | publish _ _ => true
  | ping | .begin | commit | rollback | findManaged | findByFamily _ _ => false

/-- Whether something that goes over to the ledger changes rows. -/
def Traffic.writes : Traffic → Bool
  | .statement _ sent => sent.writes
  | connect | release | close => false

/-- Whether a response blames the client. -/
def Http.Response.BlamesClient (response : Response) : Prop :=
  400 ≤ response.status ∧ response.status < 500

namespace World

variable {before after : World}

/-- No table and no row has changed, and the ledger was sent nothing that writes. -/
structure OnlyAsked (before after : World) : Prop where
  tables_eq : after.tables = before.tables
  ledger_eq : after.ledger = before.ledger
  exists_traffic : ∃ asked, after.traffic = before.traffic ++ asked ∧
    ∀ traffic ∈ asked, traffic.writes = false

/-- Where neither a table nor a row has changed and the ledger was sent nothing. -/
theorem OnlyAsked.of_traffic_eq (htables : after.tables = before.tables)
    (hledger : after.ledger = before.ledger) (htraffic : after.traffic = before.traffic) :
    OnlyAsked before after :=
  ⟨htables, hledger, [], htraffic.trans (List.append_nil _).symm, fun _ hmem =>
    absurd hmem List.not_mem_nil⟩

theorem OnlyAsked.refl (world : World) : OnlyAsked world world := .of_traffic_eq rfl rfl rfl

theorem OnlyAsked.trans {first second third : World} (h : OnlyAsked first second)
    (h' : OnlyAsked second third) : OnlyAsked first third := by
  obtain ⟨asked, htraffic, hasked⟩ := h.exists_traffic
  obtain ⟨others, hothers, hsilent⟩ := h'.exists_traffic
  refine ⟨h'.tables_eq.trans h.tables_eq, h'.ledger_eq.trans h.ledger_eq, asked ++ others, ?_, ?_⟩
  · rw [hothers, htraffic, List.append_assoc]
  · intro traffic hmem
    exact (List.mem_append.mp hmem).elim (hasked traffic) (hsilent traffic)

instance : Std.Refl OnlyAsked := ⟨OnlyAsked.refl⟩

instance : IsTrans World OnlyAsked := ⟨fun _ _ _ => OnlyAsked.trans⟩

/-- A world whose ledger was left alone has only been asked when no table has changed. -/
theorem AdminOnly.onlyAsked (h : AdminOnly before after) (htables : SameTables before after) :
    OnlyAsked before after :=
  .of_traffic_eq htables h.ledger_eq h.traffic_eq

theorem onlyAsked_noteCall (call : AdminCall) : (noteCall call).Keeps OnlyAsked :=
  fun world => (adminOnly_noteCall call world).onlyAsked rfl

theorem onlyAsked_strike (point : FaultPoint) : (strike point).Keeps OnlyAsked := fun world =>
  (adminOnly_strike point world).onlyAsked (sameTables_strike point world)

theorem onlyAsked_showTable (table : Text) : (showTable table).Keeps OnlyAsked := fun world =>
  (adminOnly_showTable table world).onlyAsked (sameTables_showTable table world)

/-- A statement that neither writes nor changes the ledger only asks. -/
theorem onlyAsked_execute {α : Type} (channel : Channel) {statement : Statement}
    {effect : Ledger → α × Ledger} (hwrites : statement.writes = false)
    (heffect : ∀ ledger, (effect ledger).2 = ledger) :
    (execute channel statement effect).Keeps OnlyAsked := by
  intro world
  rw [execute_apply]
  split
  · exact ⟨rfl, rfl, [.statement channel statement], rfl, by simpa [Traffic.writes] using hwrites⟩
  · exact ⟨rfl, heffect _, [.statement channel statement], rfl,
      by simpa [Traffic.writes] using hwrites⟩

/-- The policy of a family was set: the admin API was called once, with the message of the policy,
and that call passed. The ledger has not been sent anything. -/
structure Applied (timeout : Option Json) (target : FamilyRef) (policy : Policy)
    (before after : World) : Prop where
  calls_eq : after.calls = before.calls ++
    [.modifyFamilies target.table target.family policy.toMessage timeout]
  passed : ∃ sent shown, sent.tables = before.tables ∧
    modifyFamily target.table target.family policy.toMessage sent = (.ok shown, after)
  ledger_eq : after.ledger = before.ledger
  traffic_eq : after.traffic = before.traffic

/-- The family has then been given the message of the policy. -/
theorem Applied.given {timeout : Option Json} {target : FamilyRef} {policy : Policy}
    (h : Applied timeout target policy before after) :
    before.Given after target policy.toMessage := by
  obtain ⟨sent, shown, htables, hmodify⟩ := h.passed
  exact (given_of_modifyFamily hmodify).congr htables.symm rfl

/-- A family is let go in a mode: its policy is reset by a call that passes, or, if it is abandoned,
nothing is done. -/
inductive LetsGo (timeout : Option Json) (target : FamilyRef) (before : World) :
    DeletionMode → World → Prop
  | reset {after : World} (h : Applied timeout target .noGc before after) :
      LetsGo timeout target before .default after
  | abandoned : LetsGo timeout target before .abandon before

/-- The faults that wait at the ledger are plain errors. -/
def PlainLedger (world : World) : Prop :=
  ∀ kind ∈ world.faults.map Fault.kind, kind.1.isLedger = true →
    ∃ message code, kind.2 = .plain message code

theorem PlainLedger.mono (h : before.PlainLedger)
    (hfaults : (after.faults.map Fault.kind).Sublist (before.faults.map Fault.kind)) :
    after.PlainLedger :=
  fun kind hkind => h kind (hfaults.subset hkind)

/-- A statement fails with a plain error. -/
theorem PlainLedger.exists_plain (h : before.PlainLedger) {channel : Channel}
    {statement : Statement} {effect : Ledger → Ledger} {failure : Failure}
    (hchange : change channel statement effect before = (.error failure, after)) :
    ∃ message code, failure = .plain message code := by
  rw [change, execute_apply] at hchange
  split at hchange
  · next struck faults hstrike =>
    obtain ⟨hfailure, -⟩ := Prod.mk.inj hchange
    obtain rfl : struck = failure := Except.error.inj hfailure
    exact h _ (Fault.kind_mem_of_strike (congrArg Prod.fst hstrike)) statement.isLedger_point
  · cases (Prod.mk.inj hchange).1

end World

/-! ### The store -/

namespace Store

open World

variable {service : Service} {target : FamilyRef} {policy : Policy} {options : CallOptions}
  {disconnects : Bool} {world after : World}

theorem onlyAsked_send {α : Type} (options : CallOptions) (call : AdminCall)
    {effect : Step World α} (h : effect.Keeps OnlyAsked) :
    (send options call effect).Keeps OnlyAsked :=
  keeps_send (onlyAsked_noteCall call)
    (fun _ _ => .of_traffic_eq rfl rfl rfl) h

/-- A client who goes away while a call is pending has it cancelled before it takes effect. -/
theorem send_of_abort {α : Type} (timeout : Option Json) (call : AdminCall)
    (effect : Step World α) (world : World) :
    send ⟨some (Service.client true), timeout⟩ call effect world =
      (.error (cancelled call (Service.client true)), { world with
        calls := world.calls ++ [call], cancelled := world.cancelled + 1 }) := rfl

/-- An answer that shows no policy is of the wrong shape. -/
theorem exists_shape_of_policyShown {family : Text} {shown : Json} {failure : Failure}
    (h : policyShown family policy shown = .error failure) : ∃ fault, failure = .shape fault := by
  unfold policyShown at h
  cases hfamilies : Families.ofTable shown with
  | error fault =>
    rw [hfamilies] at h
    exact ⟨fault, (Except.error.inj h).symm⟩
  | ok families =>
    rw [hfamilies] at h
    change (Policy.ofMessageOr policy _).mapError Failure.shape = _ at h
    generalize Policy.ofMessageOr policy _ = held at h
    cases held with
    | error fault => exact ⟨fault, (Except.error.inj h).symm⟩
    | ok _ => cases h

/-- A policy is set by a call that passes, and then only an answer of the wrong shape is a failure;
or nothing changes. -/
theorem applied_or_of_setPolicy {result : Except Failure Policy}
    (h : service.store.setPolicy target policy (service.options disconnects) world =
      (result, after)) :
    (∃ failure, result = .error failure ∧ OnlyAsked world after) ∨
      (Applied service.timeout target policy world after ∧
        ∀ failure, result = .error failure → ∃ fault, failure = .shape fault) := by
  have hside : AdminOnly world after :=
    (keeps_setPolicy (fun _ => adminOnly_send _ _ (adminOnly_modifyFamily _ _ _)) policy).of_eq h
  rw [setPolicy_eq] at h
  obtain ⟨failure, -, rfl, rfl⟩ | ⟨_, -, h⟩ := Step.ofExcept_bind_cases h
  · exact Or.inl ⟨failure, rfl, .refl _⟩
  rw [Step.bind_ofExcept_apply] at h
  cases disconnects with
  | true =>
    rw [Service.options, send_of_abort] at h
    obtain ⟨rfl, rfl⟩ := Prod.mk.inj h
    exact Or.inl ⟨_, rfl, hside.onlyAsked rfl⟩
  | false =>
    have htimeout : service.store.timeout (service.options false) = service.timeout :=
      Option.or_self
    rw [htimeout, Service.options, send_of_settle rfl (Signal.precedes_of_first rfl _),
      send_apply] at h
    obtain ⟨hresult, hafter⟩ := Prod.mk.inj h
    generalize hcall : AdminCall.modifyFamilies target.table target.family policy.toMessage
      service.timeout = call at hresult hafter
    obtain ⟨sent, hsent⟩ : ∃ sent : World, sent = { world with calls := world.calls ++ [call] } :=
      ⟨_, rfl⟩
    rw [← hsent] at hresult hafter
    cases hmodify : modifyFamily target.table target.family policy.toMessage sent with
    | mk modified last =>
      rw [hmodify] at hresult hafter
      obtain rfl : last = after := hafter
      cases modified with
      | error failure =>
        have htables := sameTables_of_modifyFamily hmodify
        rw [hsent] at htables
        exact Or.inl ⟨_, hresult.symm, hside.onlyAsked htables⟩
      | ok shown =>
        have hcalls := ((noCall_modifyFamily _ _ _).of_eq hmodify).calls_eq
        refine Or.inr ⟨⟨?_, ⟨sent, shown, by rw [hsent], hmodify⟩, hside.ledger_eq,
          hside.traffic_eq⟩, fun failure hfailure => exists_shape_of_policyShown
            (hresult.trans hfailure)⟩
        rw [hcall]
        exact hcalls.trans (by rw [hsent])

/-- The policy of a rule text is set by a call that passes, or nothing changes. -/
theorem applied_or_of_apply {rules : Option Json} {result : Except Failure Policy}
    (h : service.store.apply target rules (service.options disconnects) world = (result, after)) :
    (∃ failure, result = .error failure ∧ OnlyAsked world after) ∨
      ∃ policy, Policy.ofText rules = .ok policy ∧
        Applied service.timeout target policy world after ∧
        ∀ failure, result = .error failure → ∃ fault, failure = .shape fault := by
  obtain ⟨failure, -, rfl, rfl⟩ | ⟨policy, hpolicy, hset⟩ := Step.ofExcept_bind_cases h
  · exact Or.inl ⟨failure, rfl, .refl _⟩
  · exact (applied_or_of_setPolicy hset).imp_right fun hset => ⟨policy, hpolicy, hset⟩

/-- A release passes or nothing changes. -/
theorem letsGo_or_of_release {mode : DeletionMode} {result : Except Failure Unit}
    (h : service.store.release target mode (service.options disconnects) world =
      (result, after)) :
    (∃ failure, result = .error failure ∧ OnlyAsked world after) ∨
      LetsGo service.timeout target world mode after ∧
        ∀ failure, result = .error failure →
          Applied service.timeout target .noGc world after ∧ ∃ fault, failure = .shape fault := by
  cases mode with
  | abandon =>
    obtain ⟨rfl, rfl⟩ := Prod.mk.inj h
    exact Or.inr ⟨.abandoned, nofun⟩
  | default =>
    obtain ⟨failure, hset, rfl⟩ | ⟨held, _, hset, hended⟩ := Step.bind_cases h
    · obtain ⟨_, -, honly⟩ | ⟨hset, hshape⟩ := applied_or_of_setPolicy hset
      · exact Or.inl ⟨failure, rfl, honly⟩
      · exact Or.inr ⟨.reset hset, fun _ hfailure => ⟨hset, hshape _ (by simpa using hfailure)⟩⟩
    · obtain ⟨rfl, rfl⟩ := Prod.mk.inj hended
      obtain ⟨_, ⟨⟩, -⟩ | ⟨hset, -⟩ := applied_or_of_setPolicy hset
      exact Or.inr ⟨.reset hset, nofun⟩

theorem onlyAsked_families (store : Store) (table : Text) (options : CallOptions) :
    (store.families table options).Keeps OnlyAsked :=
  (onlyAsked_send options _ (onlyAsked_showTable table)).bind fun _ => Step.keeps_ofExcept _

theorem onlyAsked_listRules (store : Store) (table : Text) (options : CallOptions) :
    (store.listRules table options).Keeps OnlyAsked := by
  have hlist : (store.listPolicies table options).Keeps OnlyAsked :=
    (Step.keeps_ofExcept _).bind fun _ => (onlyAsked_families store table options).bind fun _ =>
      (Step.keeps_ofExcept _).map _
  exact hlist.bind fun _ => Step.keeps_ofExcept _

theorem onlyAsked_read (store : Store) (target : FamilyRef) (options : CallOptions) :
    (store.read target options).Keeps OnlyAsked :=
  (keeps_live (onlyAsked_send options _ (onlyAsked_showTable _))).bind fun _ =>
    Step.keeps_ofExcept _

end Store

namespace Service

open World

variable {service : Service} {request : Request} {disconnects : Bool} {table : TableName}
  {family : Text} {query : List Char} {value : Json} {response : Response} {world after : World}

/-! ### How far a request is taken -/

/-- How far a request was taken, and how it was answered.

* It changed nothing, and if it was to give a family a policy, then it was refused.
* A policy was set, but what the admin API then showed has not the right shape.
* A family was given the policy of its rules by a call that passed, and then recorded.
* A family that there is no record of was let go.
* A family was let go, and then its record was marked as released. -/
inductive Course (service : Service) (request : Request) (before : World) :
    Response → World → Prop
  | asked {response : Response} {after : World} (honly : OnlyAsked before after)
      (hput : request.method = .put → 400 ≤ response.status) :
      Course service request before response after
  | unseen {target : FamilyRef} {policy : Policy} {response : Response} {found after : World}
      (hfound : OnlyAsked before found) (hset : Applied service.timeout target policy found after)
      (hstatus : 500 ≤ response.status) : Course service request before response after
  | recorded {table : TableName} {family : Text} {query : List Char} {value : Json}
      {mode : DeletionMode} {policy : Policy} {written : Except Failure Unit} {response : Response}
      {set after : World} (hmethod : request.method = .put)
      (hasked : service.asked? request = some ⟨.policy table family, query, value⟩)
      (hrules : Policy.ofText (value.member? "gc_rules") = .ok policy)
      (hmode : GivesMode (value.member? "deletion_mode") mode)
      (hset : Applied service.timeout (target table family) policy before set)
      (hupsert : World.upsert table.write family ((value.member? "gc_rules").getD .null) mode set =
        (written, after))
      (hstatus : written = .ok () ∧ response.status = 200 ∨ 500 ≤ response.status) :
      Course service request before response after
  | dropped {table : TableName} {family : Text} {query : List Char} {value : Json}
      {requested : Option DeletionMode} {response : Response} {found after : World}
      (hmethod : request.method = .delete)
      (hasked : service.asked? request = some ⟨.policy table family, query, value⟩)
      (hmode : queryMode query = .ok requested) (hfound : OnlyAsked before found)
      (hfind : findByFamily table.write family before = (.ok none, found))
      (hletGo : LetsGo service.timeout (target table family) found (requested.getD .default) after)
      (hstatus : response.status = 204) : Course service request before response after
  | released {table : TableName} {family : Text} {query : List Char} {value : Json}
      {requested : Option DeletionMode} {record : PolicyRecord} {marked : Except Failure Unit}
      {response : Response} {found reset after : World} (hmethod : request.method = .delete)
      (hasked : service.asked? request = some ⟨.policy table family, query, value⟩)
      (hmode : queryMode query = .ok requested) (hfound : OnlyAsked before found)
      (hfind : findByFamily table.write family before = (.ok (some record), found))
      (hletGo : LetsGo service.timeout (target table family) found
        (requested.getD record.deletionMode) reset)
      (hmark : World.markReleased .pool record.id reset.now reset = (marked, after))
      (hstatus : marked = .ok () ∧ response.status = 204 ∨ 500 ≤ response.status) :
      Course service request before response after

/-- What is refused as the client's own fault has changed nothing. -/
theorem Course.unchanged (h : Course service request world response after)
    (hblames : response.BlamesClient) : Unchanged world after := by
  obtain ⟨hlow, hhigh⟩ := hblames
  cases h with
  | asked honly => exact ⟨honly.tables_eq, honly.ledger_eq⟩
  | unseen _ _ hstatus | dropped _ _ _ _ _ _ hstatus => omega
  | recorded _ _ _ _ _ _ hstatus | released _ _ _ _ _ _ _ hstatus => omega

/-! ### The two orders -/

theorem onlyAsked_findByFamily (table family : Text) :
    (findByFamily table family).Keeps OnlyAsked :=
  onlyAsked_execute _ rfl fun _ => rfl

/-- A plain error does not blame the client. -/
theorem le_status_plain (message : Text) (code : Option Json) :
    500 ≤ (Response.ofFailure (.plain message code)).status := Nat.le_refl _

/-- A family is given the policy of a rule text by a call that passes, and then recorded with it; or
nothing changes. After the call nothing that fails blames the client. -/
theorem giveRules_cases {target : FamilyRef} {rules : Option Json} {mode : DeletionMode}
    {result : Except Failure Response} (hledger : world.PlainLedger)
    (h : service.giveRules target rules mode disconnects world = (result, after)) :
    (∃ failure, result = .error failure ∧ OnlyAsked world after) ∨
      ∃ policy set, Policy.ofText rules = .ok policy ∧
        Applied service.timeout target policy world set ∧
        ((set = after ∧ ∃ fault, result = .error (.shape fault)) ∨
          ∃ written, World.upsert target.table target.family (rules.getD .null) mode set =
              (written, after) ∧
            ((∃ response, result = .ok response ∧ written = .ok () ∧ response.status = 200) ∨
              ∃ failure, result = .error failure ∧
                500 ≤ (Response.ofFailure failure).status)) := by
  obtain ⟨failure, happly, rfl⟩ | ⟨applied, set, happly, h⟩ := Step.bind_cases h
  · obtain ⟨_, -, honly⟩ | ⟨policy, hpolicy, hset, hshape⟩ := Store.applied_or_of_apply happly
    · exact Or.inl ⟨failure, rfl, honly⟩
    · obtain ⟨fault, rfl⟩ := hshape failure rfl
      exact Or.inr ⟨policy, after, hpolicy, hset, Or.inl ⟨rfl, fault, rfl⟩⟩
  obtain ⟨_, ⟨⟩, -⟩ | ⟨policy, hpolicy, hset, -⟩ := Store.applied_or_of_apply happly
  have hside := (Store.adminOnly_apply _ _ _ _).of_eq happly
  refine Or.inr ⟨policy, set, hpolicy, hset, Or.inr ?_⟩
  obtain ⟨failure, hupsert, rfl⟩ | ⟨_, done, hupsert, h⟩ := Step.bind_cases h
  · obtain ⟨message, code, rfl⟩ := (hledger.mono hside.faults_sublist).exists_plain hupsert
    exact ⟨_, hupsert, Or.inr ⟨_, rfl, le_status_plain message code⟩⟩
  obtain ⟨failure, htext, rfl, rfl⟩ | ⟨text, -, h⟩ := Step.ofExcept_bind_cases h
  · refine ⟨_, hupsert, Or.inr ⟨failure, rfl, ?_⟩⟩
    obtain ⟨reason, -, rfl⟩ := mapError_eq_error_iff.mp htext
    simp [Response.ofFailure, Response.json]
  · obtain ⟨rfl, rfl⟩ := Prod.mk.inj h
    exact ⟨_, hupsert, Or.inl ⟨_, rfl, rfl, rfl⟩⟩

/-- An order to give a family a policy: the policy is set first, and the record is written last. -/
theorem course_of_put (hledger : world.PlainLedger) (hmethod : request.method = .put)
    (hasked : service.asked? request = some ⟨.policy table family, query, value⟩)
    (h : answer (service.putPolicy (target table family) value disconnects) world =
      (response, after)) : Course service request world response after := by
  rw [answer_apply] at h
  cases hput : service.putPolicy (target table family) value disconnects world with
  | mk result last =>
  rw [hput] at h
  have hrefused {failure : Failure} (hresult : result = .error failure)
      (honly : OnlyAsked world last) : Course service request world response after := by
    subst hresult
    obtain ⟨rfl, rfl⟩ := Prod.mk.inj h
    exact .asked honly fun _ => Response.le_status_ofFailure failure
  obtain ⟨failure, hresult, rfl, -⟩ | ⟨mode, -, hmode, hgive⟩ := giveRules_of_putPolicy hput
  · exact hrefused hresult (.refl _)
  obtain ⟨failure, hresult, honly⟩ | ⟨policy, set, hpolicy, hset, hend⟩ :=
    giveRules_cases hledger hgive
  · exact hrefused hresult honly
  obtain ⟨rfl, fault, rfl⟩ | ⟨written, hupsert, ⟨_, rfl, hwritten, hstatus⟩ | ⟨_, rfl, hstatus⟩⟩ :=
    hend
  · obtain ⟨rfl, rfl⟩ := Prod.mk.inj h
    exact .unseen (.refl _) hset (Nat.le_refl _)
  · obtain ⟨rfl, rfl⟩ := Prod.mk.inj h
    exact .recorded hmethod hasked hpolicy hmode hset hupsert (Or.inl ⟨hwritten, hstatus⟩)
  · obtain ⟨rfl, rfl⟩ := Prod.mk.inj h
    exact .recorded hmethod hasked hpolicy hmode hset hupsert (Or.inr hstatus)

/-- An order to let a family go: its policy is reset first, unless it is abandoned, and its record
is marked last. -/
theorem course_of_delete (hledger : world.PlainLedger) (hmethod : request.method = .delete)
    (hasked : service.asked? request = some ⟨.policy table family, query, value⟩)
    (h : answer (service.deletePolicy (target table family) query disconnects) world =
      (response, after)) : Course service request world response after := by
  rw [answer_apply] at h
  cases hdelete : service.deletePolicy (target table family) query disconnects world with
  | mk result last =>
  rw [hdelete] at h
  have hrefused {failure : Failure} (hresult : result = .error failure)
      (honly : OnlyAsked world last) : Course service request world response after := by
    subst hresult
    obtain ⟨rfl, rfl⟩ := Prod.mk.inj h
    exact .asked honly fun _ => Response.le_status_ofFailure failure
  obtain ⟨failure, -, hresult, rfl⟩ | ⟨requested, hmode, hdelete⟩ :=
    Step.ofExcept_bind_cases hdelete
  · exact hrefused hresult (.refl _)
  obtain ⟨failure, hfind, hresult⟩ | ⟨record, found, hfind, hdelete⟩ := Step.bind_cases hdelete
  · exact hrefused hresult ((onlyAsked_findByFamily _ _).of_eq hfind)
  have hfound := (onlyAsked_findByFamily _ _).of_eq hfind
  have hasks : ask (.findByFamily table.write family) (Ledger.find? table.write family) world =
      (.ok record, found) := hfind
  have hfoundLedger := hledger.mono (ask_cases hasks).1.faults_sublist
  dsimp only at hdelete
  obtain ⟨failure, hrelease, hresult⟩ | ⟨_, reset, hrelease, hdelete⟩ := Step.bind_cases hdelete
  · obtain ⟨_, -, honly⟩ | ⟨-, hshape⟩ := Store.letsGo_or_of_release hrelease
    · exact hrefused hresult (hfound.trans honly)
    · obtain ⟨hset, fault, rfl⟩ := hshape failure rfl
      subst hresult
      obtain ⟨rfl, rfl⟩ := Prod.mk.inj h
      exact .unseen hfound hset (Nat.le_refl _)
  obtain ⟨_, ⟨⟩, -⟩ | ⟨hletGo, -⟩ := Store.letsGo_or_of_release hrelease
  have hside := (Store.adminOnly_release _ _ _ _).of_eq hrelease
  cases record with
  | none =>
    obtain ⟨rfl, rfl⟩ := Prod.mk.inj hdelete
    obtain ⟨rfl, rfl⟩ := Prod.mk.inj h
    rw [Option.map_none, Option.or_none] at hletGo
    exact .dropped hmethod hasked hmode hfound hfind hletGo rfl
  | some record =>
    have hmoment : moment reset = (.ok reset.now, reset) := rfl
    have heffective : (requested.or (some record.deletionMode)).getD .default =
        requested.getD record.deletionMode := by cases requested <;> rfl
    rw [Option.map_some, heffective] at hletGo
    dsimp only at hdelete
    rw [Step.bind_of_ok hmoment] at hdelete
    obtain ⟨failure, hmark, rfl⟩ | ⟨_, done, hmark, hend⟩ := Step.bind_cases hdelete
    · obtain ⟨message, code, rfl⟩ := (hfoundLedger.mono hside.faults_sublist).exists_plain hmark
      obtain ⟨rfl, rfl⟩ := Prod.mk.inj h
      exact .released hmethod hasked hmode hfound hfind hletGo hmark
        (Or.inr (le_status_plain message code))
    · obtain ⟨rfl, rfl⟩ := Prod.mk.inj hend
      obtain ⟨rfl, rfl⟩ := Prod.mk.inj h
      exact .released hmethod hasked hmode hfound hfind hletGo hmark (Or.inl ⟨rfl, rfl⟩)

/-! ### Requests -/

/-- How far a request is taken depends on the response only by its status. -/
theorem Course.congr {other : Response} (h : Course service request world response after)
    (hstatus : other.status = response.status) : Course service request world other after := by
  cases h with
  | asked honly hput => exact .asked honly fun hmethod => hstatus ▸ hput hmethod
  | unseen hfound hset hend => exact .unseen hfound hset (hstatus ▸ hend)
  | recorded hmethod hasked hrules hmode hset hupsert hend =>
    exact .recorded hmethod hasked hrules hmode hset hupsert (hstatus ▸ hend)
  | dropped hmethod hasked hmode hfound hfind hletGo hend =>
    exact .dropped hmethod hasked hmode hfound hfind hletGo (hstatus ▸ hend)
  | released hmethod hasked hmode hfound hfind hletGo hmark hend =>
    exact .released hmethod hasked hmode hfound hfind hletGo hmark (hstatus ▸ hend)

theorem answer_snd (handler : Step World Response) (world : World) :
    (answer handler world).2 = (handler world).2 := by
  rw [answer_apply]
  rcases handler world with ⟨failure | response, last⟩ <;> rfl

theorem health_snd (service : Service) (world : World) :
    (service.health world).2 = (World.ping world).2 := by
  unfold health
  rcases World.ping world with ⟨failure | _, last⟩ <;> rfl

theorem handle_snd (service : Service) (request : Request) (disconnects : Bool) (world : World) :
    (service.handle request disconnects world).2 =
      (service.respond request disconnects world).2 := by
  unfold handle
  dsimp only
  split <;> rfl

theorem readiness_snd (disconnects : Bool) (world : World) :
    (readiness disconnects world).2 =
      ((if disconnects then World.noteCall .getProjectId else World.resolveProject) world).2 := by
  unfold readiness
  dsimp only
  generalize (if disconnects then World.noteCall .getProjectId else World.resolveProject) world =
    outcome
  rcases outcome with ⟨failure | _, last⟩ <;> rfl

theorem onlyAsked_of_answer {handler : Step World Response} (hkeeps : handler.Keeps OnlyAsked)
    (h : answer handler world = (response, after)) : OnlyAsked world after := by
  have honly := hkeeps world
  rwa [← answer_snd, h] at honly

theorem onlyAsked_health (h : service.health world = (response, after)) :
    OnlyAsked world after := by
  have hping : World.ping.Keeps OnlyAsked := onlyAsked_execute _ rfl fun _ => rfl
  have honly := hping world
  rwa [← service.health_snd, h] at honly

theorem onlyAsked_readiness (h : readiness disconnects world = (response, after)) :
    OnlyAsked world after := by
  have hcheck : (if disconnects then World.noteCall .getProjectId
      else World.resolveProject).Keeps OnlyAsked := by
    split
    · exact onlyAsked_noteCall _
    · exact (onlyAsked_noteCall _).bind fun _ => onlyAsked_strike _
  have honly := hcheck world
  rwa [← readiness_snd, h] at honly

/-- At every place the world is at most asked, unless an order is given. -/
theorem course_of_respondAt (hledger : world.PlainLedger) {place : Place}
    (hasked : service.asked? request = some ⟨place, query, value⟩)
    (h : service.respondAt place (if request.method = .head then .get else request.method) query
      value disconnects world = (response, after)) :
    Course service request world response after := by
  generalize hmethod : (if request.method = .head then .get else request.method) = method at h
  have hput : request.method = .put → method = .put := by
    rintro hput
    rw [← hmethod, hput]
    rfl
  have hown (hhead : method ≠ .get) : request.method = method := by
    split at hmethod
    · exact absurd hmethod.symm hhead
    · exact hmethod
  unfold respondAt at h
  split at h
  · obtain ⟨rfl, rfl⟩ := Prod.mk.inj h
    exact .asked (.refl _) fun hmethod => nomatch hput hmethod
  · exact .asked (onlyAsked_health h) fun hmethod => nomatch hput hmethod
  · exact .asked (onlyAsked_readiness h) fun hmethod => nomatch hput hmethod
  · obtain ⟨rfl, rfl⟩ := Prod.mk.inj h
    exact .asked (.refl _) fun hmethod => nomatch hput hmethod
  · exact .asked (onlyAsked_of_answer (Step.keeps_ofExcept _) h)
      fun hmethod => nomatch hput hmethod
  · exact .asked (onlyAsked_of_answer ((Store.onlyAsked_listRules _ _ _).bind fun _ =>
      Step.keeps_pure _) h) fun hmethod => nomatch hput hmethod
  · refine .asked (onlyAsked_of_answer ((Store.onlyAsked_read _ _ _).bind fun text => ?_) h)
      fun hmethod => nomatch hput hmethod
    cases text <;> exact Step.keeps_pure _
  · exact course_of_put hledger (hown nofun) hasked h
  · exact course_of_delete hledger (hown nofun) hasked h
  · obtain ⟨rfl, rfl⟩ := Prod.mk.inj h
    exact .asked (.refl _) fun _ => Nat.le_of_ble_eq_true rfl

/-- **How far a request is taken.** In every world in which the faults of the ledger are plain
errors, a request is taken some way, and if it is refused as the client's own fault, then it has
changed no table and no row. -/
theorem respond_course (hledger : world.PlainLedger)
    (h : service.respond request disconnects world = (response, after)) :
    Course service request world response after ∧
      (response.BlamesClient → Unchanged world after) := by
  suffices hcourse : Course service request world response after from
    ⟨hcourse, hcourse.unchanged⟩
  obtain ⟨rfl, hstatus, -⟩ | ⟨asked, full, hasked, hstatus, hfull⟩ := respond_cases h
  · exact .asked (.refl _) fun _ => hstatus
  · exact (course_of_respondAt hledger hasked hfull).congr hstatus

/-- Two families with the same policy. The first call that sets a policy meets a precondition that
does not hold, and the first record that is written is lost. -/
def troubled : World :=
  Reconciler.worldWith [("f", Reconciler.twoVersions), ("g", Reconciler.twoVersions)] []
    [⟨.modifyFamilies, 0, .plain "frozen" (some (.number (.int 9)))⟩,
      ⟨.upsert, 0, .plain "lost" none⟩]

theorem plainLedger_troubled : troubled.PlainLedger := by
  intro kind hkind
  obtain rfl | rfl : kind = (.modifyFamilies, .plain "frozen" (some (.number (.int 9)))) ∨
      kind = (.upsert, .plain "lost" none) := by
    simpa [troubled, Reconciler.worldWith, Fault.kind] using hkind
  · exact fun _ => ⟨_, _, rfl⟩
  · exact fun _ => ⟨_, _, rfl⟩

/-- An order that the admin API refuses has changed nothing. -/
theorem respond_course_frozen : ∃ response after,
    plain.respond putAge false troubled = (response, after) ∧ response.status = 409 ∧
      Course plain putAge troubled response after ∧ Unchanged troubled after := by
  obtain ⟨failure, after, hput, hstatus⟩ : ∃ failure after,
      plain.putPolicy (target ⟨"pp", "ii", "t"⟩ "f") ageBody false troubled =
        (.error failure, after) ∧ (Response.ofFailure failure).status = 409 :=
    ⟨_, _, rfl, rfl⟩
  have hrespond : plain.respond putAge false troubled = (.ofFailure failure, after) := by
    rw [respond_of_put rfl asked?_putAge, answer_apply, hput]
  obtain ⟨hcourse, hunchanged⟩ := respond_course plainLedger_troubled hrespond
  have hblames : (Response.ofFailure failure).BlamesClient := by
    rw [Response.BlamesClient, hstatus]
    decide
  exact ⟨_, after, hrespond, hstatus, hcourse, hunchanged hblames⟩

end Service

end Retention

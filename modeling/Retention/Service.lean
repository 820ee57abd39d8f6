import Retention.Http.Address
import Retention.Http.Place
import Retention.Http.Query
import Retention.Http.Response
import Retention.Reconcile

/-!
# The service

The service answers requests about its health, its counters and the policies of column
families. A request about policies checks its own parts first, then asks the store, and
only then writes to the ledger. When the client goes away while a call is pending, the call
is cancelled and nothing follows it.
-/

namespace Retention

open Http

/-- The service: the name it goes by, the timeout of its store calls, and whether it reads
the content of requests. -/
structure Service where
  name : String
  timeout : Option Json
  readsJson : Bool

/-- What becomes of a request: it is answered, or its client is gone before that. -/
inductive Reply where
  | answered (response : Response)
  | disconnected

namespace Service

/-- The store of a service. -/
def store (service : Service) : Store := ⟨service.timeout⟩

/-- The reconciler of a service. -/
def reconciler (service : Service) : Reconciler := ⟨service.store, service.timeout⟩

/-- The failure that a call is given up with when its client goes away. -/
def abortReason : Failure := .plain "This operation was aborted" none

/-- A client that waits for the answer, or goes away while the first call is pending. -/
def client (disconnects : Bool) : Signal :=
  ⟨false, if disconnects then .abort else .settle, [], true, abortReason⟩

/-- The options of the store calls of a request. -/
def options (service : Service) (disconnects : Bool) : CallOptions :=
  ⟨some (client disconnects), service.timeout⟩

/-- The column family of a table. -/
def target (table : TableName) (family : Text) : FamilyRef := ⟨table.write, family⟩

/-- The value of a request's content, which must be an object. -/
def bodyMembers (value : Json) : Except Failure Json :=
  if value.isObject then .ok value else .error (.request .bodyNotObject)

/-- A deletion mode as it is given with a request, in any letter case; without one it is the
default. -/
def readMode (value : Option Json) : Except Failure DeletionMode :=
  match value with
  | none | some .null => .ok .default
  | some (.string (.whole word)) =>
    match DeletionMode.ofWord? (String.ofList (lowerCase word)) with
    | some mode => .ok mode
    | none => .error (.request (.deletionMode (.string word)))
  | some value => .error (.request (.deletionMode value))

/-- The deletion mode that a query gives. -/
def queryMode (query : List Char) : Except Failure (Option DeletionMode) :=
  match plainValue? "deletion_mode".toList query with
  | none => .ok none
  | some word => some <$> readMode (some (.string (.whole (String.ofList word))))

/-- The members that name a column family and give its rules. -/
def policyMembers (target : FamilyRef) (rules : Option Json) : List (String × Json) :=
  [("table_ref", .string target.table), ("column_family_id", .string target.family),
    ("gc_rules", (rules.getD .null).written)]

/-- The policies of a table, asked for with some options. -/
def listPoliciesWith (service : Service) (table : TableName) (options : CallOptions) :
    Step World Response := do
  let policies ← service.store.listRules table.write options
  let entry (policy : Text × Json) : Json :=
    .object [("column_family_id", .string policy.1), ("gc_rules", policy.2.written)]
  pure (.json 200
    [("table_ref", .string table.write), ("gc_policies", .array (policies.map entry))])

/-- The policy of a column family, asked for with some options. -/
def getPolicyWith (service : Service) (target : FamilyRef) (options : CallOptions) :
    Step World Response := do
  match ← service.store.read target options with
  | none =>
    let message := "Column family " ++ target.family ++ " has no GC policy"
    pure (.json 404 (Response.errorMembers message "NOT_FOUND"))
  | some rules => pure (.json 200 (policyMembers target rules))

/-- A column family is given a policy, with some options, and recorded with it. -/
def putPolicyWith (service : Service) (target : FamilyRef) (value : Json)
    (options : CallOptions) : Step World Response := do
  let body ← Step.ofExcept (bodyMembers value)
  let mode ← Step.ofExcept (readMode (body.member? "deletion_mode"))
  let rules := body.member? "gc_rules"
  let applied ← service.store.apply target rules options
  World.upsert target.table target.family (rules.getD .null) mode
  let shown ← Step.ofExcept applied.text
  pure (.json 200 (policyMembers target shown ++ [("deletion_mode", .string mode.word)]))

/-- A column family is released, with some options, in the mode that the request gives, or else in
the mode it was recorded with, or else in the default one. -/
def deletePolicyWith (service : Service) (target : FamilyRef) (query : List Char)
    (options : CallOptions) : Step World Response := do
  let requested ← Step.ofExcept (queryMode query)
  let record ← World.findByFamily target.table target.family
  let mode := (requested.or (record.map PolicyRecord.deletionMode)).getD .default
  service.store.release target mode options
  match record with
  | none => pure ()
  | some record => do
    let now ← World.moment
    World.markReleased .pool record.id now
  pure ⟨204, .nothing⟩

/-- A request for the policies of a table. -/
def listPolicies (service : Service) (table : TableName) (disconnects : Bool) :
    Step World Response :=
  service.listPoliciesWith table (service.options disconnects)

/-- A request for the policy of a column family. -/
def getPolicy (service : Service) (target : FamilyRef) (disconnects : Bool) :
    Step World Response :=
  service.getPolicyWith target (service.options disconnects)

/-- A request that gives a column family a policy. -/
def putPolicy (service : Service) (target : FamilyRef) (value : Json) (disconnects : Bool) :
    Step World Response :=
  service.putPolicyWith target value (service.options disconnects)

/-- A request that releases a column family. -/
def deletePolicy (service : Service) (target : FamilyRef) (query : List Char)
    (disconnects : Bool) : Step World Response :=
  service.deletePolicyWith target query (service.options disconnects)

/-- Whether a rule text is valid, and its canonical form or its first error. -/
def validate (value : Json) : Except Failure Response := do
  let body ← bodyMembers value
  match Policy.ofText (body.member? "gc_rules") with
  | .ok policy =>
    let text ← policy.text
    pure (.json 200 [("valid", .bool true), ("gc_rules", (text.getD .null).written)])
  | .error (.rule error) =>
    pure (.json 200 [("valid", .bool false), ("error", .record (Response.ruleErrorMembers error))])
  | .error failure => .error failure

/-- The response to a request about policies, a failure included. -/
def answer (handler : Step World Response) : World → Response × World := fun world =>
  match handler world with
  | (.ok response, world) => (response, world)
  | (.error failure, world) => (.ofFailure failure, world)

/-- Whether the ledger answers. -/
def health (service : Service) : World → Response × World := fun world =>
  let members (status outcome : String) (error : List (String × Json)) : List (String × Json) :=
    [("status", .string status), ("service", .string service.name),
      ("timestamp", .string world.now)] ++ error ++
      [("checks", .object [("database", .string outcome)])]
  match World.ping world with
  | (.ok _, world) => (.json 200 (members "healthy" "ok" []), world)
  | (.error failure, world) =>
    (.json 503 (members "unhealthy" "failed" [("error", .string failure.message)]), world)

/-- Whether the admin API resolves the service's credentials. -/
def readiness (disconnects : Bool) : World → Response × World := fun world =>
  let members (ready : Bool) (outcome : String) (error : List (String × Json)) :
      List (String × Json) :=
    [("ready", .bool ready), ("timestamp", .string world.now)] ++ error ++
      [("checks", .object [("bigtable", .string outcome)])]
  let check := if disconnects then World.noteCall .getProjectId else World.resolveProject
  match check world with
  | (.ok _, world) => (.json 200 (members true "ok" []), world)
  | (.error failure, world) =>
    (.json 503 (members false "failed" [("error", .string failure.message)]), world)

/-- The response at a place to a request with a method, a query and content. -/
def respondAt (service : Service) (place : Place) (method : Method) (query : List Char)
    (value : Json) (disconnects : Bool) : World → Response × World :=
  match place, method with
  | _, .options => fun world => (⟨200, .page⟩, world)
  | .health, .get => service.health
  | .readiness, .get => readiness disconnects
  | .metrics, .get => fun world => (⟨200, .lines world.counters.lines⟩, world)
  | .validation, .post => answer (Step.ofExcept (validate value))
  | .policies table, .get => answer (service.listPolicies table disconnects)
  | .policy table family, .get => answer (service.getPolicy (target table family) disconnects)
  | .policy table family, .put =>
    answer (service.putPolicy (target table family) value disconnects)
  | .policy table family, .delete =>
    answer (service.deletePolicy (target table family) query disconnects)
  | _, _ => fun world => (.notFound, world)

/-- The response to a request whose content has been read. -/
def respondTo (service : Service) (location : Location) (method : Method) (query : List Char)
    (value : Json) (disconnects : Bool) : World → Response × World :=
  match location with
  | .nowhere => fun world => (.notFound, world)
  | .malformed => fun world =>
    (.json 500 (Response.errorMembers "Internal server error" "INTERNAL"), world)
  | .found place => service.respondAt place method query value disconnects

/-- The response to a request that has a target. -/
def respondToTarget (service : Service) (request : Request) (target : Target)
    (disconnects : Bool) : World → Response × World := fun world =>
  match request.value service.readsJson with
  | .error fault => (⟨fault.status, .page⟩, world)
  | .ok value =>
    let method := if request.method = .head then .get else request.method
    service.respondTo (Place.ofPath target.path) method target.query value disconnects world

/-- The response to a request. Asking for the head alone is asking for everything and
leaving the content out. -/
def respond (service : Service) (request : Request) (disconnects : Bool) :
    World → Response × World := fun world =>
  let full : Response × World :=
    if !request.isCarried then (.refused, world)
    else
      match Target.ofText? request.target with
      | none => (.notFound, world)
      | some target => service.respondToTarget request target disconnects world
  if request.method = .head then (full.1.bare, full.2) else full

/-- What becomes of a request: a client that goes away is gone once a call was pending. -/
def handle (service : Service) (request : Request) (disconnects : Bool) (world : World) :
    Reply × World :=
  let (response, after) := service.respond request disconnects world
  if disconnects && world.calls.length < after.calls.length then (.disconnected, after)
  else (.answered response, after)

end Service

end Retention

import Retention.Service
import Retention.Service.Settings

/-!
# The life of the service

When the service starts it reconciles all records, unless it is told not to. Unless it is
told to go on, it ends after that; it ends with an error when the records could not even be
found. When it is told to stop, it closes its connections, both of them whatever becomes of
the other.
-/

namespace Retention

namespace Service

/-- The service with given settings. -/
def ofSettings (settings : Settings) : Service :=
  ⟨settings.name, some (.number settings.timeout), true⟩

/-- How the service is to start. -/
structure StartMode where
  reconciles : Bool
  continues : Bool
  dryRun : Bool

/-- How an environment wants the service to start. -/
def StartMode.ofEnvironment (environment : Environment) : StartMode where
  reconciles := !environment.isSetTo "RUN_ON_STARTUP" "false"
  continues := environment.isSetTo "CONTINUOUS_MODE" "true"
  dryRun := environment.isSetTo "DRY_RUN" "true"

/-- The service starts; the result is the exit code, if it ends at once. -/
def startUp (service : Service) (mode : StartMode) : World → Option Nat × World := fun world =>
  if mode.reconciles then
    match service.reconciler.reconcileAll mode.dryRun world with
    | (.error _, world) => (some 1, world)
    | (.ok _, world) => (if mode.continues then none else some 0, world)
  else (none, world)

/-- The service stops; the result is the exit code. -/
def shutDown : World → Nat × World := fun world =>
  match World.closePool world with
  | (ledger, world) =>
    match World.closeAdmin world with
    | (admin, world) =>
      match ledger, admin with
      | .ok _, .ok _ => (0, world)
      | _, _ => (1, world)

end Service

end Retention

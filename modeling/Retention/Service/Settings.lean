import Retention.Number.Text

/-!
# Settings

The service takes its settings from environment variables. One that is not set, or is set
to the empty text, has a default. A number is what the text begins with, so that a text
without a digit at its front gives no number at all.
-/

namespace Retention

/-- The environment variables that are set, with their texts. -/
abbrev Environment := List (String × String)

namespace Environment

/-- The text of a variable, or a default when there is none or it is empty. -/
def textOr (environment : Environment) (name default : String) : String :=
  ((environment.lookup name).filter fun text => text ≠ "").getD default

/-- The whole number of a variable, or of a default text. -/
def numberOr (environment : Environment) (name default : String) : Number :=
  Number.ofLeadingInteger (environment.textOr name default)

/-- Whether a variable is set to a given text. -/
def isSetTo (environment : Environment) (name text : String) : Bool :=
  environment.lookup name = some text

end Environment

/-- How the ledger is reached. -/
structure DatabaseSettings where
  host : String
  portNumber : Number
  database : String
  user : String
  password : String
  maxConnections : Number
  ssl : Bool

/-- How the admin API is reached. -/
structure AdminSettings where
  projectId : Option String
  keyFilename : Option String
  apiEndpoint : Option String

/-- The settings of the service. -/
structure Settings where
  portNumber : Number
  environment : String
  database : DatabaseSettings
  admin : AdminSettings
  timeout : Number
  name : String
  version : String

/-- The settings that an environment gives. -/
def Settings.ofEnvironment (environment : Environment) : Settings where
  portNumber := environment.numberOr "PORT" "3000"
  environment := environment.textOr "NODE_ENV" "development"
  database :=
    { host := environment.textOr "PGHOST" "localhost"
      portNumber := environment.numberOr "PGPORT" "5432"
      database := environment.textOr "PGDATABASE" "gc_policy"
      user := environment.textOr "PGUSER" "postgres"
      password := environment.textOr "PGPASSWORD" "postgres"
      maxConnections := environment.numberOr "PG_MAX_CONNECTIONS" "20"
      ssl := environment.isSetTo "PGSSLMODE" "require" }
  admin :=
    { projectId := environment.lookup "BIGTABLE_PROJECT_ID"
      keyFilename := environment.lookup "BIGTABLE_KEY_FILENAME"
      apiEndpoint := environment.lookup "BIGTABLE_API_ENDPOINT" }
  timeout := environment.numberOr "STORE_TIMEOUT_MS" "30000"
  name := environment.textOr "SERVICE_NAME" "gc-policy-service"
  version := environment.textOr "npm_package_version" "1.0.0"

/-- The endpoint of the admin API, if one is set that is not empty. -/
def AdminSettings.endpoint? (settings : AdminSettings) : Option String :=
  settings.apiEndpoint.filter fun text => text ≠ ""

end Retention

import Retention.Policy.Authored
import Retention.Shape

/-!
# Failures

Everything an operation of the service can fail with. Rule errors, policies without rule
text, unusable requests and values of the wrong shape are the service's own findings. A store
failure carries a code and may wrap the failure that caused it. A plain failure is a message
from outside, with whatever code came along; and since anything at all can be raised outside,
a raised JSON value is a failure too, even one that cannot be put into words.
-/

namespace Retention

/-- The codes of store failures. -/
inductive StoreCode where
  | invalidArgument
  | notFound
  | permissionDenied
  | failedPrecondition
  | unavailable
  | deadlineExceeded
  | cancelled
  | unknown
deriving DecidableEq

namespace StoreCode

/-- The word for a code. -/
def word : StoreCode → String
  | invalidArgument => "INVALID_ARGUMENT"
  | notFound => "NOT_FOUND"
  | permissionDenied => "PERMISSION_DENIED"
  | failedPrecondition => "FAILED_PRECONDITION"
  | unavailable => "UNAVAILABLE"
  | deadlineExceeded => "DEADLINE_EXCEEDED"
  | cancelled => "CANCELLED"
  | unknown => "UNKNOWN"

/-- All codes. -/
def all : List StoreCode :=
  [invalidArgument, notFound, permissionDenied, failedPrecondition, unavailable,
    deadlineExceeded, cancelled, unknown]

/-- The code a word spells. -/
def ofWord? (text : String) : Option StoreCode := all.find? fun code => code.word = text

/-- The code for a status number of the admin API; statuses without a code of their own are
unknown. -/
def ofStatus : Number → StoreCode
  | .int 1 => cancelled
  | .int 3 => invalidArgument
  | .int 4 => deadlineExceeded
  | .int 5 => notFound
  | .int 7 => permissionDenied
  | .int 9 => failedPrecondition
  | .int 14 => unavailable
  | _ => unknown

end StoreCode

/-- What can be wrong with a request, its rules aside. -/
inductive RequestFault where
  | bodyNotObject
  | deletionMode (value : Json)

namespace RequestFault

/-- The code a request fault is reported under. -/
def code : RequestFault → String
  | bodyNotObject => "INVALID_BODY"
  | deletionMode _ => "INVALID_DELETION_MODE"

/-- A request fault in words. -/
def message : RequestFault → String
  | bodyNotObject => "Request body must be a JSON object"
  | deletionMode value =>
    "deletion_mode must be either `default` or `abandon` (got " ++ value.render ++ ")"

end RequestFault

/-- A failed operation. -/
inductive Failure where
  | rule (error : RuleError)
  | unwritable (reason : Unwritable)
  | request (fault : RequestFault)
  | shape (fault : ShapeFault)
  | store (code : StoreCode) (message : Text) (cause : Option Failure)
  | plain (message : Text) (code : Option Json)
  | raised (value : Json)

namespace Failure

/-- A failure in words, unless it is a raised value that cannot be shown. -/
def words : Failure → Except ShapeFault Text
  | rule error => .ok error.message
  | unwritable reason => .ok reason.message
  | request fault => .ok fault.message
  | shape fault => .ok fault.message
  | store _ message _ => .ok message
  | plain message _ => .ok message
  | raised value => value.shown?.elim (.error .hidden) .ok

/-- A failure in words; for a value that cannot be shown they say that. -/
def message (failure : Failure) : Text :=
  match failure.words with
  | .ok message => message
  | .error fault => fault.message

/-- The failure of a policy without a canonical form. -/
def ofCanonical : Policy.CanonicalError → Failure
  | .unwritable reason => unwritable reason
  | .rule error => rule error

/-- The member `code` of a failure that came from outside. -/
def outsideCode? : Failure → Option Json
  | plain _ code => code
  | raised value => value.member? "code"
  | _ => none

/-- The store code of a failure that came from outside: that of its status number. -/
def storeCode (failure : Failure) : StoreCode :=
  match failure.outsideCode? with
  | some (.number status) => StoreCode.ofStatus status
  | _ => .unknown

/-- A failure of an admin call as a store failure. One that is a store failure already
stays as it is, and one without words is a fault of the raised value. -/
def ofCall (method : String) : Failure → Failure
  | store code message cause => store code message cause
  | failure =>
    match failure.words with
    | .ok message => store failure.storeCode (method ++ " failed: " ++ message) (some failure)
    | .error fault => shape fault

/-- Whether a failure is a store failure with a given code. -/
def hasStoreCode (code : StoreCode) : Failure → Bool
  | store own _ _ => own = code
  | _ => false

/-- Whether a failure is a store failure with any code. -/
def isStore : Failure → Bool
  | store _ _ _ => true
  | _ => false

end Failure

end Retention

import Retention.Failure

/-!
# Responses

A response has a status and content: a JSON value, lines of text, a page of no further
interest, or nothing. Failures are answered with a JSON object that has a message and a
code; failures of the service's surroundings are answered without their message, and one that
cannot be put into words with a page.
-/

namespace Retention.Http

/-- The content of a response. -/
inductive Answer where
  | nothing
  | json (value : Json)
  | lines (lines : List String)
  | page

/-- A response. -/
structure Response where
  status : Nat
  answer : Answer

namespace Response

/-- A JSON response. -/
def json (status : Nat) (members : List (String × Json)) : Response :=
  ⟨status, .json (.record members)⟩

/-- The page that says that nothing was found. -/
def notFound : Response := ⟨404, .page⟩

/-- The response to what is no request. -/
def refused : Response := ⟨400, .nothing⟩

/-- A response without its content. -/
def bare (response : Response) : Response := { response with answer := .nothing }

/-- The members that report an error under a code. -/
def errorMembers (message : Text) (code : String) : List (String × Json) :=
  [("error", .string message), ("code", .string code)]

/-- The members that report a rule error. -/
def ruleErrorMembers (error : RuleError) : List (String × Json) :=
  errorMembers error.message error.fault.code ++ [("path", .string error.path)]

/-- The status that a store failure is answered with. -/
def storeStatus : StoreCode → Nat
  | .invalidArgument => 400
  | .notFound => 404
  | .permissionDenied => 403
  | .failedPrecondition => 409
  | .deadlineExceeded => 504
  | .unavailable | .cancelled | .unknown => 502

/-- Whether a raised value counts as no failure at all, so that the request is passed on
and in the end nothing is found. -/
def passesOn : Failure → Bool
  | .raised (.string (.whole text)) => text = "" || text = "route" || text = "router"
  | .raised value => !value.isTruthy
  | _ => false

/-- The response to a failure. -/
def ofFailure (failure : Failure) : Response :=
  match failure with
  | .rule error => json 400 (ruleErrorMembers error)
  | .request fault => json 400 (errorMembers fault.message fault.code)
  | .store code message _ => json (storeStatus code) (errorMembers message code.word)
  | .unwritable reason => json 502 (errorMembers reason.message "UNREPRESENTABLE_POLICY")
  | failure =>
    if passesOn failure then notFound
    else
      match failure.words with
      | .ok _ => json 500 (errorMembers "Internal server error" "INTERNAL")
      | .error _ => ⟨500, .page⟩

end Response

end Retention.Http

import Prodinamik.Access.AuthManager
import Prodinamik.Access.HumanControl
import Prodinamik.Lib.Run

namespace Prodinamik.Access

open Lib.Run

inductive Method
  | get
  | post
  | other
  deriving DecidableEq, Repr

/-- What json.loads makes of a request's body; an empty body is an empty object. -/
inductive Body
  | unreadable
  | notObject
  | object (fields : List (String × Value))
  deriving DecidableEq, Repr

/-- A request with the headers that are read, the time of it and what the rate
limiter says to its key. -/
structure Request where
  method : Method
  path : String
  authorization : String := ""
  xApiKey : String := ""
  body : Body := .object []
  now : Int
  withinRate : Bool := true
  deriving DecidableEq, Repr

/-- The answers of the handlers that only read are not told apart. -/
inductive Answer
  | aborted
  | unsupportedMethod
  | rateLimited
  | reads (path : String)
  | failed
  | json (status : Nat) (fields : List (String × Value))
  deriving DecidableEq, Repr

structure Server where
  authManager : AuthManager
  approvalGate : Option ApprovalGate := none
  humanLoop : Option HumanLoopManager := none
  budgetController : Option BudgetController := none

namespace Request

/-- self.path.rstrip("/") -/
def strippedPath (r : Request) : String :=
  .ofList (r.path.toList.reverse.dropWhile fun c => c = '/').reverse

/-- data.get(key, default) -/
def field (fields : List (String × Value)) (key : String) (default : Value) : Value :=
  (fields.lookup key).getD default

end Request

/-- get_auth_from_header; no result is an OSError. -/
def getAuthFromHeader (d : Directories) (hash : String → String) (m : AuthManager) (r : Request) :
    AuthManager × Option AuthResult :=
  if "Bearer ".toList.isPrefixOf r.authorization.toList then
    m.validateKey d hash (.ofList (r.authorization.toList.drop 7)) r.now
  else if r.xApiKey ≠ "" then m.validateKey d hash r.xApiKey r.now
  else (m, some { error := "No authentication provided" })

inductive Route
  | reads
  | human (v : Verdict)
  | pause
  | budgetReset
  | notFound
  deriving DecidableEq, Repr

/-- The order of the tests in _handle_api. -/
def route (method : Method) (path : String) : Route :=
  if path = "/api/v1/runs" then .reads
  else if "/api/v1/runs/".toList.isPrefixOf path.toList ∧ method = .get then .reads
  else if path ∈ ["/api/v1/health", "/api/v1/profiles", "/api/v1/audit", "/api/v1/metrics"] then
    .reads
  else if path ∈ ["/api/v1/human/approvals", "/api/v1/human/audit", "/api/v1/human/budget",
      "/api/v1/human/dashboard"] ∧ method = .get then .reads
  else if path = "/api/v1/human/approve" ∧ method = .post then .human .approve
  else if path = "/api/v1/human/reject" ∧ method = .post then .human .reject
  else if path = "/api/v1/human/pause" ∧ method = .post then .pause
  else if path = "/api/v1/human/budget/reset" ∧ method = .post then .budgetReset
  else .notFound

namespace Server

/-- data.get("user_id", auth_result.name if auth_result.name else "admin") -/
def userId (auth : AuthResult) (fields : List (String × Value)) : Value :=
  Request.field fields "user_id" (.text (if auth.name = "" then "admin" else auth.name))

def defaultFeedback : Verdict → String
  | .approve => ""
  | .reject => "Rejected"

def resolved : Verdict → String
  | .approve => "approved"
  | .reject => "rejected"

/-- First the approval gate, then the human loop. -/
def resolve (v : Verdict) (s : Server) (taskId userId feedback : Value) (now : Int) :
    Option (Server × String) :=
  match taskId with
  | .text task =>
    match s.approvalGate.bind fun g => g.resolveTask v task userId feedback now with
    | some g => some ({ s with approvalGate := some g }, "approval_gate")
    | none =>
      match s.humanLoop.bind fun l => l.review v task userId feedback now with
      | some l => some ({ s with humanLoop := some l }, "human_loop")
      | none => none
  | _ => none

/-- An array or an object as a task id raises in the gate. -/
def apiHuman (v : Verdict) (s : Server) (auth : AuthResult) (body : Body) (now : Int) :
    Server × Answer :=
  match body with
  | .unreadable => (s, .failed)
  | .notObject => (s, .failed)
  | .object fields =>
      let taskId := Request.field fields "task_id" (.text "")
      let user := userId auth fields
      let feedback := Request.field fields "feedback" (.text (defaultFeedback v))
      if taskId.truthy then
        if s.approvalGate.isSome ∧ !taskId.hashable then (s, .failed)
        else
          match s.resolve v taskId user feedback now with
          | some (s', source) =>
              (s', .json 200 [("status", .text (resolved v)), ("task_id", taskId),
                (resolved v ++ "_by", user), ("source", .text source)])
          | none =>
              (s, .json 404 [("error", .text "Task not found in pending queue"),
                ("task_id", taskId)])
      else (s, .json 400 [("error", .text "Missing required field: task_id")])

def apiHumanApprove : Server → AuthResult → Body → Int → Server × Answer := apiHuman .approve

def apiHumanReject : Server → AuthResult → Body → Int → Server × Answer := apiHuman .reject

/-- The module that PauseReason is imported from is not there. -/
def apiHumanPause (s : Server) (body : Body) : Server × Answer :=
  match body with
  | .unreadable => (s, .failed)
  | .notObject => (s, .failed)
  | .object fields =>
      if (Request.field fields "task_id" (.text "")).truthy then
        if s.approvalGate.isSome then
          (s, .json 500 [("error", .text "No module named 'engine.approval_gate'")])
        else (s, .json 503 [("error", .text "Approval gate not available")])
      else (s, .json 400 [("error", .text "Missing required field: task_id")])

def apiHumanBudgetReset (s : Server) : Server × Answer :=
  match s.budgetController with
  | none => (s, .json 503 [("error", .text "Budget controller not available")])
  | some b =>
      ({ s with budgetController := some b.reset },
        .json 200 [("status", .text "reset"), ("message", .text "Budget tracking has been reset")])

variable (d : Directories) (hash : String → String)

def dispatch (s : Server) (auth : AuthResult) (r : Request) (path : String) : Server × Answer :=
  match route r.method path with
  | .reads => (s, .reads path)
  | .human .approve => s.apiHumanApprove auth r.body r.now
  | .human .reject => s.apiHumanReject auth r.body r.now
  | .pause => s.apiHumanPause r.body
  | .budgetReset => s.apiHumanBudgetReset
  | .notFound => (s, .json 404 [("error", .text ("API endpoint not found: " ++ path))])

def handleApi (s : Server) (r : Request) (path : String) : Server × Answer :=
  let (m, auth) := getAuthFromHeader d hash s.authManager r
  let s := { s with authManager := m }
  match auth with
  | none => (s, .aborted)
  | some auth =>
      if auth.valid then
        if r.withinRate then s.dispatch auth r path else (s, .rateLimited)
      else (s, .json 401 [("error", .text "Unauthorized"), ("detail", .text auth.error)])

def handle (s : Server) (r : Request) : Server × Answer :=
  let path := r.strippedPath
  let notFound := Answer.json 404 [("error", .text "Not found"), ("path", .text path)]
  match r.method with
  | .other => (s, .unsupportedMethod)
  | .get =>
      if path ∈ ["/healthz", "/health", "/metrics"] then (s, .reads path)
      else if "/api/v1/".toList.isPrefixOf path.toList then s.handleApi d hash r path
      else (s, notFound)
  | .post =>
      if "/api/v1/".toList.isPrefixOf path.toList then s.handleApi d hash r path else (s, notFound)

def step (s : Server) (r : Request) : Server := (s.handle d hash r).1

end Server

end Prodinamik.Access

import Bokkie.Rpc

/-!
# Notifications and server requests

The notifications and requests of the app server that carry items, tool calls and approvals, as
their parameters decode. Whether the parameters of another typed notification decode is `typed`.
-/

namespace Bokkie

/-- The thread items Bokkie reads. Other item types decode to `unknown`. -/
inductive ThreadItem where
  | userMessage (id : String) (clientId : Option String)
  | agentMessage (id text : String)
  | reasoning (id : String)
  | plan (id text : String)
  | contextCompaction (id : String)
  | commandExecution (id command cwd status : String) (aggregatedOutput : Option String)
      (exitCode : Option ℤ)
  | dynamicToolCall (id tool : String) (namespaceName : Option String) (arguments : Json)
      (status : String) (success : Option Bool)
  | webSearch (id query : String) (action : Option Json) (results : Option (List Json))
  | mcpToolCall (id server tool : String) (arguments : Json) (status : String)
  | unknown

structure ItemNotification where
  threadId : String
  turnId : String
  item : ThreadItem

structure DynamicToolCallParams where
  threadId : String
  turnId : String
  callId : String
  tool : String
  namespaceName : Option String
  arguments : Json

structure CommandExecutionRequestApprovalParams where
  threadId : String
  turnId : String
  itemId : String
  command : Option String
  cwd : Option String
  reason : Option String
deriving DecidableEq

structure FileChangeRequestApprovalParams where
  threadId : String
  turnId : String
  itemId : String
  reason : Option String
deriving DecidableEq

open Json (string optional)

namespace ThreadItem

/-- The item of a type, from the rest of its object or array. -/
def ofType (type : String) (j : Json) : Option ThreadItem :=
  match type with
  | "userMessage" => do
    match ← j.fields [⟨"id", false⟩, ⟨"clientId", true⟩] with
    | [id, clientId] => return .userMessage (← string id) (← optional string clientId)
    | _ => none
  | "agentMessage" => do
    match ← j.fields [⟨"id", false⟩, ⟨"text", false⟩] with
    | [id, text] => return .agentMessage (← string id) (← string text)
    | _ => none
  | "reasoning" => do
    match ← j.fields [⟨"id", false⟩] with
    | [id] => return .reasoning (← string id)
    | _ => none
  | "plan" => do
    match ← j.fields [⟨"id", false⟩, ⟨"text", false⟩] with
    | [id, text] => return .plan (← string id) (← string text)
    | _ => none
  | "contextCompaction" => do
    match ← j.fields [⟨"id", false⟩] with
    | [id] => return .contextCompaction (← string id)
    | _ => none
  | "commandExecution" => do
    match ← j.fields [⟨"id", false⟩, ⟨"command", false⟩, ⟨"cwd", false⟩, ⟨"status", false⟩,
      ⟨"aggregatedOutput", false⟩, ⟨"exitCode", false⟩] with
    | [id, command, cwd, status, aggregatedOutput, exitCode] =>
      return .commandExecution (← string id) (← string command) (← string cwd) (← string status)
        (← optional string aggregatedOutput) (← optional (Json.integer 32) exitCode)
    | _ => none
  | "dynamicToolCall" => do
    match ← j.fields [⟨"id", false⟩, ⟨"tool", false⟩, ⟨"namespace", false⟩, ⟨"arguments", false⟩,
      ⟨"status", false⟩, ⟨"success", false⟩] with
    | [id, tool, namespaceName, arguments, status, success] =>
      return .dynamicToolCall (← string id) (← string tool) (← optional string namespaceName)
        (← Json.value arguments) (← string status) (← optional Json.boolean success)
    | _ => none
  | "webSearch" => do
    match ← j.fields [⟨"id", false⟩, ⟨"query", false⟩, ⟨"action", true⟩, ⟨"results", true⟩] with
    | [id, query, action, results] =>
      return .webSearch (← string id) (← string query) (← optional Json.value action)
        (← optional Json.values results)
    | _ => none
  | "mcpToolCall" => do
    match ← j.fields [⟨"id", false⟩, ⟨"server", false⟩, ⟨"tool", false⟩, ⟨"arguments", false⟩,
      ⟨"status", false⟩] with
    | [id, server, tool, arguments, status] =>
      return .mcpToolCall (← string id) (← string server) (← string tool) (← Json.value arguments)
        (← string status)
    | _ => none
  -- a type that is not listed has no fields, and an array must end
  | _ => (j.fields []).map fun _ => .unknown

def decode : Json → Option ThreadItem
  | .obj members => do ofType (← string (Json.lookup members "type")) (.obj members)
  | .arr (type :: items) => do ofType (← string (some type)) (.arr items)
  | _ => none

end ThreadItem

namespace ItemNotification

def decode (params : Json) : Option ItemNotification := do
  match ← params.fields [⟨"threadId", false⟩, ⟨"turnId", false⟩, ⟨"item", false⟩] with
  | [threadId, turnId, item] =>
    return ⟨← string threadId, ← string turnId, ← ThreadItem.decode (← item)⟩
  | _ => none

end ItemNotification

namespace DynamicToolCallParams

def fieldNames : List String := ["threadId", "turnId", "callId", "tool", "namespace", "arguments"]

def decode (params : Json) : Option DynamicToolCallParams := do
  match ← params.fields (fieldNames.map (⟨·, false⟩)) with
  | [threadId, turnId, callId, tool, namespaceName, arguments] =>
    return ⟨← string threadId, ← string turnId, ← string callId, ← string tool,
      ← optional string namespaceName, ← Json.value arguments⟩
  | _ => none

end DynamicToolCallParams

namespace CommandExecutionRequestApprovalParams

def decode (params : Json) : Option CommandExecutionRequestApprovalParams := do
  match ← params.fields [⟨"threadId", false⟩, ⟨"turnId", false⟩, ⟨"itemId", false⟩,
    ⟨"command", false⟩, ⟨"cwd", false⟩, ⟨"reason", false⟩] with
  | [threadId, turnId, itemId, command, cwd, reason] =>
    return ⟨← string threadId, ← string turnId, ← string itemId, ← optional string command,
      ← optional string cwd, ← optional string reason⟩
  | _ => none

end CommandExecutionRequestApprovalParams

namespace FileChangeRequestApprovalParams

def decode (params : Json) : Option FileChangeRequestApprovalParams := do
  match ← params.fields [⟨"threadId", false⟩, ⟨"turnId", false⟩, ⟨"itemId", false⟩,
    ⟨"reason", false⟩] with
  | [threadId, turnId, itemId, reason] =>
    return ⟨← string threadId, ← string turnId, ← string itemId, ← optional string reason⟩
  | _ => none

end FileChangeRequestApprovalParams

inductive ServerNotification where
  | itemStarted (item : ItemNotification)
  | itemCompleted (item : ItemNotification)
  /-- Another notification, typed or not. -/
  | other (method : String) (params : Option Json)

/-- The notification methods with a typed decode, but those of items. -/
def otherTypedNotifications : List String :=
  ["turn/started", "turn/completed", "item/agentMessage/delta", "account/login/completed",
    "account/updated", "account/rateLimits/updated", "thread/tokenUsage/updated", "error"]

namespace ServerNotification

def decode (typed : String → Json → Bool) (method : String) (params : Option Json) :
    Option ServerNotification :=
  match method with
  | "item/started" => (ItemNotification.decode (params.getD .null)).map .itemStarted
  | "item/completed" => (ItemNotification.decode (params.getD .null)).map .itemCompleted
  | _ =>
    if method ∈ otherTypedNotifications ∧ typed method (params.getD .null) = false then none
    else some (.other method params)

end ServerNotification

inductive ServerRequestKind where
  | dynamicToolCall (call : DynamicToolCallParams)
  | commandExecutionApproval (params : CommandExecutionRequestApprovalParams)
  | fileChangeApproval (params : FileChangeRequestApprovalParams)
  | unknown (method : String) (params : Option Json)

namespace ServerRequestKind

def decode (method : String) (params : Option Json) : Option ServerRequestKind :=
  let value := params.getD .null
  match method with
  | "item/tool/call" => (DynamicToolCallParams.decode value).map .dynamicToolCall
  | "item/commandExecution/requestApproval" =>
    (CommandExecutionRequestApprovalParams.decode value).map .commandExecutionApproval
  | "item/fileChange/requestApproval" =>
    (FileChangeRequestApprovalParams.decode value).map .fileChangeApproval
  | _ => some (.unknown method params)

end ServerRequestKind

/-- A message from the server that is not a response to one of our requests. -/
inductive Incoming where
  | notification (notification : ServerNotification)
  | request (id : RequestId) (kind : ServerRequestKind)
  /-- A server request whose parameters did not decode. -/
  | malformedRequest (id : RequestId) (method : String)
  /-- A line that could not be decoded. -/
  | malformed (line : String)

/-- One line of the app server's output, by how its bytes read: as white space, as text, not as
UTF-8, or as a line that goes on past the bound. -/
inductive Line where
  | blank
  | text (line : String)
  /-- Not UTF-8; what it reads as with its invalid parts replaced. -/
  | garbled (lossy : String)
  /-- Past the bound; what all of it reads as, and what its first 256 bytes do. -/
  | overlong (whole head : String)

namespace Incoming

variable (parse : String → Option Json) (typed : String → Json → Bool)

def dispatch (line : String) : Option Incoming :=
  match RpcMessage.decode (parse line) with
  | some (.response _ _) | some (.error (some _) _) => none
  | some (.error none _) => some (.malformed line)
  | some (.notification method params) => match ServerNotification.decode typed method params with
    | some decoded => some (.notification decoded)
    | none => some (.malformed line)
  | some (.request id method params) => match ServerRequestKind.decode method params with
    | some kind => some (.request id kind)
    | none => some (.malformedRequest id method)
  | none => some (.malformed line)

/-- What the read loop makes of a line. An overlong line also ends the connection. -/
def ofLine : Line → Option Incoming
  | .blank => none
  | .text line => dispatch parse typed line
  | .garbled lossy => some (.malformed lossy)
  | .overlong _ head => some (.malformed head)

end Incoming

end Bokkie

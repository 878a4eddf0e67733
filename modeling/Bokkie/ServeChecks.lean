import Mathlib.Data.List.Sort
import Bokkie.Guard

/-!
# The checks before a thread is served

What a user's app server must report: its effective configuration, its models, and each thread's
answer to `thread/start` or `thread/resume`. A check gives the reason it refuses for, if it does.
-/

namespace Bokkie

namespace Json

/-- How a character of a string is written. -/
def escape (c : Char) : List Char :=
  match c with
  | '"' => ['\\', '"']
  | '\\' => ['\\', '\\']
  | '\n' => ['\\', 'n']
  | '\r' => ['\\', 'r']
  | '\t' => ['\\', 't']
  | c =>
    if c.val = 8 then ['\\', 'b']
    else if c.val = 12 then ['\\', 'f']
    else if c.val < 16 then ['\\', 'u', '0', '0', '0', Nat.digitChar c.toNat]
    else if c.val < 32 then ['\\', 'u', '0', '0', '1', Nat.digitChar (c.toNat - 16)]
    else [c]

def quote (s : String) : String := "\"" ++ String.ofList (s.toList.flatMap escape) ++ "\""

/-- The members of an object, each name once with its last value, in the order of the names. -/
def settle (members : List (String × String)) : List (String × String) :=
  (members.reverse.pwFilter fun a b => a.1 ≠ b.1).insertionSort fun a b => a.1 ≤ b.1

mutual

/-- The document as it is shown in a message. -/
def render : Json → String
  | .null | .beyond => "null"
  | .bool b => if b then "true" else "false"
  | .int n => toString n
  | .real digits => digits
  | .str s => quote s
  | .arr items => "[" ++ String.intercalate "," (renderItems items) ++ "]"
  | .obj members => "\x7b" ++ String.intercalate ","
      ((settle (renderMembers members)).map fun m => quote m.1 ++ ":" ++ m.2) ++ "\x7d"

def renderItems : List Json → List String
  | [] => []
  | item :: items => item.render :: renderItems items

def renderMembers : List (String × Json) → List (String × String)
  | [] => []
  | (name, value) :: members => (name, value.render) :: renderMembers members

end

/-- The value at a path, `null` where there is none. -/
def at' (j : Json) (path : List String) : Json :=
  path.foldl (fun node key => (node.get key).getD .null) j

def isNull : Json → Bool
  | .null => true
  | _ => false

def isFalse : Json → Bool
  | .bool false => true
  | _ => false

def isZero : Json → Bool
  | .int 0 => true
  | _ => false

def asObject : Json → Option (List (String × Json))
  | .obj members => some members
  | _ => none

end Json

/-- What a user's app server must report. -/
structure Expected where
  dataDir : String
  catalogPath : String
  catalogSlugs : List String
  workspace : String
deriving DecidableEq

structure ActivePermissionProfile where
  id : String
  extends' : Option String
deriving DecidableEq

/-- An answer to `thread/start` or `thread/resume`. -/
structure ThreadSession where
  threadId : String
  model : String
  cwd : String
  approvalPolicy : Json
  activePermissionProfile : Option ActivePermissionProfile

namespace ServeChecks

/-- The permission profile every thread must run under. -/
def profile : String := "bokkie"

def credentialsStore : String := "file"

/-- Features that must be off. -/
def disabledFeatures : List String := [
  "shell_tool", "unified_exec", "shell_snapshot", "view_image", "image_generation", "multi_agent",
  "multi_agent_v2", "goals", "apps", "plugins", "remote_plugin", "browser_use",
  "browser_use_external", "in_app_browser", "computer_use", "code_mode_host", "sleep_tool",
  "skill_search", "tool_suggest", "hooks", "memories", "realtime_conversation",
  "use_agent_identity", "standalone_web_search"]

/-- The first of some requirements that is not met refuses, for its reason. -/
def require (ok : Bool) (reason : String) : Except Refusal Unit :=
  if ok then .ok () else .error reason

/-- A string is shown as Rust's `Debug` shows one without characters to escape. -/
def shown (s : String) : String := "\"" ++ s ++ "\""

/-- `check_config`: the effective configuration from `config/read`. -/
def checkConfig (config : Json) (expected : Expected) : Except Refusal Unit := do
  let text := fun path => (config.at' path).asStr
  let value := fun path => (config.at' path).render
  require (text ["default_permissions"] = some profile)
    ("default_permissions is " ++ value ["default_permissions"] ++ ", not " ++ shown profile)
  require (text ["approval_policy"] = some "never")
    ("approval_policy is " ++ value ["approval_policy"])
  require (text ["web_search"] = some "disabled") ("web_search is " ++ value ["web_search"])
  require (text ["model_catalog_json"] = some expected.catalogPath)
    ("model_catalog_json is " ++ value ["model_catalog_json"] ++ ", not Bokkie's catalog")
  require (config.at' ["project_doc_max_bytes"]).isZero
    ("project_doc_max_bytes is " ++ value ["project_doc_max_bytes"] ++
      ", so AGENTS.md files would be read")
  require (text ["cli_auth_credentials_store"] = some credentialsStore)
    ("cli_auth_credentials_store is " ++ value ["cli_auth_credentials_store"] ++ ", not " ++
      shown credentialsStore)
  -- A selected or defined config profile could override any of this.
  require (config.at' ["profile"]).isNull "a config profile is selected"
  let profiles := config.at' ["profiles"]
  require (profiles.isNull || profiles.asObject.any List.isEmpty) "config profiles are defined"
  for feature in disabledFeatures do
    require (config.at' ["features", feature]).isFalse
      ("feature " ++ feature ++ " is " ++ value ["features", feature] ++ ", not false")
  let mcp := config.at' ["mcp_servers"]
  require (mcp.isNull || mcp.asObject.any List.isEmpty) "MCP servers are configured"
  let permissions := config.at' ["permissions", profile]
  match (permissions.at' ["filesystem"]).asObject with
  | none => throw ("permission profile " ++ profile ++ " has no filesystem")
  | some filesystem =>
    let wanted := [(":minimal", "read"), (expected.dataDir, "deny"), (":workspace_roots", "write")]
    for (path, access) in wanted do
      require ((Json.lookup filesystem path).bind Json.asStr = some access)
        ("profile " ++ profile ++ " does not give " ++ path ++ " " ++ access ++ " access")
    -- Nothing else may be granted. Unset options read as null.
    for path in (filesystem.map Prod.fst).insertionSort (· ≤ ·) do
      require (((Json.lookup filesystem path).all Json.isNull) || wanted.any (·.1 = path))
        ("profile " ++ profile ++ " also grants " ++ path)
  require (permissions.at' ["network", "enabled"]).isFalse
    ("profile " ++ profile ++ " enables the network")
  require (permissions.at' ["extends"]).isNull
    ("profile " ++ profile ++ " extends another profile")

/-- `check_models`: every model comes from Bokkie's catalog. -/
def checkModels (models : List String) (expected : Expected) : Except Refusal Unit := do
  require (!models.isEmpty) "model/list is empty"
  for model in models do
    require (expected.catalogSlugs.contains model)
      ("model " ++ model ++ " is not in Bokkie's catalog")

/-- `check_thread`: an answer to `thread/start` or `thread/resume`. -/
def checkThread (response : ThreadSession) (expected : Expected) : Except Refusal Unit := do
  let active := response.activePermissionProfile
  let shownId := match active with
    | some p => "Some(" ++ shown p.id ++ ")"
    | none => "None"
  require (active.any (·.id = profile))
    ("thread " ++ response.threadId ++ " runs with permission profile " ++ shownId ++ ", not " ++
      shown profile)
  require (active.any (·.extends'.isNone))
    ("thread " ++ response.threadId ++ " runs with an extended profile")
  require (response.approvalPolicy.asStr = some "never")
    ("thread " ++ response.threadId ++ " has approval policy " ++ response.approvalPolicy.render)
  require (expected.catalogSlugs.contains response.model)
    ("thread " ++ response.threadId ++ " uses model " ++ response.model ++
      ", which is not in Bokkie's catalog")
  require (response.cwd = expected.workspace)
    ("thread " ++ response.threadId ++ " runs outside the user's workspace")

end ServeChecks

end Bokkie

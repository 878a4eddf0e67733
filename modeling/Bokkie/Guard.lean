import Mathlib.Data.Finset.Insert
import Bokkie.CodexProtocol

/-!
# Grants, tools and the check of an item

The grants a Bot may hold, the tools each brings, and the check that every item of a running turn
must pass against the grants its thread started with.
-/

namespace Bokkie

inductive Grant where
  | notes
  | seen
  | notify
  | webSearch
  | webFetch
deriving DecidableEq, Repr

abbrev GrantSet := Finset Grant

/-- One of Bokkie's tools: the name the model calls it by, and the grant that brings it. -/
structure Tool where
  name : String
  grant : Grant
deriving DecidableEq

namespace Tool

/-- Every tool, by grant. -/
def all : List Tool := [
  ⟨"notes_read", .notes⟩,
  ⟨"notes_replace", .notes⟩,
  ⟨"notes_append", .notes⟩,
  ⟨"seen_check", .seen⟩,
  ⟨"seen_mark", .seen⟩,
  ⟨"notify", .notify⟩,
  ⟨"web_fetch", .webFetch⟩]

/-- The tool a call names. Bokkie's tools have no namespace. -/
def find (name : String) (namespaceName : Option String) : Option Tool :=
  if namespaceName.isSome then none else all.find? fun tool => tool.name = name

/-- Whether a thread started with these grants offers this tool. -/
def allows (grants : GrantSet) (name : String) (namespaceName : Option String) : Bool :=
  (find name namespaceName).any fun tool => tool.grant ∈ grants

/-- A called tool's name for logs, with its namespace, bounded. -/
def displayName (tool : String) (namespaceName : Option String) : String :=
  let name := match namespaceName with
    | some space => space ++ "/" ++ tool
    | none => tool
  String.ofList (name.toList.take 64)

/-- What the model is told when a call cannot be served. -/
def notAvailable : String := "This tool is not available."

end Tool

/-- Why the gateway refuses to serve an app server or thread. -/
abbrev Refusal := String

/-- `check_item`: the reason an item may not appear on a thread started with these grants. -/
def checkItem (item : ThreadItem) (grants : GrantSet) : Option Refusal :=
  match item with
  | .userMessage _ _ | .agentMessage _ _ | .reasoning _ | .plan _ _ | .contextCompaction _ => none
  | .dynamicToolCall _ tool namespaceName _ _ _ =>
    if Tool.allows grants tool namespaceName then none
    else some ("the model called tool " ++ String.ofList (tool.toList.take 64) ++
      ", which its thread was not granted")
  | .webSearch _ _ _ _ =>
    if .webSearch ∈ grants then none
    else some "the model searched the web on a thread without web.search"
  | .commandExecution _ command _ _ _ _ =>
    some ("the model ran a command (" ++ toString command.utf8ByteSize ++
      " characters) while commands are disabled")
  | .mcpToolCall _ server tool _ _ => some ("the model called MCP tool " ++ server ++ "/" ++ tool)
  | .unknown => some "the model used a Codex tool, and every Codex tool is off"

end Bokkie

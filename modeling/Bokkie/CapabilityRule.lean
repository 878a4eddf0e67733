import Bokkie.Watch

/-!
# The capability rule

An approval request, an item that is not allowed or cannot be decoded, and a tool call that was not
granted must taint Codex and stop the app server. Which lines the watcher does so for.
-/

namespace Bokkie

variable {parse : String → Option Json} {typed : String → Json → Bool} {r : Runtime}
  {line : Line} {j : Json}

/-- The document that all of a line's bytes read as. -/
def Line.document (parse : String → Option Json) : Line → Option Json
  | .blank => none
  | .text line => parse line
  | .garbled lossy => parse lossy
  | .overlong whole _ => parse whole

namespace CapabilityRule

def field (name : String) (j : Json) : Option Json := j.field rawFields name

def method (j : Json) : Option String := (field "method" j).bind Json.asStr

def present (name : String) (j : Json) : Prop :=
  field name j ≠ none ∧ field name j ≠ some .null

def params (j : Json) : Json := (field "params" j).getD .null

/-- A request: it has an id, and is not an error response. -/
def IsRequest (j : Json) : Prop := present "id" j ∧ ¬ present "error" j

/-- An approval request, known or not, whatever its parameters. -/
def Approval (j : Json) : Prop :=
  IsRequest j ∧ ∃ m, method j = some m ∧ Runtime.namesApproval m = true

def itemMethods : List String := ["item/started", "item/completed"]

/-- An item that the grants of its thread do not allow, or that cannot be decoded. -/
def BadItem (r : Runtime) (j : Json) : Prop :=
  ¬ present "error" j ∧ (∃ m ∈ itemMethods, method j = some m) ∧
    ∀ n, ItemNotification.decode (params j) = some n →
      checkItem n.item ((r.threadGrants n.threadId).getD ∅) ≠ none

def callField (name : String) (j : Json) : Option String :=
  ((params j).field DynamicToolCallParams.fieldNames name).bind Json.asStr

/-- A call of a tool that its thread, served here, was not granted. -/
def UngrantedCall (r : Runtime) (j : Json) : Prop :=
  IsRequest j ∧ method j = some "item/tool/call" ∧ ∃ threadId grants tool,
    callField "threadId" j = some threadId ∧ r.threadGrants threadId = some grants ∧
    callField "tool" j = some tool ∧ Tool.allows grants tool (callField "namespace" j) = false

/-- The line is one that the capability rule is about. -/
def Breaks (parse : String → Option Json) (r : Runtime) (line : Line) : Prop :=
  ∃ j, line.document parse = some j ∧ (Approval j ∨ BadItem r j ∨ UngrantedCall r j)

/-- Codex is tainted for the whole gateway, and the app server is stopped. -/
def Closed (r : Runtime) : Prop :=
  r.latch.tainted.isSome = true ∧ r.alive = false ∧ r.server = false

/-- Nothing was answered with an approval since. -/
def Unapproved (r r' : Runtime) : Prop :=
  ∃ new, r'.answers = r.answers ++ new ∧ ∀ answer ∈ new,
    answer.2 ≠ .approval .accept ∧ answer.2 ≠ .approval .acceptForSession

/-- The text reads as an object that names an item notification. -/
def NamesItem (document : Option Json) : Prop :=
  ∃ m ∈ itemMethods, Runtime.malformedMethod document = some m

def knownApprovals : List String :=
  ["item/commandExecution/requestApproval", "item/fileChange/requestApproval"]

/-- The lines that a branch of the watcher reads as what they are: known approvals and those that
name a thread, tool calls and items whose parameters decode, and what else reads as an object that
names an item notification. -/
def Caught (parse : String → Option Json) (line : Line) : Prop :=
  match line with
  | .blank => False
  | .text text => match RpcMessage.decode (parse text) with
    | some (.request _ m params) =>
      m ∈ knownApprovals ∨ (Runtime.namesApproval m = true ∧ Runtime.approvalThread params ≠ none) ∨
        (m = "item/tool/call" ∧ DynamicToolCallParams.decode (params.getD .null) ≠ none)
    | some (.notification _ params) =>
      ItemNotification.decode (params.getD .null) ≠ none ∨ NamesItem (parse text)
    | _ => NamesItem (parse text)
  | .garbled lossy => NamesItem (parse lossy)
  | .overlong _ head => NamesItem (parse head)

section Watcher

variable {refusal : Refusal} {threadId : Option String} {id : RequestId} {answer : Answer}
  {event : RuntimeEventKind}

theorem closed_send : Closed (r.send event) ↔ Closed r := by
  unfold Runtime.send
  split <;> rfl

theorem closed_respond : Closed (r.respond id answer) ↔ Closed r := Iff.rfl

/-- A violation taints Codex and stops the app server, whoever's it is and whatever the thread. -/
theorem closed_violation : Closed (r.violation threadId refusal) := ⟨rfl, rfl, rfl⟩

theorem closed_watchItem {n : ItemNotification} {completed : Bool} :
    Closed (r.watchItem n completed) ↔
      checkItem n.item ((r.threadGrants n.threadId).getD ∅) ≠ none ∨ Closed r := by
  unfold Runtime.watchItem
  dsimp only
  cases checkItem n.item ((r.threadGrants n.threadId).getD ∅) with
  | none =>
      split
      · simpa using closed_send
      · simp
  | some refusal =>
      split
      · simpa using closed_send.mpr closed_violation
      · simpa using closed_violation

theorem closed_watchToolCall {call : DynamicToolCallParams} {grants : GrantSet}
    (hserved : r.threadGrants call.threadId = some grants)
    (hrefused : Tool.allows grants call.tool call.namespaceName = false) :
    Closed (r.watchToolCall id call) := by
  unfold Runtime.watchToolCall
  rw [hserved]
  simp [hrefused, closed_respond, closed_violation]

/-- An unknown request stops the app server only if it is an approval that names a thread. -/
theorem closed_watchUnknown {m : String} {ps : Option Json} :
    Closed (r.watchRequest id (.unknown m ps)) ↔
      (Runtime.namesApproval m = true ∧ Runtime.approvalThread ps ≠ none) ∨ Closed r := by
  unfold Runtime.watchRequest
  dsimp only
  rw [closed_respond]
  by_cases hm : Runtime.namesApproval m = true
  · rw [if_pos hm]
    cases hthread : Runtime.approvalThread ps with
    | none => simp
    | some thread => simpa [hm] using closed_violation
  · simp [hm]

theorem closed_malformedRequest {m : String} :
    Closed (r.watch parse (.malformedRequest id m)) ↔
      Runtime.namesApproval m = true ∨ Closed r := by
  unfold Runtime.watch
  dsimp only
  split
  · next hm => simpa [hm] using closed_violation
  · next hm =>
      rw [closed_respond]
      simp [hm]

theorem closed_malformed {text : String} :
    Closed (r.watch parse (.malformed text)) ↔ NamesItem (parse text) ∨ Closed r := by
  unfold Runtime.watch
  dsimp only
  split
  · next h => exact iff_of_true closed_violation (.inl ⟨_, by simp [itemMethods], h⟩)
  · next h => exact iff_of_true closed_violation (.inl ⟨_, by simp [itemMethods], h⟩)
  · next hstarted hcompleted =>
      refine ⟨.inr, fun h => h.resolve_left ?_⟩
      rintro ⟨m, hm, hmethod⟩
      simp only [itemMethods, List.mem_cons, List.not_mem_nil, or_false] at hm
      rcases hm with rfl | rfl
      · exact hstarted hmethod
      · exact hcompleted hmethod

end Watcher

section Answers

variable {r' : Runtime} {refusal : Refusal} {threadId : Option String} {id : RequestId}
  {answer : Answer} {event : RuntimeEventKind}

theorem answers_send : (r.send event).answers = r.answers := by
  unfold Runtime.send
  split <;> rfl

theorem answers_violation : (r.violation threadId refusal).answers = r.answers := by
  unfold Runtime.violation
  dsimp only
  split
  · exact answers_send
  · rfl

theorem unapproved_of_eq (h : r'.answers = r.answers) : Unapproved r r' :=
  ⟨[], by rw [h, List.append_nil], by simp⟩

/-- Whatever the watcher does before it answers, the answer is the only one. -/
theorem unapproved_respond (h : r'.answers = r.answers) (haccept : answer ≠ .approval .accept)
    (hsession : answer ≠ .approval .acceptForSession) : Unapproved r (r'.respond id answer) :=
  ⟨[(id, answer)], congrArg (· ++ [(id, answer)]) h, by simpa using ⟨haccept, hsession⟩⟩

theorem unapproved_notification (n : ServerNotification) :
    Unapproved r (r.watchNotification n) := by
  have hitem : ∀ (item : ItemNotification) completed,
      (r.watchItem item completed).answers = r.answers := by
    intro item completed
    unfold Runtime.watchItem
    dsimp only
    split <;> split
    · exact answers_send.trans answers_violation
    · exact answers_send
    · exact answers_violation
    · rfl
  apply unapproved_of_eq
  refine answers_send.trans ?_
  cases n with
  | itemStarted item => exact hitem item false
  | itemCompleted item => exact hitem item true
  | other method params => rfl

theorem unapproved_request (kind : ServerRequestKind) : Unapproved r (r.watchRequest id kind) := by
  cases kind with
  | dynamicToolCall call =>
      unfold Runtime.watchRequest Runtime.watchToolCall
      dsimp only
      split
      · split
        · exact unapproved_of_eq answers_send
        · exact unapproved_respond answers_violation (by simp) (by simp)
      · exact unapproved_respond rfl (by simp) (by simp)
  | commandExecutionApproval params =>
      exact unapproved_respond answers_violation (by simp) (by simp)
  | fileChangeApproval params =>
      exact unapproved_respond answers_violation (by simp) (by simp)
  | unknown method params =>
      refine unapproved_respond ?_ (by simp) (by simp)
      split
      · split
        · exact answers_violation
        · rfl
      · rfl

/-- The watcher never answers with an approval, whatever arrives. -/
theorem unapproved_watch (incoming : Incoming) : Unapproved r (r.watch parse incoming) := by
  cases incoming with
  | notification n => exact unapproved_notification n
  | request id kind => exact unapproved_request kind
  | malformedRequest id method =>
      unfold Runtime.watch
      dsimp only
      obtain ⟨new, hnew, hall⟩ : Unapproved r (r.respond id (.error (.methodNotFound method))) :=
        unapproved_respond rfl (by simp) (by simp)
      split
      · exact ⟨new, answers_violation.trans hnew, hall⟩
      · exact ⟨new, hnew, hall⟩
  | malformed text =>
      unfold Runtime.watch
      dsimp only
      split
      · exact unapproved_of_eq answers_violation
      · exact unapproved_of_eq answers_violation
      · exact unapproved_of_eq rfl

theorem unapproved_handle : Unapproved r (r.handle parse typed line) := by
  unfold Runtime.handle
  split
  · exact unapproved_watch _
  · exact unapproved_of_eq rfl

end Answers

end CapabilityRule

end Bokkie

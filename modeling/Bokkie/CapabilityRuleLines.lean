import Bokkie.CapabilityRule

/-!
# Which lines the capability rule holds for

What a line says of itself against the branch of the watcher that handles it.
-/

namespace Bokkie

variable {parse : String → Option Json} {typed : String → Json → Bool} {r : Runtime}
  {line : Line} {j : Json}

namespace CapabilityRule

section Reading

variable {raw : RpcMessage.Raw}

/-- How a decoded line's fields stand in its document. -/
theorem present_of_optional {τ : Type} {read : Option Json → Option τ} {name : String}
    {found : Option τ} (h : Json.optional read (field name j) = some found) :
    present name j ↔ found ≠ none := by
  unfold present
  unfold Json.optional at h
  split at h
  · next hf => simp [hf, ← Option.some.inj h]
  · next hf => simp [hf, ← Option.some.inj h]
  · next v hne hf =>
      obtain ⟨x, -, rfl⟩ := Option.map_eq_some_iff.mp h
      simp only [hf, ne_eq, reduceCtorEq, not_false_eq_true, true_and, Option.some.injEq, iff_true]
      exact hne

theorem method_of_optional {found : Option String}
    (h : Json.optional Json.string (field "method" j) = some found) : method j = found := by
  unfold method
  unfold Json.optional at h
  split at h
  · next hf =>
      rw [hf, ← Option.some.inj h]
      rfl
  · next hf =>
      rw [hf, ← Option.some.inj h]
      rfl
  · next v hne hf =>
      obtain ⟨x, hx, rfl⟩ := Option.map_eq_some_iff.mp h
      cases v with
      | str s =>
          rw [hf, ← Option.some.inj hx]
          rfl
      | _ => cases hx

theorem params_of_optional {found : Option Json}
    (h : Json.optional Json.value (field "params" j) = some found) :
    params j = found.getD .null := by
  unfold params
  unfold Json.optional at h
  split at h
  · next hf =>
      rw [hf, ← Option.some.inj h]
  · next hf =>
      rw [hf, ← Option.some.inj h]
      rfl
  · next v hne hf =>
      obtain ⟨x, hx, rfl⟩ := Option.map_eq_some_iff.mp h
      simp only [Json.value] at hx
      split at hx
      · rw [hf, ← Option.some.inj hx]
      · cases hx

/-- What a line that decodes is, by its document. -/
theorem decode_spec {message : RpcMessage} (h : RpcMessage.decode (some j) = some message) :
    match message with
    | .request _ m ps => IsRequest j ∧ method j = some m ∧ params j = ps.getD .null
    | .notification m ps =>
      ¬ present "id" j ∧ ¬ present "error" j ∧ method j = some m ∧ params j = ps.getD .null
    | .response _ _ => method j = none
    | .error _ _ => present "error" j := by
  obtain ⟨raw, hraw, h⟩ := Option.bind_eq_some_iff.mp h
  obtain ⟨hid, hmethod, hparams, hfailure⟩ := RpcMessage.Raw.read_eq hraw
  have hid := present_of_optional hid
  have hmethod := method_of_optional hmethod
  have hparams := params_of_optional hparams
  have hfailure := present_of_optional hfailure
  rcases raw with ⟨id, m, ps, result, failure⟩
  dsimp only at *
  rcases failure with _ | failure
  · rcases id with _ | id <;> rcases m with _ | m
    · cases h
    · obtain rfl := Option.some.inj h
      exact ⟨by simp [hid], by simp [hfailure], hmethod, hparams⟩
    · obtain rfl := Option.some.inj h
      exact hmethod
    · obtain rfl := Option.some.inj h
      exact ⟨⟨by simp [hid], by simp [hfailure]⟩, hmethod, hparams⟩
  · obtain rfl := Option.some.inj h
    simpa using hfailure

/-- A tool call that decodes is the one its fields name. -/
theorem call_fields {call : DynamicToolCallParams}
    (h : DynamicToolCallParams.decode (params j) = some call) :
    callField "threadId" j = some call.threadId ∧ callField "tool" j = some call.tool ∧
      callField "namespace" j = call.namespaceName := by
  obtain ⟨found, hfields, h⟩ := Option.bind_eq_some_iff.mp h
  split at h
  swap
  · cases h
  next threadId turnId callId tool space arguments =>
  have hfound := Json.fields_eq (by decide) hfields
  simp only [DynamicToolCallParams.fieldNames, List.map_cons, List.map_nil, List.cons.injEq,
    and_true] at hfound
  obtain ⟨rfl, rfl, rfl, rfl, rfl, rfl⟩ := hfound
  simp only [Option.bind_eq_bind, Option.bind_eq_some_iff] at h
  obtain ⟨threadId, hthread, turnId, -, callId, -, tool, htool, space, hspace, arguments, -, h⟩ := h
  obtain rfl := Option.some.inj h
  have hstring : ∀ {found : Option Json} {s : String}, Json.string found = some s →
      found.bind Json.asStr = some s := by
    intro found s hs
    unfold Json.string at hs
    split at hs
    · rw [← Option.some.inj hs]
      rfl
    · cases hs
  refine ⟨hstring hthread, hstring htool, ?_⟩
  unfold callField
  unfold Json.optional at hspace
  split at hspace
  · next hf =>
      rw [← Option.some.inj hspace]
      exact congrArg (·.bind Json.asStr) hf
  · next hf =>
      rw [← Option.some.inj hspace]
      exact congrArg (·.bind Json.asStr) hf
  · next hf =>
      obtain ⟨s, hs, rfl⟩ := Option.map_eq_some_iff.mp hspace
      exact (congrArg (·.bind Json.asStr) hf).trans (hstring hs)

end Reading

section Rule

theorem not_breaks_of_method (hmethod : method j = none) :
    ¬ (Approval j ∨ BadItem r j ∨ UngrantedCall r j) := by
  rintro (⟨-, m, hm, -⟩ | ⟨-, ⟨m, -, hm⟩, -⟩ | ⟨-, hm, -⟩)
  all_goals
    rw [hmethod] at hm
    cases hm

theorem not_breaks_of_error (herror : present "error" j) :
    ¬ (Approval j ∨ BadItem r j ∨ UngrantedCall r j) := by
  rintro (⟨hrequest, -⟩ | ⟨hnone, -⟩ | ⟨hrequest, -⟩)
  · exact hrequest.2 herror
  · exact hnone herror
  · exact hrequest.2 herror

theorem namesApproval_known {m : String} (h : m ∈ knownApprovals) :
    Runtime.namesApproval m = true := by
  simp only [knownApprovals, List.mem_cons, List.not_mem_nil, or_false] at h
  rcases h with rfl | rfl <;> decide

/-- What a request's branch does for a request that breaks the rule. -/
theorem closed_request (parse : String → Option Json) (id : RequestId) {m : String}
    {ps : Option Json}
    (hmethod : method j = some m) (hparams : params j = ps.getD .null)
    (hbreaks : Approval j ∨ BadItem r j ∨ UngrantedCall r j) :
    Closed (r.watch parse (match ServerRequestKind.decode m ps with
      | some kind => .request id kind
      | none => .malformedRequest id m)) ↔
    (m ∈ knownApprovals ∨ (Runtime.namesApproval m = true ∧ Runtime.approvalThread ps ≠ none) ∨
      (m = "item/tool/call" ∧ DynamicToolCallParams.decode (ps.getD .null) ≠ none)) ∨ Closed r := by
  by_cases hknown : m ∈ knownApprovals
  · refine iff_of_true ?_ (.inl (.inl hknown))
    have hnames := namesApproval_known hknown
    split
    · next kind hkind =>
        simp only [knownApprovals, List.mem_cons, List.not_mem_nil, or_false] at hknown
        rcases hknown with rfl | rfl <;>
          obtain ⟨params, -, rfl⟩ := Option.map_eq_some_iff.mp hkind <;> exact closed_violation
    · exact closed_malformedRequest.mpr (.inl hnames)
  by_cases hcall : m = "item/tool/call"
  · subst hcall
    have hnames : Runtime.namesApproval "item/tool/call" = false := by decide
    obtain ⟨-, -, threadId, grants, tool, hthread, hserved, htool, hrefused⟩ :
        UngrantedCall r j := by
      rcases hbreaks with ⟨-, m, hm, happroval⟩ | ⟨-, ⟨m, hm, hm'⟩, -⟩ | hcall
      · rw [hmethod] at hm
        rw [← Option.some.inj hm, hnames] at happroval
        cases happroval
      · rw [hmethod] at hm'
        rw [← Option.some.inj hm'] at hm
        simp [itemMethods] at hm
      · exact hcall
    cases hdecode : DynamicToolCallParams.decode (ps.getD .null) with
    | some call =>
        obtain ⟨hthread', htool', hspace'⟩ := call_fields (j := j) (hparams ▸ hdecode)
        obtain rfl := Option.some.inj (hthread.symm.trans hthread')
        obtain rfl := Option.some.inj (htool.symm.trans htool')
        rw [hspace'] at hrefused
        refine iff_of_true ?_ (.inl (.inr (.inr ⟨rfl, by simp⟩)))
        have hkind : ServerRequestKind.decode "item/tool/call" ps =
            some (.dynamicToolCall call) := by simp [ServerRequestKind.decode, hdecode]
        rw [hkind]
        exact closed_watchToolCall hserved hrefused
    | none =>
        have hkind : ServerRequestKind.decode "item/tool/call" ps = none := by
          simp [ServerRequestKind.decode, hdecode]
        rw [hkind, closed_malformedRequest]
        simp [hknown, hnames]
  have hkind : ServerRequestKind.decode m ps = some (.unknown m ps) := by
    simp only [knownApprovals, List.mem_cons, List.not_mem_nil, or_false, not_or] at hknown
    unfold ServerRequestKind.decode
    split
    · exact absurd rfl hcall
    · exact absurd rfl hknown.1
    · exact absurd rfl hknown.2
    · rfl
  rw [hkind]
  refine closed_watchUnknown.trans ?_
  simp [hknown, hcall]

/-- What a notification's branch does for a notification that breaks the rule. -/
theorem closed_notification (typed : String → Json → Bool) (text : String) {m : String}
    {ps : Option Json}
    (hid : ¬ present "id" j) (hmethod : method j = some m) (hparams : params j = ps.getD .null)
    (hbreaks : Approval j ∨ BadItem r j ∨ UngrantedCall r j) :
    Closed (r.watch parse (match ServerNotification.decode typed m ps with
      | some n => .notification n
      | none => .malformed text)) ↔
    (ItemNotification.decode (ps.getD .null) ≠ none ∨ NamesItem (parse text)) ∨ Closed r := by
  obtain ⟨-, ⟨m', hitem, hm'⟩, hbad⟩ : BadItem r j := by
    rcases hbreaks with ⟨hrequest, -⟩ | hbad | ⟨hrequest, -⟩
    · exact absurd hrequest.1 hid
    · exact hbad
    · exact absurd hrequest.1 hid
  obtain rfl := Option.some.inj (hmethod.symm.trans hm')
  simp only [itemMethods, List.mem_cons, List.not_mem_nil, or_false] at hitem
  cases hdecode : ItemNotification.decode (ps.getD .null) with
  | some n =>
      refine iff_of_true ?_ (.inl (.inl (by simp)))
      have hrefused := hbad n (hparams ▸ hdecode)
      have hwatched : ∀ completed, Closed (r.watchItem n completed) := fun completed =>
        closed_watchItem.mpr (.inl hrefused)
      rcases hitem with rfl | rfl
      · simp only [ServerNotification.decode, hdecode, Option.map_some]
        exact closed_send.mpr (hwatched false)
      · simp only [ServerNotification.decode, hdecode, Option.map_some]
        exact closed_send.mpr (hwatched true)
  | none =>
      have hnone : ServerNotification.decode typed m ps = none := by
        rcases hitem with rfl | rfl <;> simp [ServerNotification.decode, hdecode]
      rw [hnone]
      exact closed_malformed.trans (by simp)

/-- A line that breaks the rule stops the app server exactly if a branch reads it as what it is. -/
theorem closed_handle (hbreaks : Breaks parse r line) :
    Closed (r.handle parse typed line) ↔ Caught parse line ∨ Closed r := by
  obtain ⟨j, hdocument, hbreaks⟩ := hbreaks
  cases line with
  | blank => cases hdocument
  | garbled lossy => exact closed_malformed
  | overlong whole head => exact closed_malformed
  | text text =>
      change parse text = some j at hdocument
      unfold Runtime.handle Incoming.ofLine Incoming.dispatch Caught
      dsimp only
      rw [hdocument]
      cases hdecode : RpcMessage.decode (some j) with
      | none =>
          dsimp only
          rw [← hdocument]
          exact closed_malformed
      | some message =>
          have hspec := decode_spec hdecode
          cases message with
          | request id m ps =>
              obtain ⟨-, hmethod, hparams⟩ := hspec
              dsimp only
              rw [← closed_request parse id hmethod hparams hbreaks]
              cases ServerRequestKind.decode m ps <;> rfl
          | notification m ps =>
              obtain ⟨hid, -, hmethod, hparams⟩ := hspec
              dsimp only
              rw [← hdocument, ← closed_notification typed text hid hmethod hparams hbreaks]
              cases ServerNotification.decode typed m ps <;> rfl
          | response id result => exact absurd hbreaks (not_breaks_of_method hspec)
          | error id failure => exact absurd hbreaks (not_breaks_of_error hspec)

/-- The capability rule fails closed for a line exactly if the line does not break it, or a branch
reads it as what it is, or Codex is tainted and the app server stopped already. -/
theorem failsClosed_iff :
    (Breaks parse r line → Closed (r.handle parse typed line) ∧
      Unapproved r (r.handle parse typed line)) ↔
    (Breaks parse r line → Caught parse line ∨ Closed r) := by
  constructor
  · intro h hbreaks
    exact (closed_handle hbreaks).mp (h hbreaks).1
  · intro h hbreaks
    exact ⟨(closed_handle hbreaks).mpr (h hbreaks), unapproved_handle⟩

/-- An approval request of a method Bokkie does not know, which names no thread. -/
def permissionsApproval : Json :=
  .obj [("id", .int 7), ("method", .str "item/permissions/requestApproval"),
    ("params", .obj [("turnId", .str "turn-1")])]

def newRuntime (user : ℕ) : Runtime := ⟨.user user, ⟨[], none⟩, [], true, true, [], []⟩

theorem unknown_approval_open :
    ¬ ∀ parse typed r line, Breaks parse r line → Closed (r.handle parse typed line) ∧
      Unapproved r (r.handle parse typed line) := by
  intro h
  have hbreaks : Breaks (fun _ => some permissionsApproval) (newRuntime 1) (.text "approval") := by
    refine ⟨permissionsApproval, rfl, .inl ⟨⟨⟨?_, ?_⟩, fun herror => herror.1 rfl⟩,
      "item/permissions/requestApproval", rfl, by decide⟩⟩
    · exact Option.some_ne_none _
    · exact fun hnull => by cases hnull
  obtain ⟨⟨-, halive, -⟩, -⟩ := h _ (fun _ _ => true) _ _ hbreaks
  cases halive

end Rule

end CapabilityRule

end Bokkie

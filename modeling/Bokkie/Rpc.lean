import Bokkie.Json

/-!
# Wire-level messages of the app server

One line is a request, a notification, a response or an error. A line reads as a structure of five
optional fields; a field given twice, or of the wrong type, spoils it.
-/

namespace Bokkie

inductive RequestId where
  | integer (id : ℤ)
  | string (id : String)
deriving DecidableEq, Repr

/-- The error object of an error response. -/
structure RpcError where
  code : ℤ
  message : String
  data : Option Json

namespace RpcError

def methodNotFound (method : String) : RpcError :=
  ⟨-32601, "method not supported by this client: " ++ method, none⟩

end RpcError

inductive RpcMessage where
  | request (id : RequestId) (method : String) (params : Option Json)
  | notification (method : String) (params : Option Json)
  | response (id : RequestId) (result : Json)
  | error (id : Option RequestId) (error : RpcError)

/-- The fields of a line, in the order an array gives them. -/
def rawFields : List String := ["id", "method", "params", "result", "error"]

/-- The fields of a structure that is read as it is parsed: none may be given twice. -/
def Json.fieldsOnce (shape : List Json.Field) (j : Json) : Option (List (Option Json)) :=
  match j with
  | .obj members =>
    if shape.all fun field => (members.filter fun member => member.1 = field.name).length ≤ 1 then
      j.fields shape
    else none
  | _ => j.fields shape

namespace RpcMessage

def readId : Option Json → Option RequestId
  | some (.str id) => some (.string id)
  | j => (Json.integer 64 j).map .integer

def readError (j : Option Json) : Option RpcError := do
  match (← j).fieldsOnce [⟨"code", false⟩, ⟨"message", false⟩, ⟨"data", true⟩] with
  | some [code, message, data] =>
    return ⟨← Json.integer 64 code, ← Json.string message, ← Json.optional Json.value data⟩
  | _ => none

structure Raw where
  id : Option RequestId
  method : Option String
  params : Option Json
  result : Option Json
  error : Option RpcError

def Raw.read (j : Json) : Option Raw := do
  match j.fieldsOnce (rawFields.map (⟨·, false⟩)) with
  | some [id, method, params, result, failure] =>
    return {
      id := ← Json.optional readId id
      method := ← Json.optional Json.string method
      params := ← Json.optional Json.value params
      result := ← Json.optional Json.value result
      error := ← Json.optional readError failure }
  | _ => none

theorem fieldsOnce_eq {shape : List Json.Field} {j : Json} {found : List (Option Json)}
    (h : j.fieldsOnce shape = some found) : j.fields shape = some found := by
  unfold Json.fieldsOnce at h
  split at h
  · split at h
    · exact h
    · cases h
  · exact h

/-- What a line's raw message says of its fields. -/
theorem Raw.read_eq {j : Json} {raw : Raw} (h : Raw.read j = some raw) :
    Json.optional readId (j.field rawFields "id") = some raw.id ∧
    Json.optional Json.string (j.field rawFields "method") = some raw.method ∧
    Json.optional Json.value (j.field rawFields "params") = some raw.params ∧
    Json.optional readError (j.field rawFields "error") = some raw.error := by
  unfold Raw.read at h
  split at h
  · next id method params result failure hfields =>
      have hfound := Json.fields_eq (by decide) (fieldsOnce_eq hfields)
      simp only [rawFields, List.map_cons, List.map_nil, List.cons.injEq, and_true] at hfound
      obtain ⟨rfl, rfl, rfl, rfl, rfl⟩ := hfound
      simp only [Option.bind_eq_bind, Option.bind_eq_some_iff] at h
      obtain ⟨id, hid, method, hmethod, params, hparams, result, -, failure, hfailure, h⟩ := h
      obtain rfl := Option.some.inj h
      exact ⟨hid, hmethod, hparams, hfailure⟩
  · cases h

/-- Decodes one line of the stream, from the document that its text is. -/
def decode (document : Option Json) : Option RpcMessage := do
  let raw ← Raw.read (← document)
  match raw.id, raw.method, raw.error with
  | id, _, some failure => return .error id failure
  | some id, some method, none => return .request id method raw.params
  | none, some method, none => return .notification method raw.params
  | some id, none, none => return .response id (raw.result.getD .null)
  | none, none, none => none

end RpcMessage

end Bokkie

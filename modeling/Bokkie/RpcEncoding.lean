import Bokkie.Rpc

/-!
# Encoding of wire-level messages

A message is encoded as one object, with its members in the order of their names. Decoding gives the
message back unless an optional part of it is null, an integer is out of range, or a value is past
the reader's limits; and whatever was once decoded is encoded faithfully.
-/

namespace Bokkie

/-- The integers of 64 bits. -/
def Json.InRange (n : ℤ) : Prop := -2 ^ 63 ≤ n ∧ n < 2 ^ 63

instance (n : ℤ) : Decidable (Json.InRange n) := by
  unfold Json.InRange
  infer_instance

def RequestId.document : RequestId → Json
  | .integer id => .int id
  | .string id => .str id

def RpcError.document (e : RpcError) : Json :=
  .obj ([("code", .int e.code)] ++ e.data.toList.map ("data", ·) ++ [("message", .str e.message)])

namespace RpcMessage

/-- Encodes the message as one document. -/
def encode : RpcMessage → Json
  | .request id method params =>
    .obj ([("id", id.document), ("method", .str method)] ++ params.toList.map ("params", ·))
  | .notification method params =>
    .obj ([("method", .str method)] ++ params.toList.map ("params", ·))
  | .response id result => .obj [("id", id.document), ("result", result)]
  | .error id e => .obj [("error", e.document), ("id", id.elim .null RequestId.document)]

end RpcMessage

/-- An optional value that is not null, and within the reader's limits. -/
def Json.Carried (j : Option Json) : Prop := ∀ v ∈ j, v ≠ .null ∧ v.readable = true

/-- An id that the reader takes. -/
def RequestId.Fits : RequestId → Prop
  | .integer id => Json.InRange id
  | .string _ => True

def RpcError.Fits (e : RpcError) : Prop := Json.InRange e.code ∧ Json.Carried e.data

/-- Every part of the message is one that the reader takes, and an optional part is not null. -/
def RpcMessage.Fits : RpcMessage → Prop
  | .request id _ params => id.Fits ∧ Json.Carried params
  | .notification _ params => Json.Carried params
  | .response id result => id.Fits ∧ result.readable = true
  | .error id e => (∀ i ∈ id, i.Fits) ∧ e.Fits

namespace Json

variable {τ : Type} {read : Option Json → Option τ} {j found : Option Json} {v : Json} {n : ℤ}

end Json

section Parts

open Json RpcMessage

variable {id : RequestId} {e : RpcError} {found : Option Json}

end Parts

namespace RpcMessage

open Json

variable {m : RpcMessage} {id? : Option RequestId} {result : Json} {raw : Raw}
  {document : Option Json}

/-- What is known of the fields of a line that was read. -/
structure Raw.Known (raw : Raw) : Prop where
  id : ∀ i ∈ raw.id, i.Fits
  params : Carried raw.params
  result : Carried raw.result
  error : ∀ e ∈ raw.error, e.Fits

/-- The fields that a message gives, in the order of `rawFields`. -/
def fields : RpcMessage → List (Option Json)
  | .request id method params => [some id.document, some (.str method), params, none, none]
  | .notification method params => [none, some (.str method), params, none, none]
  | .response id result => [some id.document, none, none, some result, none]
  | .error id e => [some (id.elim .null RequestId.document), none, none, none, some e.document]

end RpcMessage

end Bokkie

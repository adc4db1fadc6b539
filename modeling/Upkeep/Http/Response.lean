/-
# Responses

A response is a status, header fields and a body. Two kinds of body occur: a line of text and a
JSON value, each announced by its content type.
-/

import Upkeep.Http.Headers
import Upkeep.Json.Value

namespace Upkeep.Http

/-- The statuses that this service answers with. -/
inductive Status where
  | ok
  | accepted
  | badRequest
  | unauthorized
  | notFound
  | methodNotAllowed
  | conflict
  | tooManyRequests
  | internalServerError
  | serviceUnavailable
deriving DecidableEq, Repr

/-- The number of a status. -/
def Status.code : Status → Nat
  | .ok => 200
  | .accepted => 202
  | .badRequest => 400
  | .unauthorized => 401
  | .notFound => 404
  | .methodNotAllowed => 405
  | .conflict => 409
  | .tooManyRequests => 429
  | .internalServerError => 500
  | .serviceUnavailable => 503

/-- A response. -/
structure Response where
  status : Status
  headers : Headers := []
  body : String := ""

namespace Response

/-- A response with a line of text. -/
def text (status : Status) (body : String) : Response :=
  ⟨status, [("content-type", Text.Utf8.encode "text/plain; charset=utf-8")], body⟩

/-- A response with a JSON value. -/
def json (status : Status) (value : Json.Value) : Response :=
  ⟨status, [("content-type", Text.Utf8.encode "application/json")], value.render⟩

/-- The response with a further header field. -/
def withHeader (response : Response) (name value : String) : Response :=
  { response with headers := response.headers ++ [(name, Text.Utf8.encode value)] }

end Response

end Upkeep.Http

/-
# Signatures

A caller signs the bytes of a request with a secret shared with this service. The signature is
sent in a header as the name of the digest and the digest in lowercase hexadecimal digits; each
digest has exactly one such text.
-/

import Upkeep.Digest.Hmac
import Upkeep.Http.Headers
import Upkeep.Text.Hex

namespace Upkeep

namespace Signature

/-- The header that carries the signature of a request. -/
def headerName : String := "x-cloud-update-signature"

/-- What stands in front of the digits. -/
def opening : String := "sha256="

/-- The header value for the bytes of a digest. -/
def write (bytes : List UInt8) : String :=
  opening ++ Text.Hex.encode bytes

/-- The digest that a header value states, if it is written as one. -/
def read? (header : String) : Option Digest :=
  if opening.toList.isPrefixOf header.toList then
    match Text.Hex.decodeLower? (header.toList.drop opening.length) with
    | some bytes => if h : bytes.length = 32 then some ⟨bytes, h⟩ else none
    | none => none
  else none

end Signature

/-- The least number of bytes in a secret. -/
def minSecretLength : Nat := 32

/-- Why a secret cannot be used. -/
inductive SecretError where
  | empty
  | tooShort (length : Nat)
deriving DecidableEq, Repr

/-- The message about a secret. -/
def SecretError.message : SecretError → String
  | .empty => "webhook secret is empty"
  | .tooShort length =>
    "webhook secret must be at least " ++ toString minSecretLength ++ " bytes (got " ++
      toString length ++ ")"

/-- Signs requests, and checks their signatures, with a secret of sufficient length. -/
structure Authenticator where
  secret : List UInt8
  long : minSecretLength ≤ secret.length

namespace Authenticator

/-- The authenticator with a given secret. -/
def ofSecret (secret : List UInt8) : Except SecretError Authenticator :=
  if h : minSecretLength ≤ secret.length then .ok ⟨secret, h⟩
  else if secret.isEmpty then .error .empty
  else .error (.tooShort secret.length)

/-- What an authenticator is shown as: nothing of its secret. -/
def shown : String := "Authenticator \x7b .. \x7d"

/-- The digest of a payload under the secret. -/
def digest (auth : Authenticator) (payload : List UInt8) : Digest :=
  Hmac.digest auth.secret payload

/-- The header value that signs a payload. -/
def sign (auth : Authenticator) (payload : List UInt8) : String :=
  Signature.write (auth.digest payload).bytes

/-- Whether a header value signs a payload. -/
def verify (auth : Authenticator) (payload : List UInt8) (header : String) : Bool :=
  match Signature.read? header with
  | some stated => stated = auth.digest payload
  | none => false

/-- Whether a request with these headers is signed for this payload: its first signature header
must be readable and fit. -/
def validate (auth : Authenticator) (headers : Http.Headers) (payload : List UInt8) : Bool :=
  match headers.text? Signature.headerName with
  | some header => auth.verify payload header
  | none => false

end Authenticator

end Upkeep

/-
# Requests over HTTP

A request as it arrives: method, target, header fields, the address it comes from if that is
known, and a body that is received piece by piece and can break off.
-/

import Upkeep.Http.Headers
import Upkeep.Net.Address

namespace Upkeep.Http

/-- A piece of a body, or the reason why no more of it comes. -/
inductive Chunk where
  | bytes (content : List UInt8)
  | broken (reason : String)
deriving DecidableEq

/-- A request. -/
structure Request where
  method : String
  target : String
  headers : Headers := []
  body : List Chunk := []
  peer : Option Net.Address := none

namespace Request

/-- A target without the scheme and the host that may stand in front of its path. A host ends
where a path, a query or a fragment begins. -/
def behindHost (target : List Char) : List Char :=
  match target with
  | '/' :: _ => target
  | _ =>
    match target.dropWhile (· ≠ ':') with
    | ':' :: '/' :: '/' :: rest => rest.dropWhile fun c => c ≠ '/' && c ≠ '?' && c ≠ '#'
    | _ => target

/-- Path and query of the target: no scheme and host in front, and no fragment behind a number
sign. -/
def resource (request : Request) : List Char :=
  (behindHost request.target.toList).takeWhile (· ≠ '#')

/-- The path of the target. -/
def path (request : Request) : String :=
  String.ofList (request.resource.takeWhile (· ≠ '?'))

/-- The query of the target, behind its question mark; empty if there is none. -/
def query (request : Request) : String :=
  String.ofList ((request.resource.dropWhile (· ≠ '?')).drop 1)

end Request

/-- Why a body that is longer than allowed is not read. -/
def tooLongReason : String := "length limit exceeded"

/-- Reads a body of at most `limit` bytes behind those already read, or says why it cannot be
read. A body is given up as soon as it is too long. -/
def readBody (limit : Nat) (read : List UInt8) : List Chunk → Except String (List UInt8)
  | [] => .ok read
  | .broken reason :: _ => .error reason
  | .bytes content :: rest =>
    if limit < read.length + content.length then .error tooLongReason
    else readBody limit (read ++ content) rest

end Upkeep.Http

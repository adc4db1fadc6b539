/-
# Who is asking

Requests are limited by the address they come from. Behind proxies that is not the peer but an
address that they state in headers: the first one in the list of forwarders that can be read, or
else the one given as the real one. Whether the headers are believed is a setting, since any
client can send them.
-/

import Upkeep.Http.Headers
import Upkeep.Net.Address
import Upkeep.Text.Blank

namespace Upkeep.RateLimit

/-- The header that lists the addresses a request was forwarded for. -/
def forwardedForHeader : String := "x-forwarded-for"

/-- The header that states the address of the client alone. -/
def realAddressHeader : String := "x-real-ip"

/-- The key of all clients whose address is not known. -/
def unknownKey : String := "unknown"

/-- The address that a text states, blanks around it aside. -/
def statedAddress? (chars : List Char) : Option Net.Address :=
  Net.Address.read? (Text.trimList chars)

/-- The entries of a list with commas between them. -/
def commaSeparated (chars : List Char) : List (List Char) :=
  match chars with
  | [] => [[]]
  | ',' :: rest => [] :: commaSeparated rest
  | c :: rest =>
    match commaSeparated rest with
    | [] => [[c]]
    | entry :: entries => (c :: entry) :: entries

/-- The address that the headers of a request state for its client. -/
def forwardedAddress? (headers : Http.Headers) : Option Net.Address :=
  let listed :=
    (headers.text? forwardedForHeader).bind fun text =>
      (commaSeparated text.toList).findSome? statedAddress?
  listed.or ((headers.text? realAddressHeader).bind fun text => statedAddress? text.toList)

/-- The key under which a request is counted: the address in its headers if they are trusted and
state one, else that of the peer, else the key of all unknown clients. -/
def clientKey (headers : Http.Headers) (peer : Option Net.Address) (trust : Bool) : String :=
  let believed := if trust then forwardedAddress? headers else none
  match believed.or peer with
  | some address => address.text
  | none => unknownKey

end Upkeep.RateLimit

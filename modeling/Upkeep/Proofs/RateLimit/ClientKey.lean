/-
# Keys are addresses

The key of a client whose address is known is the usual text of this address, whatever spelling of
it the headers gave. It holds nothing but digits, points and colons: so it can be the value of a
header, it is one entry of a list, there is nothing to trim, and it is not the word that all unknown
clients share. As a text it is read as the address again, so two clients share a key exactly when
their addresses are the same.
-/

import Upkeep.Proofs.Net.Address
import Upkeep.Proofs.Signature
import Upkeep.RateLimit.ClientKey

namespace Upkeep

/-! ## The characters of an address -/

namespace Net

/-- Whether a character can occur in the text of an address. -/
def InAddress (c : Char) : Prop :=
  c = '.' ∨ c = ':' ∨ ∃ d < 16, c = Nat.digitChar d

theorem inAddress_of_mem_toDigits {base n : Nat} (hbase : 1 < base) (hhex : base ≤ 16) {c : Char}
    (hc : c ∈ Nat.toDigits base n) : InAddress c :=
  .inr (.inr (Text.Hex.exists_hex_of_mem_toDigits hbase hhex hc))

theorem inAddress_of_mem_ipv4 {address : Ipv4} {c : Char} (hc : c ∈ address.write) :
    InAddress c := by
  have hpart : ∀ byte : UInt8, c ∈ Nat.toDigits 10 byte.toNat → InAddress c :=
    fun byte => inAddress_of_mem_toDigits (by decide) (by decide)
  simp only [Ipv4.write, List.mem_append, List.mem_cons, or_assoc] at hc
  rcases hc with hc | hc | hc | hc | hc | hc | hc
  all_goals first | exact hpart _ hc | exact .inl hc

theorem inAddress_of_mem_writeGroups {groups : List UInt16} {c : Char}
    (hc : c ∈ writeGroups groups) : InAddress c := by
  have hpart : ∀ group : UInt16, c ∈ Nat.toDigits 16 group.toNat → InAddress c :=
    fun group => inAddress_of_mem_toDigits (by decide) (by decide)
  cases groups with
  | nil => cases hc
  | cons group groups =>
      simp only [writeGroups_cons, colonGroups, List.mem_append, List.mem_flatMap,
        List.mem_cons] at hc
      rcases hc with hc | ⟨next, -, rfl | hc⟩
      · exact hpart group hc
      · exact .inr (.inl rfl)
      · exact hpart next hc

theorem inAddress_of_mem_ipv6 {address : Ipv6} {c : Char} (hc : c ∈ address.write) :
    InAddress c := by
  rw [Ipv6.write] at hc
  split at hc
  · rw [toList_mapped] at hc
    simp only [List.mem_append, List.mem_cons, List.not_mem_nil, or_false] at hc
    rcases hc with (rfl | rfl | hc | rfl) | hc
    · exact .inr (.inl rfl)
    · exact .inr (.inl rfl)
    · exact inAddress_of_mem_toDigits (by decide) (by decide) hc
    · exact .inr (.inl rfl)
    · exact inAddress_of_mem_ipv4 hc
  · dsimp only at hc
    split at hc
    · simp only [List.mem_append, List.mem_cons] at hc
      rcases hc with hc | rfl | rfl | hc
      · exact inAddress_of_mem_writeGroups hc
      · exact .inr (.inl rfl)
      · exact .inr (.inl rfl)
      · exact inAddress_of_mem_writeGroups hc
    · exact inAddress_of_mem_writeGroups hc

theorem Address.inAddress_of_mem_text {address : Address} {c : Char}
    (hc : c ∈ address.text.toList) : InAddress c := by
  cases address with
  | v4 address => exact inAddress_of_mem_ipv4 (by simpa [text] using hc)
  | v6 address => exact inAddress_of_mem_ipv6 (by simpa [text] using hc)

/-- In a header no character of an address is special. -/
theorem InAddress.isPlain {c : Char} (hc : InAddress c) :
    Text.isBlank c = false ∧ c ≠ ',' ∧ (String.utf8EncodeChar c).all Http.isReadable = true := by
  have hdigit : ∀ d < 16, Text.isBlank (Nat.digitChar d) = false ∧ Nat.digitChar d ≠ ',' ∧
      (String.utf8EncodeChar (Nat.digitChar d)).all Http.isReadable = true := by
    decide
  rcases hc with rfl | rfl | ⟨d, hd, rfl⟩
  · decide
  · decide
  · exact hdigit d hd

/-- The text of an address can be the value of a header. -/
theorem Address.readable?_text (address : Address) :
    Http.readable? (Text.Utf8.encode address.text) = some address.text :=
  Http.readable?_encode fun _ hc => (inAddress_of_mem_text hc).isPlain.2.2

end Net

/-! ## The key of a request -/

namespace RateLimit

variable {headers : Http.Headers} {peer : Option Net.Address} {trust : Bool}

/-- The address that a request counts as coming from: the one that its headers state if they are
trusted, else that of the peer. -/
def clientAddress? (headers : Http.Headers) (peer : Option Net.Address) (trust : Bool) :
    Option Net.Address :=
  (if trust then forwardedAddress? headers else none).or peer

theorem clientKey_eq_elim (headers : Http.Headers) (peer : Option Net.Address) (trust : Bool) :
    clientKey headers peer trust =
      (clientAddress? headers peer trust).elim unknownKey Net.Address.text := by
  rw [clientKey, clientAddress?]
  cases (if trust then forwardedAddress? headers else none).or peer <;> rfl

/-- The word for unknown clients is no address. -/
theorem ofText?_unknownKey : Net.Address.ofText? unknownKey = none := by
  decide

theorem text_ne_unknownKey (address : Net.Address) : address.text ≠ unknownKey := by
  intro hsame
  have hread := address.ofText?_text
  rw [hsame, ofText?_unknownKey] at hread
  cases hread

/-- A list without a comma has one entry. -/
theorem commaSeparated_eq_singleton {chars : List Char} (hcomma : ∀ c ∈ chars, c ≠ ',') :
    commaSeparated chars = [chars] := by
  induction chars with
  | nil => rfl
  | cons c chars ih =>
      have hentries := ih fun d hd => hcomma d (List.mem_cons_of_mem c hd)
      rw [commaSeparated, hentries]
      rintro rfl
      exact hcomma ',' List.mem_cons_self rfl

theorem statedAddress?_text (address : Net.Address) :
    statedAddress? address.text.toList = some address := by
  have hblank : ∀ c ∈ address.text.toList, Text.isBlank c = false :=
    fun c hc => (Net.Address.inAddress_of_mem_text hc).isPlain.1
  rw [statedAddress?, Text.trimList_of_not_blank hblank]
  exact address.ofText?_text

/-- A header that states the text of an address alone states this address. -/
theorem forwardedAddress?_text {name : String}
    (hname : Http.sameName name forwardedForHeader = true) (address : Net.Address) :
    forwardedAddress? [(name, Text.Utf8.encode address.text)] = some address := by
  have hcomma : ∀ c ∈ address.text.toList, c ≠ ',' :=
    fun c hc => (Net.Address.inAddress_of_mem_text hc).isPlain.2.1
  have htext : Http.Headers.text? [(name, Text.Utf8.encode address.text)] forwardedForHeader =
      some address.text := by
    simp [Http.Headers.text?, Http.Headers.values, hname, address.readable?_text]
  simp [forwardedAddress?, htext, commaSeparated_eq_singleton hcomma, statedAddress?_text]

/-- A key other than that of unknown clients is read as the address that it was made from, and as
the only header of a request, trusted, it is the key of this request too, whoever the peer is. A
request has the key of unknown clients exactly if there is no address for it, and two requests have
the same key exactly if they count as coming from the same address. -/
theorem clientKey_canonical (headers : Http.Headers) (peer : Option Net.Address) (trust : Bool) :
    (clientKey headers peer trust ≠ unknownKey →
      ∃ address, clientAddress? headers peer trust = some address ∧
        Net.Address.ofText? (clientKey headers peer trust) = some address ∧
        ∀ (name : String) (relay : Option Net.Address),
          Http.sameName name forwardedForHeader = true →
          clientKey [(name, Text.Utf8.encode (clientKey headers peer trust))] relay true =
            clientKey headers peer trust) ∧
    (clientKey headers peer trust = unknownKey ↔ clientAddress? headers peer trust = none) ∧
    ∀ (others : Http.Headers) (relay : Option Net.Address) (trusted : Bool),
      clientKey headers peer trust = clientKey others relay trusted ↔
        clientAddress? headers peer trust = clientAddress? others relay trusted := by
  simp only [clientKey_eq_elim]
  cases haddress : clientAddress? headers peer trust with
  | none =>
      refine ⟨fun hne => absurd rfl hne, by simp, fun others relay trusted => ?_⟩
      cases clientAddress? others relay trusted with
      | none => simp
      | some other => simpa using (text_ne_unknownKey other).symm
  | some address =>
      refine ⟨fun _ => ⟨address, rfl, address.ofText?_text, fun name relay hname => ?_⟩, ?_, ?_⟩
      · simp [clientAddress?, forwardedAddress?_text hname]
      · simpa using text_ne_unknownKey address
      · intro others relay trusted
        cases clientAddress? others relay trusted with
        | none => simpa using text_ne_unknownKey address
        | some other => simp [Net.Address.text_injective.eq_iff]

end RateLimit

end Upkeep

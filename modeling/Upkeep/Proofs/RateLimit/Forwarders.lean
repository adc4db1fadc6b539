/-
# One list on several lines

A header that occurs several times stands for one list: its values, joined by commas. So each proxy
of a chain may write a line of its own or go on with the line that is there, and a client should be
found at the same address either way.

It is found only as far as the first line reaches. Where this line states no address, the later ones
are overlooked, and the request is counted by whatever comes next: the header of the real address,
or the peer. Only once the lines are joined is the whole list read.
-/

import Upkeep.Proofs.RateLimit.ClientKey

namespace Upkeep

/-! ## Lines -/

namespace Http.Headers

/-- The texts of the lines with a name, in order. -/
def texts (headers : Headers) (name : String) : List String :=
  (headers.values name).filterMap readable?

/-- Whether all lines can be read. -/
def Readable (headers : Headers) : Prop :=
  ∀ field ∈ headers, field.2.all isReadable = true

instance (headers : Headers) : Decidable headers.Readable :=
  inferInstanceAs (Decidable (∀ field ∈ headers, field.2.all isReadable = true))

variable {headers : Headers} {name : String}

theorem Readable.of_mem_values (hreadable : headers.Readable) {value : List UInt8}
    (hvalue : value ∈ headers.values name) : value.all isReadable = true := by
  obtain ⟨field, hfield, rfl⟩ := List.mem_map.1 hvalue
  exact hreadable field (List.mem_of_mem_filter hfield)

/-- Of lines that can be read, the first is the one that is read. -/
theorem Readable.text?_eq_head? (hreadable : headers.Readable) (name : String) :
    headers.text? name = (headers.texts name).head? := by
  rw [text?, texts]
  cases hvalues : headers.values name with
  | nil => rfl
  | cons value others =>
      have hmem : value ∈ headers.values name := hvalues ▸ List.mem_cons_self
      have hvalue : readable? value ≠ none := by
        rw [readable?, if_pos (hreadable.of_mem_values hmem)]
        exact Option.some_ne_none _
      obtain ⟨text, htext⟩ := Option.ne_none_iff_exists'.1 hvalue
      rw [List.filterMap_cons_some htext]
      exact htext

end Http.Headers

namespace RateLimit

/-- A list is split where its commas are. -/
theorem commaSeparated_eq_splitOn (chars : List Char) :
    commaSeparated chars = chars.splitOn ',' := by
  induction chars with
  | nil => rfl
  | cons c chars ih =>
      rw [List.splitOn_cons_eq_if_modifyHead, ← ih]
      split
      next hcomma =>
        rw [beq_iff_eq.1 hcomma]
        rfl
      next hcomma =>
        rw [commaSeparated]
        · have hentries : commaSeparated chars ≠ [] := ih ▸ List.splitOn_ne_nil ',' chars
          obtain ⟨entry, entries, hfirst⟩ := List.exists_cons_of_ne_nil hentries
          rw [hfirst]
          rfl
        · rintro rfl
          exact hcomma rfl

/-- The entries of lines that are joined by commas are those of one line after the other. -/
theorem commaSeparated_intercalate {lines : List (List Char)} (hlines : lines ≠ []) :
    commaSeparated ([','].intercalate lines) = lines.flatMap commaSeparated := by
  induction lines with
  | nil => exact absurd rfl hlines
  | cons line lines ih =>
      cases lines with
      | nil => simp [List.intercalate]
      | cons next lines =>
          rw [List.intercalate_cons_cons, List.append_assoc, List.singleton_append,
            commaSeparated_eq_splitOn, List.splitOn_append_cons_self,
            ← commaSeparated_eq_splitOn, ← commaSeparated_eq_splitOn, ih (List.cons_ne_nil _ _)]
          exact List.flatMap_cons.symm

/-! ## Forwarders -/

variable {headers others : Http.Headers}

/-- The entries of all lines of forwarders, one line after the other. -/
def forwarders (headers : Http.Headers) : List (List Char) :=
  (headers.texts forwardedForHeader).flatMap fun line => commaSeparated line.toList

/-- The entries of the lines behind the first one. -/
def laterForwarders (headers : Http.Headers) : List (List Char) :=
  (headers.texts forwardedForHeader).tail.flatMap fun line => commaSeparated line.toList

/-- The address that the first line of forwarders states. -/
def firstLineAddress? (headers : Http.Headers) : Option Net.Address :=
  (headers.texts forwardedForHeader).head?.bind fun line =>
    (commaSeparated line.toList).findSome? statedAddress?

/-- The address that the header of the real one states. -/
def realAddress? (headers : Http.Headers) : Option Net.Address :=
  (headers.text? realAddressHeader).bind fun text => statedAddress? text.toList

/-- The address that a request states, if its forwarders are one list: the first one in it, or else
the real one. -/
def listedAddress? (headers : Http.Headers) : Option Net.Address :=
  ((forwarders headers).findSome? statedAddress?).or (realAddress? headers)

/-- Whether a later line states an address that makes a difference, and the first line none. -/
def Overlooks (headers : Http.Headers) : Prop :=
  firstLineAddress? headers = none ∧
    ∃ address, (laterForwarders headers).findSome? statedAddress? = some address ∧
      realAddress? headers ≠ some address

/-- The list goes through the first line before the later ones. -/
theorem findSome?_forwarders (headers : Http.Headers) :
    (forwarders headers).findSome? statedAddress? =
      (firstLineAddress? headers).or ((laterForwarders headers).findSome? statedAddress?) := by
  rw [forwarders, firstLineAddress?, laterForwarders]
  cases headers.texts forwardedForHeader with
  | nil => rfl
  | cons line lines => rw [List.flatMap_cons, List.findSome?_append]; rfl

theorem forwardedAddress?_of_readable (hreadable : headers.Readable) :
    forwardedAddress? headers = (firstLineAddress? headers).or (realAddress? headers) := by
  rw [forwardedAddress?, hreadable.text?_eq_head?]
  rfl

theorem forwardedAddress?_eq_listed_iff (hreadable : headers.Readable) :
    forwardedAddress? headers = listedAddress? headers ↔ ¬Overlooks headers := by
  rw [forwardedAddress?_of_readable hreadable, listedAddress?, findSome?_forwarders, Overlooks]
  cases firstLineAddress? headers with
  | some address => simp
  | none =>
      cases (laterForwarders headers).findSome? statedAddress? with
      | none => simp
      | some address => simp

/-! ## Joined lines -/

/-- The byte of a comma. -/
def comma : UInt8 := 0x2C

/-- The headers with all lines of forwarders joined by commas into one. -/
def joined (headers : Http.Headers) : Http.Headers :=
  (forwardedForHeader, [comma].intercalate (headers.values forwardedForHeader)) ::
    headers.filter fun field => !Http.sameName field.1 forwardedForHeader

theorem map_intercalate {α β : Type} (f : α → β) (a : α) (lists : List (List α)) :
    ([a].intercalate lists).map f = [f a].intercalate (lists.map (List.map f)) := by
  induction lists with
  | nil => rfl
  | cons list lists ih =>
      cases lists with
      | nil => simp
      | cons next lists =>
          rw [List.intercalate_cons_cons, List.map_append, List.map_append, ih]
          simp [List.intercalate_cons_cons]

theorem all_intercalate {α : Type} {p : α → Bool} {a : α} (ha : p a = true)
    {lists : List (List α)} (hall : ∀ list ∈ lists, list.all p = true) :
    ([a].intercalate lists).all p = true := by
  induction lists with
  | nil => rfl
  | cons list lists ih =>
      have hfirst := hall list List.mem_cons_self
      have hrest := ih fun other hother => hall other (List.mem_cons_of_mem _ hother)
      cases lists with
      | nil => rwa [List.intercalate_singleton]
      | cons next lists => simp [List.intercalate_cons_cons, hfirst, ha, hrest]

/-- Joined by commas, lines that can be read are read as their texts joined by commas. -/
theorem readable?_intercalate {values : List (List UInt8)}
    (hvalues : ∀ value ∈ values, value.all Http.isReadable = true) :
    Http.readable? ([comma].intercalate values) =
      some (String.ofList ([','].intercalate ((values.filterMap Http.readable?).map
        String.toList))) := by
  have htexts : (values.filterMap Http.readable?).map String.toList =
      values.map (List.map fun byte => Char.ofNat byte.toNat) := by
    induction values with
    | nil => rfl
    | cons value values ih =>
        have hfirst : Http.readable? value =
            some (String.ofList (value.map fun byte => Char.ofNat byte.toNat)) :=
          if_pos (hvalues value List.mem_cons_self)
        rw [List.filterMap_cons_some hfirst, List.map_cons, List.map_cons, String.toList_ofList,
          ih fun other hother => hvalues other (List.mem_cons_of_mem _ hother)]
  rw [Http.readable?, if_pos (all_intercalate rfl hvalues), map_intercalate, htexts]
  rfl

theorem readable_joined (hreadable : headers.Readable) : (joined headers).Readable := by
  intro field hfield
  rcases List.mem_cons.1 hfield with rfl | hother
  · exact all_intercalate rfl fun value hvalue => hreadable.of_mem_values hvalue
  · exact hreadable field (List.mem_of_mem_filter hother)

/-- Once joined, the forwarders are on one line. -/
theorem texts_joined (hreadable : headers.Readable) :
    (joined headers).texts forwardedForHeader =
      [String.ofList
        ([','].intercalate ((headers.texts forwardedForHeader).map String.toList))] := by
  have hself : Http.sameName forwardedForHeader forwardedForHeader = true := by decide +kernel
  have hvalues : (joined headers).values forwardedForHeader =
      [[comma].intercalate (headers.values forwardedForHeader)] := by
    simp [joined, Http.Headers.values, hself, List.filter_filter]
  rw [Http.Headers.texts, hvalues, List.filterMap_cons_some
    (readable?_intercalate fun value hvalue => hreadable.of_mem_values hvalue)]
  rfl

/-- The header of the real address is left as it is. -/
theorem realAddress?_joined (headers : Http.Headers) :
    realAddress? (joined headers) = realAddress? headers := by
  have hother : Http.sameName forwardedForHeader realAddressHeader = false := by decide +kernel
  have hkept : ∀ field : String × List UInt8, Http.sameName field.1 realAddressHeader = true →
      Http.sameName field.1 forwardedForHeader = false := by
    intro field hreal
    apply Bool.eq_false_iff.2
    intro hlist
    rw [Http.sameName, beq_iff_eq] at hreal hlist
    rw [Http.sameName, ← hlist, hreal, beq_self_eq_true] at hother
    cases hother
  have hvalues : (joined headers).values realAddressHeader = headers.values realAddressHeader := by
    rw [Http.Headers.values, joined, List.filter_cons_of_neg (by simp [hother]),
      List.filter_filter, Http.Headers.values]
    congr 1
    apply List.filter_congr
    intro field _
    cases hreal : Http.sameName field.1 realAddressHeader with
    | false => rfl
    | true => simp [hkept field hreal]
  rw [realAddress?, realAddress?, Http.Headers.text?, Http.Headers.text?, hvalues]

/-- On one line, the list is read to its end. -/
theorem forwardedAddress?_joined (hreadable : headers.Readable) :
    forwardedAddress? (joined headers) = listedAddress? headers := by
  rw [forwardedAddress?_of_readable (readable_joined hreadable), realAddress?_joined,
    firstLineAddress?, texts_joined hreadable, listedAddress?, forwarders]
  refine congrArg (Option.or · (realAddress? headers)) ?_
  cases headers.texts forwardedForHeader with
  | nil => decide
  | cons line lines =>
      rw [List.head?_cons, Option.bind_some, String.toList_ofList,
        commaSeparated_intercalate (by simp), List.flatMap_map]

/-! ## The same list on other lines -/

/-- Two requests have the same list of forwarders, blanks around its entries aside, and the same
headers for the real address. The list may be on other lines. -/
structure SameList (headers others : Http.Headers) : Prop where
  forwarders : (forwarders others).map Text.trimList = (forwarders headers).map Text.trimList
  real : others.values realAddressHeader = headers.values realAddressHeader

theorem SameList.listedAddress? (hsame : SameList headers others) :
    listedAddress? others = listedAddress? headers := by
  have hstated : ∀ entries : List (List Char), entries.findSome? statedAddress? =
      (entries.map Text.trimList).findSome? Net.Address.read? :=
    fun entries => (List.findSome?_map ..).symm
  rw [RateLimit.listedAddress?, RateLimit.listedAddress?, hstated, hstated, hsame.forwarders,
    realAddress?, realAddress?, Http.Headers.text?, Http.Headers.text?, hsame.real]

/-- From headers that can all be read, the first line of forwarders is taken, or else the header of
the real address. This is the address that the whole list gives exactly if the first line states one
or no later line states another than the real one. Joined into one line, the list gives this address
in any case; and on whatever lines the list stands, the key is the same as long as nothing is
overlooked. -/
theorem readsFirstLine_of_readable (headers : Http.Headers) (hreadable : headers.Readable) :
    forwardedAddress? headers = (firstLineAddress? headers).or (realAddress? headers) ∧
    (forwardedAddress? headers = listedAddress? headers ↔ ¬Overlooks headers) ∧
    forwardedAddress? (joined headers) = listedAddress? headers ∧
    ∀ others : Http.Headers, others.Readable → SameList headers others →
      forwardedAddress? (joined others) = forwardedAddress? (joined headers) ∧
      (¬Overlooks headers → ¬Overlooks others → ∀ (peer : Option Net.Address) (trust : Bool),
        clientKey others peer trust = clientKey headers peer trust) := by
  refine ⟨forwardedAddress?_of_readable hreadable, forwardedAddress?_eq_listed_iff hreadable,
    forwardedAddress?_joined hreadable, fun others hothers hsame => ⟨?_, ?_⟩⟩
  · rw [forwardedAddress?_joined hothers, forwardedAddress?_joined hreadable, hsame.listedAddress?]
  · intro hseen hothersSeen peer trust
    have haddress : forwardedAddress? others = forwardedAddress? headers :=
      calc
        forwardedAddress? others = listedAddress? others :=
          (forwardedAddress?_eq_listed_iff hothers).2 hothersSeen
        _ = listedAddress? headers := hsame.listedAddress?
        _ = forwardedAddress? headers := ((forwardedAddress?_eq_listed_iff hreadable).2 hseen).symm
    rw [clientKey, clientKey, haddress]

/-- A line of a proxy that does not know its client, and the line of the next proxy. -/
def onTwoLines : Http.Headers :=
  [("x-forwarded-for", Text.Utf8.encode "unknown"),
    ("x-forwarded-for", Text.Utf8.encode "203.0.113.5")]

/-- Of two lines the second is overlooked, though the list that they make states an address. -/
theorem readsFirstLine_of_twoLines :
    onTwoLines.Readable ∧ Overlooks onTwoLines ∧
      forwardedAddress? onTwoLines ≠ listedAddress? onTwoLines ∧
      forwardedAddress? (joined onTwoLines) = listedAddress? onTwoLines := by
  have hreadable : onTwoLines.Readable := by decide +kernel
  have hoverlooks : Overlooks onTwoLines := by
    refine ⟨by decide +kernel, .v4 ⟨203, 0, 113, 5⟩, by decide +kernel, by decide +kernel⟩
  obtain ⟨-, hlisted, hjoined, -⟩ := readsFirstLine_of_readable onTwoLines hreadable
  exact ⟨hreadable, hoverlooks, fun hsame => hlisted.1 hsame hoverlooks, hjoined⟩

/-- The two lines and the one that they join into give different keys. -/
theorem joining_changes_key :
    onTwoLines.Readable ∧
      listedAddress? onTwoLines = Net.Address.ofText? "203.0.113.5" ∧
      forwardedAddress? onTwoLines = none ∧
      clientKey onTwoLines (Net.Address.ofText? "192.0.2.7") true = "192.0.2.7" ∧
      clientKey (joined onTwoLines) (Net.Address.ofText? "192.0.2.7") true = "203.0.113.5" := by
  decide +kernel

end RateLimit

end Upkeep

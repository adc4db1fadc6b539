/-
# Strings

A string is written between quotes with seven short escapes, and with the code point of four
digits for the other controls. Reading accepts every escape of the grammar; a pair of surrogate
escapes is one character and a lone one is none. What the bytes and escapes spell must be
well-formed text.
-/

import Upkeep.Json.Cursor
import Upkeep.Text.Utf8

namespace Upkeep.Json

/-- The character that a one-letter escape stands for. -/
def shortEscape? (mark : UInt8) : Option UInt8 :=
  if mark = ascii '"' then some 0x22
  else if mark = ascii '\\' then some 0x5C
  else if mark = ascii '/' then some 0x2F
  else if mark = ascii 'b' then some 0x08
  else if mark = ascii 'f' then some 0x0C
  else if mark = ascii 'n' then some 0x0A
  else if mark = ascii 'r' then some 0x0D
  else if mark = ascii 't' then some 0x09
  else none

/-- Reads an escape behind its backslash: the character that it stands for. -/
def readEscape : List UInt8 → Reading Char
  | [] => .error .truncated
  | mark :: rest =>
    if mark = ascii 'u' then
      match hexEscape rest with
      | .error fault => .error fault
      | .ok (code, behind) =>
        if 0xDC00 ≤ code ∧ code ≤ 0xDFFF then .error .malformed
        else if 0xD800 ≤ code ∧ code ≤ 0xDBFF then
          match expectWord [ascii '\\', ascii 'u'] behind with
          | .error fault => .error fault
          | .ok further =>
            match hexEscape further with
            | .error fault => .error fault
            | .ok (low, last) =>
              if 0xDC00 ≤ low ∧ low ≤ 0xDFFF then
                .ok (Char.ofNat (0x10000 + (code - 0xD800) * 0x400 + (low - 0xDC00)), last)
              else .error .malformed
        else .ok (Char.ofNat code, behind)
    else
      match shortEscape? mark with
      | some byte => .ok (Char.ofNat byte.toNat, rest)
      | none => .error .malformed

/-- An escape takes at least one byte. -/
theorem length_of_readEscape {bytes rest : List UInt8} {c : Char}
    (h : readEscape bytes = .ok (c, rest)) : rest.length < bytes.length := by
  unfold readEscape at h
  split at h
  · cases h
  split at h
  · split at h
    · cases h
    next code behind hcode =>
      have := length_of_hexEscape hcode
      split at h
      · cases h
      split at h
      · split at h
        · cases h
        next further hword =>
          have := length_of_expectWord hword
          split at h
          · cases h
          next low last hlow =>
            have := length_of_hexEscape hlow
            split at h
            · simp only [Except.ok.injEq, Prod.mk.injEq] at h
              obtain ⟨_, rfl⟩ := h
              simp; omega
            · cases h
      · simp only [Except.ok.injEq, Prod.mk.injEq] at h
        obtain ⟨_, rfl⟩ := h
        simp; omega
  · split at h
    · cases h; simp
    · cases h

/-- Gathers the bytes of a string up to its closing quote, latest first. -/
def gatherText (gathered : List UInt8) (bytes : List UInt8) : Reading (List UInt8) :=
  match bytes with
  | [] => .error .truncated
  | byte :: rest =>
    if byte = ascii '"' then .ok (gathered, rest)
    else if byte = ascii '\\' then
      match _hescape : readEscape rest with
      | .error fault => .error fault
      | .ok (c, behind) => gatherText ((String.utf8EncodeChar c).reverse ++ gathered) behind
    else if byte < 0x20 then .error .malformed
    else gatherText (byte :: gathered) rest
termination_by bytes.length
decreasing_by
  · have := length_of_readEscape _hescape
    simp; omega
  · simp

/-- A string takes at least its closing quote. -/
theorem length_of_gatherText {gathered bytes rest result : List UInt8}
    (h : gatherText gathered bytes = .ok (result, rest)) : rest.length < bytes.length := by
  fun_induction gatherText gathered bytes with
  | case1 => cases h
  | case2 => cases h; simp
  | case3 => cases h
  | case4 _ _ _ _ hescape _ ih =>
    have := length_of_readEscape hescape
    have := ih h
    simp; omega
  | case5 => cases h
  | case6 _ _ _ _ _ _ ih => have := ih h; simp; omega

/-- Reads a string behind its opening quote. -/
def readText (bytes : List UInt8) : Reading String :=
  match gatherText [] bytes with
  | .error fault => .error fault
  | .ok (gathered, rest) =>
    match Text.Utf8.decode? gathered.reverse with
    | some text => .ok (text, rest)
    | none => .error .malformed

/-- A string takes at least its closing quote. -/
theorem length_of_readText {bytes rest : List UInt8} {text : String}
    (h : readText bytes = .ok (text, rest)) : rest.length < bytes.length := by
  unfold readText at h
  split at h
  · cases h
  next gathered behind hgather =>
    split at h
    · cases h; exact length_of_gatherText hgather
    · cases h

end Upkeep.Json

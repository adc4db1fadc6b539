/-
# Blank characters

The characters that separate words without being part of one: the `White_Space` property of
the Unicode standard. Trimming removes them at both ends of a text and nowhere else.
-/

namespace Upkeep.Text

/-- Whether a character is white space: the ASCII controls from tab to carriage return, the
space, and the separators beyond ASCII. -/
def isBlank (c : Char) : Bool :=
  let code := c.toNat
  (9 ≤ code && code ≤ 13) || code == 0x20 || code == 0x85 || code == 0xA0 || code == 0x1680 ||
    (0x2000 ≤ code && code ≤ 0x200A) || code == 0x2028 || code == 0x2029 || code == 0x202F ||
    code == 0x205F || code == 0x3000

/-- The characters without the blank ones in front. -/
def dropBlank (chars : List Char) : List Char :=
  chars.dropWhile isBlank

/-- The characters without the blank ones at either end. -/
def trimList (chars : List Char) : List Char :=
  (dropBlank (dropBlank chars).reverse).reverse

/-- A text without the blank characters at either end. -/
def trim (text : String) : String :=
  String.ofList (trimList text.toList)

/-- A text that neither starts nor ends with a blank is its own trimmed form. -/
theorem trimList_eq_self {chars : List Char} (hhead : ∀ c ∈ chars.head?, isBlank c = false)
    (hlast : ∀ c ∈ chars.getLast?, isBlank c = false) : trimList chars = chars := by
  have hfront : dropBlank chars = chars := by
    cases chars with
    | nil => rfl
    | cons c rest => simp [dropBlank, hhead c (by simp)]
  have hback : dropBlank chars.reverse = chars.reverse := by
    cases hrev : chars.reverse with
    | nil => rfl
    | cons c rest =>
      have hmem : c ∈ chars.getLast? := by
        rw [← List.head?_reverse, hrev]; rfl
      simp [dropBlank, hlast c hmem]
  rw [trimList, hfront, hback, List.reverse_reverse]

/-- From a text without blanks nothing is taken off. -/
theorem trimList_of_not_blank {chars : List Char} (hblank : ∀ c ∈ chars, isBlank c = false) :
    trimList chars = chars :=
  trimList_eq_self (fun c hc => hblank c (List.mem_of_mem_head? hc))
    fun c hc => hblank c (List.mem_of_mem_getLast? hc)

end Upkeep.Text

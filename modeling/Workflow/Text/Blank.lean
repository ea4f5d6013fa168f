import Workflow.Text.CharRange

/-!
# White space

The characters of white space are the separators of Unicode together with the
control characters that separate lines, fields and records.  A text is blank if
it holds nothing else; `strip` takes white space off both ends and `words` are
the maximal runs without it.

    isBlank s = true ↔ every character of s is white space              (isBlank_iff)
-/

namespace Workflow.Text

/-! ## Table -/

def blankRanges : List (Nat × Nat) :=
  [(0x9, 0xD), (0x1C, 0x20), (0x85, 0x85), (0xA0, 0xA0), (0x1680, 0x1680), (0x2000, 0x200A),
   (0x2028, 0x2029), (0x202F, 0x202F), (0x205F, 0x205F), (0x3000, 0x3000)]

def isBlankChar (c : Char) : Bool := within blankRanges c

/-! ## Operations -/

/-- Whether a text holds nothing but white space. -/
def isBlank (s : String) : Bool := s.toList.all isBlankChar

def stripChars (cs : List Char) : List Char :=
  ((cs.dropWhile isBlankChar).reverse.dropWhile isBlankChar).reverse

def strip (s : String) : String := String.ofList (stripChars s.toList)

/-- The runs of other characters, the last one still open in `word`. -/
def wordsFrom (word : List Char) : List Char → List (List Char)
  | [] => if word.isEmpty then [] else [word.reverse]
  | c :: rest =>
    if isBlankChar c then
      if word.isEmpty then wordsFrom [] rest else word.reverse :: wordsFrom [] rest
    else wordsFrom (c :: word) rest

def words (s : String) : List (List Char) := wordsFrom [] s.toList

/-! ## Lemmas -/

theorem isBlank_iff (s : String) : isBlank s = true ↔ ∀ c ∈ s.toList, isBlankChar c = true := by
  simp [isBlank]

end Workflow.Text

import TextDiagram.Text.CodeRange

/-!
# Blank characters

A character is blank when it has the property White_Space. Trimming drops the blank characters at
both ends of a text.
-/

namespace TextDiagram.Text

/-- The code points with the property White_Space. -/
def blankRanges : CodeRanges :=
  [(0x9, 0xD), (0x20, 0x20), (0x85, 0x85), (0xA0, 0xA0), (0x1680, 0x1680), (0x2000, 0x200A),
    (0x2028, 0x2029), (0x202F, 0x202F), (0x205F, 0x205F), (0x3000, 0x3000)]

def isBlank (c : Char) : Bool :=
  blankRanges.covers c.toNat

def trimStart (s : List Char) : List Char :=
  s.dropWhile isBlank

def trimEnd (s : List Char) : List Char :=
  (s.reverse.dropWhile isBlank).reverse

def trim (s : List Char) : List Char :=
  trimEnd (trimStart s)

/-- The first maximal run of characters that are not blank; empty when there is none. -/
def firstWord (s : List Char) : List Char :=
  (trimStart s).takeWhile fun c => !isBlank c

@[simp] theorem trim_nil : trim [] = [] := rfl

end TextDiagram.Text

namespace HeapAudit.Text

/-- A text is scanned as the list of its characters. -/
abbrev Chars := List Char

/-- The white space of every script, and the four information separators. -/
def isBlank (c : Char) : Bool :=
  let n := c.toNat
  (9 ≤ n && n ≤ 13) || (28 ≤ n && n ≤ 32) || n == 0x85 || n == 0xA0 || n == 0x1680 ||
    (0x2000 ≤ n && n ≤ 0x200A) || n == 0x2028 || n == 0x2029 || n == 0x202F || n == 0x205F ||
    n == 0x3000

def trimLeft (cs : Chars) : Chars := cs.dropWhile isBlank

def trimRight (cs : Chars) : Chars := (cs.reverse.dropWhile isBlank).reverse

def trim (cs : Chars) : Chars := trimRight (trimLeft cs)

def strip (s : String) : String := String.ofList (trim s.toList)

/-- How many blanks a line starts with. -/
def indent (cs : Chars) : Nat := (cs.takeWhile isBlank).length

/-- The parts of a text between the separators; there is one part more than there are separators. -/
def splitAt (sep : Char) (cs : Chars) : List Chars :=
  cs.foldr (fun c parts =>
    if c = sep then [] :: parts
    else match parts with
      | [] => [[c]]
      | part :: rest => (c :: part) :: rest) [[]]

/-- Lines end at the newline character alone. -/
def lines (cs : Chars) : List Chars := splitAt '\n' cs

def joinWith (sep : Chars) (parts : List Chars) : Chars := List.intercalate sep parts

/-- The words of a text, parted by any run of blanks. -/
def blankParts (cs : Chars) : List Chars :=
  (cs.foldr (fun c parts =>
    if isBlank c then [] :: parts
    else match parts with
      | [] => [[c]]
      | part :: rest => (c :: part) :: rest) [[]]).filter (· ≠ [])

/-- Texts are ordered by the numbers of their characters. -/
def order (a b : Chars) : Ordering := List.compareLex (fun c d => compare c.toNat d.toNat) a b

def endsWith (tail cs : Chars) : Bool := tail.isSuffixOf cs

/-- Whether one text occurs anywhere in another. -/
def occurs (part : Chars) : Chars → Bool
  | [] => part.isEmpty
  | c :: cs => part.isPrefixOf (c :: cs) || occurs part cs

end HeapAudit.Text

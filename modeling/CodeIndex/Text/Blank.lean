namespace CodeIndex.Text

def isBlank (c : Char) : Bool :=
  let n := c.toNat
  (9 ≤ n && n ≤ 13) || n == 0x20 || n == 0x85 || n == 0xA0 || n == 0x1680
    || (0x2000 ≤ n && n ≤ 0x200A) || n == 0x2028 || n == 0x2029 || n == 0x202F
    || n == 0x205F || n == 0x3000

def dropLeading (p : Char → Bool) (cs : List Char) : List Char := cs.dropWhile p

def dropTrailing (p : Char → Bool) (cs : List Char) : List Char :=
  (cs.reverse.dropWhile p).reverse

def trimStart (s : String) : String := String.ofList (dropLeading isBlank s.toList)

def trimEnd (s : String) : String := String.ofList (dropTrailing isBlank s.toList)

def trim (s : String) : String :=
  String.ofList (dropTrailing isBlank (dropLeading isBlank s.toList))

def trimEndOf (c : Char) (s : String) : String :=
  String.ofList (dropTrailing (· == c) s.toList)

def isAllBlank (s : String) : Bool := s.toList.all isBlank

end CodeIndex.Text

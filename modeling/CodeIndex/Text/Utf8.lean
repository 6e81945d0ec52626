namespace CodeIndex.Text

def isTail (b : UInt8) : Bool := 0x80 ≤ b && b ≤ 0xBF

/-- The second bytes that may follow a lead byte, and how many bytes the character takes. -/
def leadRange? (b : UInt8) : Option (Nat × UInt8 × UInt8) :=
  if b < 0x80 then some (1, 0, 0)
  else if 0xC2 ≤ b && b ≤ 0xDF then some (2, 0x80, 0xBF)
  else if b == 0xE0 then some (3, 0xA0, 0xBF)
  else if b == 0xED then some (3, 0x80, 0x9F)
  else if 0xE1 ≤ b && b ≤ 0xEF then some (3, 0x80, 0xBF)
  else if b == 0xF0 then some (4, 0x90, 0xBF)
  else if 0xF1 ≤ b && b ≤ 0xF3 then some (4, 0x80, 0xBF)
  else if b == 0xF4 then some (4, 0x80, 0x8F)
  else none

def tailBits (b : UInt8) : Nat := b.toNat % 64

/-- The first character of `b :: rest` and the number of bytes of `rest` it takes; `none` is a
maximal ill-formed part. -/
def firstSymbol (b : UInt8) (rest : List UInt8) : Option Char × Nat :=
  match leadRange? b with
  | none => (none, 0)
  | some (width, low, high) =>
    if width = 1 then (some (Char.ofNat b.toNat), 0)
    else match rest with
      | [] => (none, 0)
      | b2 :: rest2 =>
        if !(low ≤ b2 && b2 ≤ high) then (none, 0)
        else if width = 2 then
          (some (Char.ofNat ((b.toNat % 32) * 64 + tailBits b2)), 1)
        else match rest2 with
          | [] => (none, 1)
          | b3 :: rest3 =>
            if !isTail b3 then (none, 1)
            else if width = 3 then
              (some (Char.ofNat ((b.toNat % 16) * 4096 + tailBits b2 * 64 + tailBits b3)), 2)
            else match rest3 with
              | [] => (none, 2)
              | b4 :: _ =>
                if !isTail b4 then (none, 2)
                else
                  (some (Char.ofNat ((b.toNat % 8) * 262144 + tailBits b2 * 4096
                    + tailBits b3 * 64 + tailBits b4)), 3)

def scanSymbols : List UInt8 → List (Option Char)
  | [] => []
  | b :: rest =>
    let (symbol, taken) := firstSymbol b rest
    symbol :: scanSymbols (rest.drop taken)
termination_by bytes => bytes.length
decreasing_by simp only [List.length_drop, List.length_cons]; omega

/-- The characters of a byte string, `none` for each maximal ill-formed part. Well-formed text
is read whole. -/
def symbols (bytes : ByteArray) : List (Option Char) :=
  match String.fromUTF8? bytes with
  | some text => text.toList.map some
  | none => scanSymbols bytes.toList

def lossy (bytes : ByteArray) : String :=
  match String.fromUTF8? bytes with
  | some text => text
  | none => String.ofList ((scanSymbols bytes.toList).map (·.getD '\uFFFD'))

theorem lossy_toUTF8 (s : String) : lossy s.toUTF8 = s := by
  have h : String.fromUTF8? s.toUTF8 = some s := dif_pos s.isValidUTF8
  unfold lossy
  rw [h]

end CodeIndex.Text

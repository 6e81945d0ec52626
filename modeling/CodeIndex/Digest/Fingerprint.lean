import CodeIndex.Digest.Sha256
import CodeIndex.Text.Hex

namespace CodeIndex

abbrev ContentHash := String

namespace Digest

def hexDigest (bytes : List UInt8) : String := String.ofList (Text.hexBytes (sha256 bytes))

def contentHash (bytes : ByteArray) : ContentHash := hexDigest bytes.toList

def textHash (s : String) : ContentHash := contentHash s.toUTF8

def fieldBytes (fields : List String) : List UInt8 :=
  fields.flatMap fun field => field.toUTF8.toList ++ [0]

def fieldsDigest (fields : List String) : String := hexDigest (fieldBytes fields)

def probeLength : Nat := 8000

def isBinary (bytes : ByteArray) : Bool := (bytes.extract 0 probeLength).toList.any (· == 0)

end Digest

end CodeIndex

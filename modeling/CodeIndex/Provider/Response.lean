import CodeIndex.Json.Decode
import CodeIndex.Json.Reader
import CodeIndex.Number.Decimal
import CodeIndex.Run.Error
import CodeIndex.Store.Entry
import CodeIndex.Text.Blank

namespace CodeIndex

structure HttpResponse where
  status : Nat
  headers : List (String × ByteArray)
  body : ByteArray
deriving Inhabited

namespace HttpResponse

def header? (r : HttpResponse) (name : String) : Option ByteArray :=
  (r.headers.find? fun h => h.1.toLower == name.toLower).map (·.2)

def headerText? (r : HttpResponse) (name : String) : Option String := do
  let bytes := (← r.header? name).toList
  if bytes.all fun b => b == 9 || (0x20 ≤ b && b < 0x7F) then
    some (String.ofList (bytes.map fun b => Char.ofNat b.toNat))
  else none

def isSuccess (r : HttpResponse) : Bool := 200 ≤ r.status && r.status < 300

def retryAfter? (r : HttpResponse) : Option Duration := do
  let text ← r.headerText? "retry-after"
  return .ofSecs (← Number.unsigned64? (Text.trim text))

end HttpResponse

/-- A vector in a response, and the position of its text in the request. -/
structure EmbeddingItem where
  index : Nat
  embedding : Embedding
deriving DecidableEq, Repr, Inhabited

namespace EmbeddingItem

/-- The bits of the component nearest to a number; a number beyond all doubles is none. -/
def component? : Json → Option UInt32
  | .number (.integer false n) =>
    if n < Nat.pow 2 64 then some (Float32.ofNat n).toBits else ofDecimal ⟨false, n, 0⟩
  | .number (.integer true n) =>
    if 0 < n && n ≤ Nat.pow 2 63 then some (-Float32.ofNat n).toBits else ofDecimal ⟨true, n, 0⟩
  | .number (.decimal negative mantissa exponent) => ofDecimal ⟨negative, mantissa, exponent⟩
  | _ => none
where
  ofDecimal (d : Decimal) : Option UInt32 :=
    let x := d.toDouble
    if x.magnitude = .infinity then none else some x.toFloat.toFloat32.toBits

def ofJson? (value : Json) : Option EmbeddingItem := do
  match ← Json.slots ["index", "embedding"] false value with
  | [index, embedding] =>
    some ⟨← index.required Json.u64?, ← embedding.required (Json.list? component?)⟩
  | _ => none

def listOfJson? (value : Json) : Option (List EmbeddingItem) := do
  match ← Json.slots ["data"] false value with
  | [data] => data.required (Json.list? ofJson?)
  | _ => none

end EmbeddingItem

/-- The vectors of a response to a request for `expected` of them, in the order of their positions.
There have to be as many as were asked for, each with `dimensions` components. -/
def collectVectors (items : List EmbeddingItem) (expected dimensions : Nat) :
    Except EmbedError (List Embedding) :=
  let sorted := items.mergeSort fun a b => a.index ≤ b.index
  if items.length ≠ expected then
    .error (.transient ("asked for " ++ toString expected ++ " embeddings, provider returned "
      ++ toString items.length))
  else match sorted.find? fun item => item.embedding.length ≠ dimensions with
  | some item =>
    .error (.transient ("embedding " ++ toString item.index ++ " has "
      ++ toString item.embedding.length ++ " dimensions, expected " ++ toString dimensions))
  | none => .ok (sorted.map (·.embedding))

def mentionsOversize (detail : String) : Bool :=
  ["too large", "too many", "maximum context"].any fun words =>
    (detail.toLower.splitOn words).length != 1

def HttpResponse.failure (r : HttpResponse) : EmbedError :=
  let detail := Text.lossy r.body
  if r.status = 429 then .rateLimited r.retryAfter?
  else if r.status = 413 || (r.status = 400 && mentionsOversize detail) then .payloadTooLarge
  else .transient ("HTTP " ++ toString r.status ++ ": " ++ Text.trim detail)

def HttpResponse.vectors (r : HttpResponse) (expected dimensions : Nat) :
    Except EmbedError (List Embedding) :=
  if r.isSuccess then
    match (Json.ofBytes? r.body).bind EmbeddingItem.listOfJson? with
    | some items => collectVectors items expected dimensions
    | none => .error (.transient "malformed embeddings response")
  else .error r.failure

end CodeIndex

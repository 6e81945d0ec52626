import Std.Data.ExtTreeMap
import CodeIndex.Digest.Fingerprint

namespace CodeIndex.Git

def fullScore : Nat := 60000

structure ChunkHash where
  high : UInt32 := 0
  low : UInt32 := 0
  size : Nat := 0

def ChunkHash.push (h : ChunkHash) (b : UInt8) : ChunkHash where
  high := ((h.high <<< 7) ^^^ (h.low >>> 25)) + b.toUInt32
  low := (h.low <<< 7) ^^^ (h.high >>> 25)
  size := h.size + 1

def ChunkHash.value (h : ChunkHash) : Nat := ((h.high + h.low * 0x61) % 107927).toNat

abbrev ChunkSizes := Std.ExtTreeMap Nat Nat

def addChunk (sizes : ChunkSizes) (h : ChunkHash) : ChunkSizes :=
  sizes.insert h.value (sizes.getD h.value 0 + h.size)

/-- The chunks of some bytes, where `chunk` is the one being read. In text a carriage return
before a line feed counts for nothing. -/
def chunksFrom (isText : Bool) (sizes : ChunkSizes) (chunk : ChunkHash) :
    List UInt8 → ChunkSizes
  | [] => if chunk.size = 0 then sizes else addChunk sizes chunk
  | b :: rest =>
    if isText && b == 13 && rest.head? == some 10 then chunksFrom isText sizes chunk rest
    else
      let grown := chunk.push b
      if b = 10 ∨ 64 ≤ grown.size then chunksFrom isText (addChunk sizes grown) {} rest
      else chunksFrom isText sizes grown rest

def chunks (content : ByteArray) : ChunkSizes :=
  chunksFrom (!Digest.isBinary content) ∅ {} content.toList

def sharedBytes (source target : ByteArray) : Nat :=
  let found := chunks target
  (chunks source).toList.foldl (fun n (hash, size) => n + min size (found.getD hash 0)) 0

/-- The similarity of two contents, out of `fullScore`; none if it cannot reach `least`. -/
def similarity (source target : ByteArray) (least : Nat) : Nat :=
  let larger := max source.size target.size
  let smaller := min source.size target.size
  if larger * (fullScore - least) < (larger - smaller) * fullScore then 0
  else if target.size = 0 then 0
  else sharedBytes source target * fullScore / larger

end CodeIndex.Git

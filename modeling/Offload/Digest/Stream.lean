import Offload.Failure
import Offload.Digest.Compression

namespace Offload.Digest

structure Stream where
  words : Words := Words.initial
  /-- The bytes since the last whole block, the latest first. -/
  pending : Bytes := []
  length : Nat := 0
  finished : Bool := false
  deriving Repr

namespace Stream

def push (stream : Stream) (byte : UInt8) : Stream :=
  if stream.length % 64 = 63 then
    { stream with
      words := compress stream.words (byte :: stream.pending).reverse
      pending := []
      length := stream.length + 1 }
  else
    { stream with pending := byte :: stream.pending, length := stream.length + 1 }

/-- Takes the bytes of a piece, also of an empty one, unless the digest has been read off. -/
def update (stream : Stream) (piece : Bytes) : Except Failure Stream :=
  if stream.finished then .error .digestFinished else .ok (piece.foldl push stream)

def hexDigest (stream : Stream) : Bytes × Stream :=
  (wordsHex ((padding stream.length).foldl push stream).words, { stream with finished := true })

def updateAll (stream : Stream) (pieces : List Bytes) : Except Failure Stream :=
  pieces.foldlM update stream

end Stream

end Offload.Digest

import Offload.Log
import Offload.Base64
import Offload.Digest.Compression
import Offload.Chunk.Strategy
import Offload.Chunk.Packing

namespace Offload

/-- A chunker's settings. The chunk size is positive, the bounds are in order and the delimiter of
records is not empty. -/
structure Chunker where
  chunkSize : UInt64 := 65536
  minSize : UInt64 := 1024
  maxSize : UInt64 := 1048576
  strategy : Strategy := .fixedSize
  delimiter : Bytes := [10, 10]
  chunkSize_pos : 0 < chunkSize := by decide
  min_le_max : minSize ≤ maxSize := by decide
  delimiter_ne : delimiter ≠ [] := by decide

structure ChunkInfo where
  index : Nat
  offset : Nat
  size : Nat
  hash : Bytes
  deriving DecidableEq, Repr

namespace Chunker

/-- The chunker with the given settings. The first setting that is out of order is named. -/
def make (chunkSize minSize maxSize : UInt64) (strategy : Strategy) (delimiter : Bytes) :
    Except Failure Chunker :=
  if hsize : 0 < chunkSize then
    if hbounds : minSize ≤ maxSize then
      if hdelimiter : delimiter ≠ [] then
        .ok ⟨chunkSize, minSize, maxSize, strategy, delimiter, hsize, hbounds, hdelimiter⟩
      else .error .emptyDelimiter
    else .error .chunkBoundsReversed
  else .error .zeroChunkSize

def adaptiveWindow : Nat := 1024

def newline : UInt8 := 10

/-- Pieces of the given size, cut while the offset, a 64-bit word, is below the total length. The
finished pieces are held backwards. -/
def piecesFrom (size total offset : UInt64) (hsize : 0 < size) (done : List Bytes) (data : Bytes) :
    List Bytes :=
  if data ≠ [] ∧ offset < total then
    piecesFrom size total (offset + size) hsize (data.take size.toNat :: done)
      (data.drop size.toNat)
  else done.reverse
termination_by data.length
decreasing_by
  have hpos : 0 < size.toNat := by simpa [UInt64.lt_iff_toNat_lt] using hsize
  have hdata : 0 < data.length := List.length_pos_iff.mpr (by simp_all)
  simp only [List.length_drop]
  omega

def splitFixed (chunker : Chunker) (data : Bytes) : List Bytes :=
  piecesFrom chunker.chunkSize data.length.toUInt64 0 chunker.chunkSize_pos [] data

def splitLines (chunker : Chunker) (data : Bytes) : List Bytes :=
  Packing.chunks chunker.chunkSize.toNat [newline] data

def splitRecords (chunker : Chunker) (data : Bytes) : List Bytes :=
  Packing.chunks chunker.chunkSize.toNat chunker.delimiter data

def splitRecordsBy (chunker : Chunker) (delimiter data : Bytes) : Except Failure (List Bytes) :=
  if delimiter = [] then .error .emptyDelimiter
  else .ok (Packing.chunks chunker.chunkSize.toNat delimiter data)

/-- Lines if a newline lies in the window at the front, else pieces of fixed size. -/
def splitAdaptive (chunker : Chunker) (data : Bytes) : List Bytes :=
  if (data.take adaptiveWindow).contains newline then chunker.splitLines data
  else chunker.splitFixed data

def splitAs (chunker : Chunker) (strategy : Strategy) (data : Bytes) : List Bytes :=
  match strategy with
  | .fixedSize => chunker.splitFixed data
  | .lineBased => chunker.splitLines data
  | .recordBased => chunker.splitRecords data
  | .adaptive => chunker.splitAdaptive data

def split (chunker : Chunker) (data : Bytes) : List Bytes := chunker.splitAs chunker.strategy data

def merge (chunks : List Bytes) : Bytes := chunks.flatten

def infoFrom (index offset : Nat) (done : List (Bytes × ChunkInfo)) :
    List Bytes → List (Bytes × ChunkInfo)
  | [] => done.reverse
  | chunk :: rest =>
    infoFrom (index + 1) (offset + chunk.length)
      ((chunk, ⟨index, offset, chunk.length, Digest.sha256Hex chunk⟩) :: done) rest

def splitWithInfo (chunker : Chunker) (data : Bytes) : List (Bytes × ChunkInfo) :=
  infoFrom 0 0 [] (chunker.split data)

/-- Whether chunks make up a payload with the given hash. A mismatch is logged. -/
def verifyIntegrity (chunks : List Bytes) (expected : Bytes) : Logged Bool :=
  let actual := Digest.sha256Hex (merge chunks)
  if actual = expected then ⟨true, []⟩
  else
    ⟨false, [.warning (utf8 "Chunk integrity check failed: expected " ++ expected ++ utf8 ", got "
      ++ actual)]⟩

/-- How many pieces of fixed size a payload of the given length has, and one for an empty payload.
The sum that rounds up wraps around. -/
def estimateChunks (chunker : Chunker) (size : UInt64) : UInt64 :=
  max 1 ((size + chunker.chunkSize - 1) / chunker.chunkSize)

/-- The chunk size that cuts a payload into about the given number of pieces, kept between the
chunker's bounds. -/
def suggestSize (chunker : Chunker) (size target : UInt64) : Except Failure UInt64 :=
  if target = 0 then .error .zeroTargetCount
  else .ok (max chunker.minSize (min (size / target) chunker.maxSize))

def encodeForTransmission (data : Bytes) : Except Failure Bytes := Base64.encode data

def decodeFromTransmission (text : Bytes) : Except Failure Bytes := Base64.decode text

end Chunker

end Offload

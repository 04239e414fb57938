import Offload.Digest.Stream

namespace Offload.Identity

def prefixLength : Nat := 1024

def digested (name input : Bytes) : Bytes := name ++ input.take prefixLength

/-- The identity of a job: a mark and the first 16 digits of the digest. -/
def make (name input : Bytes) : Bytes :=
  let stream : Digest.Stream := (input.take prefixLength).foldl Digest.Stream.push
    (name.foldl Digest.Stream.push {})
  utf8 "job-" ++ stream.hexDigest.1.take 16

end Offload.Identity

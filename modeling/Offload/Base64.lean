import Offload.Failure

namespace Offload.Base64

def digitChar (n : Nat) : UInt8 :=
  if n < 26 then 65 + n.toUInt8
  else if n < 52 then 71 + n.toUInt8
  else if n < 62 then n.toUInt8 - 4
  else if n = 62 then 43
  else 47

def digitOf? (c : UInt8) : Option Nat :=
  if 65 ≤ c ∧ c ≤ 90 then some (c.toNat - 65)
  else if 97 ≤ c ∧ c ≤ 122 then some (c.toNat - 71)
  else if 48 ≤ c ∧ c ≤ 57 then some (c.toNat + 4)
  else if c = 43 then some 62
  else if c = 47 then some 63
  else none

def padMark : UInt8 := 61

def groupChars (a b c : UInt8) : Bytes :=
  let n := a.toNat * 65536 + b.toNat * 256 + c.toNat
  [digitChar (n / 262144), digitChar (n / 4096 % 64), digitChar (n / 64 % 64), digitChar (n % 64)]

/-- The text of the last one or two bytes, filled to a whole group. -/
def tailChars : Bytes → Bytes
  | [a] => (groupChars a 0 0).take 2 ++ [padMark, padMark]
  | [a, b] => (groupChars a b 0).take 3 ++ [padMark]
  | _ => []

/-- Writes groups behind a text that is held backwards. -/
def encodeOnto (done : Bytes) : Bytes → Bytes
  | a :: b :: c :: rest => encodeOnto ((groupChars a b c).reverse ++ done) rest
  | tail => done.reverse ++ tailChars tail

def write (data : Bytes) : Bytes := encodeOnto [] data

private theorem encodeOnto_tail (done : Bytes) {tail : Bytes} (hshort : tail.length < 3) :
    encodeOnto done tail = done.reverse ++ tailChars tail := by
  match tail, hshort with
  | [], _ => simp only [encodeOnto]
  | [a], _ => simp only [encodeOnto]
  | [a, b], _ => simp only [encodeOnto]
  | a :: b :: c :: rest, hshort => simp only [List.length_cons] at hshort; omega

theorem write_tail {tail : Bytes} (hshort : tail.length < 3) : write tail = tailChars tail := by
  rw [write, encodeOnto_tail [] hshort]
  generalize tailChars tail = text
  rfl

private theorem encodeOnto_eq (data : Bytes) :
    ∀ done : Bytes, encodeOnto done data = done.reverse ++ write data := by
  match data with
  | a :: b :: c :: rest =>
    intro done
    rw [write, encodeOnto, encodeOnto, encodeOnto_eq rest,
      encodeOnto_eq rest ((groupChars a b c).reverse ++ [])]
    generalize groupChars a b c = chars
    simp
  | [] => intro done; rw [encodeOnto_tail done (by simp), write_tail (by simp)]
  | [a] => intro done; rw [encodeOnto_tail done (by simp), write_tail (by simp)]
  | [a, b] => intro done; rw [encodeOnto_tail done (by simp), write_tail (by simp)]

theorem write_cons (a b c : UInt8) (rest : Bytes) :
    write (a :: b :: c :: rest) = groupChars a b c ++ write rest := by
  rw [write, encodeOnto, encodeOnto_eq]
  generalize groupChars a b c = chars
  simp

/-- The length that the codec is told: a word of 32 bits with a sign. Below zero there is nothing to
read or write. -/
def told (length : Nat) : Nat := length.toInt32.toInt.toNat

theorem told_eq {length : Nat} (hword : length < 2147483648) : told length = length := by
  rw [told, Nat.toInt32, Int32.toInt_ofNat_of_lt hword, Int.toNat_natCast]

theorem told_lt (length : Nat) : told length < 2147483648 := by
  have hword := length.toInt32.toInt_lt
  rw [told]
  omega

theorem told_mod {length : Nat} (hgroups : length % 4 = 0) : told length % 4 = 0 := by
  rw [told, Nat.toInt32, Int32.toInt_ofNat', Int32.size, Int.bmod_def]
  omega

/-- The part of a text or of bytes that the codec is told of. -/
def part (data : Bytes) : Bytes := data.take (told data.length)

theorem part_eq {data : Bytes} (hword : data.length < 2147483648) : part data = data := by
  rw [part, told_eq hword, List.take_length]

/-- The base64 text of bytes. -/
def text (data : Bytes) : Bytes := write (part data)

/-- The length of the text is beyond a word with a sign. -/
def overlong (data : Bytes) : Bool := 1610612733 < told data.length

def encode (data : Bytes) : Except Failure Bytes :=
  if overlong data then .error .base64Overlong else .ok (text data)

/-- What the reader drops at the front. -/
def isBlank (c : UInt8) : Bool := c = 32 || c = 9

/-- What the reader drops at the back. -/
def isTrailer (c : UInt8) : Bool := c = 32 || c = 9 || c = 10 || c = 13 || c = 45

/-- Drops trailers from the front of a text held backwards, as long as more than three characters
of the given number remain. -/
def dropTrailers : Nat → Bytes → Bytes
  | n + 1, c :: rest => if 3 < n + 1 ∧ isTrailer c then dropTrailers n rest else c :: rest
  | _, text => text

def trim (text : Bytes) : Bytes :=
  let front := text.dropWhile isBlank
  (dropTrailers front.length front.reverse).reverse

/-- The digit that the reader takes for a character; the pad mark counts as zero. -/
def readDigit? (c : UInt8) : Option Nat := if c = padMark then some 0 else digitOf? c

def groupBytes (w x y z : Nat) : Bytes :=
  let n := w * 262144 + x * 4096 + y * 64 + z
  [(n / 65536).toUInt8, (n / 256 % 256).toUInt8, (n % 256).toUInt8]

/-- Reads groups of four behind bytes that are held backwards. -/
def readGroupsOnto (done : Bytes) : Bytes → Option Bytes
  | [] => some done.reverse
  | a :: b :: c :: d :: rest =>
    match readDigit? a, readDigit? b, readDigit? c, readDigit? d with
    | some w, some x, some y, some z => readGroupsOnto ((groupBytes w x y z).reverse ++ done) rest
    | _, _, _, _ => none
  | _ => none

def readGroups (text : Bytes) : Option Bytes := readGroupsOnto [] (trim text)

def padCount (text : Bytes) : Nat :=
  ((text.reverse.take 2).filter (· = padMark)).length

def decode (text : Bytes) : Except Failure Bytes :=
  if text = [] then .ok []
  else if text.length % 4 ≠ 0 then .error .base64Length
  else
    match readGroups (part text) with
    | none => .error .base64Malformed
    | some written =>
      if written.length < padCount text then .error .base64Overrun
      else .ok (written.take (written.length - padCount text))

end Offload.Base64

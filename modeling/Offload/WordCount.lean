import Offload.Job.Definition

namespace Offload.WordCount

/-- White space: blank, tab, newline, vertical tab, form feed and carriage return. -/
def isSpace (b : UInt8) : Bool := b = 32 || (9 ≤ b && b ≤ 13)

def countFrom (inWord : Bool) (count : Nat) : Bytes → Nat
  | [] => count
  | b :: rest =>
    if isSpace b then countFrom false count rest
    else countFrom true (if inWord then count else count + 1) rest

def count (text : Bytes) : Nat := countFrom false 0 text

def countText (chunk : Bytes) : Bytes := Bytes.decimal (count chunk)

/-- The 64-bit number at the front of a text, behind white space and a sign. A minus sign negates
it modulo 2⁶⁴. -/
def readNumber (text : Bytes) : Except Failure UInt64 :=
  let body := text.dropWhile isSpace
  let sign := body.head?
  let unsigned := if sign = some 43 ∨ sign = some 45 then body.drop 1 else body
  let digits := unsigned.takeWhile Bytes.isDigit
  let n := Bytes.ofDigits digits
  if digits = [] then .error (.raised .argument (utf8 "stoull"))
  else if UInt64.size ≤ n then .error (.raised .range (utf8 "stoull"))
  else .ok (if sign = some 45 then 0 - n.toUInt64 else n.toUInt64)

/-- The sum of numbers given as texts, modulo 2⁶⁴, as decimal text. -/
def sumTexts (texts : List Bytes) : Except Failure Bytes := do
  let total ← texts.foldlM (fun sum text => return sum + (← readNumber text)) (0 : UInt64)
  return Bytes.decimal total.toNat

/-- The job that counts the words of an input, cut into groups of whole lines by a chunker. -/
def job (lines : Chunker) (source : Bytes) : Definition where
  name := utf8 "word-count"
  splitFunction := some fun data => .done (lines.split data)
  executeFunction := some fun chunk => .done (countText chunk)
  mergeFunction := some fun counts => .ofExcept (sumTexts counts)
  metadata := [(utf8 "source", .string source)]
  name_ne := by decide

end Offload.WordCount

/-!
# Text from bytes

A byte sequence is taken apart from left to right.  The first byte of a character says how many
bytes follow and within which limits the first of them lies; all others lie between `0x80` and
`0xBF`.  Bytes that begin a character and break off are one fault together, and any other byte that
begins no character is a fault by itself.

A sequence is text when it has no fault.  Where text is wanted at any price, every fault becomes
one replacement character.
-/

namespace CalendarCommand.Text

/-- What the first byte of a character says: its share of the code point, the number of bytes that
follow, and the limits of the first of them. -/
structure Lead where
  share : Nat
  more : Nat
  low : Nat
  high : Nat
deriving DecidableEq, Repr

def Lead.ofByte? (byte : Nat) : Option Lead :=
  if byte < 0x80 then some { share := byte, more := 0, low := 0x80, high := 0xBF }
  else if byte < 0xC2 then none
  else if byte < 0xE0 then some { share := byte - 0xC0, more := 1, low := 0x80, high := 0xBF }
  else if byte < 0xF0 then
    some
      { share := byte - 0xE0, more := 2
        low := if byte = 0xE0 then 0xA0 else 0x80
        high := if byte = 0xED then 0x9F else 0xBF }
  else if byte < 0xF5 then
    some
      { share := byte - 0xF0, more := 3
        low := if byte = 0xF0 then 0x90 else 0x80
        high := if byte = 0xF4 then 0x8F else 0xBF }
  else none

/-- Goes on with a code point by a number of bytes, the first of them within limits.  The code
point is absent where the bytes break off; the bytes behind are left. -/
def takeMore (code : Nat) : Nat → Nat → Nat → List UInt8 → Option Nat × List UInt8
  | 0, _, _, bytes => (some code, bytes)
  | _ + 1, _, _, [] => (none, [])
  | more + 1, low, high, byte :: bytes =>
    if low ≤ byte.toNat ∧ byte.toNat ≤ high then
      takeMore (code * 64 + (byte.toNat - 0x80)) more 0x80 0xBF bytes
    else (none, byte :: bytes)

theorem length_takeMore_le (code more low high : Nat) (bytes : List UInt8) :
    (takeMore code more low high bytes).2.length ≤ bytes.length := by
  fun_induction takeMore code more low high bytes with
  | case1 => exact Nat.le_refl _
  | case2 => exact Nat.le_refl _
  | case3 code more low high byte bytes _ ih =>
    simp only [List.length_cons]
    omega
  | case4 => exact Nat.le_refl _

/-- The characters of bytes, with an absent one for every fault. -/
def ofBytes : List UInt8 → List (Option Char)
  | [] => []
  | byte :: bytes =>
    match Lead.ofByte? byte.toNat with
    | none => none :: ofBytes bytes
    | some lead =>
      ((takeMore lead.share lead.more lead.low lead.high bytes).1.map Char.ofNat) ::
        ofBytes (takeMore lead.share lead.more lead.low lead.high bytes).2
termination_by bytes => bytes.length
decreasing_by
  · simp
  · have := length_takeMore_le lead.share lead.more lead.low lead.high bytes
    simp only [List.length_cons]
    omega

def ofBytes? (bytes : List UInt8) : Option String :=
  ((ofBytes bytes).mapM id).map String.ofList

/-- The text of bytes with a replacement character for every fault. -/
def ofBytesLossy (bytes : List UInt8) : String :=
  String.ofList ((ofBytes bytes).map fun c => c.getD '\uFFFD')

end CalendarCommand.Text

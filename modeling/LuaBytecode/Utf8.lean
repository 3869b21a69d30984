/-!
# Text from bytes

Bytes are read as UTF-8 whatever they are.  Where no character begins, what could
have become one, up to the first byte that does not fit, gives way to a
replacement character; a byte that begins no character does so by itself.

**Contents.**
* `Utf8.brokenLength`: how many bytes give way to one replacement character.
* `Utf8.decode`: bytes as text.
-/

namespace LuaBytecode
namespace Utf8

/-- What stands for bytes that are no text. -/
def replacement : Char :=
  '\uFFFD'

/-- A byte that can stand inside a character. -/
def isContinuation
    (byte : UInt8) : Bool :=
  0x80 ≤ byte && byte ≤ 0xBF

/-- Whether a character of three or four bytes may have `lead` and `second` as its first bytes. -/
def mayFollow
    (lead : UInt8)
    (second : UInt8) : Bool :=
  if lead == 0xE0 then
    0xA0 ≤ second && second ≤ 0xBF
  else if lead == 0xED then
    0x80 ≤ second && second ≤ 0x9F
  else if lead == 0xF0 then
    0x90 ≤ second && second ≤ 0xBF
  else if lead == 0xF4 then
    0x80 ≤ second && second ≤ 0x8F
  else
    0xE1 ≤ lead && lead ≤ 0xF3 && isContinuation second

/-- The number of bytes from `start` on that could begin a character, but at least one. -/
def brokenLength
    (bytes : ByteArray)
    (start : Nat) : Nat :=
  match bytes[start]?, bytes[start + 1]?, bytes[start + 2]? with
  | some lead, some second, third =>
      if mayFollow lead second then
        if 0xF0 ≤ lead && third.any isContinuation then 3 else 2
      else
        1
  | _, _, _ => 1

theorem brokenLength_pos
    (bytes : ByteArray)
    (start : Nat) :
    0 < brokenLength bytes start := by
  rw [brokenLength]
  split
  · split
    · split <;> decide
    · decide
  · decide

/-- Text, and behind it that of the bytes from `start` on. -/
def decodeOnto
    (text : String)
    (bytes : ByteArray)
    (start : Nat) : String :=
  if start < bytes.size then
    match bytes.utf8DecodeChar? start with
    | some char => decodeOnto (text.push char) bytes (start + char.utf8Size)
    | none => decodeOnto (text.push replacement) bytes (start + brokenLength bytes start)
  else
    text
  termination_by bytes.size - start
  decreasing_by
    · have := char.utf8Size_pos
      omega
    · have := brokenLength_pos bytes start
      omega

/-- The text of bytes. -/
def decode
    (bytes : ByteArray) : String :=
  decodeOnto "" bytes 0

end Utf8
end LuaBytecode

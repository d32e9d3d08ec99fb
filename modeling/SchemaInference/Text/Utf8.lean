/-!
Strict reading of UTF-8. A refusal names the bytes at fault: a byte that starts no character, a
sequence broken by a byte that does not continue it, or a sequence cut off by the end.
-/

namespace SchemaInference.Text

/-- Why bytes are not UTF-8. -/
inductive Utf8Cause where
  | startByte
  | continuation
  | truncated
  deriving DecidableEq, Repr

/-- The first place where bytes are not UTF-8, with the bytes at fault. -/
structure Utf8Fault where
  position : Nat
  bytes : List UInt8
  cause : Utf8Cause
  deriving DecidableEq, Repr

namespace Utf8Fault

/-- The words for a cause. -/
def reason : Utf8Cause → String
  | .startByte => "invalid start byte"
  | .continuation => "invalid continuation byte"
  | .truncated => "unexpected end of data"

/-- A byte as two hexadecimal digits. -/
def hexByte (b : UInt8) : String :=
  let digits := Nat.toDigits 16 b.toNat
  String.ofList (List.replicate (2 - digits.length) '0' ++ digits)

/-- One byte at fault is shown, several are given by their positions. -/
def message (fault : Utf8Fault) : String :=
  match fault.bytes with
  | [b] =>
    "'utf-8' codec can't decode byte 0x" ++ hexByte b ++ " in position " ++ toString fault.position
      ++ ": " ++ reason fault.cause
  | bytes =>
    "'utf-8' codec can't decode bytes in position " ++ toString fault.position ++ "-"
      ++ toString (fault.position + bytes.length - 1) ++ ": " ++ reason fault.cause

end Utf8Fault

/-- Whether a byte can only stand after the first of a character. -/
def continues (b : UInt8) : Bool := 0x80 ≤ b && b < 0xC0

/-- The six bits that such a byte adds to a character. -/
def tail6 (b : UInt8) : Nat := b.toNat % 64

/-- Whether `second` may follow the leading byte `first`: no overlong form, no surrogate, nothing
past the last code point. -/
def admits (first second : UInt8) : Bool :=
  continues second && !(first == 0xE0 && second < 0xA0) && !(first == 0xED && 0xA0 ≤ second)
    && !(first == 0xF0 && second < 0x90) && !(first == 0xF4 && 0x90 ≤ second)

/-- The characters of UTF-8 bytes that start at `position`, after the reversed `done`. -/
def decodeUtf8From (position : Nat) (done : List Char) : List UInt8 → Except Utf8Fault (List Char)
  | [] => .ok done.reverse
  | b :: rest =>
    if b < 0x80 then decodeUtf8From (position + 1) (Char.ofNat b.toNat :: done) rest
    else if b < 0xC2 then .error ⟨position, [b], .startByte⟩
    else if b < 0xE0 then
      match rest with
      | [] => .error ⟨position, [b], .truncated⟩
      | c :: rest =>
        if continues c then
          decodeUtf8From (position + 2) (Char.ofNat (b.toNat % 32 * 64 + tail6 c) :: done) rest
        else .error ⟨position, [b], .continuation⟩
    else if b < 0xF0 then
      match rest with
      | [] => .error ⟨position, [b], .truncated⟩
      | c :: rest =>
        if !admits b c then .error ⟨position, [b], .continuation⟩ else
        match rest with
        | [] => .error ⟨position, [b, c], .truncated⟩
        | d :: rest =>
          if continues d then
            decodeUtf8From (position + 3)
              (Char.ofNat ((b.toNat % 16 * 64 + tail6 c) * 64 + tail6 d) :: done) rest
          else .error ⟨position, [b, c], .continuation⟩
    else if b < 0xF5 then
      match rest with
      | [] => .error ⟨position, [b], .truncated⟩
      | c :: rest =>
        if !admits b c then .error ⟨position, [b], .continuation⟩ else
        match rest with
        | [] => .error ⟨position, [b, c], .truncated⟩
        | d :: rest =>
          if !continues d then .error ⟨position, [b, c], .continuation⟩ else
          match rest with
          | [] => .error ⟨position, [b, c, d], .truncated⟩
          | e :: rest =>
            if continues e then
              decodeUtf8From (position + 4)
                (Char.ofNat (((b.toNat % 8 * 64 + tail6 c) * 64 + tail6 d) * 64 + tail6 e) :: done)
                rest
            else .error ⟨position, [b, c, d], .continuation⟩
    else .error ⟨position, [b], .startByte⟩

/-- The characters of UTF-8 bytes, or the first fault. -/
def decodeUtf8 (bytes : List UInt8) : Except Utf8Fault (List Char) := decodeUtf8From 0 [] bytes

end SchemaInference.Text

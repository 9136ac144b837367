import LuaSyntax.Text.Basic

/-!
# Bytes and characters

A quoted string denotes bytes: its escapes can name any byte, and its plain characters stand for
their UTF-8 encoding. What the tree holds is a text, so the bytes have to be read back. Bytes that
are UTF-8 are decoded; if they are not, every byte becomes the character of its number. Which of the
two happened cannot be told from the text alone.

`encode` takes any code point, half a surrogate pair included, because an escape may name one. Its
bytes are then no UTF-8, and `decode?` refuses them along with overlong forms and numbers beyond the
last code point.
-/

namespace LuaSyntax.Utf8

/-- The bytes of a code point, by the scheme of UTF-8. -/
def encode (code : Nat) : List UInt8 :=
  if code < 0x80 then [UInt8.ofNat code]
  else if code < 0x800 then
    [UInt8.ofNat (0xC0 + code / 0x40), UInt8.ofNat (0x80 + code % 0x40)]
  else if code < 0x10000 then
    [UInt8.ofNat (0xE0 + code / 0x1000), UInt8.ofNat (0x80 + code / 0x40 % 0x40),
      UInt8.ofNat (0x80 + code % 0x40)]
  else
    [UInt8.ofNat (0xF0 + code / 0x40000), UInt8.ofNat (0x80 + code / 0x1000 % 0x40),
      UInt8.ofNat (0x80 + code / 0x40 % 0x40), UInt8.ofNat (0x80 + code % 0x40)]

/-- Whether a byte goes on with a character that an earlier byte began. -/
def isTail (byte : UInt8) : Bool := 0x80 ≤ byte && byte < 0xC0

/-- The six bits that a byte adds to a character begun earlier. -/
def tailBits (byte : UInt8) : Nat := byte.toNat % 0x40

/-- The characters that a row of bytes encodes, if it encodes any. -/
def decode? : List UInt8 → Option Text
  | [] => some []
  | a :: rest =>
    if a < 0x80 then (decode? rest).map (Char.ofNat a.toNat :: ·)
    else match rest with
      | [] => none
      | b :: rest =>
        if !(isTail b) || a < 0xC2 then none
        else if a < 0xE0 then
          (decode? rest).map (Char.ofNat ((a.toNat - 0xC0) * 0x40 + tailBits b) :: ·)
        else match rest with
          | [] => none
          | c :: rest =>
            if !(isTail c) then none
            else if a < 0xF0 then
              let code := ((a.toNat - 0xE0) * 0x40 + tailBits b) * 0x40 + tailBits c
              if code < 0x800 || (0xD800 ≤ code && code < 0xE000) then none
              else (decode? rest).map (Char.ofNat code :: ·)
            else match rest with
              | [] => none
              | d :: rest =>
                if !(isTail d) || 0xF5 ≤ a then none
                else
                  let code := (((a.toNat - 0xF0) * 0x40 + tailBits b) * 0x40 + tailBits c) * 0x40
                    + tailBits d
                  if code < 0x10000 || 0x110000 ≤ code then none
                  else (decode? rest).map (Char.ofNat code :: ·)

/-- The text that stands for a row of bytes: their decoding, or one character for each byte. -/
def readable (bytes : List UInt8) : Text :=
  (decode? bytes).getD (bytes.map fun byte => Char.ofNat byte.toNat)

end LuaSyntax.Utf8

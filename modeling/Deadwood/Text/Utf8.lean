/-!
# UTF-8

Bytes as text. `pieces` cuts bytes into characters and bad stretches: a bad stretch is as long as it could
have begun a character, so nothing is passed over that stands for itself. A strict reader reports the first bad
stretch, a lenient one puts a replacement character for each.
-/

set_option autoImplicit false
namespace Deadwood

abbrev Bytes := List UInt8

namespace Text

/-- A character that has begun: its bits so far, how many bytes it still needs, the bounds of the next one, and
how many bytes it has. -/
structure Begun where
  bits : Nat
  owed : Nat
  least : Nat
  greatest : Nat
  taken : Nat
  deriving Repr

inductive BadBytes where
  | invalidStart
  | invalidContinuation
  | unexpectedEnd
  deriving Repr, DecidableEq

/-- A character or a bad stretch of so many bytes. -/
inductive Piece where
  | char (c : Char) (length : Nat)
  | bad (reason : BadBytes) (length : Nat)
  deriving Repr

/-- What a first byte begins. The bounds of the second byte leave out overlong forms, surrogates, and what lies
beyond the last code point. -/
def begin? (byte : Nat) : Option Begun :=
  if byte < 0xc2 then none
  else if byte < 0xe0 then some ⟨byte - 0xc0, 1, 0x80, 0xbf, 1⟩
  else if byte < 0xf0 then
    some ⟨byte - 0xe0, 2, if byte = 0xe0 then 0xa0 else 0x80, if byte = 0xed then 0x9f else 0xbf, 1⟩
  else if byte < 0xf5 then
    some ⟨byte - 0xf0, 3, if byte = 0xf0 then 0x90 else 0x80, if byte = 0xf4 then 0x8f else 0xbf, 1⟩
  else none

def stepFresh (byte : Nat) : List Piece × Option Begun :=
  if byte < 0x80 then ([.char (Char.ofNat byte) 1], none)
  else
    match begin? byte with
    | some begun => ([], some begun)
    | none => ([.bad .invalidStart 1], none)

def stepByte (begun : Option Begun) (byte : Nat) : List Piece × Option Begun :=
  match begun with
  | none => stepFresh byte
  | some begun =>
    if begun.least ≤ byte && byte ≤ begun.greatest then
      let bits := begun.bits * 64 + (byte - 0x80)
      if begun.owed = 1 then ([.char (Char.ofNat bits) (begun.taken + 1)], none)
      else ([], some ⟨bits, begun.owed - 1, 0x80, 0xbf, begun.taken + 1⟩)
    else
      let (pieces, next) := stepFresh byte
      (.bad .invalidContinuation begun.taken :: pieces, next)

def piecesFrom (begun : Option Begun) : Bytes → List Piece
  | [] =>
    match begun with
    | some begun => [.bad .unexpectedEnd begun.taken]
    | none => []
  | byte :: rest =>
    let (pieces, next) := stepByte begun byte.toNat
    pieces ++ piecesFrom next rest

def pieces (bytes : Bytes) : List Piece :=
  piecesFrom none bytes

def decodeLeniently (bytes : Bytes) : List Char :=
  (pieces bytes).map fun
    | .char c _ => c
    | .bad _ _ => Char.ofNat 0xfffd

/-- Where and why bytes are no text. `first` is the first byte of the bad stretch. -/
structure DecodeError where
  reason : BadBytes
  start : Nat
  length : Nat
  first : Nat
  deriving Repr, DecidableEq

def DecodeError.message (error : DecodeError) : String :=
  let reason := match error.reason with
    | .invalidStart => "invalid start byte"
    | .invalidContinuation => "invalid continuation byte"
    | .unexpectedEnd => "unexpected end of data"
  let place :=
    if error.length = 1 then
      "byte 0x" ++ String.ofList (Nat.toDigits 16 error.first) ++ " in position " ++ toString error.start
    else
      "bytes in position " ++ toString error.start ++ "-" ++ toString (error.start + error.length - 1)
  "'utf-8' codec can't decode " ++ place ++ ": " ++ reason

def charsOf (position : Nat) : List Piece → Except (BadBytes × Nat × Nat) (List Char)
  | [] => .ok []
  | .char c length :: rest => (c :: ·) <$> charsOf (position + length) rest
  | .bad reason length :: _ => .error (reason, position, length)

def decode (bytes : Bytes) : Except DecodeError (List Char) :=
  match charsOf 0 (pieces bytes) with
  | .ok text => .ok text
  | .error (reason, start, length) => .error ⟨reason, start, length, (bytes[start]?.getD 0).toNat⟩

def encode (text : List Char) : Bytes :=
  text.flatMap String.utf8EncodeChar

end Text
end Deadwood

import ProjectReview.Text.Blank
import ProjectReview.Text.Quoted

set_option autoImplicit false

/-! # UTF-8

`decodeUtf8` reads bytes as UTF-8 text and accepts exactly well-formed input: no overlong forms, no
surrogates, nothing above the last code point. It says where and why the first malformed sequence
stands. `encodeUtf8` is its counterpart, and `readText` is how the library reads a text file:
decoded, with every line end read as a line feed. -/

namespace ProjectReview

/-- The content of a file. -/
abbrev Bytes := List UInt8

/-- What is wrong with a byte sequence. -/
inductive Utf8Problem where
  | invalidStart
  | invalidContinuation
  | unexpectedEnd
deriving DecidableEq, Repr

/-- The first malformed sequence of some bytes: its problem, its first byte, the position of that
byte and the position after the sequence. -/
structure Utf8Fault where
  problem : Utf8Problem
  byte : UInt8
  start : Nat
  stop : Nat
deriving DecidableEq, Repr

namespace Utf8Fault

/-- The wording of a decoding fault. -/
def message (fault : Utf8Fault) : String :=
  let reason := match fault.problem with
    | .invalidStart => "invalid start byte"
    | .invalidContinuation => "invalid continuation byte"
    | .unexpectedEnd => "unexpected end of data"
  let place :=
    if fault.stop = fault.start + 1 then
      "byte 0x" ++ String.ofList (hexDigits 2 fault.byte.toNat) ++ " in position " ++
        toString fault.start
    else "bytes in position " ++ toString fault.start ++ "-" ++ toString (fault.stop - 1)
  "'utf-8' codec can't decode " ++ place ++ ": " ++ reason

end Utf8Fault

/-- A byte that continues a sequence. -/
def isContinuation (b : UInt8) : Bool :=
  decide (0x80 ≤ b.toNat) && decide (b.toNat < 0xc0)

/-- The second byte may follow the first one: it continues the sequence, and the two do not start an
overlong form, a surrogate or a code point that is too great. -/
def mayFollow (first second : UInt8) : Bool :=
  isContinuation second &&
    (match first.toNat with
      | 0xe0 => decide (0xa0 ≤ second.toNat)
      | 0xed => decide (second.toNat < 0xa0)
      | 0xf0 => decide (0x90 ≤ second.toNat)
      | 0xf4 => decide (second.toNat < 0x90)
      | _ => true)

/-- The number of bytes in the sequence that a byte starts; zero when it starts none. -/
def sequenceLength (b : UInt8) : Nat :=
  let n := b.toNat
  if n < 0x80 then 1 else if n < 0xc2 then 0 else if n < 0xe0 then 2 else if n < 0xf0 then 3
  else if n < 0xf5 then 4 else 0

/-- The six payload bits of a continuation byte. -/
def payload (b : UInt8) : Nat :=
  b.toNat % 64

/-- Decodes the sequence that starts with `first` at position `start`: the character and the number
of bytes it takes. -/
def decodeFront (start : Nat) (first : UInt8) (rest : Bytes) : Except Utf8Fault (Char × Nat) :=
  let fault (problem : Utf8Problem) (size : Nat) : Except Utf8Fault (Char × Nat) :=
    .error ⟨problem, first, start, start + size⟩
  match sequenceLength first with
  | 1 => .ok (Char.ofNat first.toNat, 1)
  | 2 => match rest with
    | [] => fault .unexpectedEnd 1
    | b :: _ =>
      if mayFollow first b then .ok (Char.ofNat (first.toNat % 32 * 64 + payload b), 2)
      else fault .invalidContinuation 1
  | 3 => match rest with
    | [] => fault .unexpectedEnd 1
    | b :: rest =>
      if !mayFollow first b then fault .invalidContinuation 1
      else match rest with
        | [] => fault .unexpectedEnd 2
        | c :: _ =>
          if isContinuation c then
            .ok (Char.ofNat ((first.toNat % 16 * 64 + payload b) * 64 + payload c), 3)
          else fault .invalidContinuation 2
  | 4 => match rest with
    | [] => fault .unexpectedEnd 1
    | b :: rest =>
      if !mayFollow first b then fault .invalidContinuation 1
      else match rest with
        | [] => fault .unexpectedEnd 2
        | c :: rest =>
          if !isContinuation c then fault .invalidContinuation 2
          else match rest with
            | [] => fault .unexpectedEnd 3
            | d :: _ =>
              if isContinuation d then
                .ok (Char.ofNat
                  (((first.toNat % 8 * 64 + payload b) * 64 + payload c) * 64 + payload d), 4)
              else fault .invalidContinuation 3
  | _ => fault .invalidStart 1

/-- Decodes bytes from a position on, skipping the bytes that the sequence before still covers. -/
def decodeFrom : Nat → Nat → Bytes → Except Utf8Fault (List Char)
  | _, _, [] => .ok []
  | start, skip + 1, _ :: rest => decodeFrom (start + 1) skip rest
  | start, 0, first :: rest =>
    match decodeFront start first rest with
    | .error fault => .error fault
    | .ok (c, size) =>
      match decodeFrom (start + 1) (size - 1) rest with
      | .error fault => .error fault
      | .ok cs => .ok (c :: cs)

/-- The text that bytes encode. -/
def decodeUtf8 (bytes : Bytes) : Except Utf8Fault String :=
  (decodeFrom 0 0 bytes).map String.ofList

/-- The bytes of one character. -/
def encodeChar (c : Char) : Bytes :=
  let n := c.toNat
  let byte (k : Nat) : UInt8 := k.toUInt8
  if n < 0x80 then [byte n]
  else if n < 0x800 then [byte (0xc0 + n / 64), byte (0x80 + n % 64)]
  else if n < 0x10000 then
    [byte (0xe0 + n / 4096), byte (0x80 + n / 64 % 64), byte (0x80 + n % 64)]
  else
    [byte (0xf0 + n / 262144), byte (0x80 + n / 4096 % 64), byte (0x80 + n / 64 % 64),
      byte (0x80 + n % 64)]

/-- The bytes that encode a text. -/
def encodeUtf8 (s : String) : Bytes :=
  s.toList.flatMap encodeChar

/-- The number of bytes that encode some characters. -/
def utf8Length (cs : List Char) : Nat :=
  (cs.flatMap encodeChar).length

/-- The text of a file: decoded, with every line end read as a line feed. -/
def readText (bytes : Bytes) : Except Utf8Fault String :=
  (decodeUtf8 bytes).map fun s => String.ofList (unifyLineEnds s.toList)

end ProjectReview

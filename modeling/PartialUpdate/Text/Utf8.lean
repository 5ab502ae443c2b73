import PartialUpdate.Text.Quoted

/-!
Reading of UTF-8. The first byte of a character fixes how many bytes follow it and the range of
the next one; every later byte is a plain continuation byte. A fault names its first byte and how
many bytes belong to it.
-/

set_option autoImplicit false

namespace PartialUpdate.Utf8

inductive Problem where
  | badStart
  | badContinuation
  | endOfText
  deriving DecidableEq

def Problem.text : Problem → String
  | badStart => "invalid start byte"
  | badContinuation => "invalid continuation byte"
  | endOfText => "unexpected end of data"

structure Fault where
  problem : Problem
  start : Nat
  bytes : List UInt8

def Fault.message (fault : Fault) : String :=
  match fault.bytes with
  | [byte] =>
    s!"'utf-8' codec can't decode byte 0x{String.ofList (Text.hexDigits 2 byte.toNat)} " ++
      s!"in position {fault.start}: {fault.problem.text}"
  | bytes =>
    s!"'utf-8' codec can't decode bytes in position {fault.start}-" ++
      s!"{fault.start + bytes.length - 1}: {fault.problem.text}"

/-- What a first byte asks for: the bits it carries, how many bytes follow, and the range of the
next one. -/
structure Lead where
  bits : Nat
  owed : Nat
  low : Nat
  high : Nat

def lead? (byte : Nat) : Option Lead :=
  if byte < 0x80 then some ⟨byte, 0, 0x80, 0xbf⟩
  else if byte < 0xc2 then none
  else if byte < 0xe0 then some ⟨byte - 0xc0, 1, 0x80, 0xbf⟩
  else if byte < 0xf0 then
    some ⟨byte - 0xe0, 2, if byte = 0xe0 then 0xa0 else 0x80, if byte = 0xed then 0x9f else 0xbf⟩
  else if byte < 0xf5 then
    some ⟨byte - 0xf0, 3, if byte = 0xf0 then 0x90 else 0x80, if byte = 0xf4 then 0x8f else 0xbf⟩
  else none

/-- The bytes that a character still owes, the next one within a range: the code point and the
bytes after it, or what is wrong and how many of the bytes are in order. -/
def continuation : Nat → Nat → Nat → Nat → List UInt8 →
    Except (Problem × Nat) (Nat × List UInt8)
  | 0, _, _, bits, rest => .ok (bits, rest)
  | _ + 1, _, _, _, [] => .error (.endOfText, 0)
  | owed + 1, low, high, bits, byte :: rest =>
    if low ≤ byte.toNat ∧ byte.toNat ≤ high then
      match continuation owed 0x80 0xbf (bits * 64 + (byte.toNat - 0x80)) rest with
      | .ok found => .ok found
      | .error (problem, taken) => .error (problem, taken + 1)
    else .error (.badContinuation, 0)

structure Step where
  char : Char
  position : Nat
  rest : List UInt8

def next (position : Nat) (first : UInt8) (rest : List UInt8) : Except Fault Step :=
  match lead? first.toNat with
  | none => .error ⟨.badStart, position, [first]⟩
  | some lead => match continuation lead.owed lead.low lead.high lead.bits rest with
    | .ok (code, after) => .ok ⟨Char.ofNat code, position + 1 + lead.owed, after⟩
    | .error (problem, taken) => .error ⟨problem, position, first :: rest.take taken⟩

/-- Reads bytes from a position on. The first number bounds the characters. -/
def decodeFrom : Nat → Nat → List UInt8 → Except Fault (List Char)
  | 0, _, _ => .ok []
  | _, _, [] => .ok []
  | count + 1, position, first :: rest => do
    let step ← next position first rest
    let others ← decodeFrom count step.position step.rest
    return step.char :: others

def decode (bytes : List UInt8) : Except Fault String := do
  return String.ofList (← decodeFrom bytes.length 0 bytes)

def escapedByte (byte : UInt8) : List Char := '\\' :: 'x' :: Text.hexDigits 2 byte.toNat

def showFrom : Nat → List UInt8 → List Char
  | 0, _ => []
  | _, [] => []
  | count + 1, first :: rest => match next 0 first rest with
    | .ok step => step.char :: showFrom count step.rest
    | .error fault =>
      fault.bytes.flatMap escapedByte ++ showFrom count (rest.drop (fault.bytes.length - 1))

def display (bytes : List UInt8) : String := String.ofList (showFrom bytes.length bytes)

def encode (text : String) : List UInt8 := text.toUTF8.toList

end PartialUpdate.Utf8

import ZigbeeHost.Bytes.Hex
/-!
# Reading JSON text

A configuration is a JSON text, read from left to right. The first problem that the
reader meets is the answer, so a `Fault` says which of three kinds it was : the text ends
too early, it is not JSON, or a value is not what its place asks for.

This module holds the reader, its words and its strings.
-/

namespace ZigbeeHost.Config

/-- Why a text is no configuration. -/
inductive Fault where
  /-- The text ends too early. -/
  | truncated
  /-- The text is not JSON, or goes on after the value. -/
  | malformed
  /-- A value is of the wrong kind or out of its range, missing, or given twice. -/
  | mistyped
  deriving DecidableEq

/-- The fault in words. -/
def Fault.message : Fault → String
  | truncated => "the text ends too early"
  | malformed => "the text is not JSON"
  | mistyped => "a value is missing, or not what its place asks for"

/-- A reader takes characters from the front of a text. -/
abbrev Reader := StateT (List Char) (Except Fault)

namespace Reader

/-- The characters that may stand between the parts of a text. -/
def isBlank (c : Char) : Bool := c = ' ' || c = '\n' || c = '\t' || c = '\r'

/-- The next character that is not blank. -/
def peek : Reader (Option Char) := fun text =>
  let text := text.dropWhile isBlank
  .ok (text.head?, text)

/-- Takes one character. -/
def skip : Reader Unit := fun text => .ok ((), text.drop 1)

/-- Takes the characters of a word. -/
def word : (w : List Char) → Reader Unit
  | [], text => .ok ((), text)
  | _ :: _, [] => .error .truncated
  | c :: w, d :: text => if c = d then word w text else .error .malformed

/-! ## Strings -/

/-- Where in a string the reader is. -/
inductive StringPlace where
  | plain
  /-- Behind a backslash. -/
  | escape
  /-- Within the four digits of a code unit : how many are read and their value, and the
  leading half of a surrogate pair that came before. -/
  | codeUnit (digits value : Nat) (lead : Option Nat)
  /-- Behind the leading half of a surrogate pair. -/
  | secondEscape (lead : Nat)
  | secondUnit (lead : Nat)

/-- The character of a one-letter escape. -/
def escaped? : Char → Option Char
  | '\x22' => some '\x22'
  | '\x5c' => some '\x5c'
  | '/' => some '/'
  | 'b' => some '\x08'
  | 'f' => some '\x0c'
  | 'n' => some '\n'
  | 'r' => some '\r'
  | 't' => some '\t'
  | _ => none

/-- The fault of a code unit that is cut short : a text that does not hold its four
bytes ends too early, whatever they are. -/
def codeUnitFault (digits : Nat) (text : List Char) : Fault :=
  if digits + (String.ofList text).utf8ByteSize < 4 then .truncated else .malformed

/-- Joins the halves of a surrogate pair. -/
def joinSurrogates (lead trail : Nat) : Char :=
  Char.ofNat ((lead - 0xD800) * 0x400 + (trail - 0xDC00) + 0x10000)

/-- What a complete code unit means : a character, or the need for a trailing half. -/
def codeUnit (value : Nat) : (lead : Option Nat) → Except Fault (Option Char)
  | some lead =>
    if 0xDC00 ≤ value ∧ value ≤ 0xDFFF then .ok (some (joinSurrogates lead value))
    else .error .malformed
  | none =>
    if 0xDC00 ≤ value ∧ value ≤ 0xDFFF then .error .malformed
    else if 0xD800 ≤ value ∧ value ≤ 0xDBFF then .ok none
    else .ok (some (Char.ofNat value))

/-- Reads a string from `place` to its closing quote. `read` are the characters so far,
last first. -/
def stringFrom (place : StringPlace) (read : List Char) : (text : List Char) →
    Except Fault (String × List Char)
  | [] => .error .truncated
  | c :: text =>
    match place with
    | .plain =>
      if c = '\x22' then .ok (String.ofList read.reverse, text)
      else if c = '\x5c' then stringFrom .escape read text
      else if c.toNat < 0x20 then .error .malformed
      else stringFrom .plain (c :: read) text
    | .escape =>
      if c = 'u' then stringFrom (.codeUnit 0 0 none) read text
      else
        match escaped? c with
        | some e => stringFrom .plain (e :: read) text
        | none => .error .malformed
    | .codeUnit digits value lead =>
      match hexDigit? c with
      | none => .error (codeUnitFault digits (c :: text))
      | some d =>
        let value := 16 * value + d
        if digits < 3 then stringFrom (.codeUnit (digits + 1) value lead) read text
        else
          match codeUnit value lead with
          | .error e => .error e
          | .ok (some e) => stringFrom .plain (e :: read) text
          | .ok none => stringFrom (.secondEscape value) read text
    | .secondEscape lead =>
      if c = '\x5c' then stringFrom (.secondUnit lead) read text else .error .malformed
    | .secondUnit lead =>
      if c = 'u' then stringFrom (.codeUnit 0 0 (some lead)) read text else .error .malformed

/-- Reads a string behind its opening quote. -/
def string : Reader String := fun text => stringFrom .plain [] text

end Reader

end ZigbeeHost.Config

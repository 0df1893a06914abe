import ZigbeeHost.Bytes
/-!
# Text from untrusted bytes

A device may store any bytes as a name. `lossyText` reads them as UTF-8 and puts one
replacement character for each longest run of bytes that begins a well-formed sequence
but does not complete it, a byte that begins none counting as a run of one.
-/

namespace ZigbeeHost

/-- The character that stands for bytes that are not UTF-8. -/
def replacementChar : Char := '\ufffd'

/-- The bytes that may follow the lead byte of a sequence of several bytes, with the
number of bytes in the whole sequence : the second byte's bounds exclude overlong forms,
surrogates and numbers beyond the last code point. -/
def secondByteRange? (lead : UInt8) : Option (Nat × UInt8 × UInt8) :=
  if 0xC2 ≤ lead ∧ lead ≤ 0xDF then some (2, 0x80, 0xBF)
  else if lead = 0xE0 then some (3, 0xA0, 0xBF)
  else if lead = 0xED then some (3, 0x80, 0x9F)
  else if 0xE1 ≤ lead ∧ lead ≤ 0xEF then some (3, 0x80, 0xBF)
  else if lead = 0xF0 then some (4, 0x90, 0xBF)
  else if 0xF1 ≤ lead ∧ lead ≤ 0xF3 then some (4, 0x80, 0xBF)
  else if lead = 0xF4 then some (4, 0x80, 0x8F)
  else none

/-- Reads the continuation bytes of a sequence : the code point, if `missing` more
bytes complete it, and the bytes that follow the longest acceptable run. -/
def readContinuation : (missing acc : Nat) → (lo hi : UInt8) → Bytes → Option Nat × Bytes
  | 0, acc, _, _, rest => (some acc, rest)
  | _ + 1, _, _, _, [] => (none, [])
  | missing + 1, acc, lo, hi, b :: rest =>
    if lo ≤ b ∧ b ≤ hi then readContinuation missing (64 * acc + b.toNat % 64) 0x80 0xBF rest
    else (none, b :: rest)

/-- What is left of the input does not grow, so the reading of a text ends. -/
theorem length_readContinuation_le (missing acc : Nat) (lo hi : UInt8) (bytes : Bytes) :
    (readContinuation missing acc lo hi bytes).2.length ≤ bytes.length := by
  induction bytes generalizing missing acc lo hi with
  | nil => cases missing <;> simp [readContinuation]
  | cons b rest ih =>
    cases missing with
    | zero => simp [readContinuation]
    | succ missing =>
      simp only [readContinuation]
      split
      · exact Nat.le_succ_of_le (ih missing _ _ _)
      · exact Nat.le_refl _

/-- The characters of `bytes`, with replacement characters for what is not UTF-8. -/
def lossyChars : (bytes : Bytes) → List Char
  | [] => []
  | b :: rest =>
    if b < 0x80 then Char.ofNat b.toNat :: lossyChars rest
    else
      match secondByteRange? b with
      | none => replacementChar :: lossyChars rest
      | some (count, lo, hi) =>
        let run := readContinuation (count - 1) (b.toNat % (0x80 >>> count)) lo hi rest
        (run.1.map Char.ofNat).getD replacementChar :: lossyChars run.2
termination_by bytes => bytes.length
decreasing_by
  · exact Nat.lt_succ_self _
  · exact Nat.lt_succ_self _
  · exact Nat.lt_succ_of_le (length_readContinuation_le ..)

/-- The text that `bytes` hold as UTF-8, one replacement character for each ill-formed
run. -/
def lossyText (bytes : Bytes) : String :=
  String.ofList (lossyChars bytes)

end ZigbeeHost

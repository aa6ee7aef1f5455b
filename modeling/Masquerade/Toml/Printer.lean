/-
  Masquerade.Toml.Printer — WRITING TOML STRINGS.

  A string is written in the first of these forms that shows it without an
  escape:

      basic          — between double quotes;
      literal        — between single quotes;
      basic lines    — between threes of double quotes;
      literal lines  — between threes of single quotes.

  Where none does, it is written with escapes: as basic lines if it has a
  line feed, as a basic string otherwise.
-/
import Masquerade.Toml.Basic

namespace Masquerade

namespace Toml

/-! ## §1. The form of a string -/

/-- The form in which a string is written. -/
inductive TextStyle where
  | basic | literal | basicLines | literalLines
  deriving DecidableEq, Repr

/-- The longest run of a character, given the run so far and the longest
    before it. -/
def longestRun (quote : Char) (run longest : Nat) : List Char → Nat
  | [] => max run longest
  | c :: rest =>
    if c = quote then longestRun quote (run + 1) longest rest
    else longestRun quote 0 (max run longest) rest

/-- Whether a character has to be escaped everywhere. -/
def needsEscape (c : Char) : Bool := (c < ' ' && c != '\t' && c != '\n') || c == '\x7f'

/-- **The form of a string.** -/
def style (chars : List Char) : TextStyle :=
  let multiline := chars.contains '\n'
  let control := chars.any needsEscape
  let backslash := chars.contains '\\'
  let doubles := longestRun '\x22' 0 0 chars
  let singles := longestRun '\x27' 0 0 chars
  if !control && !backslash && doubles == 0 && !multiline then .basic
  else if !control && singles == 0 && !multiline then .literal
  else if !control && !backslash && doubles ≤ 2 then .basicLines
  else if !control && singles ≤ 2 then .literalLines
  else if multiline then .basicLines
  else .basic

/-! ## §2. Writing -/

/-- An upper-case hexadecimal digit. -/
def hexDigit (n : Nat) : Char :=
  if n < 10 then Char.ofNat ('0'.toNat + n) else Char.ofNat ('A'.toNat + (n - 10))

/-- A character between double quotes. -/
def escape (c : Char) : List Char :=
  if c = '\x08' then ['\\', 'b']
  else if c = '\t' then ['\\', 't']
  else if c = '\n' then ['\\', 'n']
  else if c = '\x0c' then ['\\', 'f']
  else if c = '\r' then ['\\', 'r']
  else if c = '\x22' then ['\\', '\x22']
  else if c = '\\' then ['\\', '\\']
  else if c < ' ' ∨ c = '\x7f' then
    ['\\', 'u', '0', '0', hexDigit (c.toNat / 16), hexDigit (c.toNat % 16)]
  else [c]

/-- Characters between threes of double quotes, after so many double quotes
    in a row: a line feed stands for itself, and so do two double quotes in a
    row, but not a third. -/
def escapeLines (run : Nat) : List Char → List Char
  | [] => []
  | c :: rest =>
    if c = '\x22' then
      if run < 2 then c :: escapeLines (run + 1) rest else escape c ++ escapeLines 0 rest
    else if c = '\n' then c :: escapeLines 0 rest
    else escape c ++ escapeLines 0 rest

/-- **A string.**  Where lines begin, a line feed that does not count comes
    first. -/
def printText (s : String) : String :=
  let chars := s.toList
  let start := if chars.contains '\n' then "\n" else ""
  match style chars with
  | .basic => "\"" ++ String.ofList (chars.flatMap escape) ++ "\""
  | .literal => "'" ++ s ++ "'"
  | .basicLines => "\"\"\"" ++ start ++ String.ofList (escapeLines 0 chars) ++ "\"\"\""
  | .literalLines => "'''" ++ start ++ s ++ "'''"

/-- A line with a key and a value. -/
def printLine (key value : String) : String := key ++ " = " ++ value ++ "\n"

end Toml

end Masquerade

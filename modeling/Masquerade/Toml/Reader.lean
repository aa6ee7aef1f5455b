/-
  Masquerade.Toml.Reader — READING TOML.

  A document is a sequence of lines: blank ones, headers, and keys with
  their values, each possibly followed by a comment.  Arrays and
  multi-line strings may go over several lines.
-/
import Masquerade.Toml.Basic

namespace Masquerade

namespace Toml

/-- A function that takes something off the front of a text. -/
abbrev Taker (α : Type) := List Char → Option (α × List Char)

/-! ## §1. Characters -/

/-- A blank within a line. -/
def isBlank (c : Char) : Bool := c == ' ' || c == '\t'

/-- A character that a comment may hold. -/
def isCommentChar (c : Char) : Bool :=
  c == '\t' || (' ' ≤ c && c ≤ '~') || '\x7f' < c

/-- A character that stands for itself in a basic string. -/
def isBasicChar (c : Char) : Bool := isCommentChar c && c != '\x22' && c != '\\'

/-- A character that may stand in a literal string. -/
def isLiteralChar (c : Char) : Bool := isCommentChar c && c != '\x27'

/-- A character of a bare key. -/
def isBareChar (c : Char) : Bool := c.isAlphanum || c == '_' || c == '-'

/-- Drop blanks. -/
def dropBlanks (input : List Char) : List Char := input.dropWhile isBlank

/-- What follows a given beginning. -/
def after? : (start : List Char) → List Char → Option (List Char)
  | [], input => some input
  | _ :: _, [] => none
  | expected :: start, c :: input => if c = expected then after? start input else none

/-- What follows a line end, if there is one. -/
def afterNewline? : List Char → Option (List Char)
  | '\n' :: rest => some rest
  | '\r' :: '\n' :: rest => some rest
  | _ => none

/-- Drop a comment. -/
def dropComment : List Char → List Char
  | '#' :: rest => rest.dropWhile isCommentChar
  | input => input

/-- What follows blanks, a comment, and a line end or the end of the text. -/
def endOfLine? (input : List Char) : Option (List Char) :=
  match dropComment (dropBlanks input) with
  | [] => some []
  | rest => afterNewline? rest

/-- Drop blanks, comments and line ends. -/
def dropSpace : (fuel : Nat) → List Char → List Char
  | 0, input => input
  | fuel + 1, input =>
    let rest := dropComment (dropBlanks input)
    match afterNewline? rest with
    | some rest => dropSpace fuel rest
    | none => rest

/-! ## §2. Strings -/

/-- The value of a hexadecimal digit. -/
def hexValue? (c : Char) : Option Nat :=
  if '0' ≤ c ∧ c ≤ '9' then some (c.toNat - '0'.toNat)
  else if 'a' ≤ c ∧ c ≤ 'f' then some (c.toNat - 'a'.toNat + 10)
  else if 'A' ≤ c ∧ c ≤ 'F' then some (c.toNat - 'A'.toNat + 10)
  else none

/-- A number of exactly `count` hexadecimal digits. -/
def hexNumber (acc : Nat) : (count : Nat) → Taker Nat
  | 0, input => some (acc, input)
  | _ + 1, [] => none
  | count + 1, c :: rest => do hexNumber (acc * 16 + (← hexValue? c)) count rest

/-- The character of a code of `count` hexadecimal digits. -/
def codedChar (count : Nat) : Taker Char := fun input => do
  let (code, rest) ← hexNumber 0 count input
  if code < 0xd800 ∨ (0xdfff < code ∧ code < 0x110000) then some (Char.ofNat code, rest) else none

/-- The character after a backslash. -/
def escaped : Taker Char
  | 'b' :: rest => some ('\x08', rest)
  | 't' :: rest => some ('\t', rest)
  | 'n' :: rest => some ('\n', rest)
  | 'f' :: rest => some ('\x0c', rest)
  | 'r' :: rest => some ('\r', rest)
  | '\x22' :: rest => some ('\x22', rest)
  | '\\' :: rest => some ('\\', rest)
  | 'u' :: rest => codedChar 4 rest
  | 'U' :: rest => codedChar 8 rest
  | _ => none

/-- The text of a basic string up to its closing quote, collected in
    reverse. -/
def basicText (done : List Char) : (fuel : Nat) → Taker String
  | 0, _ => none
  | _ + 1, [] => none
  | fuel + 1, c :: rest =>
    if c = '\x22' then some (String.ofList done.reverse, rest)
    else if c = '\\' then
      match escaped rest with
      | some (c, rest) => basicText (c :: done) fuel rest
      | none => none
    else if isBasicChar c then basicText (c :: done) fuel rest
    else none

/-- The text of a literal string up to its closing quote. -/
def literalText : Taker String := fun input => do
  let rest ← after? ['\x27'] (input.dropWhile isLiteralChar)
  some (String.ofList (input.takeWhile isLiteralChar), rest)

/-- Drop the line end after the opening quotes of a multi-line string. -/
def dropFirstNewline (input : List Char) : List Char := (afterNewline? input).getD input

/-- How many quotes of a run end a multi-line string: of three to five the
    last three, of more the third to fifth. -/
def closing? (run : Nat) : Option (Nat × Nat) :=
  if run < 3 then none else some (min run 5 - 3, run - min run 5)

/-- Blanks and a line end after a backslash, and all blanks and line ends
    after them. -/
def dropContinuation (input : List Char) : Option (List Char) :=
  (afterNewline? (dropBlanks input)).map fun rest =>
    rest.dropWhile fun c => isBlank c || c == '\n' || c == '\r'

/-- The text of a multi-line basic string up to its closing quotes. -/
def basicLines (done : List Char) : (fuel : Nat) → Taker String
  | 0, _ => none
  | _ + 1, [] => none
  | fuel + 1, c :: rest =>
    if c = '\x22' then
      let run := (c :: rest).takeWhile (· == '\x22')
      let rest := (c :: rest).dropWhile (· == '\x22')
      match closing? run.length with
      | some (kept, left) =>
        some (String.ofList (List.replicate kept '\x22' ++ done).reverse,
          List.replicate left '\x22' ++ rest)
      | none => basicLines (run ++ done) fuel rest
    else if c = '\\' then
      match dropContinuation rest with
      | some rest => basicLines done fuel rest
      | none =>
        match escaped rest with
        | some (c, rest) => basicLines (c :: done) fuel rest
        | none => none
    else if isBasicChar c then basicLines (c :: done) fuel rest
    else
      match afterNewline? (c :: rest) with
      | some rest => basicLines ('\n' :: done) fuel rest
      | none => none

/-- The text of a multi-line literal string up to its closing quotes. -/
def literalLines (done : List Char) : (fuel : Nat) → Taker String
  | 0, _ => none
  | _ + 1, [] => none
  | fuel + 1, c :: rest =>
    if c = '\x27' then
      let run := (c :: rest).takeWhile (· == '\x27')
      let rest := (c :: rest).dropWhile (· == '\x27')
      match closing? run.length with
      | some (kept, left) =>
        some (String.ofList (List.replicate kept '\x27' ++ done).reverse,
          List.replicate left '\x27' ++ rest)
      | none => literalLines (run ++ done) fuel rest
    else if isLiteralChar c then literalLines (c :: done) fuel rest
    else
      match afterNewline? (c :: rest) with
      | some rest => literalLines ('\n' :: done) fuel rest
      | none => none

/-- A string of any kind. -/
def takeString : Taker String
  | '\x22' :: '\x22' :: '\x22' :: rest => basicLines [] rest.length (dropFirstNewline rest)
  | '\x27' :: '\x27' :: '\x27' :: rest => literalLines [] rest.length (dropFirstNewline rest)
  | '\x22' :: rest => basicText [] rest.length rest
  | '\x27' :: rest => literalText rest
  | _ => none

/-! ## §3. Keys -/

/-- A key without dots. -/
def simpleKey : Taker String
  | '\x22' :: rest => basicText [] rest.length rest
  | '\x27' :: rest => literalText rest
  | input =>
    let key := input.takeWhile isBareChar
    if key.isEmpty then none else some (String.ofList key, input.dropWhile isBareChar)

/-- A key with dots: the path to its table, and its last part. -/
def dottedKey : (fuel : Nat) → Taker (List String × String)
  | 0, _ => none
  | fuel + 1, input => do
    let (first, rest) ← simpleKey (dropBlanks input)
    match dropBlanks rest with
    | '.' :: rest =>
      let ((path, last), rest) ← dottedKey fuel rest
      some ((first :: path, last), rest)
    | rest => some (([], first), rest)

/-- How many values may be nested around each other, and how many tables a
    key may lead through. -/
def maxNesting : Nat := 79

/-- A key with dots and blanks around it. -/
def takeKey : Taker (List String × String) := fun input => do
  let ((path, last), rest) ← dottedKey input.length input
  if path.length < maxNesting then some ((path, last), rest) else none

/-! ## §4. Numbers and dates -/

/-- Digits of a kind, with single underscores between them. -/
def takeDigits (isDigit : Char → Bool) : Taker (List Char)
  | [] => none
  | c :: rest =>
    if isDigit c then
      match rest with
      | '_' :: more => (takeDigits isDigit more).map fun (digits, rest) => (c :: digits, rest)
      | next :: more =>
        if isDigit next then
          (takeDigits isDigit (next :: more)).map fun (digits, rest) => (c :: digits, rest)
        else some ([c], next :: more)
      | [] => some ([c], [])
    else none
termination_by input => input.length

/-- A digit of a base. -/
def isDigitOf (base : Nat) (c : Char) : Bool := (hexValue? c).any (· < base)

/-- The number that digits of a base stand for. -/
def ofDigits (base : Nat) (digits : List Char) : Nat :=
  digits.foldl (fun acc c => acc * base + (hexValue? c).getD 0) 0

/-- A sign. -/
def takeSign : List Char → Bool × List Char
  | '-' :: rest => (true, rest)
  | '+' :: rest => (false, rest)
  | input => (false, input)

/-- The digits of a decimal integer: no zero leads other digits. -/
def decimalDigits : Taker (List Char)
  | '0' :: rest => some (['0'], rest)
  | input => takeDigits (isDigitOf 10) input

/-- An integer that fits 64 bits. -/
def fitting (n : Int) (rest : List Char) : Option (Toml × List Char) :=
  if -0x8000000000000000 ≤ n ∧ n < 0x8000000000000000 then some (.integer n, rest) else none

/-- An integer with a base in front. -/
def basedInteger (base : Nat) : Taker Toml := fun input => do
  let (digits, rest) ← takeDigits (isDigitOf base) input
  fitting (ofDigits base digits) rest

/-- An integer. -/
def takeInteger : Taker Toml
  | '0' :: 'x' :: rest => basedInteger 16 rest
  | '0' :: 'o' :: rest => basedInteger 8 rest
  | '0' :: 'b' :: rest => basedInteger 2 rest
  | input => do
    let (negative, rest) := takeSign input
    let (digits, rest) ← decimalDigits rest
    let n : Int := ofDigits 10 digits
    fitting (if negative then -n else n) rest

/-- What was taken, as it was written. -/
def written (input rest : List Char) : String :=
  String.ofList (input.take (input.length - rest.length))

/-- An exponent. -/
def takeExponent (input : List Char) : Option (Int × List Char) :=
  match input with
  | c :: rest =>
    if c = 'e' ∨ c = 'E' then do
      let (negative, rest) := takeSign rest
      let (digits, rest) ← takeDigits (isDigitOf 10) rest
      let n : Int := ofDigits 10 digits
      some (if negative then -n else n, rest)
    else none
  | [] => none

/-- Whether a significand times a power of ten rounds to a finite double. -/
def isFinite (significand : Nat) (power : Int) : Bool :=
  significand = 0 || power + (Nat.toDigits 10 significand).length < 309 ||
    (power ≤ 309 && significand * Nat.pow 10 power.toNat
      < (Nat.pow 2 1024 - Nat.pow 2 970) * Nat.pow 10 (-power).toNat)

/-- A number with a fraction, an exponent, or both.  A positive one has to be
    finite. -/
def takeDecimal : Taker Toml := fun input => do
  let (negative, rest) := takeSign input
  let (whole, rest) ← decimalDigits rest
  let (fraction, rest) ←
    match rest with
    | '.' :: rest => takeDigits (isDigitOf 10) rest
    | rest => some ([], rest)
  let exponent := takeExponent rest
  if fraction.isEmpty ∧ exponent.isNone then none
  else
    let (power, rest) := exponent.getD (0, rest)
    let significand := ofDigits 10 (whole ++ fraction)
    if negative || isFinite significand (power - fraction.length) then
      some (.float (written input rest), rest)
    else none

/-- Infinity and not-a-number. -/
def takeSpecial : Taker Toml := fun input => do
  let (_, rest) := takeSign input
  let rest ← (after? "inf".toList rest).or (after? "nan".toList rest)
  some (.float (written input rest), rest)

/-- A number of exactly `count` decimal digits. -/
def fixedDigits (count : Nat) : Taker Nat := fun input =>
  let digits := input.take count
  if digits.length = count ∧ digits.all Char.isDigit then
    some (ofDigits 10 digits, input.drop count)
  else none

/-- A number of two digits within bounds. -/
def twoDigits (low high : Nat) : Taker Nat := fun input => do
  let (n, rest) ← fixedDigits 2 input
  if low ≤ n ∧ n ≤ high then some (n, rest) else none

/-- How many days a month has. -/
def daysIn (year month : Nat) : Nat :=
  if month = 2 then
    if year % 4 = 0 ∧ (year % 100 ≠ 0 ∨ year % 400 = 0) then 29 else 28
  else if month = 4 ∨ month = 6 ∨ month = 9 ∨ month = 11 then 30
  else 31

/-- What follows a date. -/
def afterDate? (input : List Char) : Option (List Char) := do
  let (year, rest) ← fixedDigits 4 input
  let rest ← after? ['-'] rest
  let (month, rest) ← twoDigits 1 12 rest
  let rest ← after? ['-'] rest
  let (_, rest) ← twoDigits 1 (daysIn year month) rest
  some rest

/-- What follows a time of day. -/
def afterTime? (input : List Char) : Option (List Char) := do
  let (_, rest) ← twoDigits 0 23 input
  let rest ← after? [':'] rest
  let (_, rest) ← twoDigits 0 59 rest
  let rest ← after? [':'] rest
  let (_, rest) ← twoDigits 0 60 rest
  match rest with
  | '.' :: c :: more =>
    if c.isDigit then some (more.dropWhile Char.isDigit) else some rest
  | rest => some rest

/-- What follows an offset from universal time, or the same text without
    one. -/
def afterOffset (input : List Char) : List Char :=
  match input with
  | 'Z' :: rest => rest
  | 'z' :: rest => rest
  | c :: rest =>
    if c = '+' ∨ c = '-' then
      (do
        let (_, rest) ← twoDigits 0 23 rest
        let rest ← after? [':'] rest
        let (_, rest) ← twoDigits 0 59 rest
        some rest : Option (List Char)).getD input
    else input
  | [] => []

/-- What follows a date with or without a time. -/
def afterMoment? (input : List Char) : Option (List Char) := do
  let rest ← afterDate? input
  match rest with
  | c :: more =>
    if c = 'T' ∨ c = 't' ∨ c = ' ' then
      match afterTime? more with
      | some rest => some (afterOffset rest)
      | none => some rest
    else some rest
  | [] => some []

/-- A date, a time, or both. -/
def takeMoment : Taker Toml := fun input => do
  let rest ← (afterMoment? input).or (afterTime? input)
  some (.moment (written input rest), rest)

/-- A number, a date or a time. -/
def takeNumber : Taker Toml := fun input =>
  ((takeMoment input).or (takeDecimal input)).or ((takeSpecial input).or (takeInteger input))

/-! ## §5. Values -/

/-- A value that holds no other. -/
def takeScalar : Taker Toml
  | 't' :: rest => (after? "rue".toList rest).map fun rest => (.flag true, rest)
  | 'f' :: rest => (after? "alse".toList rest).map fun rest => (.flag false, rest)
  | c :: rest =>
    if c = '\x22' ∨ c = '\x27' then (takeString (c :: rest)).map fun (s, rest) => (.text s, rest)
    else takeNumber (c :: rest)
  | [] => none

mutual

/-- A value with at most `depth` values nested around each other in it. -/
def takeValue : (fuel depth : Nat) → Taker Toml
  | 0, _, _ => none
  | fuel + 1, depth, input =>
    match depth, input with
    | 0, '[' :: _ => none
    | depth + 1, '[' :: rest =>
      (takeItems fuel depth rest).map fun (items, rest) => (.array items, rest)
    | 0, '\x7b' :: _ => none
    | depth + 1, '\x7b' :: rest =>
      match dropBlanks rest with
      | '\x7d' :: rest => some (.inline [], rest)
      | rest => (takePairs fuel depth [] rest).map fun (entries, rest) => (.inline entries, rest)
    | _, input => takeScalar input

/-- Items up to the closing bracket. -/
def takeItems : (fuel depth : Nat) → Taker (List Toml)
  | 0, _, _ => none
  | fuel + 1, depth, input =>
    match dropSpace input.length input with
    | ']' :: rest => some ([], rest)
    | rest => do
      let (item, rest) ← takeValue fuel depth rest
      match dropSpace rest.length rest with
      | ',' :: rest =>
        let (items, rest) ← takeItems fuel depth rest
        some (item :: items, rest)
      | ']' :: rest => some ([item], rest)
      | _ => none

/-- Pairs up to the closing brace, put into the entries so far. -/
def takePairs : (fuel depth : Nat) → (entries : Entries) → Taker Entries
  | 0, _, _, _ => none
  | fuel + 1, depth, entries, input => do
    let ((path, key), rest) ← takeKey input
    let rest ← after? ['='] rest
    let (value, rest) ← takeValue fuel depth (dropBlanks rest)
    let entries ← addEntry path key value entries
    match dropBlanks rest with
    | ',' :: rest => takePairs fuel depth entries rest
    | '\x7d' :: rest => some (entries, rest)
    | _ => none

end

/-! ## §6. Documents -/

/-- A header after its opening bracket, and the rest of its line. -/
def takeHeader (closingBracket : List Char) : Taker (List String × String) := fun input => do
  let (key, rest) ← takeKey input
  let rest ← after? closingBracket rest
  let rest ← endOfLine? rest
  some (key, rest)

/-- A key, its value, and the rest of the line. -/
def takeLine : Taker ((List String × String) × Toml) := fun input => do
  let (key, rest) ← takeKey input
  let rest ← after? ['='] rest
  let (value, rest) ← takeValue (2 * rest.length + 2) maxNesting (dropBlanks rest)
  let rest ← endOfLine? rest
  some ((key, value), rest)

/-- The lines of a document, added to what has been read. -/
def readLines : (fuel : Nat) → Document → List Char → Option Document
  | 0, _, _ => none
  | fuel + 1, doc, input =>
    match dropSpace input.length input with
    | [] => some doc
    | '[' :: '[' :: rest => do
      let ((path, key), rest) ← takeHeader [']', ']'] rest
      readLines fuel (← doc.doubleHeader path key) rest
    | '[' :: rest => do
      let ((path, key), rest) ← takeHeader [']'] rest
      readLines fuel (← doc.header path key) rest
    | rest => do
      let (((path, key), value), rest) ← takeLine rest
      readLines fuel (← doc.line path key value) rest

/-- **The entries of a document.**  A byte order mark may come first. -/
def read? (document : String) : Option Entries :=
  let input :=
    match document.toList with
    | '\ufeff' :: rest => rest
    | input => input
  (readLines (input.length + 1) .empty input).map Document.entries

end Toml

end Masquerade

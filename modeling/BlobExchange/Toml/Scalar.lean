import BlobExchange.Number.Binary64
/-! # Scalars of configuration text

A reader gives the value at the front and the characters behind it, or nothing. -/

namespace BlobExchange.Toml

/-- Reads a value from the front of a text. -/
abbrev Reader (α : Type) := List Char → Option (α × List Char)

def isBlank (c : Char) : Bool := c == ' ' || c == '\t'

/-- Whether a character may stand in a text as it is: no control character but the tab. -/
def isPlain (c : Char) : Bool := c == '\t' || (decide (0x20 ≤ c.toNat) && c.toNat != 0x7F)

def skipBlanks (cs : List Char) : List Char := cs.dropWhile isBlank

/-- The text behind a line's end, if it is at one. -/
def newline? : List Char → Option (List Char)
  | '\n' :: rest => some rest
  | '\r' :: '\n' :: rest => some rest
  | _ => none

/-- The text behind a comment, if there is one. -/
def skipComment : List Char → List Char
  | '#' :: rest => rest.dropWhile isPlain
  | cs => cs

/-- The text from the next line on, if nothing but blanks and a comment is left of this one. The
end of the text ends its last line. -/
def lineEnd? (cs : List Char) : Option (List Char) :=
  match skipComment (skipBlanks cs) with
  | [] => some []
  | rest => newline? rest

/-- The text behind blanks, comments and line ends, of which there are at most `fuel`. -/
def skipSpace : Nat → List Char → List Char
  | 0, cs => cs
  | fuel + 1, cs =>
    match skipBlanks cs with
    | '#' :: rest =>
      match newline? (rest.dropWhile isPlain) with
      | some later => skipSpace fuel later
      | none => '#' :: rest
    | rest =>
      match newline? rest with
      | some later => skipSpace fuel later
      | none => rest

/-! ## Strings -/

def hexDigit? (c : Char) : Option Nat :=
  if '0' ≤ c ∧ c ≤ '9' then some (c.toNat - '0'.toNat)
  else if 'a' ≤ c ∧ c ≤ 'f' then some (c.toNat - 'a'.toNat + 10)
  else if 'A' ≤ c ∧ c ≤ 'F' then some (c.toNat - 'A'.toNat + 10)
  else none

/-- The character of a code point in hexadecimal digits. -/
def codePoint? (digits : List Char) : Option Char := do
  let values ← digits.mapM hexDigit?
  let n := values.foldl (fun n d => 16 * n + d) 0
  if n.isValidChar then some (Char.ofNat n) else none

def escaped? : Char → Option Char
  | 'b' => some '\x08'
  | 't' => some '\t'
  | 'n' => some '\n'
  | 'f' => some '\x0C'
  | 'r' => some '\r'
  | '"' => some '"'
  | '\\' => some '\\'
  | _ => none

def escape : Reader Char
  | 'u' :: rest =>
    if rest.length < 4 then none
    else (codePoint? (rest.take 4)).map fun c => (c, rest.drop 4)
  | 'U' :: rest =>
    if rest.length < 8 then none
    else (codePoint? (rest.take 8)).map fun c => (c, rest.drop 8)
  | c :: rest => (escaped? c).map fun e => (e, rest)
  | [] => none

/-- Reads a quoted string of one line behind its opening quote, of at most `fuel` characters.
Escapes are read between double quotes only. -/
def quoted (quote : Char) : Nat → List Char → Reader (List Char)
  | 0, _, _ => none
  | _ + 1, _, [] => none
  | fuel + 1, done, c :: rest =>
    if c = quote then some (done.reverse, rest)
    else if c = '\\' ∧ quote = '"' then
      match escape rest with
      | some (e, later) => quoted quote fuel (e :: done) later
      | none => none
    else if isPlain c then quoted quote fuel (c :: done) rest
    else none

/-- The text behind a backslash at the end of a line: blanks and line ends are passed over. -/
def continued? (fuel : Nat) (cs : List Char) : Option (List Char) :=
  match newline? (skipBlanks cs) with
  | none => none
  | some later => some (go fuel later)
where
  go : Nat → List Char → List Char
    | 0, cs => cs
    | fuel + 1, cs =>
      match newline? (skipBlanks cs) with
      | some later => go fuel later
      | none => skipBlanks cs

/-- Reads a string of several lines behind its opening quotes. Three quotes end it, and up to two
quotes right before them belong to it. -/
def quotedLines (quote : Char) : Nat → List Char → Reader (List Char)
  | 0, _, _ => none
  | _ + 1, _, [] => none
  | fuel + 1, done, c :: rest =>
    if c = quote then
      let run := min ((rest.takeWhile (· == quote)).length + 1) 5
      if run < 3 then quotedLines quote fuel (c :: done) rest
      else some ((List.replicate (run - 3) quote ++ done).reverse, (c :: rest).drop run)
    else if c = '\\' ∧ quote = '"' then
      match continued? rest.length rest with
      | some later => quotedLines quote fuel done later
      | none =>
        match escape rest with
        | some (e, later) => quotedLines quote fuel (e :: done) later
        | none => none
    else if isPlain c then quotedLines quote fuel (c :: done) rest
    else
      match newline? (c :: rest) with
      | some later => quotedLines quote fuel ('\n' :: done) later
      | none => none

def string (cs : List Char) : Option (String × List Char) :=
  let read : Option (List Char × List Char) :=
    match cs with
    | '"' :: '"' :: '"' :: rest => quotedLines '"' (rest.length + 1) [] ((newline? rest).getD rest)
    | '\'' :: '\'' :: '\'' :: rest =>
      quotedLines '\'' (rest.length + 1) [] ((newline? rest).getD rest)
    | '"' :: rest => quoted '"' (rest.length + 1) [] rest
    | '\'' :: rest => quoted '\'' (rest.length + 1) [] rest
    | _ => none
  read.map fun r => (String.ofList r.1, r.2)

/-! ## Numbers -/

/-- Reads digits, single underscores between them, of at most `fuel` characters. -/
def digitRun (isDigit : Char → Bool) : Nat → Reader (List Char)
  | 0, _ => none
  | _ + 1, [] => none
  | fuel + 1, c :: rest =>
    if !isDigit c then none
    else
      let later :=
        match rest with
        | '_' :: after => digitRun isDigit fuel after
        | after => some ((digitRun isDigit fuel after).getD ([], after))
      later.map fun r => (c :: r.1, r.2)

def digits (isDigit : Char → Bool) : Reader (List Char) :=
  fun cs => digitRun isDigit (cs.length + 1) cs

def number (base : Nat) (ds : List Char) : Nat :=
  ds.foldl (fun n c => base * n + (hexDigit? c).getD 0) 0

def sign (cs : List Char) : Bool × List Char :=
  match cs with
  | '-' :: rest => (true, rest)
  | '+' :: rest => (false, rest)
  | _ => (false, cs)

/-- Reads a decimal number that does not start with a needless zero. -/
def wholeDigits : Reader (List Char)
  | '0' :: rest => some (['0'], rest)
  | cs => digits Char.isDigit cs

def bounded (i : Int) : Option Int :=
  if -0x8000_0000_0000_0000 ≤ i ∧ i < 0x8000_0000_0000_0000 then some i else none

/-- Reads an integer. A base other than ten has a marker and no sign. -/
def integer (cs : List Char) : Option (Int × List Char) :=
  let based (base : Nat) (isDigit : Char → Bool) (rest : List Char) : Option (Int × List Char) := do
    let (ds, later) ← digits isDigit rest
    return (← bounded (number base ds), later)
  match cs with
  | '0' :: 'x' :: rest => based 16 (fun c => (hexDigit? c).isSome) rest
  | '0' :: 'o' :: rest => based 8 (fun c => decide ('0' ≤ c ∧ c ≤ '7')) rest
  | '0' :: 'b' :: rest => based 2 (fun c => c == '0' || c == '1') rest
  | _ => do
    let (negative, rest) := sign cs
    let (ds, later) ← wholeDigits rest
    let n : Int := number 10 ds
    return (← bounded (if negative then -n else n), later)

def exponent : Reader Int
  | c :: cs => do
    if c ≠ 'e' ∧ c ≠ 'E' then none
    let (negative, rest) := sign cs
    let (ds, later) ← digits Char.isDigit rest
    let n : Int := number 10 ds
    return (if negative then -n else n, later)
  | [] => none

/-- Reads a number with a fraction, an exponent or both. One too large to be finite is refused,
but only if it is positive. -/
def decimal (cs : List Char) : Option (Binary64 × List Char) := do
  let (negative, rest) := sign cs
  let (whole, rest) ← wholeDigits rest
  let (part, power, rest) ←
    match rest with
    | '.' :: after => do
      let (part, later) ← digits Char.isDigit after
      match exponent later with
      | some (power, last) => some (part, power, last)
      | none => some (part, 0, later)
    | _ => (exponent rest).map fun r => ([], r.1, r.2)
  let x := Binary64.ofDecimal negative (number 10 (whole ++ part)) (power - part.length)
  if x = Binary64.infinity false then none else some (x, rest)

def special (cs : List Char) : Option (Binary64 × List Char) :=
  let (negative, rest) := sign cs
  match rest with
  | 'i' :: 'n' :: 'f' :: later => some (Binary64.infinity negative, later)
  | 'n' :: 'a' :: 'n' :: later => some (Binary64.notANumber negative, later)
  | _ => none

/-! ## Dates and times -/

/-- Reads exactly so many digits as a number between two bounds. -/
def field (width least most : Nat) (cs : List Char) : Option (Nat × List Char) :=
  let ds := cs.take width
  let n := number 10 ds
  if ds.length = width ∧ ds.all Char.isDigit ∧ least ≤ n ∧ n ≤ most then some (n, cs.drop width)
  else none

def expect? (c : Char) : List Char → Option (List Char)
  | d :: rest => if c = d then some rest else none
  | [] => none

def daysIn (year month : Nat) : Nat :=
  if month = 2 then
    if year % 4 = 0 ∧ (year % 100 ≠ 0 ∨ year % 400 = 0) then 29 else 28
  else if month = 4 ∨ month = 6 ∨ month = 9 ∨ month = 11 then 30
  else 31

def date? (cs : List Char) : Option (List Char) := do
  let (year, cs) ← field 4 0 9999 cs
  let cs ← expect? '-' cs
  let (month, cs) ← field 2 1 12 cs
  let cs ← expect? '-' cs
  let (_, cs) ← field 2 1 (daysIn year month) cs
  return cs

def time? (cs : List Char) : Option (List Char) := do
  let (_, cs) ← field 2 0 23 cs
  let cs ← expect? ':' cs
  let (_, cs) ← field 2 0 59 cs
  let cs ← expect? ':' cs
  let (_, cs) ← field 2 0 60 cs
  match cs with
  | '.' :: rest =>
    if (rest.takeWhile Char.isDigit).isEmpty then none else some (rest.dropWhile Char.isDigit)
  | _ => some cs

def offset? : List Char → Option (List Char)
  | 'Z' :: rest => some rest
  | 'z' :: rest => some rest
  | c :: rest => do
    if c ≠ '+' ∧ c ≠ '-' then none
    let (_, cs) ← field 2 0 23 rest
    let cs ← expect? ':' cs
    let (_, cs) ← field 2 0 59 cs
    return cs
  | [] => none

/-- The text behind a date, a time, or a date with a time and perhaps an offset. -/
def moment? (cs : List Char) : Option (List Char) :=
  match date? cs with
  | none => time? cs
  | some rest =>
    match rest with
    | c :: after =>
      if c = 'T' ∨ c = 't' ∨ c = ' ' then
        match time? after with
        | some later => some ((offset? later).getD later)
        | none => some rest
      else some rest
    | [] => some rest

end BlobExchange.Toml

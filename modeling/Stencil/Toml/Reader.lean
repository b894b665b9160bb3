import Stencil.Text.Basic
import Stencil.Toml.Basic

/-!
# Reading TOML

`Toml.parse?` reads a document whose values are texts, integers, truth values, arrays and tables.
Fractions, dates and arrays of tables, which no setting has, are refused.
-/

namespace Stencil.Toml

/-! ### Blanks and comments -/

/-- The characters after any blanks on the line. -/
def skipBlanks : List Char → List Char :=
  List.dropWhile fun c => c = ' ' || c = '\t'

/-- Characters other than control characters; the tab counts as none. -/
def isPlain (c : Char) : Bool :=
  c = '\t' || (0x20 ≤ c.val && c.val ≠ 0x7F)

/-- The characters after the end of a line. -/
def newLine? : List Char → Option (List Char)
  | '\n' :: rest => some rest
  | '\r' :: '\n' :: rest => some rest
  | _ => none

/-- The characters after a comment, if one begins here. -/
def skipComment : List Char → List Char
  | '#' :: rest => rest.dropWhile isPlain
  | cs => cs

/-- The characters after blanks, a comment and the end of the line or of the document. -/
def lineEnd? (cs : List Char) : Option (List Char) :=
  match skipComment (skipBlanks cs) with
  | [] => some []
  | rest => newLine? rest

/-- The characters after any blanks, comments and line ends. -/
def skipGap (cs : List Char) : List Char :=
  match cs with
  | [] => []
  | c :: rest =>
    if c = ' ' || c = '\t' || c = '\n' then skipGap rest
    else if c = '\r' && rest.head? = some '\n' then skipGap rest
    else if c = '#' then skipGap (rest.dropWhile isPlain)
    else cs
termination_by cs.length
decreasing_by
  · simp
  · simp
  · exact Nat.lt_succ_of_le (List.dropWhile_sublist _).length_le

/-! ### Texts -/

/-- The character with the number that `count` hexadecimal digits give. -/
def codePoint (count : Nat) (cs : List Char) : Option (Char × List Char) :=
  let digits := cs.take count
  let number := digits.foldl (fun value digit => 16 * value + Text.hexValue digit) 0
  if digits.length = count && digits.all Text.isHexDigit && number.isValidChar then
    some (Char.ofNat number, cs.drop count)
  else none

/-- The character of an escape, after the backslash. -/
def escaped : List Char → Option (Char × List Char)
  | 'b' :: rest => some ('\x08', rest)
  | 't' :: rest => some ('\t', rest)
  | 'n' :: rest => some ('\n', rest)
  | 'f' :: rest => some ('\x0c', rest)
  | 'r' :: rest => some ('\r', rest)
  | '"' :: rest => some ('"', rest)
  | '\\' :: rest => some ('\\', rest)
  | 'u' :: rest => codePoint 4 rest
  | 'U' :: rest => codePoint 8 rest
  | _ => none

/-- The characters up to a closing double quote; `found` holds those before, nearest first. -/
def basicText (found : List Char) (cs : List Char) : Option (String × List Char) :=
  match cs with
  | [] => none
  | '"' :: rest => some (String.ofList found.reverse, rest)
  | '\\' :: rest =>
    match escaped rest with
    | some (c, after) =>
      if after.length < rest.length + 1 then basicText (c :: found) after else none
    | none => none
  | c :: rest => if isPlain c then basicText (c :: found) rest else none
termination_by cs.length

/-- The characters up to a closing single quote; `found` holds those before, nearest first. -/
def literalText (found : List Char) : List Char → Option (String × List Char)
  | [] => none
  | '\'' :: rest => some (String.ofList found.reverse, rest)
  | c :: rest => if isPlain c then literalText (c :: found) rest else none

/-- The characters after a line feed at the start of a text of several lines. -/
def skipFirstLineEnd (cs : List Char) : List Char :=
  (newLine? cs).getD cs

/-- The characters after any blanks and line ends. A carriage return counts only with its line feed. -/
def skipBlankLines : List Char → List Char
  | ' ' :: rest => skipBlankLines rest
  | '\t' :: rest => skipBlankLines rest
  | '\n' :: rest => skipBlankLines rest
  | '\r' :: '\n' :: rest => skipBlankLines rest
  | cs => cs

/-- The characters after blanks and line ends that follow a backslash, if a line ends there. -/
def continued? (cs : List Char) : Option (List Char) :=
  (newLine? (skipBlanks cs)).map skipBlankLines

/-- The characters up to three closing quotes, on several lines; `found` holds those before, nearest
first. Up to two quotes can stand before the closing ones. With double quotes there are escapes. -/
def longText (quote : Char) (found : List Char) (cs : List Char) : Option (String × List Char) :=
  match cs with
  | [] => none
  | c :: rest =>
    if c = quote then
      let count := 1 + (rest.takeWhile (· = quote)).length
      if 3 ≤ count then
        let kept := min (count - 3) 2
        some (String.ofList (List.replicate kept quote ++ found).reverse, cs.drop (kept + 3))
      else longText quote (quote :: found) rest
    else if c = '\\' && quote = '"' then
      match continued? rest with
      | some after => if after.length < rest.length + 1 then longText quote found after else none
      | none =>
        match escaped rest with
        | some (c, after) =>
          if after.length < rest.length + 1 then longText quote (c :: found) after else none
        | none => none
    else
      match newLine? cs with
      | some after =>
        if after.length < rest.length + 1 then longText quote ('\n' :: found) after else none
      | none => if isPlain c then longText quote (c :: found) rest else none
termination_by cs.length

/-! ### Keys -/

/-- Characters of a key without quotes. -/
def isBare (c : Char) : Bool :=
  c.isAlphanum || c = '_' || c = '-'

/-- One part of a key. -/
def keyPart : List Char → Option (String × List Char)
  | '"' :: rest => basicText [] rest
  | '\'' :: rest => literalText [] rest
  | cs =>
    let bare := cs.takeWhile isBare
    if bare.isEmpty then none else some (String.ofList bare, cs.dropWhile isBare)

/-- The parts of a dotted key, with blanks around them. -/
def keyParts (cs : List Char) : Option (List String × List Char) :=
  match keyPart (skipBlanks cs) with
  | none => none
  | some (part, after) =>
    match skipBlanks after with
    | '.' :: rest =>
      if rest.length < cs.length then
        (keyParts rest).map fun (parts, rest) => (part :: parts, rest)
      else none
    | rest => some ([part], rest)
termination_by cs.length

/-! ### Values -/

/-- Digits with underscores between them. -/
def digitRun (isDigit : Char → Bool) : List Char → List Char × List Char
  | c :: '_' :: d :: rest =>
    if isDigit c && isDigit d then
      let (digits, rest) := digitRun isDigit (d :: rest)
      (c :: digits, rest)
    else if isDigit c then ([c], '_' :: d :: rest)
    else ([], c :: '_' :: d :: rest)
  | c :: rest =>
    if isDigit c then
      let (digits, rest) := digitRun isDigit rest
      (c :: digits, rest)
    else ([], c :: rest)
  | [] => ([], [])

/-- The number that digits give in a base. -/
def baseValue (base : Nat) (digits : List Char) : Nat :=
  digits.foldl (fun value digit => base * value + Text.hexValue digit) 0

/-- A number of digits in a base, after its mark. -/
def basedInteger (base : Nat) (isDigit : Char → Bool) (cs : List Char) : Option (Toml × List Char) :=
  let (digits, rest) := digitRun isDigit cs
  if digits.isEmpty || Nat.pow 2 63 ≤ baseValue base digits then none
  else some (.integer (baseValue base digits), rest)

/-- A decimal number after its sign, with no needless zero in front. -/
def decimalInteger (negative : Bool) (cs : List Char) : Option (Toml × List Char) :=
  match cs with
  | '0' :: rest => some (.integer 0, rest)
  | _ =>
    let (digits, rest) := digitRun Char.isDigit cs
    let magnitude := decimalValue digits
    let fits := if negative then magnitude ≤ Nat.pow 2 63 else magnitude < Nat.pow 2 63
    if digits.isEmpty || !fits then none
    else some (.integer (if negative then -(magnitude : Int) else magnitude), rest)

/-- An integer of sixty-four bits. -/
def integerAt : List Char → Option (Toml × List Char)
  | '0' :: 'x' :: rest => basedInteger 16 Text.isHexDigit rest
  | '0' :: 'o' :: rest => basedInteger 8 (fun c => '0' ≤ c && c ≤ '7') rest
  | '0' :: 'b' :: rest => basedInteger 2 (fun c => c = '0' || c = '1') rest
  | '-' :: rest => decimalInteger true rest
  | '+' :: rest => decimalInteger false rest
  | cs => decimalInteger false cs

/-- Items up to the closing bracket, each read by `item`; `found` holds those before, nearest first.
A comma may stand after the last. -/
def itemsAt (item : List Char → Option (Toml × List Char)) (found : List Toml) (cs : List Char) :
    Option (List Toml × List Char) :=
  match skipGap cs with
  | ']' :: rest => some (found.reverse, rest)
  | start =>
    match item start with
    | none => none
    | some (value, after) =>
      match skipGap after with
      | ']' :: rest => some ((value :: found).reverse, rest)
      | ',' :: rest =>
        if rest.length < cs.length then itemsAt item (value :: found) rest else none
      | _ => none
termination_by cs.length

/-- A key, an equals sign and a value, added to entries. -/
def assignmentAt (item : List Char → Option (Toml × List Char)) (origin : Origin)
    (entries : List (String × Toml)) (cs : List Char) :
    Option (List (String × Toml) × List Char) := do
  let (parts, rest) ← keyParts cs
  let name ← parts.getLast?
  match rest with
  | '=' :: rest => do
    let (value, rest) ← item (skipBlanks rest)
    let entries ← assign? parts.dropLast name value origin entries
    some (entries, rest)
  | _ => none

/-- Entries up to the closing brace, each value read by `item`, added to those found before. -/
def entriesAt (item : List Char → Option (Toml × List Char)) (found : List (String × Toml))
    (cs : List Char) : Option (List (String × Toml) × List Char) :=
  match assignmentAt item .inline found cs with
  | none => none
  | some (found, after) =>
    match skipBlanks after with
    | '\x7d' :: rest => some (found, rest)
    | ',' :: rest => if rest.length < cs.length then entriesAt item found rest else none
    | _ => none
termination_by cs.length

/-- The characters after `word`, if the text begins with it. -/
def wordAt (word : String) (value : Toml) (cs : List Char) : Option (Toml × List Char) :=
  if word.toList.isPrefixOf cs then some (value, cs.drop word.length) else none

/-- A value with at most `depth` arrays and tables around each other. -/
def valueAt (depth : Nat) (cs : List Char) : Option (Toml × List Char) :=
  match cs with
  | '"' :: '"' :: '"' :: rest =>
    (longText '"' [] (skipFirstLineEnd rest)).map fun (s, rest) => (.text s, rest)
  | '\'' :: '\'' :: '\'' :: rest =>
    (longText '\'' [] (skipFirstLineEnd rest)).map fun (s, rest) => (.text s, rest)
  | '"' :: rest => (basicText [] rest).map fun (s, rest) => (.text s, rest)
  | '\'' :: rest => (literalText [] rest).map fun (s, rest) => (.text s, rest)
  | 't' :: rest => wordAt "rue" (.bool true) rest
  | 'f' :: rest => wordAt "alse" (.bool false) rest
  | '[' :: rest =>
    match depth with
    | 0 => none
    | depth + 1 =>
      (itemsAt (valueAt depth) [] rest).map fun (items, rest) => (.array items, rest)
  | '\x7b' :: rest =>
    match depth with
    | 0 => none
    | depth + 1 =>
      match skipBlanks rest with
      | '\x7d' :: rest => some (.table .inline [], rest)
      | rest =>
        (entriesAt (valueAt depth) [] rest).map fun (entries, rest) =>
          (.table .inline entries, rest)
  | cs => integerAt cs

/-! ### Documents -/

/-- How deep arrays and tables can stand in each other. -/
def maxDepth : Nat := 80

/-- What a line says: nothing, that a table begins, or that a value is set in the table begun last.
The path of that table, the entries of the document, and the characters after the line. -/
def lineAt (current : List String) (entries : List (String × Toml)) (cs : List Char) :
    Option (List String × List (String × Toml) × List Char) :=
  match lineEnd? cs with
  | some rest => some (current, entries, rest)
  | none =>
    match skipBlanks cs with
    | '[' :: rest => do
      let (parts, rest) ← keyParts rest
      let name ← parts.getLast?
      match rest with
      | ']' :: rest => do
        let entries ← declare? parts.dropLast name entries
        some (parts, entries, ← lineEnd? rest)
      | _ => none
    | start => do
      let (parts, rest) ← keyParts start
      let name ← parts.getLast?
      match rest with
      | '=' :: rest => do
        let (value, rest) ← valueAt maxDepth (skipBlanks rest)
        let entries ← update? .implied []
          (fun origin below => assign? parts.dropLast name value origin below)
          current .header entries
        some (current, entries, ← lineEnd? rest)
      | _ => none

/-- The entries of a document from some line on. -/
def linesAt (current : List String) (entries : List (String × Toml)) (cs : List Char) :
    Option (List (String × Toml)) :=
  match cs with
  | [] => some entries
  | c :: tail =>
    match lineAt current entries (c :: tail) with
    | none => none
    | some (current, entries, rest) =>
      if rest.length < tail.length + 1 then linesAt current entries rest else none
termination_by cs.length

/-- Reads a document, which may begin with a byte order mark. -/
def parse? (s : String) : Option Toml :=
  let cs := match s.toList with
    | '\ufeff' :: rest => rest
    | cs => cs
  (linesAt [] [] cs).map (.table .header)

end Stencil.Toml

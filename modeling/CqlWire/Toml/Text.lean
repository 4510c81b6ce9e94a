import CqlWire.Bytes
import CqlWire.Text.Ascii

/-!
# TOML texts and keys

Texts stand between double quotes, where a backslash escapes, or between apostrophes, where nothing
does. Three quotes open a text of several lines: a line break right behind them is dropped, a line
ends in a line feed however it is written, up to two quotes may stand together, and between double
quotes a backslash at the end of a line removes all white space up to the next character.

* `Toml.text?`: a text at the front, and what stands behind it;
* `Toml.path?`: a key, dotted or not, with the blanks around its parts;
* `Toml.nestingLimit`: how deep values and keys may nest;
* `Toml.skipLines?`, `Toml.lineEnd?`: blanks, comments and line ends.
-/

namespace CqlWire.Toml

open Text (isAsciiLetter isAsciiDigit)

/-- A character that comments and texts may hold: a tab, and all that is no control character. -/
def isPlain (c : Char) : Bool :=
  c == '\t' || (' ' ≤ c && c != '\x7f')

/-- A space or a tab. -/
def isGap (c : Char) : Bool :=
  c == ' ' || c == '\t'

/-- What a text reader has read with one more character in front. -/
def withChar? (c : Option Char) (rest : Option (List Char × List Char)) :
    Option (List Char × List Char) := do
  let (s, r) ← rest
  return ((← c) :: s, r)

/-! ## Escapes -/

/-- The character of a one-letter escape. -/
def escaped? : Char → Option Char
  | 'b' => some '\x08'
  | 't' => some '\t'
  | 'n' => some '\n'
  | 'f' => some '\x0C'
  | 'r' => some '\r'
  | '"' => some '"'
  | '\\' => some '\\'
  | _ => none

/-- The character whose code point hexadecimal digits write. -/
def codePoint? (digits : List Char) : Option Char := do
  let n ← digits.foldlM (fun n d => return n * 16 + (← hexValue? d)) 0
  if n < 0xD800 ∨ (0xE000 ≤ n ∧ n < 0x110000) then return Char.ofNat n else none

/-! ## Texts on one line -/

/-- A text up to its closing double quote. -/
def basic? : List Char → Option (List Char × List Char)
  | [] => none
  | '"' :: r => some ([], r)
  | '\\' :: 'u' :: a :: b :: c :: d :: r => withChar? (codePoint? [a, b, c, d]) (basic? r)
  | '\\' :: 'U' :: a :: b :: c :: d :: e :: f :: g :: h :: r =>
    withChar? (codePoint? [a, b, c, d, e, f, g, h]) (basic? r)
  | '\\' :: c :: r => withChar? (escaped? c) (basic? r)
  | c :: r => withChar? (if isPlain c && c != '\\' then some c else none) (basic? r)

/-- A text up to its closing apostrophe. -/
def literal? : List Char → Option (List Char × List Char)
  | [] => none
  | '\x27' :: r => some ([], r)
  | c :: r => withChar? (if isPlain c then some c else none) (literal? r)

/-! ## Texts on several lines -/

/-- Whether a text is under way, its line is about to end behind a backslash, or the white space
after such an end is being removed. -/
inductive Folding where
  | none | line | blanks
deriving DecidableEq

/-- A text up to three closing double quotes. -/
def multiBasic? : Folding → List Char → Option (List Char × List Char)
  | _, [] => none
  | .line, '\n' :: r => multiBasic? .blanks r
  | .line, '\r' :: '\n' :: r => multiBasic? .blanks r
  | .line, c :: r => if isGap c then multiBasic? .line r else none
  | _, '"' :: '"' :: '"' :: '"' :: '"' :: r => some (['"', '"'], r)
  | _, '"' :: '"' :: '"' :: '"' :: r => some (['"'], r)
  | _, '"' :: '"' :: '"' :: r => some ([], r)
  | _, '\\' :: 'u' :: a :: b :: c :: d :: r =>
    withChar? (codePoint? [a, b, c, d]) (multiBasic? .none r)
  | _, '\\' :: 'U' :: a :: b :: c :: d :: e :: f :: g :: h :: r =>
    withChar? (codePoint? [a, b, c, d, e, f, g, h]) (multiBasic? .none r)
  | _, '\\' :: '\r' :: '\n' :: r => multiBasic? .blanks r
  | _, '\\' :: '\n' :: r => multiBasic? .blanks r
  | _, '\\' :: c :: r =>
    if isGap c then multiBasic? .line r else withChar? (escaped? c) (multiBasic? .none r)
  | .blanks, '\n' :: r => multiBasic? .blanks r
  | .blanks, '\r' :: '\n' :: r => multiBasic? .blanks r
  | .none, '\n' :: r => withChar? (some '\n') (multiBasic? .none r)
  | .none, '\r' :: '\n' :: r => withChar? (some '\n') (multiBasic? .none r)
  | folding, c :: r =>
    if folding = .blanks && isGap c then multiBasic? .blanks r
    else withChar? (if isPlain c then some c else none) (multiBasic? .none r)

/-- A text up to three closing apostrophes. -/
def multiLiteral? : List Char → Option (List Char × List Char)
  | [] => none
  | '\x27' :: '\x27' :: '\x27' :: '\x27' :: '\x27' :: r => some (['\x27', '\x27'], r)
  | '\x27' :: '\x27' :: '\x27' :: '\x27' :: r => some (['\x27'], r)
  | '\x27' :: '\x27' :: '\x27' :: r => some ([], r)
  | '\n' :: r => withChar? (some '\n') (multiLiteral? r)
  | '\r' :: '\n' :: r => withChar? (some '\n') (multiLiteral? r)
  | c :: r => withChar? (if isPlain c then some c else none) (multiLiteral? r)

/-- The text without a line break in front. -/
def dropBreak : List Char → List Char
  | '\n' :: r => r
  | '\r' :: '\n' :: r => r
  | s => s

/-- A text at the front, in any of the four ways of writing one. -/
def text? : List Char → Option (List Char × List Char)
  | '"' :: '"' :: '"' :: r => multiBasic? .none (dropBreak r)
  | '\x27' :: '\x27' :: '\x27' :: r => multiLiteral? (dropBreak r)
  | '"' :: r => basic? r
  | '\x27' :: r => literal? r
  | _ => none

/-! ## Keys -/

/-- A character of a key without quotes. -/
def isBareKey (c : Char) : Bool :=
  isAsciiLetter c || isAsciiDigit c || c == '-' || c == '_'

/-- One part of a key: bare, or a text on one line. -/
def key? (s : List Char) : Option (List Char × List Char) :=
  match s with
  | '"' :: r => basic? r
  | '\x27' :: r => literal? r
  | _ =>
    match s.takeWhile isBareKey with
    | [] => none
    | key => some (key, s.dropWhile isBareKey)

/-- Nesting stays below this: the number of brackets that stand open at once, and the number of
parts that a key has. -/
def nestingLimit : Nat := 80

/-- A key of at most `room` parts, with dots between them. -/
def parts? : (room : Nat) → List Char → Option (List (List Char) × List Char)
  | 0, _ => none
  | room + 1, s => do
    let (key, r) ← key? (s.dropWhile isGap)
    match r.dropWhile isGap with
    | '.' :: r =>
      let (path, r) ← parts? room r
      return (key :: path, r)
    | r => return ([key], r)

/-- A key, dotted or not, and what stands behind it. -/
def path? (s : List Char) : Option (List (List Char) × List Char) :=
  parts? (nestingLimit - 1) s

/-! ## Between the values -/

/-- The text behind blanks, line ends and whole comments; `comment` tells whether one is open. -/
def skipLines? : (comment : Bool) → List Char → Option (List Char)
  | _, '\n' :: r => skipLines? false r
  | _, '\r' :: '\n' :: r => skipLines? false r
  | true, [] => none
  | true, c :: r => if isPlain c then skipLines? true r else none
  | false, [] => some []
  | false, c :: r =>
    if isGap c then skipLines? false r
    else if c == '#' then skipLines? true r
    else some (c :: r)

/-- The text behind the end of a line, where only blanks and a comment stand before it. -/
def lineEnd? : (comment : Bool) → List Char → Option (List Char)
  | _, [] => some []
  | _, '\n' :: r => some r
  | _, '\r' :: '\n' :: r => some r
  | true, c :: r => if isPlain c then lineEnd? true r else none
  | false, c :: r =>
    if isGap c then lineEnd? false r
    else if c == '#' then lineEnd? true r
    else none

end CqlWire.Toml

import Fern.Location

/-!
Tokens, the words of the language.

* `Token.Kind`: what sort of word a token is, and `Token.Kind.name`, its name in dumps and messages.
* `Token`: a kind, the text it was written with, and its place. `Token.text` is its line in a dump.
* `reservedWords`, `punctuationPairs`, `punctuation`: the kinds whose spelling never varies.
-/

namespace Fern

/-- The sorts of tokens. -/
inductive Token.Kind where
  -- punctuation
  | leftParen | rightParen | leftBrace | rightBrace | leftBracket | rightBracket | comma | dot
  | colon | semicolon | ref | plus | minus | star | slash | arrow | equal | equalEqual | colonEqual
  | bang | bangEqual | less | lessEqual | greater | greaterEqual
  -- words and literals
  | ident | string | char | integer | float
  -- reserved words
  | letWord | ifWord | elseWord | forWord | whileWord | returnWord | breakWord | continueWord
  | trueWord | falseWord | nilWord | funcWord | externWord
  -- kinds that no source text produces
  | endOfInput | invalid | comment
deriving Repr, DecidableEq

/-- A word of the language. The text of a string or character literal is what stands between its
quotes, escapes unread. -/
structure Token where
  kind : Token.Kind
  lexeme : String
  location : Location
deriving Repr, DecidableEq

namespace Token

/-- The name of a kind in dumps and messages. -/
def Kind.name : Kind → String
  | leftParen => "LParen"
  | rightParen => "RParen"
  | leftBrace => "LBrace"
  | rightBrace => "RBrace"
  | leftBracket => "LBracket"
  | rightBracket => "RBracket"
  | comma => "Comma"
  | dot => "Dot"
  | colon => "Colon"
  | semicolon => "Semicolon"
  | ref => "Ref"
  | plus => "Plus"
  | minus => "Minus"
  | star => "Star"
  | slash => "Slash"
  | arrow => "Arrow"
  | equal => "Equal"
  | equalEqual => "EqualEqual"
  | colonEqual => "ColonEqual"
  | bang => "Bang"
  | bangEqual => "BangEqual"
  | less => "Less"
  | lessEqual => "LessEqual"
  | greater => "Greater"
  | greaterEqual => "GreaterEqual"
  | ident => "Ident"
  | string => "String"
  | char => "Char"
  | integer => "Integer"
  | float => "Float"
  | letWord => "Let"
  | ifWord => "If"
  | elseWord => "Else"
  | forWord => "For"
  | whileWord => "While"
  | returnWord => "Return"
  | breakWord => "Break"
  | continueWord => "Continue"
  | trueWord => "True"
  | falseWord => "False"
  | nilWord => "Nil"
  | funcWord => "Func"
  | externWord => "Extern"
  | endOfInput => "Eof"
  | invalid => "Invalid"
  | comment => "Comment"

/-- The kinds whose tokens may be written in more than one way. -/
def Kind.isOpen : Kind → Bool
  | .ident | .string | .char | .integer | .float => true
  | _ => false

/-- The line of a token in a dump: its place, its kind, and its text where the kind leaves it open.
-/
def text (t : Token) : String :=
  t.location.text ++ " " ++ t.kind.name ++ if t.kind.isOpen then " (" ++ t.lexeme ++ ")" else ""

/-! ### Fixed spellings -/

/-- The words that are no identifiers. -/
def reservedWords : List (String × Kind) :=
  [("let", .letWord), ("if", .ifWord), ("else", .elseWord), ("for", .forWord),
    ("while", .whileWord), ("return", .returnWord), ("break", .breakWord),
    ("continue", .continueWord), ("true", .trueWord), ("false", .falseWord), ("nil", .nilWord),
    ("func", .funcWord), ("extern", .externWord)]

/-- Punctuation of two characters. -/
def punctuationPairs : List (Char × Char × Kind) :=
  [('-', '>', .arrow), ('=', '=', .equalEqual), (':', '=', .colonEqual), ('!', '=', .bangEqual),
    ('<', '=', .lessEqual), ('>', '=', .greaterEqual)]

/-- Punctuation of one character. -/
def punctuation : List (Char × Kind) :=
  [('(', .leftParen), (')', .rightParen), ('\x7b', .leftBrace), ('\x7d', .rightBrace),
    ('[', .leftBracket), (']', .rightBracket), (',', .comma), ('.', .dot), (':', .colon),
    (';', .semicolon), ('&', .ref), ('+', .plus), ('-', .minus), ('*', .star), ('/', .slash),
    ('=', .equal), ('!', .bang), ('<', .less), ('>', .greater)]

end Token

end Fern

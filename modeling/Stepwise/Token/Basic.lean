import Stepwise.Source.Span
import Stepwise.Value

/-!
# Tokens

The words of a program text: symbols, keywords, names and literals, each with its span. The end of
the text is no token of its own; a list of tokens simply ends there.
-/

namespace Stepwise

/-- Punctuation and operator signs. -/
inductive Symbol where
  | leftParen
  | rightParen
  | leftBracket
  | rightBracket
  | leftBrace
  | rightBrace
  | semicolon
  | period
  | comma
  | equal
  | bang
  | plus
  | minus
  | star
  | slash
  | percent
  | pipe
  | ampersand
  | doublePipe
  | doubleAmpersand
  | plusEqual
  | minusEqual
  | starEqual
  | slashEqual
  | percentEqual
  | bangEqual
  | doubleEqual
  | greater
  | greaterEqual
  | less
  | lessEqual
deriving DecidableEq

/-- How a symbol is written. -/
def Symbol.text : Symbol → String
  | .leftParen => "("
  | .rightParen => ")"
  | .leftBracket => "["
  | .rightBracket => "]"
  | .leftBrace => "\x7b"
  | .rightBrace => "\x7d"
  | .semicolon => ";"
  | .period => "."
  | .comma => ","
  | .equal => "="
  | .bang => "!"
  | .plus => "+"
  | .minus => "-"
  | .star => "*"
  | .slash => "/"
  | .percent => "%"
  | .pipe => "|"
  | .ampersand => "&"
  | .doublePipe => "||"
  | .doubleAmpersand => "&&"
  | .plusEqual => "+="
  | .minusEqual => "-="
  | .starEqual => "*="
  | .slashEqual => "/="
  | .percentEqual => "%="
  | .bangEqual => "!="
  | .doubleEqual => "=="
  | .greater => ">"
  | .greaterEqual => ">="
  | .less => "<"
  | .lessEqual => "<="

/-- The symbol of one character that no second character extends. -/
def Symbol.single? (c : Char) : Option Symbol :=
  match c with
  | '(' => some .leftParen
  | ')' => some .rightParen
  | '[' => some .leftBracket
  | ']' => some .rightBracket
  | '\x7b' => some .leftBrace
  | '\x7d' => some .rightBrace
  | ';' => some .semicolon
  | '.' => some .period
  | ',' => some .comma
  | _ => none

/-- A symbol that a second character extends to another one. -/
structure SymbolPair where
  alone : Symbol
  second : Char
  paired : Symbol

/-- The symbols that start with a character that can be extended. -/
def SymbolPair.of? (c : Char) : Option SymbolPair :=
  match c with
  | '=' => some ⟨.equal, '=', .doubleEqual⟩
  | '!' => some ⟨.bang, '=', .bangEqual⟩
  | '+' => some ⟨.plus, '=', .plusEqual⟩
  | '-' => some ⟨.minus, '=', .minusEqual⟩
  | '*' => some ⟨.star, '=', .starEqual⟩
  | '/' => some ⟨.slash, '=', .slashEqual⟩
  | '%' => some ⟨.percent, '=', .percentEqual⟩
  | '|' => some ⟨.pipe, '|', .doublePipe⟩
  | '&' => some ⟨.ampersand, '&', .doubleAmpersand⟩
  | '>' => some ⟨.greater, '=', .greaterEqual⟩
  | '<' => some ⟨.less, '=', .lessEqual⟩
  | _ => none

/-- Reserved words; those for truth values are literals instead. -/
inductive Keyword where
  | «if»
  | «else»
  | «for»
  | «while»
  | «break»
  | «continue»
  | var
  | «return»
  | fn
  | assign
  | to
  | print
  | make
deriving DecidableEq

/-- How a keyword is written. -/
def Keyword.text : Keyword → String
  | .if => "if"
  | .else => "else"
  | .for => "for"
  | .while => "while"
  | .break => "break"
  | .continue => "continue"
  | .var => "var"
  | .return => "return"
  | .fn => "fn"
  | .assign => "assign"
  | .to => "to"
  | .print => "print"
  | .make => "make"

/-- All keywords. -/
def Keyword.all : List Keyword :=
  [.if, .else, .for, .while, .break, .continue, .var, .return, .fn, .assign, .to, .print, .make]

/-- The keyword with this spelling. -/
def Keyword.ofText? (word : String) : Option Keyword := Keyword.all.find? (·.text == word)

/-- What a token says. -/
inductive Lexeme where
  | symbol (s : Symbol)
  | keyword (k : Keyword)
  | identifier (name : String)
  | int (n : Nat)
  | float (x : Float)
  | string (s : String)
  | bool (b : Bool)
deriving DecidableEq

namespace Lexeme

/-- The kind of a lexeme for a reader; symbols and keywords stand for themselves. -/
def kind : Lexeme → String
  | .symbol s => s.text
  | .keyword k => k.text
  | .identifier _ => "identifier"
  | .int _ => "integer literal"
  | .float _ => "float literal"
  | .string _ => "string literal"
  | .bool _ => "bool literal"

/-- What is said of the place after the last token. -/
def endKind : String := "end of file"

/-- The value of a literal. -/
def value? : Lexeme → Option Value
  | .int n => some (.int n)
  | .float x => some (.float x)
  | .string s => some (.string s)
  | .bool b => some (.bool b)
  | _ => none

end Lexeme

/-- A lexeme and the place it stands at. -/
structure Token where
  lexeme : Lexeme
  span : Span
deriving DecidableEq

end Stepwise

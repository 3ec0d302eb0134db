import Recolor.Number.Decimal
import Recolor.Script.Location
import Recolor.Text.Quoted

/-!
# Tokens

The words and signs that a script is made of. Each kind of token has a text, which is how messages
show it.
-/

set_option autoImplicit false

namespace Recolor

/-- A variable of the language: `$name` holds any value but a vector, `$$name` holds a vector. -/
inductive Variable where
  | scalar (name : String)
  | vector (name : String)
deriving DecidableEq, Repr

/-- The variable as it is written in a script. -/
def Variable.text : Variable → String
  | .scalar name => "$" ++ name
  | .vector name => "$$" ++ name

/-- The reserved words. -/
inductive Keyword where
  | alpha
  | require
  | allow
  | forbid
  | asWord
  | doWord
  | endWord
  | on
  | pixels
  | having
  | usingWord
  | inWord
deriving DecidableEq, Repr

namespace Keyword

/-- All reserved words. -/
def all : List Keyword :=
  [.alpha, .require, .allow, .forbid, .asWord, .doWord, .endWord, .on, .pixels, .having, .usingWord,
    .inWord]

/-- The word itself, in lower case. -/
def text : Keyword → String
  | .alpha => "alpha"
  | .require => "require"
  | .allow => "allow"
  | .forbid => "forbid"
  | .asWord => "as"
  | .doWord => "do"
  | .endWord => "end"
  | .on => "on"
  | .pixels => "pixels"
  | .having => "having"
  | .usingWord => "using"
  | .inWord => "in"

/-- The keyword that a lower-case word is. -/
def ofText? (word : String) : Option Keyword := all.find? (·.text == word)

end Keyword

/-- The operator and punctuation signs. -/
inductive Symbol where
  | gt
  | ge
  | lt
  | le
  | eq
  | ne
  | and
  | or
  | xor
  | tilde
  | plus
  | minus
  | star
  | slash
  | percent
  | leftParen
  | rightParen
  | leftBracket
  | rightBracket
  | dotDot
  | plusMinus
  | colon
  | semicolon
  | comma
  | dot
  | assign
  | mulAssign
  | divAssign
  | addAssign
  | subAssign
deriving DecidableEq, Repr

namespace Symbol

/-- The sign as it is shown. -/
def text : Symbol → String
  | .gt => ">"
  | .ge => ">="
  | .lt => "<"
  | .le => "<="
  | .eq => "=="
  | .ne => "!="
  | .and => "&"
  | .or => "|"
  | .xor => "^"
  | .tilde => "~"
  | .plus => "+"
  | .minus => "-"
  | .star => "*"
  | .slash => "/"
  | .percent => "%"
  | .leftParen => "("
  | .rightParen => ")"
  | .leftBracket => "["
  | .rightBracket => "]"
  | .dotDot => ".."
  | .plusMinus => "+-"
  | .colon => ":"
  | .semicolon => ";"
  | .comma => ","
  | .dot => "."
  | .assign => "="
  | .mulAssign => "*="
  | .divAssign => "/="
  | .addAssign => "+="
  | .subAssign => "-="

end Symbol

/-- The names of colour spaces that are words of the language. -/
def spaceWords : List String := ["rgb", "hsv", "xyz", "lab", "luv", "hed"]

/-- What a token is. -/
inductive TokenKind where
  | number (x : Number)
  | string (content : String)
  | variable (v : Variable)
  | keyword (k : Keyword)
  | space (name : String)
  | boolean (b : Bool)
  | none
  | symbol (s : Symbol)

namespace TokenKind

/-- The token as messages show it. -/
def text : TokenKind → String
  | .number x => x.text
  | .string content => Text.quoted content
  | .variable v => v.text
  | .keyword k => k.text
  | .space name => name
  | .boolean b => if b then "true" else "false"
  | .none => "none"
  | .symbol s => s.text

/-- The token is the given sign. -/
def isSymbol (kind : TokenKind) (s : Symbol) : Bool :=
  match kind with
  | .symbol t => t == s
  | _ => false

/-- The token is the given reserved word. -/
def isKeyword (kind : TokenKind) (k : Keyword) : Bool :=
  match kind with
  | .keyword l => l == k
  | _ => false

end TokenKind

/-- A token with its place in the script. -/
structure Token where
  kind : TokenKind
  span : Span

end Recolor

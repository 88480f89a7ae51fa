/-
# The kinds of tokens

`TokenType` of section 10 of SPEC_FULL.md with `name`, and the reserved words of the scanner.

A kind is a punctuation mark, an operator, a reserved word, one of the three open classes
(identifier, string, number) or the end of the input.
-/

namespace LoxFront

/-- What a token is, without what it holds. -/
inductive Kind where
  | leftParen
  | rightParen
  | leftBrace
  | rightBrace
  | minus
  | plus
  | semicolon
  | slash
  | star
  | bang
  | bangEqual
  | equal
  | equalEqual
  | greater
  | greaterEqual
  | less
  | lessEqual
  | identifier
  | string
  | number
  | andWord
  | constWord
  | elseWord
  | falseWord
  | forWord
  | ifWord
  | nilWord
  | orWord
  | printWord
  | returnWord
  | trueWord
  | varWord
  | whileWord
  | eof
  deriving DecidableEq, Repr

namespace Kind

/-- All kinds. -/
def all : List Kind :=
  [leftParen, rightParen, leftBrace, rightBrace, minus, plus, semicolon, slash, star, bang,
   bangEqual, equal, equalEqual, greater, greaterEqual, less, lessEqual, identifier, string, number,
   andWord, constWord, elseWord, falseWord, forWord, ifWord, nilWord, orWord, printWord, returnWord,
   trueWord, varWord, whileWord, eof]

/-- The name of a kind in listings. -/
def name : Kind → String
  | leftParen => "LEFT_PAREN"
  | rightParen => "RIGHT_PAREN"
  | leftBrace => "LEFT_BRACE"
  | rightBrace => "RIGHT_BRACE"
  | minus => "MINUS"
  | plus => "PLUS"
  | semicolon => "SEMICOLON"
  | slash => "SLASH"
  | star => "STAR"
  | bang => "BANG"
  | bangEqual => "BANG_EQUAL"
  | equal => "EQUAL"
  | equalEqual => "EQUAL_EQUAL"
  | greater => "GREATER"
  | greaterEqual => "GREATER_EQUAL"
  | less => "LESS"
  | lessEqual => "LESS_EQUAL"
  | identifier => "IDENTIFIER"
  | string => "STRING"
  | number => "NUMBER"
  | andWord => "AND"
  | constWord => "CONST"
  | elseWord => "ELSE"
  | falseWord => "FALSE"
  | forWord => "FOR"
  | ifWord => "IF"
  | nilWord => "NIL"
  | orWord => "OR"
  | printWord => "PRINT"
  | returnWord => "RETURN"
  | trueWord => "TRUE"
  | varWord => "VAR"
  | whileWord => "WHILE"
  | eof => "EOF"

/-- The kind of a name. -/
def ofName? (s : String) : Option Kind := all.find? (fun k => k.name == s)

/-- The reserved words. -/
def reserved : List (String × Kind) :=
  [("and", andWord), ("const", constWord), ("else", elseWord), ("false", falseWord),
   ("for", forWord), ("if", ifWord), ("nil", nilWord), ("or", orWord), ("print", printWord),
   ("return", returnWord), ("true", trueWord), ("var", varWord), ("while", whileWord)]

/-- The kind of a word: its own if it is reserved. -/
def ofWord (s : String) : Kind := (reserved.lookup s).getD identifier

end Kind
end LoxFront

set_option autoImplicit false

/-! The terminal symbols of the language, how each is written, and how tightly
the binary operators among them bind. Reading source text into terminals is not
done here. -/

namespace ScriptCore

/-- A terminal symbol of the grammar. Operators of expressions are terminals too,
so that a tree records exactly the symbol that was read. -/
inductive Terminal where
  | numberLiteral | characterLiteral | textLiteral | identifier
  | functionWord | structWord | ifWord | elifWord | elseWord | whileWord | forWord | inWord
  | returnWord | globalWord | importWord | newWord | nullWord
  | openParen | closeParen | openBrace | closeBrace | openBracket | closeBracket | comma
  | period | semicolon | assign | ampersand
  | plus | minus | percent | caret | asterisk | slash | increment | decrement
  | or | and | not | equal | notEqual | greater | less | greaterEqual | lessEqual
  | endOfFile
  deriving DecidableEq, Repr

namespace Terminal

/-- Every terminal, in the order of the grammar. -/
def all : List Terminal :=
  [.numberLiteral, .characterLiteral, .textLiteral, .identifier, .functionWord,
  .structWord, .ifWord, .elifWord, .elseWord, .whileWord, .forWord, .inWord, .returnWord,
  .globalWord, .importWord, .newWord, .nullWord, .openParen, .closeParen, .openBrace,
  .closeBrace, .openBracket, .closeBracket, .comma, .period, .semicolon, .assign,
  .ampersand, .plus, .minus, .percent, .caret, .asterisk, .slash, .increment, .decrement,
  .or, .and, .not, .equal, .notEqual, .greater, .less, .greaterEqual, .lessEqual,
  .endOfFile]

/-- The name of the terminal, as outlines of trees give it. -/
def name : Terminal → String
  | .numberLiteral => "Numerical"
  | .characterLiteral => "Character"
  | .textLiteral => "String"
  | .identifier => "Identifier"
  | .functionWord => "Function"
  | .structWord => "Struct"
  | .ifWord => "If"
  | .elifWord => "Elif"
  | .elseWord => "Else"
  | .whileWord => "While"
  | .forWord => "For"
  | .inWord => "In"
  | .returnWord => "Return"
  | .globalWord => "Global"
  | .importWord => "Import"
  | .newWord => "New"
  | .nullWord => "Null"
  | .openParen => "OpenParen"
  | .closeParen => "CloseParen"
  | .openBrace => "OpenBrace"
  | .closeBrace => "CloseBrace"
  | .openBracket => "OpenBracket"
  | .closeBracket => "CloseBracket"
  | .comma => "Comma"
  | .period => "Period"
  | .semicolon => "Semicolon"
  | .assign => "Set"
  | .ampersand => "Reference"
  | .plus => "Plus"
  | .minus => "Minus"
  | .percent => "Modulus"
  | .caret => "Caret"
  | .asterisk => "Asterisk"
  | .slash => "Slash"
  | .increment => "Increment"
  | .decrement => "Decrement"
  | .or => "Or"
  | .and => "And"
  | .not => "Not"
  | .equal => "Equals"
  | .notEqual => "NotEqual"
  | .greater => "More"
  | .less => "Less"
  | .greaterEqual => "MoreEqual"
  | .lessEqual => "LessEqual"
  | .endOfFile => "EndOfFile"

/-- The terminal with the given name. -/
def ofName? (text : String) : Option Terminal :=
  all.find? fun terminal => terminal.name == text

/-- How the terminal is written in a program, or what it is called in a message
when it has no fixed spelling. -/
def spelling : Terminal → String
  | .numberLiteral => "numerical literal"
  | .characterLiteral => "character literal"
  | .textLiteral => "string literal"
  | .identifier => "identifier"
  | .functionWord => "function"
  | .structWord => "struct"
  | .ifWord => "if"
  | .elifWord => "elif"
  | .elseWord => "else"
  | .whileWord => "while"
  | .forWord => "for"
  | .inWord => "in"
  | .returnWord => "return"
  | .globalWord => "global"
  | .importWord => "import"
  | .newWord => "new"
  | .nullWord => "null"
  | .openParen => "("
  | .closeParen => ")"
  | .openBrace => "\x7b"
  | .closeBrace => "\x7d"
  | .openBracket => "["
  | .closeBracket => "]"
  | .comma => ","
  | .period => "."
  | .semicolon => ";"
  | .assign => "="
  | .ampersand => "&"
  | .plus => "+"
  | .minus => "-"
  | .percent => "%"
  | .caret => "^"
  | .asterisk => "*"
  | .slash => "/"
  | .increment => "++"
  | .decrement => "--"
  | .or => "||"
  | .and => "&&"
  | .not => "!"
  | .equal => "=="
  | .notEqual => "!="
  | .greater => ">"
  | .less => "<"
  | .greaterEqual => ">="
  | .lessEqual => "<="
  | .endOfFile => "end of file"

/-- Whether the terminal is one of the sixteen binary operators. -/
def isBinaryOperator : Terminal → Bool
  | .plus | .minus | .percent | .caret | .asterisk | .slash | .increment | .decrement
  | .or | .and | .equal | .notEqual | .greater | .less | .greaterEqual | .lessEqual => true
  | _ => false

/-- How tightly an operator binds: a higher level binds tighter, and operators of
one level group to the left. `++` and `--` are operators without a level. -/
def level? : Terminal → Option Nat
  | .or | .and => some 0
  | .equal | .notEqual | .less | .greater | .greaterEqual | .lessEqual => some 1
  | .plus | .minus => some 2
  | .asterisk | .percent | .slash => some 3
  | .caret => some 4
  | _ => none

end Terminal
end ScriptCore

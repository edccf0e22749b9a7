import Gsc.Peg.Match
import Gsc.Script.Rule

/-! # The grammar of scripts

The pattern of every rule. Blanks and comments may stand between the parts of a normal rule, and
nowhere inside an atomic or compound one.
-/

namespace Gsc

open Gsc.Peg
open Gsc.Peg.Pattern (lit plus choice sequence)

/-- What must not follow the symbol of a unary operator. -/
def UnaryOp.notBefore : UnaryOp → List String
  | neg => ["-", "="]
  | not => ["="]
  | bitNot => []

def BinaryOp.notBefore : BinaryOp → List String
  | or | and | eq | neq | lte | gte => []
  | bitOr => ["|", "="]
  | bitXor => ["="]
  | bitAnd => ["&", "=", "\""]
  | shl | shr => ["="]
  | lt => ["<", "="]
  | gt => [">", "="]
  | add => ["+", "="]
  | sub => ["-", "="]
  | mul => ["="]
  | div => ["=", "/", "*", "#"]
  | mod => ["="]

namespace Rule

/-- A character that goes on a name. -/
def identChar : Pattern Rule := .alt (.one .alphanumeric) (lit "_")

def identStart : Pattern Rule := .alt (.one .letter) (lit "_")

def pathSegment : Pattern Rule := plus identChar

/-- A word that does not go on as a longer name. -/
def wholeWord (s : String) : Pattern Rule := .seq (lit s) (.notAhead identChar)

/-- A symbol that must not be followed by any of some others. -/
def symbolNotBefore (s : String) : List String → Pattern Rule
  | [] => lit s
  | t :: ts => .seq (lit s) (.notAhead (choice (lit t) (ts.map lit)))

/-- Any text that does not hold `close`, up to the place in front of it. -/
def upTo (close : String) : Pattern Rule := .star (.seq (.notAhead (lit close)) (.one .any))

/-- A line comment, a block comment, or a developer block. -/
def comment : Pattern Rule :=
  choice (.seq (lit "//") (upTo "\n"))
    [sequence (lit "/*") [upTo "*/", lit "*/"], sequence (lit "/#") [upTo "#/", lit "#/"]]

def whitespace : Pattern Rule := choice (lit " ") [lit "\t", lit "\r", lit "\n"]

/-- Blanks and comments, possibly none. -/
def blanks : Pattern Rule :=
  .seq (.star whitespace) (.star (.seq comment (.star whitespace)))

/-- The reserved words; of two that begin alike the longer comes first. -/
def reserved : Pattern Rule :=
  choice (lit "waittillframeend")
    (["waittill", "wait", "undefined", "thread", "return", "notify", "level", "foreach", "for",
      "false", "endon", "else", "continue", "break", "true", "self", "while", "if", "in", "game",
      "anim"].map lit)

/-- Inside a string, a backslash takes the next character with it. -/
def stringChar : Pattern Rule :=
  .alt (.seq (lit "\\") (.one .any))
    (.seq (.notAhead (.alt (lit "\"") (lit "\\"))) (.one .any))

/-- Digits with an optional point and fraction, or a point and digits. -/
def numeral : Pattern Rule :=
  .alt (.seq (plus (.one .digit)) (.opt (.seq (lit ".") (.star (.one .digit)))))
    (.seq (lit ".") (plus (.one .digit)))

/-- A pattern, and further ones each after a comma. -/
def commaList (p : Pattern Rule) : Pattern Rule := .seq p (.star (.seq (lit ",") p))

def topItem : Pattern Rule :=
  choice (.rule includeDirective) [.rule animtreeDirective, .rule functionDef]

def statement : Pattern Rule :=
  choice (.rule block)
    [.rule ifStmt, .rule whileStmt, .rule foreachStmt, .rule forStmt, .rule returnStmt,
      .rule waitFrameStmt, .rule waitStmt, .rule breakStmt, .rule continueStmt, .rule emptyStmt,
      .rule waitTillStmt, .rule notifyStmt, .rule endOnStmt, .rule exprStmt]

def simple : Pattern Rule := choice (.rule assignExpr) [.rule incDecExpr, .rule expr]

def unaryOperator : Pattern Rule :=
  choice (.rule (unary .neg)) [.rule (unary .not), .rule (unary .bitNot)]

def binaryOperator : Pattern Rule :=
  choice (.rule (binary .or)) (binaryOrder.tail.map fun op => .rule (binary op))

def suffix : Pattern Rule := choice (.rule member) [.rule index, .rule methodCall]

def primary : Pattern Rule :=
  choice (.rule funcCall)
    ([.rule funcRef, .rule parenOrVector, .rule emptyArray, .rule number, .rule localized,
      .rule string] ++ Literal.all.map (fun l => .rule (literal l)) ++ [.rule ident])

def operand : Pattern Rule := sequence (.star unaryOperator) [primary, .star suffix]

def callee : Pattern Rule := choice (.rule pointerCallee) [.rule farCallee, .rule namedCallee]

def callForm : Pattern Rule :=
  sequence (.opt (.rule (word .threadWord))) [callee, .rule callArgs]

/-- A statement made of a word on an object: `object word(event ...);`. -/
def eventForm (w : Word) (more : List (Pattern Rule)) : Pattern Rule :=
  sequence (.rule expr)
    ([.rule (word w), lit "(", .rule expr] ++ more ++ [lit ")", lit ";"])

def body : Rule → Pattern Rule
  | ending => .ending
  | keyword => .seq reserved (.notAhead identChar)
  | ident => sequence (.notAhead (.rule keyword)) [identStart, .star identChar]
  | fieldName => .seq identStart (.star identChar)
  | path => .seq pathSegment (.star (.seq (.alt (lit "\\") (lit "/")) pathSegment))
  | number => numeral
  | string => sequence (lit "\"") [.star stringChar, lit "\""]
  | localized => .seq (lit "&") (.rule string)
  | word w => wholeWord w.text
  | literal l => wholeWord l.text
  | file => sequence (lit "") [.star topItem, .rule ending]
  | includeDirective => sequence (lit "#include") [.rule path, lit ";"]
  | animtreeDirective =>
    sequence (lit "#using_animtree") [lit "(", .rule string, lit ")", lit ";"]
  | functionDef => sequence (.rule ident) [lit "(", .rule params, lit ")", .rule block]
  | params => .opt (commaList (.rule ident))
  | block => sequence (lit "\x7b") [.star statement, lit "\x7d"]
  | ifStmt =>
    sequence (.rule (word .ifWord))
      [lit "(", .rule expr, lit ")", statement, .opt (.seq (.rule (word .elseWord)) statement)]
  | whileStmt =>
    sequence (.rule (word .whileWord)) [lit "(", .rule expr, lit ")", statement]
  | foreachStmt =>
    sequence (.rule (word .foreachWord))
      [lit "(", .rule ident, .rule (word .inWord), .rule expr, lit ")", statement]
  | forStmt =>
    sequence (.rule (word .forWord))
      [lit "(", .rule forInit, lit ";", .rule forCond, lit ";", .rule forStep, lit ")", statement]
  | forInit => .opt simple
  | forCond => .opt (.rule expr)
  | forStep => .opt simple
  | returnStmt => sequence (.rule (word .returnWord)) [.opt (.rule expr), lit ";"]
  | waitFrameStmt => .seq (.rule (word .waitFrameWord)) (lit ";")
  | waitStmt => sequence (.rule (word .waitWord)) [.rule expr, lit ";"]
  | breakStmt => .seq (.rule (word .breakWord)) (lit ";")
  | continueStmt => .seq (.rule (word .continueWord)) (lit ";")
  | emptyStmt => lit ";"
  | waitTillStmt => eventForm .waitTillWord [.star (.seq (lit ",") (.rule ident))]
  | notifyStmt => eventForm .notifyWord [.star (.seq (lit ",") (.rule expr))]
  | endOnStmt => eventForm .endOnWord []
  | exprStmt => .seq simple (lit ";")
  | assignExpr => sequence (.rule expr) [.rule assignOp, .rule expr]
  | incDecExpr => .seq (.rule expr) (.rule incDecOp)
  | assignOp =>
    choice (lit "<<=")
      ([">>=", "+=", "-=", "*=", "/=", "%=", "|=", "&=", "^="].map lit
        ++ [.seq (lit "=") (.notAhead (lit "="))])
  | incDecOp => .alt (lit "++") (lit "--")
  | expr =>
    sequence operand [.star (.seq binaryOperator operand), .opt (.rule ternarySuffix)]
  | ternarySuffix => sequence (lit "?") [.rule expr, lit ":", .rule expr]
  | unary op => symbolNotBefore op.symbol op.notBefore
  | binary op => symbolNotBefore op.symbol op.notBefore
  | member => .seq (lit ".") (.rule fieldName)
  | index => sequence (lit "[") [.rule expr, lit "]"]
  | methodCall => callForm
  | funcCall => callForm
  | pointerCallee => sequence (lit "[[") [.rule expr, lit "]]"]
  | farCallee => sequence (.rule path) [lit "::", .rule ident]
  | namedCallee => .rule ident
  | callArgs => sequence (lit "(") [.opt (commaList (.rule expr)), lit ")"]
  | funcRef => sequence (.opt (.rule path)) [lit "::", .rule ident]
  | parenOrVector =>
    sequence (lit "(")
      [.rule expr, .opt (sequence (lit ",") [.rule expr, lit ",", .rule expr]), lit ")"]
  | emptyArray => .seq (lit "[") (lit "]")

/-- Names, numbers, strings, words and operators hold no blanks; qualified names and localized
strings hold none between their parts. -/
def kind : Rule → Kind
  | keyword | ident | fieldName | path | number | string | word _ | literal _ | assignOp
  | incDecOp | unary _ | binary _ => .atomic
  | localized | farCallee | funcRef => .compound
  | _ => .normal

end Rule

def Script.grammar : Grammar Rule := ⟨Rule.kind, Rule.body, Rule.blanks⟩

end Gsc

import Gsc.Script.Operator

/-! # Rules of the script grammar

The named rules, the reserved words, and the order and names in which error texts list rules.
-/

namespace Gsc

/-- Reserved words that open or join statements. -/
inductive Word where
  | ifWord
  | elseWord
  | whileWord
  | forWord
  | foreachWord
  | inWord
  | returnWord
  | waitWord
  | waitFrameWord
  | waitTillWord
  | notifyWord
  | endOnWord
  | breakWord
  | continueWord
  | threadWord
  deriving DecidableEq, Repr

def Word.text : Word → String
  | ifWord => "if"
  | elseWord => "else"
  | whileWord => "while"
  | forWord => "for"
  | foreachWord => "foreach"
  | inWord => "in"
  | returnWord => "return"
  | waitWord => "wait"
  | waitFrameWord => "waittillframeend"
  | waitTillWord => "waittill"
  | notifyWord => "notify"
  | endOnWord => "endon"
  | breakWord => "break"
  | continueWord => "continue"
  | threadWord => "thread"

def Word.all : List Word :=
  [.ifWord, .elseWord, .whileWord, .forWord, .foreachWord, .inWord, .returnWord, .waitWord,
    .waitFrameWord, .waitTillWord, .notifyWord, .endOnWord, .breakWord, .continueWord, .threadWord]

/-- Reserved words that stand for a value. -/
inductive Literal where
  | undefined
  | yes
  | no
  | level
  | self
  | game
  | anim
  deriving DecidableEq, Repr

def Literal.text : Literal → String
  | undefined => "undefined"
  | yes => "true"
  | no => "false"
  | level => "level"
  | self => "self"
  | game => "game"
  | anim => "anim"

def Literal.all : List Literal := [.undefined, .yes, .no, .level, .self, .game, .anim]

inductive Rule where
  | ending
  | keyword
  | ident
  | fieldName
  | path
  | number
  | string
  | localized
  | word (w : Word)
  | literal (l : Literal)
  | file
  | includeDirective
  | animtreeDirective
  | functionDef
  | params
  | block
  | ifStmt
  | whileStmt
  | foreachStmt
  | forStmt
  | forInit
  | forCond
  | forStep
  | returnStmt
  | waitFrameStmt
  | waitStmt
  | breakStmt
  | continueStmt
  | emptyStmt
  | waitTillStmt
  | notifyStmt
  | endOnStmt
  | exprStmt
  | assignExpr
  | incDecExpr
  | assignOp
  | incDecOp
  | expr
  | ternarySuffix
  | unary (op : UnaryOp)
  | binary (op : BinaryOp)
  | member
  | index
  | methodCall
  | funcCall
  | pointerCallee
  | farCallee
  | namedCallee
  | callArgs
  | funcRef
  | parenOrVector
  | emptyArray
  deriving DecidableEq, Repr

namespace Rule

def name : Rule → String
  | ending => "EOI"
  | keyword => "keyword"
  | ident => "ident"
  | fieldName => "field_name"
  | path => "path"
  | number => "number"
  | string => "string"
  | localized => "istring"
  | word w => "kw_" ++ w.text
  | literal l => l.text ++ "_lit"
  | file => "file"
  | includeDirective => "include_directive"
  | animtreeDirective => "using_animtree"
  | functionDef => "function_def"
  | params => "params"
  | block => "block"
  | ifStmt => "if_stmt"
  | whileStmt => "while_stmt"
  | foreachStmt => "foreach_stmt"
  | forStmt => "for_stmt"
  | forInit => "for_init"
  | forCond => "for_cond"
  | forStep => "for_step"
  | returnStmt => "return_stmt"
  | waitFrameStmt => "waittillframeend_stmt"
  | waitStmt => "wait_stmt"
  | breakStmt => "break_stmt"
  | continueStmt => "continue_stmt"
  | emptyStmt => "empty_stmt"
  | waitTillStmt => "waittill_stmt"
  | notifyStmt => "notify_stmt"
  | endOnStmt => "endon_stmt"
  | exprStmt => "expr_stmt"
  | assignExpr => "assign_expr"
  | incDecExpr => "incdec_expr"
  | assignOp => "assign_op"
  | incDecOp => "incdec_op"
  | expr => "expr"
  | ternarySuffix => "ternary_suffix"
  | unary .neg => "neg"
  | unary .not => "not"
  | unary .bitNot => "bitnot"
  | binary .or => "or"
  | binary .and => "and"
  | binary .bitOr => "bitor"
  | binary .bitXor => "bitxor"
  | binary .bitAnd => "bitand"
  | binary .eq => "eq"
  | binary .neq => "neq"
  | binary .lt => "lt"
  | binary .gt => "gt"
  | binary .lte => "lte"
  | binary .gte => "gte"
  | binary .shl => "shl"
  | binary .shr => "shr"
  | binary .add => "add"
  | binary .sub => "sub"
  | binary .mul => "mul"
  | binary .div => "div"
  | binary .mod => "modulo"
  | member => "member"
  | index => "index"
  | methodCall => "method_call"
  | funcCall => "func_call"
  | pointerCallee => "pointer_callee"
  | farCallee => "far_callee"
  | namedCallee => "local_callee"
  | callArgs => "call_args"
  | funcRef => "func_ref"
  | parenOrVector => "paren_or_vector"
  | emptyArray => "empty_array"

/-- The binary operators in the order in which the grammar tries them. -/
def binaryOrder : List BinaryOp :=
  [.or, .and, .bitOr, .bitXor, .bitAnd, .eq, .neq, .lte, .gte, .shl, .shr, .lt, .gt, .add, .sub,
    .mul, .div, .mod]

/-- Every rule, in the order in which error texts list them. -/
def all : List Rule :=
  [ending, keyword, ident, fieldName, path, number, string, localized]
    ++ Word.all.map word
    ++ Literal.all.map literal
    ++ [file, includeDirective, animtreeDirective, functionDef, params, block, ifStmt, whileStmt,
      foreachStmt, forStmt, forInit, forCond, forStep, returnStmt, waitFrameStmt, waitStmt,
      breakStmt, continueStmt, emptyStmt, waitTillStmt, notifyStmt, endOnStmt, exprStmt,
      assignExpr, incDecExpr, assignOp, incDecOp, expr, ternarySuffix,
      unary .neg, unary .not, unary .bitNot]
    ++ binaryOrder.map binary
    ++ [member, index, methodCall, funcCall, pointerCallee, farCallee, namedCallee, callArgs,
      funcRef, parenOrVector, emptyArray]

end Rule

end Gsc

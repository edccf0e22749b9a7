import Gsc.Peg.Attempts

/-! # Matching a pattern

`eval` matches a pattern at a place. Its first argument bounds the nesting of calls; `Grammar.run`
supplies a bound that grows with the input.
-/

namespace Gsc.Peg

variable {R : Type}

inductive Outcome (R : Type) where
  | matched (trees : List (ParseTree R)) (after : Cursor)
  | failed
  | exhausted
  deriving Repr

/-- A match without recorded rules, if the text fits. -/
def Outcome.ofCursor? : Option Cursor → Outcome R
  | some after => .matched [] after
  | none => .failed

/-- The trees of a matched rule: the rule with its parts, or the parts alone where rules go
unrecorded. -/
def recorded (r : R) (start : Cursor) (mode : Mode) (trees : List (ParseTree R)) (after : Cursor) :
    List (ParseTree R) :=
  if mode.spacing = .atomic then trees else [.node r start after.pos trees]

/-- The attempts after rule `r` matched: inside a negation this was in vain. -/
def noteMatched (log before : Attempts R) (r : R) (start : Nat) (mode : Mode) : Attempts R :=
  if mode.sense = .negative then log.note before r start mode else log

def noteFailed (log before : Attempts R) (r : R) (start : Nat) (mode : Mode) : Attempts R :=
  if mode.sense = .negative then log else log.note before r start mode

mutual

def eval (g : Grammar R) :
    Nat → Pattern R → Mode → Cursor → Attempts R → Outcome R × Attempts R
  | 0, _, _, _, log => (.exhausted, log)
  | _ + 1, .text chars, _, cursor, log => (.ofCursor? (cursor.strip? chars), log)
  | _ + 1, .one chars, _, cursor, log =>
    match cursor.next? with
    | some (c, after) => (if chars.holds c then .matched [] after else .failed, log)
    | none => (.failed, log)
  | _ + 1, .ending, _, cursor, log =>
    (if cursor.rest.isEmpty then .matched [] cursor else .failed, log)
  | fuel + 1, .rule r, mode, cursor, before =>
    let ruleMode := (g.kind r).ruleMode mode
    match eval g fuel (g.body r) ((g.kind r).bodyMode mode) cursor before with
    | (.matched trees after, log) =>
      (.matched (recorded r cursor ruleMode trees after) after,
        noteMatched log before r cursor.pos ruleMode)
    | (.failed, log) => (.failed, noteFailed log before r cursor.pos ruleMode)
    | (.exhausted, log) => (.exhausted, log)
  | fuel + 1, .seq first second, mode, cursor, log =>
    match eval g fuel first mode cursor log with
    | (.matched trees after, log) =>
      match eval g fuel .blank mode after log with
      | (.matched _ next, log) =>
        match eval g fuel second mode next log with
        | (.matched more last, log) => (.matched (trees ++ more) last, log)
        | result => result
      | result => result
    | result => result
  | fuel + 1, .alt first second, mode, cursor, log =>
    match eval g fuel first mode cursor log with
    | (.failed, log) => eval g fuel second mode cursor log
    | result => result
  | fuel + 1, .opt body, mode, cursor, log =>
    match eval g fuel body mode cursor log with
    | (.failed, log) => (.matched [] cursor, log)
    | result => result
  | fuel + 1, .star body, mode, cursor, log =>
    match eval g fuel body mode cursor log with
    | (.matched trees after, log) => evalMore g fuel body mode trees after log
    | (.failed, log) => (.matched [] cursor, log)
    | (.exhausted, log) => (.exhausted, log)
  | fuel + 1, .notAhead body, mode, cursor, log =>
    match eval g fuel body { mode with sense := mode.sense.negate } cursor log with
    | (.matched _ _, log) => (.failed, log)
    | (.failed, log) => (.matched [] cursor, log)
    | (.exhausted, log) => (.exhausted, log)
  | fuel + 1, .blank, mode, cursor, log =>
    if mode.spacing = .free then eval g fuel g.blank { mode with spacing := .atomic } cursor log
    else (.matched [] cursor, log)

/-- Go on repeating a pattern that has matched; blanks before a failed repetition are given back. -/
def evalMore (g : Grammar R) :
    Nat → Pattern R → Mode → List (ParseTree R) → Cursor → Attempts R → Outcome R × Attempts R
  | 0, _, _, _, _, log => (.exhausted, log)
  | fuel + 1, body, mode, done, cursor, log =>
    match eval g fuel .blank mode cursor log with
    | (.matched _ next, log) =>
      match eval g fuel body mode next log with
      | (.matched trees after, log) => evalMore g fuel body mode (done ++ trees) after log
      | (.failed, log) => (.matched done cursor, log)
      | (.exhausted, log) => (.exhausted, log)
    | result => result

end

/-- A bound on the nesting of calls for an input of `length` characters. -/
def depthFor (length : Nat) : Nat := 4096 * (length + 1)

def Grammar.run (g : Grammar R) (root : R) (input : List Char) : Outcome R × Attempts R :=
  eval g (depthFor input.length) (.rule root) .initial (.atStart input) .empty

end Gsc.Peg

import SourcePress.Lexis.Scan
import SourcePress.Problem

/-!
# Balance of brackets

The live brackets of a code are balanced if each one has a partner of its own kind. A closing
bracket takes the last opening one that has no partner yet, of whatever kind. The imbalances are
the closing brackets without a partner or with one of another kind, then the opening brackets that
are left, then the string literal or block comment that the code leaves open.
-/

namespace SourcePress.Script

open Lexis

/-- The kinds of bracket. -/
inductive Bracket where
  /-- Parentheses. -/
  | round
  /-- Square brackets. -/
  | square
  /-- Braces. -/
  | curly
  deriving DecidableEq, Repr

namespace Bracket

/-- The opening bracket of a kind. -/
def opener : Bracket → CodePoint
  | round => '('
  | square => '['
  | curly => '{'

/-- The closing bracket of a kind. -/
def closer : Bracket → CodePoint
  | round => ')'
  | square => ']'
  | curly => '}'

/-- The kind that a code point opens. -/
def opened? (c : CodePoint) : Option Bracket := [round, square, curly].find? fun b => b.opener = c

/-- The kind that a code point closes. -/
def closed? (c : CodePoint) : Option Bracket := [round, square, curly].find? fun b => b.closer = c

end Bracket

/-- The imbalances of marks that begin at an offset. The open brackets without a partner are given
with their offsets, the last one first. -/
def imbalancesFrom (code : Text) (stack : List (Bracket × Nat)) (offset : Nat) :
    List Mark → List Imbalance
  | [] => stack.reverse.map fun b => .locate code [b.1.opener] b.2 .unclosed none
  | m :: rest =>
    match m.live?.bind Bracket.opened?, m.live?.bind Bracket.closed? with
    | some b, _ => imbalancesFrom code ((b, offset) :: stack) (offset + 1) rest
    | none, none => imbalancesFrom code stack (offset + 1) rest
    | none, some b =>
      match stack with
      | [] =>
        .locate code [m.point] offset .unexpected none ::
          imbalancesFrom code [] (offset + 1) rest
      | (partner, _) :: stack =>
        if partner = b then imbalancesFrom code stack (offset + 1) rest
        else
          .locate code [m.point] offset .mismatch (some [partner.closer]) ::
            imbalancesFrom code stack (offset + 1) rest

/-- The mark of the construct that a code leaves open. -/
def openMark : Region → Text
  | .string q => [q.point]
  | .blockComment => ['/', '*']
  | _ => []

/-- The record of the string literal or block comment that a code leaves open. -/
def unterminated (code : Text) : List Imbalance :=
  if isTerminated code then []
  else match openStart? code with
    | none => []
    | some start =>
      [.locate code (openMark (finalMode code).region) start .unterminated none]

/-- The imbalances of a code in their order. -/
def imbalances (code : Text) : List Imbalance :=
  imbalancesFrom code [] 0 (scan code) ++ unterminated code

/-- What is said of a balanced code. -/
def validMessage : Text := "JavaScript validation passed!"

/-- The message for a code without imbalances. -/
def validate (code : Text) : Except Failure Text :=
  match imbalances code with
  | [] => .ok validMessage
  | records => .error (.problem (.unbalanced records))

end SourcePress.Script

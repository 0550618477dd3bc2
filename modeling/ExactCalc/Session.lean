/-
A session: one line in, at most one line out.

* `substitute` — the last result in the place of the word `ans`;
* `Reply` — what is said about a line, and on which channel;
* `Step`, `step` — what a line does to a session;
* `transcript` — all replies to an input, in order.
-/
import ExactCalc.Expr.Printer
import ExactCalc.Expr.Reader
import ExactCalc.Text.Line
import ExactCalc.Text.Word

namespace ExactCalc.Session

/-- The word that stands for the last result. -/
def ansWord : List Char :=
  ['a', 'n', 's']

/-- Lines that end a session. -/
def exitCommands : List (List Char) :=
  [['e', 'x', 'i', 't'], ['q', 'u', 'i', 't']]

/-- What a line begins with that asks for a tree. -/
def treeCommand : List Char :=
  [':', 't', 'r', 'e', 'e']

/-- A line in which the last result stands for the word `ans`.  A negative one is bracketed. -/
def substitute (ans : Int) (line : List Char) : List Char :=
  Text.replaceWord ansWord (Expr.literal ans).printOperand line

/-- The two channels that replies are written to. -/
inductive Channel where
  | output
  | error
  deriving DecidableEq, Repr

/-- What is said about a line. -/
inductive Reply where
  | result (value : Int)
  | tree (e : Expr)
  | failure (f : Failure)
  /-- The line is not UTF-8. -/
  | undecodable
  deriving DecidableEq, Repr

namespace Reply

/-- The line that is written. -/
def text : Reply → String
  | result value => "Result: " ++ String.ofList (Text.Numeral.ofInt value)
  | tree e => e.describe
  | failure f => "Error: " ++ f.message
  | undecodable => "Error: stream did not contain valid UTF-8"

/-- Where it is written. -/
def channel : Reply → Channel
  | result _ | tree _ => .output
  | failure _ | undecodable => .error

end Reply

/-- What a line does to a session. -/
inductive Step where
  /-- The session goes on with a last result. -/
  | stay (ans : Int) (reply? : Option Reply)
  /-- The session ends. -/
  | leave (reply? : Option Reply)
  deriving DecidableEq, Repr

/-- The reply to a request for a tree. -/
def treeReply (text : List Char) : Reply :=
  match Expr.parse text with
  | .ok e => .tree e
  | .error f => .failure f

/-- The step for an expression, with the last result already in its place. -/
def evaluateStep (ans : Int) (text : List Char) : Step :=
  match evaluate text with
  | .ok value => .stay value (some (.result value))
  -- a line that has no result leaves the last one as it was
  | .error f => .stay ans (some (.failure f))

/-- The step for a line without blanks at its ends. -/
def answer (ans : Int) (line : List Char) : Step :=
  if line = [] then .stay ans none
  else if line ∈ exitCommands then .leave none
  else
    let request := substitute ans line
    if treeCommand.isPrefixOf request then
      .stay ans (some (treeReply (request.drop treeCommand.length)))
    else evaluateStep ans request

/-- The step for a line of bytes. -/
def step (ans : Int) (line : List UInt8) : Step :=
  match Text.decode? line with
  | some text => answer ans (Text.trim text)
  | none => .leave (some .undecodable)

/-- The replies to the lines of a session that starts with a last result. -/
def replies (ans : Int) : List (List UInt8) → List Reply
  | [] => []
  | line :: rest =>
    match step ans line with
    | .stay next reply? => reply?.toList ++ replies next rest
    | .leave reply? => reply?.toList

/-- All replies to an input. -/
def transcript (input : List UInt8) : List Reply :=
  replies 0 (Text.lines input)

end ExactCalc.Session

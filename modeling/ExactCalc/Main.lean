/-
The command line: a session on standard input.

* `main` — reads a line, writes the reply, and goes on until the session ends.
-/
import ExactCalc.Session

namespace ExactCalc

/-- The bytes up to the next line feed, without it, and whether there is any byte at all. -/
partial def readLine (input : IO.FS.Stream) (line : List UInt8) : IO (Option (List UInt8)) := do
  let bytes ← input.read 1
  match bytes.toList with
  | [] => return if line.isEmpty then none else some line.reverse
  | b :: _ => if b = 10 then return some line.reverse else readLine input (b :: line)

/-- Writes a reply to its channel, at once, so that the two channels keep their common order. -/
def writeReply (reply : Session.Reply) : IO Unit := do
  let channel ← match reply.channel with
    | .output => IO.getStdout
    | .error => IO.getStderr
  channel.putStrLn reply.text
  channel.flush

/-- Runs a session from a last result on. -/
partial def runSession (input : IO.FS.Stream) (ans : Int) : IO Unit := do
  match ← readLine input [] with
  | none => return
  | some line =>
    match Session.step ans line with
    | .stay next reply? =>
      reply?.forM writeReply
      runSession input next
    | .leave reply? => reply?.forM writeReply

end ExactCalc

def main : IO Unit := do
  ExactCalc.runSession (← IO.getStdin) 0

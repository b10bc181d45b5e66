import Packrat.CommandLine

/-!
# The program

Prints the reply to its arguments.
-/

open Packrat

def main (args : List String) : IO UInt32 := do
  let reply := Command.replyTo args
  IO.print reply.output
  if reply.exitCode = 2 then IO.eprint Command.usage
  return UInt32.ofNat reply.exitCode

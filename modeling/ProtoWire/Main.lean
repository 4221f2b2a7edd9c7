import ProtoWire.Generator.Plugin

/-!
# The code generator as a program

Reads an encoded request from standard input and writes the encoded response to standard output.
What cannot be answered is reported on standard error.
-/

namespace ProtoWire.Generator

/-- What is left of a stream, after what was read before. -/
partial def readToEnd (stream : IO.FS.Stream) (before : ByteArray) : IO ByteArray := do
  let chunk ← stream.read 65536
  if chunk.isEmpty then return before else readToEnd stream (before ++ chunk)

def Failure.message : Failure → String
  | error e => e.message
  | illegalName name => "`" ++ name ++ "` is not a valid identifier"
  | noLayout => "the generated code has no layout"

/-- Answers the request on standard input. -/
def runMain : IO UInt32 := do
  let request ← readToEnd (← IO.getStdin) ByteArray.empty
  match runPlugin request.toList with
  | .ok response =>
    let output ← IO.getStdout
    output.write ⟨response.toArray⟩
    output.flush
    return 0
  | .error failure =>
    IO.eprintln ("protoc-gen-tightbuf: " ++ failure.message)
    return 1

end ProtoWire.Generator

def main : IO UInt32 :=
  ProtoWire.Generator.runMain

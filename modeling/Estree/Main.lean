import Estree.CommandLine.Run

namespace Estree.CommandLine

def ReadFailure.ofError : IO.Error → ReadFailure
  | .noFileOrDirectory .. => .notFound
  | e => .other (toString e)

-- Reads a stream to its end.
partial def readAll (stream : IO.FS.Stream) (bytes : ByteArray) : IO ByteArray := do
  let chunk ← stream.read 65536
  if chunk.isEmpty then return bytes else readAll stream (bytes ++ chunk)

def attempt (action : IO ByteArray) : IO (Except ReadFailure ByteArray) := do
  match ← action.toBaseIO with
  | .ok bytes => return .ok bytes
  | .error e => return .error (.ofError e)

def systemSources : Sources IO where
  file path := attempt (IO.FS.readBinFile path)
  input := attempt do readAll (← IO.getStdin) .empty

end Estree.CommandLine

def main (arguments : List String) : IO UInt32 := do
  let outcome ← Estree.CommandLine.execute Estree.CommandLine.systemSources arguments
  IO.print outcome.output
  for line in outcome.complaint do
    IO.eprintln line
  return outcome.code.toUInt32

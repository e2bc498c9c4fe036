/-!
Where printed text goes. An output may take only so many bytes; a text that does not fit is cut off
where the output is full.
-/

namespace Lox

/-- What has been written, and how many bytes are taken in all; any number if `limit` is none. -/
structure Output where
  limit : Option Nat
  written : ByteArray

namespace Output

def room (output : Output) : Option Nat :=
  output.limit.map (· - output.written.size)

def fits (output : Output) (bytes : ByteArray) : Bool :=
  output.room.all (bytes.size ≤ ·)

def write (output : Output) (bytes : ByteArray) : Output :=
  { output with
    written := output.written ++ output.room.elim bytes fun room => bytes.extract 0 room }

end Output

end Lox

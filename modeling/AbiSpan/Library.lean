import AbiSpan.Interface.Reader
import AbiSpan.LogValues

/-!
The library that reads what contracts declare and what they log.

Sessions call it for the documents that a source answers with and for the logs of a receipt. What
they do is said of any library.
-/

namespace AbiSpan

structure Library where
  /-- The interface that a document declares. -/
  interface? : String → Option Interface
  /-- The values of a log, read as one of the event. -/
  decode : Event → Log → Except LogFault LogValues

/-- JSON documents and the values of logs as they are laid out for contracts. -/
def Library.standard : Library where
  interface? := Interface.ofString?
  decode := Event.decode

end AbiSpan

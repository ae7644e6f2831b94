/-!
# What can go wrong

One type per layer, each naming the causes that the layer can report, with its wording in one
function.  A failure of a lower layer enters a higher one as a whole, or, in transports, as text.
-/

namespace EventRelay

/-- Failures of a store. -/
inductive StorageError where
  /-- The medium failed. -/
  | io (text : String)
  /-- A slot cannot be used. -/
  | invalidSlot (text : String)
  deriving Repr, DecidableEq

/-- The wording of a storage failure. -/
def StorageError.message : StorageError → String
  | .io m => "Storage I/O error: " ++ m
  | .invalidSlot m => "Invalid queue slot: " ++ m

/-- Failures of a transport. -/
inductive TransportError where
  /-- Nothing usable to send with. -/
  | notUsable
  /-- Sending failed. -/
  | sendFailed (text : String)
  /-- The collector was not reached or refused. -/
  | http (text : String)
  /-- Every attempt failed; the text is the last failure's. -/
  | retryExhausted (attempts : Nat) (last : String)
  /-- Some members of a group failed. -/
  | groupFailed (failed total : Nat) (errors : List String)
  /-- Events could not be queued. -/
  | queue (text : String)
  deriving Repr, DecidableEq

/-- The wording of a transport failure. -/
def TransportError.message : TransportError → String
  | .notUsable => "No usable transport available"
  | .sendFailed m => "Transport send failed: " ++ m
  | .http m => "HTTP delivery failed: " ++ m
  | .retryExhausted n last => s!"Retry budget exhausted after {n} attempt(s): {last}"
  | .groupFailed failed total errors =>
    s!"{failed} of {total} grouped transport(s) failed: " ++ "; ".intercalate errors
  | .queue m => "Queue error: " ++ m

/-- A storage failure as a transport reports it. -/
def TransportError.ofStorage (e : StorageError) : TransportError :=
  .queue e.message

/-- Failures of the tracker. -/
inductive TrackerError where
  /-- A transport failed. -/
  | transport (e : TransportError)
  /-- A store failed. -/
  | storage (e : StorageError)
  /-- The configuration cannot be used. -/
  | config (text : String)
  deriving Repr, DecidableEq

/-- The wording of a tracker failure, also on the command line. -/
def TrackerError.message : TrackerError → String
  | .transport e => "Transport error: " ++ e.message
  | .storage e => "Storage error: " ++ e.message
  | .config m => "Configuration error: " ++ m

end EventRelay

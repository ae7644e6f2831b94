import EventRelay.Run.Await
import EventRelay.Tracker

/-!
# Tracking in a world

A tracker at work: the draft is resolved on the world's clock, and the event is handed to the
tracker's transport there.
-/

namespace EventRelay.Run.World

/-- Tracks a draft: the event if it was handed over, nothing while the tracker is inactive. -/
def track (w : World) (t : Tracker) (id : EventId) (time : UInt64) (d : Draft) :
    Except TrackerError (Option Event) × World :=
  match t.track w.usability id time d with
  | .dropped line => (.ok none, w.note line)
  | .refused line => (.error (.transport .notUsable), w.note line)
  | .tracked event call =>
    match w.talk call with
    | (some (.ok ()), w) => (.ok (some event), w)
    | (some (.error e), w) => (.error (.transport e), w)
    | (none, w) => (.error (.transport crashError), w)

end EventRelay.Run.World

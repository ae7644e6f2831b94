import EventRelay.Run.World

/-!
# Running dialogues

`advance` runs a dialogue in a world until it ends or has to wait; `resume` goes on with one whose
alarm may have gone off.  Parts that are held at once are run in order, and all of them are asked
whenever the whole is.  A crash of a part ends the whole at once.
-/

namespace EventRelay.Run

mutual

/-- Runs a dialogue until it ends or waits. -/
def advance : Dialogue → World → Running × World
  | .finish outcome, w => (.done outcome, w)
  | .crash, w => (.crashed, w)
  | .look next, w => advance (next w.usability) w
  | .clock next, w => advance (next w.now) w
  | .note line next, w => advance next (w.note line)
  | .perform leaf batch next, w =>
    let (cue, w) := w.perform leaf batch
    advance (next cue) w
  | .post endpoint batch next, w =>
    let (reply, w) := w.post endpoint batch
    advance (next reply) w
  | .change changes next, w => advance next (w.change changes)
  | .record book attempt next, w => advance next (w.record book attempt)
  | .enqueue queue events next, w =>
    let (result, w) := w.enqueue queue events
    advance (next result) w
  | .pause span next, w =>
    if span.onClock = 0 then advance next w
    else
      let (alarm, w) := w.setAlarm (w.now + span.onClock)
      (.asleep alarm next, w)
  | .all parts next, w =>
    match advanceAll parts w with
    | (none, w) => (.crashed, w)
    | (some parts, w) =>
      match Running.outcomes? parts with
      | some outcomes => advance (next outcomes) w
      | none => (.all parts next, w)

/-- Runs several dialogues in order; none if one crashes. -/
def advanceAll : List Dialogue → World → Option (List Running) × World
  | [], w => (some [], w)
  | d :: ds, w =>
    match advance d w with
    | (.crashed, w) => (none, w)
    | (r, w) =>
      let (rs, w) := advanceAll ds w
      (rs.map (r :: ·), w)

end

mutual

/-- Goes on with a call, if its alarm has gone off. -/
def resume : Running → World → Running × World
  | .done outcome, w => (.done outcome, w)
  | .crashed, w => (.crashed, w)
  | .asleep alarm next, w =>
    if alarm.instant ≤ w.now then advance next w else (.asleep alarm next, w)
  | .all parts next, w =>
    match resumeAll parts w with
    | (none, w) => (.crashed, w)
    | (some parts, w) =>
      match Running.outcomes? parts with
      | some outcomes => advance (next outcomes) w
      | none => (.all parts next, w)

/-- Goes on with several calls in order; none if one crashes. -/
def resumeAll : List Running → World → Option (List Running) × World
  | [], w => (some [], w)
  | r :: rs, w =>
    match resume r w with
    | (.crashed, w) => (none, w)
    | (r, w) =>
      let (rs, w) := resumeAll rs w
      (rs.map (r :: ·), w)

end

end EventRelay.Run

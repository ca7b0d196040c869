/-!
# Timelines

A clock in milliseconds and a channel by which others can ask for a cancellation.  What happens to
the channel is known in advance, by time; sleeping lets time pass and sees what happens meanwhile.
-/

namespace MacroHost
namespace Sessions

/-- Something that happens to a channel. -/
inductive Signal where
  /-- The wish to cancel is set or withdrawn. -/
  | send (wish : Bool)
  /-- Nobody can send any more. -/
  | close
deriving DecidableEq, Inhabited

/-- A channel for the wish to cancel. -/
structure Channel where
  /-- The wish. -/
  wish : Bool := false
  /-- Whether anybody can still send. -/
  isOpen : Bool := true
deriving DecidableEq, Inhabited

namespace Channel

/-- The channel after a signal. -/
def receive (channel : Channel) : Signal → Channel
  | .send wish => if channel.isOpen then { channel with wish } else channel
  | .close => { channel with isOpen := false }

end Channel

/-- A clock and a channel. -/
structure Timeline where
  /-- Milliseconds that have passed. -/
  now : Nat := 0
  /-- The channel. -/
  channel : Channel := {}
  /-- What will happen to the channel, each at its time or as soon as what precedes it has. -/
  pending : List (Nat × Signal) := []
  /-- Whether the end of a sleep comes first where a signal has the same time. -/
  wakesFirst : Nat → Bool := fun _ => true
deriving Inhabited

namespace Timeline

/-- The time at which the next signal happens. -/
def nextSignal? (timeline : Timeline) : Option Nat :=
  timeline.pending.head?.map fun (time, _) => max timeline.now time

/-- Let time pass up to the given point, and all signals happen that are due by then. -/
def passTo (timeline : Timeline) (time : Nat) : Timeline :=
  let due := timeline.pending.takeWhile fun (other, _) => other ≤ time
  { timeline with
    now := time
    channel := due.foldl (fun channel (_, signal) => channel.receive signal) timeline.channel
    pending := timeline.pending.dropWhile fun (other, _) => other ≤ time }

/-- Whether a signal at a time is seen by a sleep until another time. -/
def precedes (timeline : Timeline) (time stop : Nat) : Bool :=
  time < stop || (time == stop && !timeline.wakesFirst stop)

/-- Sleep until a time, for at most so many rounds of signals; whether the sleep was broken off. -/
def sleepRounds (stop : Nat) : Nat → Timeline → Timeline × Bool
  | 0, timeline => ({ timeline with now := stop }, false)
  | rounds + 1, timeline =>
      match timeline.nextSignal? with
      | none => ({ timeline with now := stop }, false)
      | some time =>
          if timeline.precedes time stop then
            let timeline := timeline.passTo time
            if timeline.channel.wish then (timeline, true)
            else sleepRounds stop rounds timeline
          else ({ timeline with now := stop }, false)

/-- Sleep for a number of milliseconds, unless the channel asks to cancel meanwhile; whether it did.
Sleeping for no time lets nothing happen. -/
def sleep (timeline : Timeline) (duration : Nat) : Timeline × Bool :=
  if duration = 0 then (timeline, false)
  else sleepRounds (timeline.now + duration) timeline.pending.length timeline

end Timeline

end Sessions
end MacroHost

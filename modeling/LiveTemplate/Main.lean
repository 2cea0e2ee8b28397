import LiveTemplate.Session
import Std.Time.DateTime.Timestamp
/-!
# The session at the terminal

Reads lines from the standard input until a command or the end of the input ends the session,
and writes the answers to the standard output.  A prompt is shown when somebody is there to read
it.  The clock sets the time of the session, and the random numbers start from the system's.
-/

set_option autoImplicit false

open LiveTemplate

/-- The milliseconds since the first of January 1970. -/
def presentTime : IO Float := do
  let now ← Std.Time.Timestamp.now
  return Number.ofInt now.toMillisecondsSinceUnixEpoch.val

/-- A number that nobody can foresee. -/
def randomSeed : IO UInt64 := do
  let bytes ← IO.getRandomBytes 8
  return bytes.foldl (fun n byte => (n <<< 8) ||| byte.toUInt64) 0

/-- Answer lines until the session is over. -/
partial def converse (session : Session) (world : World) : IO UInt32 := do
  let input ← IO.getStdin
  let output ← IO.getStdout
  if ← input.isTty then
    output.putStr Session.prompt
    output.flush
  let line ← input.getLine
  if line.isEmpty then
    output.putStrLn Session.farewell
    return 0
  match (session.answer line).run world with
  | (.ok .over, _) =>
    output.putStrLn Session.farewell
    return 0
  | (.ok (.lines session shown), world) =>
    for text in shown do output.putStrLn text
    output.flush
    converse session world
  | (.error fault, _) =>
    (← IO.getStderr).putStrLn fault.message
    return 101

/-- Start a session and converse. -/
def main : IO UInt32 := do
  let agent : Agent := { utcTime := ← presentTime }
  let world := World.initial (← randomSeed)
  match (Session.start {} agent).run world with
  | (.ok session, world) =>
    for text in Session.banner do IO.println text
    converse session world
  | (.error fault, _) =>
    (← IO.getStderr).putStrLn fault.message
    return 101

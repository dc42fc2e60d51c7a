import ColdSigner.Host.Dialogue
/-!
# Devices behind a stream of bytes

A simulated device is reached over a stream of bytes. A command follows its length in four
bytes; an answer follows the length of its data, which does not count the status word. The
stream is read in pieces of known length, so what is left unread by one exchange is read by the
next one.
-/
namespace ColdSigner

/-- A stream to a peer that answers each command with the next of its replies, whatever that
is, and closes the stream behind the last one. -/
structure Stream where
  /-- What the peer wrote and nobody has read. -/
  incoming : Bytes
  /-- What the peer will write, one reply for a command. -/
  replies : List Bytes
  /-- What the peer read, the last command in front. -/
  received : List Bytes
  /-- A command was sent to a peer that had closed the stream. -/
  broken : Bool
  deriving DecidableEq, Repr

namespace Stream

/-- The longest answer, with its status word. -/
def maxAnswer : Nat := 258

def start (replies : List Bytes) : Stream := ⟨[], replies, [], false⟩

def framed (command : Bytes) : Bytes := Bytes.bigEndian 4 command.length ++ command

/-- What comes of reading. -/
inductive Reading where
  | read (bytes : Bytes)
  | ended
  /-- The bytes do not come, and the stream stays open. -/
  | stuck

/-- Read so many bytes. Bytes that are too few are lost. -/
def read (stream : Stream) (count : Nat) : Reading × Stream :=
  if count ≤ stream.incoming.length then
    (.read (stream.incoming.take count), { stream with incoming := stream.incoming.drop count })
  else
    (if stream.replies.isEmpty then .ended else .stuck, { stream with incoming := [] })

/-- What a user is told where the stream ends too early. -/
def endText : String := "early eof"

/-- What a user is told where nobody reads what is written. -/
def brokenText : String := "Broken pipe (os error 32)"

/-- Read an answer: the length of its data, then the data and the status word. -/
def readAnswer (stream : Stream) : Arrival × Stream :=
  match stream.read 4 with
  | (.ended, stream) => (.after 0 (.error (.io endText)), stream)
  | (.stuck, stream) => (.never, stream)
  | (.read length, stream) =>
      let count := Bytes.ofBigEndian length + 2
      if maxAnswer < count then (.after 0 (.error .invalidLength), stream)
      else match stream.read count with
        | (.ended, stream) => (.after 0 (.error (.io endText)), stream)
        | (.stuck, stream) => (.never, stream)
        | (.read bytes, stream) =>
            match Answer.ofBytes? bytes with
            | some answer => (.after 0 (.ok answer), stream)
            | none => (.after 0 (.error .unexpectedResponse), stream)

def exchange (stream : Stream) (command : Bytes) : Arrival × Stream :=
  if stream.broken then (.after 0 (.error (.io brokenText)), stream)
  else match stream.replies with
    | [] => { stream with broken := true }.readAnswer
    | reply :: replies =>
        { stream with
          incoming := stream.incoming ++ reply
          replies
          received := framed command :: stream.received }.readAnswer

def link : Link Stream := ⟨exchange⟩

end Stream

inductive Target where
  | hid
  /-- Over a stream of bytes. -/
  | tcp
  deriving DecidableEq, Repr

namespace Target

def all : List Target := [hid, tcp]

def text : Target → String
  | hid => "hid"
  | tcp => "tcp"

/-- The address of a simulated device where no other one is given. -/
def standardAddress : String := "127.0.0.1:1237"

/-- Open a channel to a peer with these replies. There is no USB here. -/
def connect (target : Target) (replies : List Bytes) : Except HostError Stream :=
  match target with
  | hid => .error .noDevice
  | tcp => .ok (.start replies)

end Target

end ColdSigner

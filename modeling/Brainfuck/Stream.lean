/-
The two streams of a program. A byte source answers one read after another;
nothing limits how it may answer, so a source is simply the answer to its
n-th read, for every n, and the number of reads made so far. A byte sink
holds what was written to it and may refuse to hold more than a limit; what it
says then is its own affair.
-/

namespace Brainfuck

/-- How a source answers a read for one byte: with data, with nothing at all,
or by failing. Data may be empty, which is nothing too; of several bytes
only the first is used. -/
inductive Reply where
  | data (bytes : List UInt8)
  | absent
  | failure (text : String)
  deriving DecidableEq, Repr

/-- A byte source. -/
structure Source where
  reply : Nat → Reply
  reads : Nat

namespace Source

/-- The source that gives the bytes of a buffer one by one and then nothing. -/
def ofBytes (bytes : Array UInt8) : Source :=
  ⟨fun n => if h : n < bytes.size then .data [bytes[n]] else .absent, 0⟩

/-- The source that gives prepared replies one by one and then nothing. -/
def ofReplies (replies : Array Reply) : Source :=
  ⟨fun n => if h : n < replies.size then replies[n] else .absent, 0⟩

/-- The answer to the next read. -/
def next (s : Source) : Reply :=
  s.reply s.reads

/-- The source after one more read. -/
def advance (s : Source) : Source :=
  ⟨s.reply, s.reads + 1⟩

/-- How many of the first `available` answers have been given. -/
def consumed (s : Source) (available : Nat) : Nat :=
  min s.reads available

end Source

/-- A byte sink: what it holds, how much it may hold, if that is limited, and
what it says when it refuses a byte. -/
structure Sink where
  held : Array UInt8
  limit : Option Nat
  refusal : String
  deriving DecidableEq, Repr

namespace Sink

/-- An empty sink. One that is full says what a closed file says. -/
def empty (limit : Option Nat) : Sink :=
  ⟨#[], limit, "I/O operation on closed file."⟩

/-- An empty sink that takes so many bytes and then says a text of its own. -/
def refusing (limit : Nat) (text : String) : Sink :=
  ⟨#[], some limit, text⟩

/-- Whether the sink takes one more byte. -/
def accepts (s : Sink) : Bool :=
  match s.limit with
  | none => true
  | some n => s.held.size < n

/-- The sink after taking a byte. -/
def push (b : UInt8) : Sink → Sink
  | ⟨held, limit, refusal⟩ => ⟨held.push b, limit, refusal⟩

end Sink

end Brainfuck

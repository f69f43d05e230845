/-
Two runs of the same code in lock step, where the interpreter of the one is
at all times a function `f` of the interpreter of the other.

An execution looks at its interpreter in two ways only: it tests the cell
under the cursor, and it performs actions. So if `f` leaves the tape as it is
and the actions performed commute with it, the whole run does
(`Machine.runFor_map`). Only the actions that are really performed have to
commute, which is what lets two runs be compared up to the point where they
part.

The functions meant are changes to what an execution carries along without
looking at it (`Change`): the replies that are never asked for, a refusal that
is never met, and the events in front of its log. Reading input commutes
with a change if the reply is the same, writing output if the sink takes the
byte in both cases or refuses it in both with the same words, and all other
actions always do (`Change.perform_apply`).
-/
import Brainfuck.Proofs.Actions

namespace Brainfuck

/-- The effect with another interpreter. -/
def Effect.map (f : Interpreter → Interpreter) : Effect → Effect
  | done i => .done (f i)
  | fault e i => .fault e (f i)

/-- The machine with another interpreter. -/
def Machine.map (f : Interpreter → Interpreter) (m : Machine) : Machine :=
  ⟨m.frame, m.outer, f m.state⟩

/-- The same place of an execution, with another interpreter. -/
def Progress.map (f : Interpreter → Interpreter) : Progress → Progress
  | running m => .running (m.map f)
  | finished i => .finished (f i)
  | stopped e i => .stopped e (f i)

namespace Machine

variable {f : Interpreter → Interpreter}

/-- The next action of a machine commutes with `f`, if the next step performs one. -/
def Commutes (f : Interpreter → Interpreter) (m : Machine) : Prop :=
  ∀ a, m.action? = some a → (f m.state).perform a = (m.state.perform a).map f

theorem Moves.map (hf : ∀ i, (f i).tape = i.tape) {m m' : Machine} (hm : Commutes f m)
    (h : m.Moves m') : (m.map f).Moves (m'.map f) := by
  cases h with
  | @act a body rest outer i j hp =>
    refine .act ?_
    rw [hm a rfl, hp]
    rfl
  | skip hz => exact .skip (by rwa [hf])
  | enter hz => exact .enter (by rwa [hf])
  | again hz => exact .again (by rwa [hf])
  | leave hz => exact .leave (by rwa [hf])

theorem Halts.step_map {m : Machine} {r : Result} (hm : Commutes f m) (h : m.Halts r) :
    (m.map f).step = r.progress.map f := by
  cases h with
  | finish => rfl
  | @fault a body rest outer i j e hp =>
    have hfault : Halts ⟨⟨body, .act a rest⟩, outer, f i⟩ (.stopped e (f j)) := by
      refine .fault ?_
      rw [hm a rfl, hp]
      rfl
    exact hfault.step_eq
  | foreign => rfl

theorem step_map (hf : ∀ i, (f i).tape = i.tape) {m : Machine} (hm : Commutes f m) :
    (m.map f).step = m.step.map f := by
  rcases m.moves_or_halts with ⟨m', h⟩ | ⟨r, h⟩
  · rw [h.step_eq]
    exact (h.map hf hm).step_eq
  · rw [h.step_eq]
    exact h.step_map hm

/-- If the actions of the first `n` steps commute with `f`, so do these steps. -/
theorem runFor_map (hf : ∀ i, (f i).tape = i.tape) {n : Nat} {m : Machine}
    (hm : ∀ s m', s < n → m.runFor s = .running m' → Commutes f m') :
    (m.map f).runFor n = (m.runFor n).map f := by
  -- The last step is split off, for `hm` is about how far the run from the start has come.
  induction n with
  | zero => rfl
  | succ n ih =>
    rw [runFor_add, runFor_add, ih fun s m' hs => hm s m' (Nat.lt_succ_of_lt hs)]
    cases h : m.runFor n with
    | running m' =>
      show (m'.map f).runFor 1 = (m'.runFor 1).map f
      rw [runFor_one, runFor_one]
      exact step_map hf (hm n m' (Nat.lt_succ_self n) h)
    | finished i => rfl
    | stopped e i => rfl

end Machine

/-! ## Streams and log -/

/-- What the sink says to one more byte, if it refuses it. -/
def Sink.refusal? (s : Sink) : Option String :=
  if s.accepts then none else some s.refusal

theorem Sink.accepts_eq_isNone (s : Sink) : s.accepts = s.refusal?.isNone := by
  unfold refusal?
  split <;> simp_all

/-- A change to the streams and the log of an interpreter that goes through
with every read, every byte written and every event noted. -/
structure Change where
  source : Source → Source
  sink : Sink → Sink
  log : List Event → List Event
  source_advance : ∀ s, source s.advance = (source s).advance
  sink_push : ∀ b s, sink (s.push b) = (sink s).push b
  log_append : ∀ l e, log (l ++ [e]) = log l ++ [e]

namespace Change

/-- Other events in front of the log. -/
def logged (events : List Event) : Change :=
  ⟨id, id, (events ++ ·), fun _ => rfl, fun _ _ => rfl,
    fun l e => (List.append_assoc events l [e]).symm⟩

/-- A limit for the sink, and what it says there. -/
def refusing (limit : Nat) (text : String) : Change :=
  ⟨id, fun s => { s with limit := some limit, refusal := text }, id, fun _ => rfl, fun _ _ => rfl,
    fun _ _ => rfl⟩

/-- Other replies, as many of them given already. -/
def answered (reply : Nat → Reply) : Change :=
  ⟨fun s => { s with reply := reply }, id, id, fun _ => rfl, fun _ _ => rfl, fun _ _ => rfl⟩

/-- The interpreter with the change made. -/
def apply (c : Change) (i : Interpreter) : Interpreter :=
  { i with source := c.source i.source, sink := c.sink i.sink, log := c.log i.log }

theorem note_apply (c : Change) (e : Event) (i : Interpreter) :
    (c.apply i).note e = c.apply (i.note e) := by
  simp only [Interpreter.note, apply, c.log_append]

theorem starve_apply (c : Change) (i : Interpreter) : (c.apply i).starve = c.apply i.starve := by
  obtain ⟨tape, source, sink, starved, written, log⟩ := i
  cases starved with
  | true => rfl
  | false => simp [Interpreter.starve, Interpreter.note, apply, c.log_append]

theorem output_apply {c : Change} {i : Interpreter}
    (h : (c.sink i.sink).refusal? = i.sink.refusal?) :
    (c.apply i).output = i.output.map c.apply := by
  have haccepts : (c.sink i.sink).accepts = i.sink.accepts := by
    rw [Sink.accepts_eq_isNone, h, ← Sink.accepts_eq_isNone]
  simp only [Interpreter.output, apply, haccepts]
  by_cases ha : i.sink.accepts = true
  · rw [if_pos ha, if_pos ha, ← c.sink_push]
    rfl
  · have hrefusal : (c.sink i.sink).refusal = i.sink.refusal := by
      simpa [Sink.refusal?, haccepts, ha] using h
    rw [if_neg ha, if_neg ha, hrefusal]
    rfl

theorem input_apply {c : Change} {i : Interpreter}
    (h : (c.source i.source).next = i.source.next) :
    (c.apply i).input = i.input.map c.apply := by
  have hstarve := c.starve_apply { i with source := i.source.advance }
  simp only [Interpreter.input, apply, h, ← c.source_advance]
  cases i.source.next with
  | data bytes =>
    cases bytes with
    | nil => exact congrArg Effect.done hstarve
    | cons b bs => rfl
  | absent => exact congrArg Effect.done hstarve
  | failure text => rfl

/-- An action commutes with a change unless it reads another reply for it, or
the sink does not say the same to a byte. -/
theorem perform_apply {c : Change} {a : Action} {i : Interpreter}
    (hin : a = .input → (c.source i.source).next = i.source.next)
    (hout : a = .output → (c.sink i.sink).refusal? = i.sink.refusal?) :
    (c.apply i).perform a = (i.perform a).map c.apply := by
  cases a with
  | next | previous | increment | decrement => rfl
  | output => exact output_apply (hout rfl)
  | input => exact input_apply (hin rfl)

/-- A run commutes with a change as long as no action that it performs tells
the difference. -/
theorem runFor_map {c : Change} {n : Nat} {m : Machine}
    (hin : ∀ s m', s < n → m.runFor s = .running m' → m'.action? = some .input →
      (c.source m'.state.source).next = m'.state.source.next)
    (hout : ∀ s m', s < n → m.runFor s = .running m' → m'.action? = some .output →
      (c.sink m'.state.sink).refusal? = m'.state.sink.refusal?) :
    (m.map c.apply).runFor n = (m.runFor n).map c.apply := by
  refine Machine.runFor_map (f := c.apply) (fun _ => rfl) ?_
  intro s m' hs hm a ha
  refine perform_apply ?_ ?_
  · rintro rfl
    exact hin s m' hs hm ha
  · rintro rfl
    exact hout s m' hs hm ha

theorem close_map (c : Change) (p : Progress) :
    (p.map c.apply).close = (p.close.1, c.apply p.close.2) := by
  cases p with
  | running m => rfl
  | finished i => exact congrArg (Ending.finished, ·) (c.note_apply _ i)
  | stopped f i => rfl

/-- A run adds to the log, and never looks at it. -/
theorem close_runFor_logged (events : List Event) (n : Nat) (m : Machine) :
    ((m.map (logged events).apply).runFor n).close =
      ((m.runFor n).close.1, (logged events).apply (m.runFor n).close.2) := by
  rw [runFor_map (fun _ _ _ _ _ => rfl) (fun _ _ _ _ _ => rfl), close_map]

end Change

end Brainfuck

/-
A stream that fails cuts a run at exactly one point.

Take a run and put a sink in the place of its own that takes `n` bytes and then
refuses with some text, or a source whose reply to one read is a failure. Nothing in the run
tells the difference before the first action that meets the failure: that is
the output action after the first `n`, or the input action for that read. So
up to there the two runs are in lock step (`Change.runFor_map`); there the
action fails, which leaves the tape as it is, and an execution that has been
stopped stays stopped. A run that never comes to such an action never tells
the difference at all.
-/
import Brainfuck.Proofs.Lockstep

namespace Brainfuck

/-! ## Coming to an action -/

namespace Machine

/-- After `t` steps the machine stands at `m'` and is about to perform an
action, which it has performed `n` times before. -/
def AboutTo (a : Action) (n t : Nat) (m m' : Machine) : Prop :=
  m.runFor t = .running m' ∧ m'.action? = some a ∧ m.performed a t = n

variable {a : Action} {n t : Nat} {m m' : Machine}

theorem AboutTo.performed_lt (h : AboutTo a n t m m') {s : Nat} (hs : s < t) {m'' : Machine}
    (hm : m.runFor s = .running m'') (ha : m''.action? = some a) : m.performed a s < n := by
  have hlt : m.performed a s < m.performed a t := Machine.performed_lt hs (by rw [hm]; exact ha)
  rwa [h.2.2] at hlt

/-- A machine that never comes to perform an action after the first `n` times
has always performed it less often when it is about to. -/
theorem performed_lt_of_not_aboutTo (h : ¬ ∃ t m', AboutTo a n t m m') {s : Nat}
    (hm : m.runFor s = .running m') (ha : m'.action? = some a) : m.performed a s < n := by
  -- The count goes up by one at a time, so it could pass `n` only at the action excluded.
  have hle (s : Nat) : m.performed a s ≤ n := by
    induction s with
    | zero => exact Nat.zero_le n
    | succ s ih =>
      rw [performed_succ]
      by_cases hact : (m.runFor s).action? = some a
      · have hne : m.performed a s ≠ n := by
          intro heq
          cases hrun : m.runFor s with
          | running m'' => exact h ⟨s, m'', hrun, by rw [hrun] at hact; exact hact, heq⟩
          | finished i => rw [hrun] at hact; cases hact
          | stopped f i => rw [hrun] at hact; cases hact
        rw [if_pos hact]
        omega
      · rw [if_neg hact]
        exact ih
  have hne : m.performed a s ≠ n := fun heq => h ⟨s, m', hm, ha, heq⟩
  have hs : m.performed a s ≤ n := hle s
  omega

/-- A fault is where a run stays. -/
theorem runFor_of_fault {f : Fault} {j : Interpreter} (hrun : m.runFor t = .running m')
    (ha : m'.action? = some a) (hfault : m'.state.perform a = .fault f j) {s : Nat} (hs : t < s) :
    m.runFor s = .stopped f j := by
  obtain ⟨k, rfl⟩ := Nat.exists_eq_add_of_lt hs
  obtain ⟨⟨body, todo⟩, outer, i⟩ := m'
  obtain ⟨rest, rfl⟩ : ∃ rest, todo = .act a rest := by
    cases todo with
    | act b rest => cases ha; exact ⟨rest, rfl⟩
    | _ => cases ha
  have hhalts : Halts ⟨⟨body, .act a rest⟩, outer, i⟩ (.stopped f j) := .fault hfault
  rw [Nat.add_assoc, runFor_add, hrun]
  exact hhalts.runFor_succ k

end Machine

/-! ## What is noted on the way -/

namespace Interpreter

/-- An action notes that there was no input, or nothing. -/
theorem log_perform (a : Action) (i : Interpreter) :
    (i.perform a).state.log = i.log ∨
      ∃ cell, (i.perform a).state.log = i.log ++ [.exhausted cell] := by
  have hstarve (i : Interpreter) :
      i.starve.log = i.log ∨ ∃ cell, i.starve.log = i.log ++ [.exhausted cell] := by
    unfold starve
    split
    · exact .inl rfl
    · exact .inr ⟨_, rfl⟩
  cases a with
  | next | previous | increment | decrement => exact .inl rfl
  | output =>
    left
    simp only [perform, output]
    split <;> rfl
  | input =>
    simp only [perform, input]
    cases i.source.next with
    | data bytes =>
      cases bytes with
      | nil => exact hstarve { i with source := i.source.advance }
      | cons b bs => exact .inl rfl
    | absent => exact hstarve { i with source := i.source.advance }
    | failure text => exact .inl rfl

end Interpreter

/-- As long as an execution goes on, it is not noted as finished. -/
theorem Machine.not_finished_mem_log {m : Machine} (h : ∀ b, Event.finished b ∉ m.state.log)
    (n : Nat) : ∀ b, Event.finished b ∉ (m.runFor n).state.log := by
  refine state_runFor (P := fun i => ∀ b, Event.finished b ∉ i.log) ?_ h n
  intro a i hi b hb
  rcases i.log_perform a with hlog | ⟨cell, hlog⟩
  · rw [hlog] at hb
    exact hi b hb
  · rw [hlog, List.mem_append, List.mem_singleton] at hb
    rcases hb with hb | hb
    · exact hi b hb
    · cases hb

/-! ## The cut -/

/-- The source whose replies are the same except that the read after the next
`k` fails. -/
def Source.failingAfter (k : Nat) (text : String) (s : Source) : Source :=
  ⟨fun r => if r = s.reads + k then .failure text else s.reply r, s.reads⟩

namespace Interpreter

/-- The runs of code on `cut` are those on `whole` with the change `c`, but
only up to the action `a` after the first `n`. That action stops them by the
fault `f`, and `left` is what they leave of the state in which `whole` comes
to it; nothing is noted as finished. Where `whole` never comes to that action,
they are those on `whole` throughout. -/
structure CutBefore (a : Action) (n : Nat) (f : Fault) (c : Change)
    (left : Interpreter → Interpreter) (code : Code) (whole cut : Interpreter) : Prop where
  before : ∀ t m s, Machine.AboutTo a n t (whole.machine code) m → s ≤ t →
    cut.run s code = ((whole.run s code).1, c.apply (whole.run s code).2)
  stopped : ∀ t m s, Machine.AboutTo a n t (whole.machine code) m → t < s →
    cut.run s code = (.stopped f, left m.state)
  unfinished : ∀ t m b, Machine.AboutTo a n t (whole.machine code) m →
    .finished b ∉ (left m.state).log
  throughout : (¬ ∃ t m, Machine.AboutTo a n t (whole.machine code) m) → ∀ s,
    cut.run s code = ((whole.run s code).1, c.apply (whole.run s code).2)

/-- Two interpreters are cut apart by what single actions do: those before the
one in question commute with the change, and that one fails. -/
theorem CutBefore.of_perform {a : Action} {n : Nat} {f : Fault} {c : Change}
    {left : Interpreter → Interpreter} {code : Code} {whole cut : Interpreter}
    (hmachine : cut.machine code = (whole.machine code).map c.apply)
    (hnoted : ∀ b, .finished b ∉ (whole.machine code).state.log)
    (hlog : ∀ i, (left i).log = i.log)
    (hsame : ∀ s m, (whole.machine code).runFor s = .running m →
      (m.action? = some a → (whole.machine code).performed a s < n) → m.Commutes c.apply)
    (hfault : ∀ t m, Machine.AboutTo a n t (whole.machine code) m →
      (c.apply m.state).perform a = .fault f (left m.state)) :
    CutBefore a n f c left code whole cut := by
  -- The runs are in lock step for as long as the action has been performed less often.
  have hrun (s : Nat)
      (h : ∀ r m, r < s → (whole.machine code).runFor r = .running m → m.action? = some a →
        (whole.machine code).performed a r < n) :
      (cut.machine code).runFor s = ((whole.machine code).runFor s).map c.apply := by
    rw [hmachine]
    exact Machine.runFor_map (f := c.apply) (fun _ => rfl) fun r m hr hm =>
      hsame r m hm (h r m hr hm)
  constructor
  · intro t m s ht hs
    rw [run, run, hrun s fun r m hr hm ha => ht.performed_lt (Nat.lt_of_lt_of_le hr hs) hm ha,
      Change.close_map]
  · intro t m s ht hs
    have hthere : (cut.machine code).runFor t = .running (m.map c.apply) := by
      rw [hrun t fun r m hr hm ha => ht.performed_lt hr hm ha, ht.1]
      rfl
    rw [run, Machine.runFor_of_fault hthere ht.2.1 (hfault t m ht) hs]
    rfl
  · intro t m b ht
    have hm := Machine.not_finished_mem_log hnoted t b
    rw [ht.1] at hm
    rw [hlog]
    exact hm
  · intro hnone s
    rw [run, run, hrun s fun r m _ hm ha => Machine.performed_lt_of_not_aboutTo hnone hm ha,
      Change.close_map]

theorem not_finished_mem_log_machine (size : MemorySize) (source : Source) (sink : Sink)
    (code : Code) (b : Nat) : .finished b ∉ ((new size source sink).machine code).state.log := by
  simp [machine, Machine.ofCode, start, note, new]

/-! ## The two streams -/

section Streams

variable {size : MemorySize} {source : Source} {sink : Sink} {code : Code} {s : Nat} {m : Machine}

/-- A sink without a limit holds as many bytes as there were output actions. -/
theorem sink_of_runFor
    (hm : ((new size source (.empty none)).machine code).runFor s = .running m) :
    m.state.sink.limit = none ∧
      m.state.sink.held.size =
        ((new size source (.empty none)).machine code).performed .output s := by
  have hattached : m.state.AttachedTo source (.empty none) := by
    have h := Machine.attachedTo_runFor (.self ((new size source (.empty none)).machine code).state) s
    rwa [hm] at h
  have hheld := Machine.held_runFor (m := (new size source (.empty none)).machine code) rfl s
  rw [hm] at hheld
  exact ⟨hattached.limit_eq, hheld.trans (Nat.zero_add _)⟩

/-- The replies to come are those of the source, after one for every input action. -/
theorem source_of_runFor (hm : ((new size source sink).machine code).runFor s = .running m) :
    m.state.source.reply = source.reply ∧
      m.state.source.reads =
        source.reads + ((new size source sink).machine code).performed .input s := by
  have hattached : m.state.AttachedTo source sink := by
    have h := Machine.attachedTo_runFor (.self ((new size source sink).machine code).state) s
    rwa [hm] at h
  have hreads := Machine.reads_runFor s ((new size source sink).machine code)
  rw [hm] at hreads
  exact ⟨hattached.reply_eq, hreads⟩

end Streams

theorem cutBefore_output (size : MemorySize) (source : Source) (code : Code) (n : Nat)
    (text : String) :
    CutBefore .output n (.sinkFailed text) (.refusing n text) (Change.refusing n text).apply code
      (new size source (.empty none)) (new size source (.refusing n text)) := by
  refine .of_perform rfl (not_finished_mem_log_machine _ _ _ _) (fun _ => rfl) ?_ ?_
  · intro s m hm hlt a ha
    refine Change.perform_apply (fun _ => rfl) ?_
    rintro rfl
    obtain ⟨hlimit, hheld⟩ := sink_of_runFor hm
    have hfew : m.state.sink.held.size < n := hheld ▸ hlt ha
    simp [Change.refusing, Sink.refusal?, Sink.accepts, hlimit, hfew]
  · intro t m ht
    have hfull : m.state.sink.held.size = n := (sink_of_runFor ht.1).2.trans ht.2.2
    simp [perform, output, Change.apply, Change.refusing, Sink.accepts, hfull]

theorem cutBefore_input (size : MemorySize) (source : Source) (sink : Sink) (code : Code) (k : Nat)
    (text : String) :
    CutBefore .input k (.sourceFailed text) (.answered (source.failingAfter k text).reply)
      (fun i => (Change.answered (source.failingAfter k text).reply).apply
        { i with source := i.source.advance })
      code (new size source sink) (new size (source.failingAfter k text) sink) := by
  refine .of_perform rfl (not_finished_mem_log_machine _ _ _ _) (fun _ => rfl) ?_ ?_
  · intro s m hm hlt a ha
    refine Change.perform_apply ?_ (fun _ => rfl)
    rintro rfl
    obtain ⟨hreply, hreads⟩ := source_of_runFor hm
    have hother : m.state.source.reads ≠ source.reads + k := by
      have hcount := hlt ha
      omega
    simp [Change.answered, Source.next, Source.failingAfter, hother, hreply]
  · intro t m ht
    have hthis : m.state.source.reads = source.reads + k := by
      rw [(source_of_runFor ht.1).2, ht.2.2]
    simp [perform, input, Change.apply, Change.answered, Source.next, Source.failingAfter,
      Source.advance, hthis]

/-- **A failing stream cuts a run at one point.** A run with a sink that takes
`n` bytes only is the run with a sink that takes everything, cut before the
output action after the first `n`: it is stopped by the sink, with the text of
the sink, and leaves the tape, the input and the log as they are there, and its
sink holds the first `n` bytes of all that the other run ever writes. A run with a source whose
read after the first `k` fails is cut before the input action that makes this
read, in the same way, and the read is the only thing that has happened since.
A run that does not come to that action is the same with either stream. -/
theorem run_cut_by_stream (size : MemorySize) (code : Code) :
    (∀ (source : Source) (n : Nat) (text : String),
      let whole := new size source (.empty none)
      CutBefore .output n (.sinkFailed text) (.refusing n text) (Change.refusing n text).apply code
          whole (new size source (.refusing n text)) ∧
        ∀ t m, Machine.AboutTo .output n t (whole.machine code) m →
          m.state.sink.held.size = n ∧
            ∀ s, t ≤ s → m.state.sink.held.toList <+: (whole.run s code).2.sink.held.toList) ∧
    ∀ (source : Source) (sink : Sink) (k : Nat) (text : String),
      let change := Change.answered (source.failingAfter k text).reply
      CutBefore .input k (.sourceFailed text) change
        (fun i => change.apply { i with source := i.source.advance }) code
        (new size source sink) (new size (source.failingAfter k text) sink) := by
  refine ⟨fun source n text => ⟨cutBefore_output size source code n text, ?_⟩,
    fun source sink k text => cutBefore_input size source sink code k text⟩
  intro t m ht
  refine ⟨(sink_of_runFor ht.1).2.trans ht.2.2, ?_⟩
  intro s hs
  have hprefix := Machine.held_prefix ((new size source (.empty none)).machine code) hs
  rw [ht.1] at hprefix
  rw [run, Progress.sink_close]
  exact hprefix

/-- The endless output of `+[.]` ends when the sink is full, and `,>,` ends
on its second cell when the second read fails. -/
theorem run_cut_of_endless_output :
    (∃ m, Machine.AboutTo .output 1 4
        ((new ⟨1, by decide⟩ (.ofBytes #[]) (.empty none)).machine
          (.act .increment (.loop (.act .output .nil) .nil))) m ∧
      m.state.sink.held = #[1] ∧
      (new ⟨1, by decide⟩ (.ofBytes #[]) (.refusing 1 "full")).run 9
          (.act .increment (.loop (.act .output .nil) .nil)) =
        (.stopped (.sinkFailed "full"), (Change.refusing 1 "full").apply m.state)) ∧
    ∃ m, Machine.AboutTo .input 1 2
        ((new ⟨2, by decide⟩ (.ofBytes #[7, 8]) (.empty none)).machine
          (.act .input (.act .next (.act .input .nil)))) m ∧
      m.state.tape = ⟨#[7, 0], 1, by decide⟩ ∧
      ((new ⟨2, by decide⟩ ((Source.ofBytes #[7, 8]).failingAfter 1 "gone") (.empty none)).run 9
          (.act .input (.act .next (.act .input .nil)))).1 = .stopped (.sourceFailed "gone") := by
  constructor
  · have hcut := (run_cut_by_stream ⟨1, by decide⟩
      (.act .increment (.loop (.act .output .nil) .nil))).1 (.ofBytes #[]) 1 "full"
    refine ⟨_, ⟨rfl, rfl, rfl⟩, rfl, ?_⟩
    exact hcut.1.stopped 4 _ 9 ⟨rfl, rfl, rfl⟩ (by decide)
  · have hcut := (run_cut_by_stream ⟨2, by decide⟩
      (.act .input (.act .next (.act .input .nil)))).2 (.ofBytes #[7, 8]) (.empty none) 1 "gone"
    refine ⟨_, ⟨rfl, rfl, rfl⟩, rfl, ?_⟩
    exact congrArg Prod.fst (hcut.stopped 2 _ 9 ⟨rfl, rfl, rfl⟩ (by decide))

end Interpreter

end Brainfuck

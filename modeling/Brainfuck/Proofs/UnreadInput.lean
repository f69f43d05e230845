/-
What a run does depends on the input that it has read, and on none of the rest.

Replies that are not asked for are carried along unseen. Two sources that agree
on the next replies are therefore a change (`Change.answered`) with which a run
commutes for as long as its input actions ask for no other replies; how many of
them there have been is the number of reads, so the next one asks for a reply
that is the same in both (`Machine.runFor_answered`). A run that has ended asks
for no more.
-/
import Brainfuck.Proofs.Lockstep

namespace Brainfuck

/-- Two sources of which equally many replies have been given, and that agree on
the next `k`. -/
structure Source.AgreeFor (k : Nat) (s t : Source) : Prop where
  reads : t.reads = s.reads
  reply : ∀ r, r < k → t.reply (s.reads + r) = s.reply (s.reads + r)

/-- Buffers that begin alike agree for as long as that lasts. -/
theorem Source.agreeFor_ofBytes (shared rest rest' : Array UInt8) :
    AgreeFor shared.size (.ofBytes (shared ++ rest)) (.ofBytes (shared ++ rest')) := by
  have hshared (after : Array UInt8) {r : Nat} (hr : r < shared.size) :
      (Source.ofBytes (shared ++ after)).reply r = .data [shared[r]] := by
    have hlt : r < (shared ++ after).size := by
      rw [Array.size_append]
      omega
    simp only [ofBytes, dif_pos hlt, Array.getElem_append_left hr]
  refine ⟨rfl, fun r hr => ?_⟩
  show (Source.ofBytes _).reply (0 + r) = (Source.ofBytes _).reply (0 + r)
  rw [Nat.zero_add, hshared rest' hr, hshared rest hr]

namespace Machine

/-- Up to `k` reads, a run is the same with any source that agrees for so long. -/
theorem runFor_answered {m : Machine} {source : Source} {k n : Nat}
    (h : m.state.source.AgreeFor k source) (hn : m.performed .input n ≤ k) :
    (m.map (Change.answered source.reply).apply).runFor n =
      (m.runFor n).map (Change.answered source.reply).apply := by
  refine Change.runFor_map ?_ fun _ _ _ _ _ => rfl
  intro s m' hs hm ha
  have hlt : m.performed .input s < k := by
    have hmore : m.performed .input s < m.performed .input n := performed_lt hs (by rw [hm]; exact ha)
    omega
  have hattached := attachedTo_runFor (.self m.state) s
  have hreads := m.reads_runFor s
  rw [hm] at hattached hreads
  show source.reply m'.state.source.reads = m'.state.source.reply m'.state.source.reads
  have hthere : m'.state.source.reads = m.state.source.reads + m.performed .input s := hreads
  have hsame : m'.state.source.reply = m.state.source.reply := hattached.reply_eq
  rw [hthere, hsame, h.reply _ hlt]

end Machine

namespace Interpreter

/-- After `n` steps of the same code two interpreters stand at the same place,
or have ended alike, and all is the same but the replies that either has not
been given: the frames, the tape, the number of reads, the output, the flags and
the log. -/
structure SameRun (n : Nat) (code : Code) (i j : Interpreter) : Prop where
  place : (j.machine code).runFor n =
    ((i.machine code).runFor n).map (Change.answered j.source.reply).apply
  result : j.run n code =
    ((i.run n code).1, (Change.answered j.source.reply).apply (i.run n code).2)

/-- With another source that agrees with its own for `k` replies, an interpreter
runs the same for as long as no more are read. -/
theorem SameRun.of_agreeFor {i : Interpreter} {source : Source} {code : Code} {k n : Nat}
    (h : i.source.AgreeFor k source) (hn : (i.machine code).performed .input n ≤ k) :
    SameRun n code i { i with source := source } := by
  have hmachine : ({ i with source := source }).machine code =
      (i.machine code).map (Change.answered source.reply).apply := by
    obtain ⟨reply, reads⟩ := source
    obtain rfl : reads = i.source.reads := h.reads
    rfl
  have hplace := Machine.runFor_answered (m := i.machine code) h hn
  rw [← hmachine] at hplace
  refine ⟨hplace, ?_⟩
  rw [run, run, hplace, Change.close_map]

/-- **What is not read does not matter.** Give an interpreter another source
that agrees with its own on the next `k` replies, and run any code. After any
number of steps with at most `k` input actions among them both runs are the
same; if one has ended by then, they are the same throughout, whatever the
sources hold behind those replies. Of two buffers the same holds for as long
as no more bytes are read than both begin with. -/
theorem sameRun_of_input_read (i : Interpreter) (code : Code) :
    (∀ (k : Nat) (source : Source), i.source.AgreeFor k source →
      (∀ n, (i.machine code).performed .input n ≤ k →
        SameRun n code i { i with source := source }) ∧
      ∀ n, (i.run n code).1 ≠ .unfinished → (i.machine code).performed .input n ≤ k →
        ∀ s, SameRun s code i { i with source := source }) ∧
    ∀ (shared rest rest' : Array UInt8) (n : Nat), i.source = .ofBytes (shared ++ rest) →
      (i.machine code).performed .input n ≤ shared.size →
        SameRun n code i { i with source := .ofBytes (shared ++ rest') } := by
  refine ⟨fun k source h => ⟨fun n hn => .of_agreeFor h hn, ?_⟩, ?_⟩
  · intro n hended hn s
    rcases ((i.machine code).runFor n).running_or_result with ⟨m, hm⟩ | ⟨r, hr⟩
    · rw [run, hm] at hended
      exact absurd rfl hended
    · exact .of_agreeFor h (Nat.le_trans (Machine.performed_le_of_ended hr .input s) hn)
  · intro shared rest rest' n hsource hn
    have hagree := Source.agreeFor_ofBytes shared rest rest'
    rw [← hsource] at hagree
    exact .of_agreeFor hagree hn

/-- A loop that echoes its input up to a zero. What stands behind that zero may
be another byte, other bytes, or a failure. -/
theorem sameRun_of_echo :
    let i := Interpreter.new ⟨2, by decide⟩ (.ofBytes (#[3, 0] ++ #[9])) (.empty none)
    let code := Code.parse (.text ",[.,]")
    let failing := Source.ofReplies #[.data [3], .data [0], .failure "gone"]
    (i.source.AgreeFor 2 failing ∧ (i.machine code).performed .input 3 ≤ 2 ∧
      SameRun 3 code i { i with source := failing }) ∧
    ((i.run 9 code).1 = .finished ∧ (i.machine code).performed .input 9 ≤ 2 ∧
      SameRun 100 code i { i with source := failing }) ∧
    SameRun 9 code i { i with source := .ofBytes (#[3, 0] ++ #[7, 7]) } := by
  intro i code failing
  have hagree : i.source.AgreeFor 2 failing := ⟨rfl, by decide⟩
  have hthree : (i.machine code).performed .input 3 ≤ 2 := by decide
  have hnine : (i.machine code).performed .input 9 ≤ 2 := by decide
  have hends : (i.run 9 code).1 = .finished := by decide
  have hended : (i.run 9 code).1 ≠ .unfinished := by
    rw [hends]
    decide
  have hsame := sameRun_of_input_read i code
  exact ⟨⟨hagree, hthree, (hsame.1 2 failing hagree).1 3 hthree⟩,
    ⟨hends, hnine, (hsame.1 2 failing hagree).2 9 hended hnine 100⟩,
    hsame.2 #[3, 0] #[9] #[7, 7] 9 rfl hnine⟩

end Interpreter

end Brainfuck

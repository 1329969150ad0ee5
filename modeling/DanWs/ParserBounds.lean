import DanWs.StepRuns
import DanWs.StreamRecovery

namespace DanWs.ParserBounds

open DanWs.ByteStuffing
open DanWs.Codec
open DanWs.StepRuns
open DanWs.StreamDelivery
open DanWs.StreamParsing
open DanWs.StreamRecovery
open DanWs.WireTypes

/-- What a parser takes in at once. -/
inductive Input where
  | byte (b : UInt8)
  | reset
  deriving DecidableEq

def take (parser : StreamParser) : Input → StreamParser
  | .byte b => (parser.step b).1
  | .reset => parser.reset

inductive Call where
  | feed (data : List UInt8)
  | reset

def Call.inputs : Call → List Input
  | .feed data => data.map .byte
  | .reset => [.reset]

def call (parser : StreamParser) : Call → StreamParser
  | .feed data => (parser.feed data).1
  | .reset => parser.reset

section Runs

theorem run_bytes (parser : StreamParser) (data : List UInt8) :
    run take parser (data.map .byte) = (parser.feed data).1 := by
  induction data generalizing parser with
  | nil => rfl
  | cons b data ih =>
      rw [List.map_cons, run_cons, StreamParser.feed]
      exact ih (parser.step b).1

/-- A run of calls is a run of what they hand to the parser byte by byte. -/
theorem run_call (parser : StreamParser) (calls : List Call) :
    run call parser calls = run take parser (calls.flatMap Call.inputs) := by
  induction calls generalizing parser with
  | nil => rfl
  | cons c calls ih =>
      rw [List.flatMap_cons, run_append, run_cons, ih]
      cases c with
      | feed data =>
          rw [Call.inputs, run_bytes]
          rfl
      | reset => rfl

theorem maxBufferSize_take (parser : StreamParser) (input : Input) :
    (take parser input).maxBufferSize = parser.maxBufferSize := by
  cases input with
  | byte b => exact step_maxBufferSize parser b
  | reset => rfl

theorem maxBufferSize_run (parser : StreamParser) (inputs : List Input) :
    (run take parser inputs).maxBufferSize = parser.maxBufferSize := by
  induction inputs generalizing parser with
  | nil => rfl
  | cons input inputs ih => rw [run_cons, ih, maxBufferSize_take]

end Runs

section Bound

def Bounded (parser : StreamParser) : Prop := parser.buffer.length ≤ parser.maxBufferSize

/-- An escaped DLE comes when the buffer is full. -/
def Overfills (parser : StreamParser) (input : Input) : Prop :=
  input = .byte DLE ∧ parser.state = .inFrameAfterDLE ∧
    parser.maxBufferSize ≤ parser.buffer.length

instance (parser : StreamParser) (input : Input) : Decidable (Overfills parser input) :=
  inferInstanceAs (Decidable (_ ∧ _))

theorem bounded_new (max : Nat) : Bounded (StreamParser.new max) := Nat.zero_le max

theorem bounded_step_iff (parser : StreamParser) (b : UInt8) (h : Bounded parser) :
    Bounded (parser.step b).1 ↔ ¬ Overfills parser (.byte b) := by
  obtain ⟨max, state, buffer⟩ := parser
  have hother : state ≠ .inFrameAfterDLE → ¬ Overfills ⟨max, state, buffer⟩ (.byte b) :=
    fun hstate hoverfills => hstate hoverfills.2.1
  cases state with
  | idle =>
      refine iff_of_true ?_ (hother (by decide))
      rw [StreamParser.step]
      dsimp only
      split <;> exact h
  | afterDLE =>
      refine iff_of_true ?_ (hother (by decide))
      rw [StreamParser.step]
      dsimp only
      split
      · exact Nat.zero_le max
      · split <;> exact h
  | inFrame =>
      refine iff_of_true ?_ (hother (by decide))
      rw [StreamParser.step]
      dsimp only
      split
      · exact h
      · split
        · exact Nat.zero_le max
        · next hroom =>
            rw [Bounded, List.length_append, List.length_singleton]
            exact Nat.lt_of_not_le hroom
  | inFrameAfterDLE =>
      rcases eq_or_ne b DLE with rfl | hb
      · rw [step_inFrameAfterDLE_DLE]
        have hlength : Bounded ⟨max, .inFrame, buffer ++ [DLE]⟩ ↔ buffer.length < max := by
          rw [Bounded, List.length_append, List.length_singleton]
          exact Iff.rfl
        rw [hlength, Overfills, ← Nat.not_le]
        simp
      · refine iff_of_true ?_ fun hoverfills => hb (Input.byte.inj hoverfills.1)
        rw [StreamParser.step]
        dsimp only
        split
        · exact Nat.zero_le max
        · exact Nat.zero_le max

theorem bounded_take_iff (parser : StreamParser) (input : Input) (h : Bounded parser) :
    Bounded (take parser input) ↔ ¬ Overfills parser input := by
  cases input with
  | byte b => exact bounded_step_iff parser b h
  | reset => exact iff_of_true (Nat.zero_le _) fun hoverfills => Input.noConfusion hoverfills.1

end Bound

section Spelling

/-- What a parser has read since it was last at rest. -/
def sinceRest (parser : StreamParser) : List UInt8 :=
  match parser.state with
  | .idle => []
  | .afterDLE => [DLE]
  | .inFrame => DLE :: STX :: stuff DLE parser.buffer
  | .inFrameAfterDLE => DLE :: STX :: (stuff DLE parser.buffer ++ [DLE])

theorem sinceRest_step (parser : StreamParser) (b : UInt8) :
    (parser.step b).1.state = .idle ∨
      sinceRest (parser.step b).1 = sinceRest parser ++ [b] := by
  obtain ⟨max, state, buffer⟩ := parser
  cases state with
  | idle =>
      rcases eq_or_ne b DLE with rfl | hb
      · rw [step_idle_DLE]
        exact Or.inr rfl
      · obtain ⟨message, hstep⟩ := step_idle_byte hb max buffer
        rw [hstep]
        exact Or.inl rfl
  | afterDLE =>
      rcases eq_or_ne b STX with rfl | hstx
      · rw [step_afterDLE_STX]
        exact Or.inr rfl
      · rw [StreamParser.step]
        dsimp only
        rw [if_neg hstx]
        split <;> exact Or.inl rfl
  | inFrame =>
      rcases eq_or_ne b DLE with rfl | hb
      · rw [step_inFrame_DLE]
        exact Or.inr rfl
      · rcases Nat.lt_or_ge buffer.length max with hroom | hfull
        · rw [step_inFrame_byte hb hroom]
          refine Or.inr ?_
          simp only [sinceRest]
          rw [stuff_append, stuff_cons_of_ne hb]
          rfl
        · obtain ⟨message, hstep⟩ := step_inFrame_full hb hfull
          rw [hstep]
          exact Or.inl rfl
  | inFrameAfterDLE =>
      rcases eq_or_ne b DLE with rfl | hb
      · rw [step_inFrameAfterDLE_DLE]
        refine Or.inr ?_
        simp only [sinceRest]
        rw [stuff_append, stuff_cons_esc]
        simp
      · rw [StreamParser.step]
        dsimp only
        rw [if_neg hb]
        split <;> exact Or.inl rfl

theorem spelled_run (max : Nat) (inputs : List Input) :
    ∃ before, inputs = before ++ (sinceRest (run take (.new max) inputs)).map .byte ∧
      (run take (.new max) before).state = .idle := by
  induction inputs using List.reverseRecOn with
  | nil => exact ⟨[], rfl, rfl⟩
  | append_singleton inputs input ih =>
      rw [run_append, run_cons, run_nil]
      have hrest : (take (run take (.new max) inputs) input).state = .idle →
          ∃ before, inputs ++ [input] = before ++
              (sinceRest (take (run take (.new max) inputs) input)).map .byte ∧
            (run take (.new max) before).state = .idle := by
        intro hidle
        refine ⟨inputs ++ [input], ?_, ?_⟩
        · rw [sinceRest, hidle]
          simp
        · rw [run_append]
          exact hidle
      cases input with
      | reset => exact hrest rfl
      | byte b =>
          rcases sinceRest_step (run take (.new max) inputs) b with hidle | hmore
          · exact hrest hidle
          · obtain ⟨before, hbefore, hstate⟩ := ih
            refine ⟨before, ?_, hstate⟩
            rw [take, hmore, List.map_append, ← List.append_assoc, ← hbefore]
            rfl

end Spelling

section Delivery

/-- The last byte makes the parser deliver the frame, and the inputs end with the
escaped form of the body, which starts where the parser was at rest. -/
structure Delivered (max : Nat) (inputs : List Input) (body : List UInt8) (frame : Frame) :
    Prop where
  delivered : ∃ before, inputs = before ++ [.byte ETX] ∧
    .frame frame ∈ ((run take (.new max) before).step ETX).2
  spelled : ∃ before, inputs = before ++ (wrapBody body).map .byte ∧
    (run take (.new max) before).state = .idle

theorem step_delivers {parser : StreamParser} {b : UInt8} {frame : Frame}
    (h : .frame frame ∈ (parser.step b).2) :
    parser.state = .inFrameAfterDLE ∧ b = ETX ∧ completeFrame parser.buffer = .frame frame := by
  obtain ⟨max, state, buffer⟩ := parser
  cases state with
  | idle =>
      rw [StreamParser.step] at h
      dsimp only at h
      split at h <;> simp at h
  | afterDLE =>
      rw [StreamParser.step] at h
      dsimp only at h
      split at h
      · simp at h
      · split at h <;> simp at h
  | inFrame =>
      rw [StreamParser.step] at h
      dsimp only at h
      split at h
      · simp at h
      · split at h <;> simp at h
  | inFrameAfterDLE =>
      rw [StreamParser.step] at h
      dsimp only at h
      split at h
      · next hend => exact ⟨rfl, hend, (List.mem_singleton.mp h).symm⟩
      · split at h <;> simp at h

/-- Every frame is delivered from the text that spells its body. -/
theorem exists_delivered {max : Nat} {before : List Input} {b : UInt8} {frame : Frame}
    (h : .frame frame ∈ ((run take (.new max) before).step b).2) :
    ∃ body, completeFrame body = .frame frame ∧
      Delivered max (before ++ [.byte b]) body frame := by
  obtain ⟨hstate, rfl, hcomplete⟩ := step_delivers h
  obtain ⟨start, hstart, hidle⟩ := spelled_run max before
  refine ⟨(run take (.new max) before).buffer, hcomplete, ⟨before, rfl, h⟩, start, ?_, hidle⟩
  conv_lhs => rw [hstart, sinceRest, hstate]
  rw [wrapBody, dleEncode_eq_stuff]
  simp

/-- What the parser has in its buffer when it delivers a frame is the body. -/
theorem Delivered.buffer {max : Nat} {before : List Input} {body : List UInt8} {frame : Frame}
    (h : Delivered max (before ++ [.byte ETX]) body frame) :
    (run take (.new max) before).buffer = body := by
  obtain ⟨other, hother, hframe⟩ := h.delivered
  obtain ⟨start, hstart, hidle⟩ := h.spelled
  obtain rfl := List.append_cancel_right hother
  have hbefore : before = start ++ (DLE :: STX :: (stuff DLE body ++ [DLE])).map .byte := by
    rw [← List.append_left_inj [.byte ETX], hstart, wrapBody, dleEncode_eq_stuff]
    simp
  obtain ⟨hstate, -, -⟩ := step_delivers hframe
  rw [hbefore, run_append, run_bytes] at hstate ⊢
  generalize run take (.new max) start = parser at hidle hstate ⊢
  obtain ⟨max', state, buffer⟩ := parser
  obtain rfl : state = .idle := hidle
  have hopen : StreamParser.feed ⟨max', .idle, buffer⟩ (DLE :: STX :: (stuff DLE body ++ [DLE])) =
      StreamParser.feed ⟨max', .inFrame, []⟩ (stuff DLE body ++ [DLE]) := by
    rw [StreamParser.feed, step_idle_DLE]
    dsimp only
    rw [StreamParser.feed, step_afterDLE_STX]
    rfl
  rw [hopen, StreamParser.feed_append] at hstate ⊢
  rcases feed_inFrame_stuff max' [] body with hfeed | ⟨events, -, hfeed⟩
  · rw [hfeed]
    rfl
  · rw [hfeed] at hstate
    cases hstate

/-- The buffer stays within its bound, and with it every delivered body, exactly
when no escaped DLE comes while the buffer is full. -/
theorem bounded_throughout_iff (max : Nat) (calls : List Call) :
    ((∀ before, before <+: calls.flatMap Call.inputs →
        (run take (.new max) before).buffer.length ≤ max) ∧
      ∀ before body frame, before <+: calls.flatMap Call.inputs →
        Delivered max before body frame → body.length ≤ max) ↔
      StepsMeet take (fun parser input => ¬ Overfills parser input) (.new max)
        (calls.flatMap Call.inputs) := by
  rw [← forall_prefix_iff_stepsMeet bounded_take_iff (bounded_new max)]
  have hmax : ∀ before, Bounded (run take (.new max) before) ↔
      (run take (.new max) before).buffer.length ≤ max := by
    intro before
    rw [Bounded, maxBufferSize_run]
    exact Iff.rfl
  constructor
  · rintro ⟨hbuffer, -⟩ before hbefore
    exact (hmax before).mpr (hbuffer before hbefore)
  · intro h
    have hbuffer := fun before hbefore => (hmax before).mp (h before hbefore)
    refine ⟨hbuffer, ?_⟩
    intro before body frame hbefore hdelivered
    obtain ⟨previous, rfl, -⟩ := hdelivered.delivered
    rw [← hdelivered.buffer]
    exact hbuffer previous ((List.prefix_append previous _).trans hbefore)

/-- A value of one escaped DLE fits into a buffer that has no room for it. -/
theorem not_bounded_throughout :
    ¬ ∀ (max : Nat) (calls : List Call),
      (∀ before, before <+: calls.flatMap Call.inputs →
        (run take (.new max) before).buffer.length ≤ max) ∧
      ∀ before body frame, before <+: calls.flatMap Call.inputs →
        Delivered max before body frame → body.length ≤ max := by
  intro h
  have hlength := (h 6 [.feed [DLE, STX, 0x01, 0, 0, 0, 7, 0x0A, DLE, DLE, DLE, ETX]]).2 _
    [0x01, 0, 0, 0, 7, 0x0A, DLE] ⟨.serverValue, 7, .string, .string [DLE]⟩ List.prefix_rfl
    ⟨⟨[DLE, STX, 0x01, 0, 0, 0, 7, 0x0A, DLE, DLE, DLE].map .byte, rfl, by decide +kernel⟩,
      [], rfl, rfl⟩
  exact absurd hlength (by decide)

end Delivery

end DanWs.ParserBounds

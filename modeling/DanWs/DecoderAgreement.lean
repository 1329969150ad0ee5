import DanWs.StreamRecovery

namespace DanWs.DecoderAgreement

open DanWs.ByteStuffing
open DanWs.Codec
open DanWs.CodecRoundTrip
open DanWs.StreamDelivery
open DanWs.StreamParsing
open DanWs.StreamRecovery
open DanWs.WireTypes

/-- The byte string is made of bodies that parse as the frames. -/
inductive Spells : List UInt8 → List Frame → Prop where
  | nil : Spells [] []
  | cons {body rest : List UInt8} {frame : Frame} {frames : List Frame}
      (hparse : parseFrame body = .ok frame) (hrest : Spells rest frames) :
      Spells (wrapBody body ++ rest) (frame :: frames)

theorem wrapBody_of_scanBody {data body behind : List UInt8}
    (h : scanBody data = .ok (body, behind)) :
    DLE :: STX :: data = wrapBody (dleDecode body) ++ behind := by
  obtain ⟨raw, rfl, rfl⟩ := scanBody_ok h
  rw [dleDecode_eq_unstuff, unstuff_stuff, wrapBody, dleEncode_eq_stuff]
  simp

theorem spells_of_decodeFrom {offset : Nat} {data : List UInt8} {frames : List Frame}
    (h : decodeFrom offset data = .ok frames) : Spells data frames := by
  induction offset, data using decodeFrom.induct generalizing frames with
  | case1 offset =>
      rw [decodeFrom] at h
      cases h
      exact .nil
  | case2 offset b =>
      rw [decodeFrom] at h
      cases h
  | case3 offset b c rest hstart =>
      rw [decodeFrom, if_pos hstart] at h
      cases h
  | case4 offset b c rest hstart e hscan =>
      rw [decodeFrom, if_neg hstart] at h
      split at h
      · cases h
      · next hfound =>
          rw [hscan] at hfound
          cases hfound
  | case5 offset b c rest hstart body behind hscan _ ih =>
      rw [decodeFrom, if_neg hstart] at h
      split at h
      · cases h
      · next hfound =>
          rw [hscan] at hfound
          obtain ⟨rfl, rfl⟩ := Prod.mk.inj (Except.ok.inj hfound)
          rw [not_or, not_not, not_not] at hstart
          obtain ⟨rfl, rfl⟩ := hstart
          cases hparse : parseFrame (dleDecode body) with
          | error e =>
              rw [hparse] at h
              cases h
          | ok frame =>
              rw [hparse] at h
              cases htail : decodeFrom (offset + body.length + 4) behind with
              | error e =>
                  rw [htail] at h
                  cases h
              | ok tail =>
                  rw [htail] at h
                  cases h
                  rw [wrapBody_of_scanBody hscan]
                  exact .cons hparse (ih htail)

theorem Spells.decodeFrom {data : List UInt8} {frames : List Frame} (h : Spells data frames)
    (offset : Nat) : decodeFrom offset data = .ok frames := by
  induction h generalizing offset with
  | nil => rw [Codec.decodeFrom]
  | cons hparse _ ih =>
      obtain ⟨next, hnext⟩ := decodeFrom_wrapBody_append hparse offset _
      rw [hnext, ih]
      rfl

theorem decode_eq_ok_iff {data : List UInt8} {frames : List Frame} :
    decode data = .ok frames ↔ Spells data frames :=
  ⟨spells_of_decodeFrom, fun h => h.decodeFrom 0⟩

theorem wrapBody_length (body : List UInt8) : body.length + 4 ≤ (wrapBody body).length := by
  have hstuff : body.length ≤ (stuff DLE body).length := by
    induction body with
    | nil => exact Nat.le_refl 0
    | cons b body ih =>
        rcases eq_or_ne b DLE with rfl | hb
        · rw [stuff_cons_esc, List.length_cons, List.length_cons, List.length_cons]
          omega
        · rw [stuff_cons_of_ne hb, List.length_cons, List.length_cons]
          omega
  rw [wrapBody, dleEncode_eq_stuff]
  simp only [List.length_cons, List.length_append, List.length_nil]
  omega

theorem Spells.feed {data : List UInt8} {frames : List Frame} (h : Spells data frames) {max : Nat}
    (hroom : data.length ≤ max) :
    StreamParser.feed (.new max) data = (.new max, frames.map .frame) := by
  induction h with
  | nil => rfl
  | @cons body rest frame frames hparse _ ih =>
      have hbody := wrapBody_length body
      rw [List.length_append] at hroom
      rw [StreamParser.feed_append, feed_wrapBody (by omega), completeFrame, hparse]
      dsimp only
      rw [ih (by omega)]
      rfl

/-- Where the batch decoder finds no end of the frame, the parser does not come
to rest, or it has reported an error. -/
theorem feed_of_scanBody_error {max : Nat} {buffer data : List UInt8} {e : Fault}
    (h : scanBody data = .error e) (hroom : buffer.length + data.length ≤ max) :
    (StreamParser.feed ⟨max, .inFrame, buffer⟩ data).1.state ≠ .idle ∨
      ∃ message, .error message ∈ (StreamParser.feed ⟨max, .inFrame, buffer⟩ data).2 := by
  induction data using scanBody.induct generalizing buffer e with
  | case1 => exact Or.inl (by simp [StreamParser.feed])
  | case2 =>
      rw [StreamParser.feed, step_inFrame_DLE]
      exact Or.inl (by simp [StreamParser.feed])
  | case3 b hb =>
      rw [List.length_singleton] at hroom
      rw [StreamParser.feed, step_inFrame_byte hb (by omega)]
      exact Or.inl (by simp [StreamParser.feed])
  | case4 rest => simp [scanBody] at h
  | case5 rest hne ih =>
      have hrest : ∃ e, scanBody rest = .error e := by
        cases hscan : scanBody rest with
        | error e => exact ⟨e, rfl⟩
        | ok found =>
            rw [scanBody, if_pos rfl, if_neg hne, if_pos rfl, hscan] at h
            cases h
      obtain ⟨e, hrest⟩ := hrest
      simp only [List.length_cons] at hroom
      have hlonger : (buffer ++ [DLE]).length + rest.length ≤ max := by
        rw [List.length_append, List.length_singleton]
        omega
      have hnext := ih hrest hlonger
      rw [StreamParser.feed, step_inFrame_DLE]
      dsimp only
      rw [StreamParser.feed, step_inFrameAfterDLE_DLE]
      exact hnext
  | case6 c rest hetx hdle =>
      obtain ⟨message, hstep⟩ := step_inFrameAfterDLE_byte hetx hdle max buffer
      rw [StreamParser.feed, step_inFrame_DLE]
      dsimp only
      rw [StreamParser.feed, hstep]
      exact Or.inr ⟨message, by simp⟩
  | case7 b c rest hb ih =>
      have hrest : ∃ e, scanBody (c :: rest) = .error e := by
        cases hscan : scanBody (c :: rest) with
        | error e => exact ⟨e, rfl⟩
        | ok found =>
            rw [scanBody_cons_of_ne hb, hscan] at h
            cases h
      obtain ⟨e, hrest⟩ := hrest
      rw [List.length_cons] at hroom
      have hlonger : (buffer ++ [b]).length + (c :: rest).length ≤ max := by
        rw [List.length_append, List.length_singleton]
        omega
      have hnext := ih hrest hlonger
      rw [StreamParser.feed, step_inFrame_byte hb (by rw [List.length_cons] at hroom; omega)]
      exact hnext

theorem error_notMem_frames (message : StdString) (frames : List Frame) :
    .error message ∉ frames.map Event.frame := by
  intro h
  obtain ⟨_, _, hframe⟩ := List.mem_map.mp h
  cases hframe

/-- A byte that opens nothing is an error. -/
theorem error_of_stray {b : UInt8} (hb : b ≠ DLE) (max : Nat) (rest : List UInt8) :
    ∃ message, .error message ∈ (StreamParser.feed (.new max) (b :: rest)).2 := by
  obtain ⟨message, hstep⟩ := step_idle_byte hb max []
  rw [StreamParser.new, StreamParser.feed, hstep]
  exact ⟨message, List.mem_cons_self⟩

theorem spells_of_feed {max : Nat} {data : List UInt8} (hroom : data.length ≤ max)
    {frames : List Frame}
    (hevents : (StreamParser.feed (.new max) data).2 = frames.map .frame)
    (hstate : (StreamParser.feed (.new max) data).1.state = .idle) : Spells data frames := by
  induction (0 : Nat), data using decodeFrom.induct generalizing frames with
  | case1 =>
      obtain rfl := List.map_eq_nil_iff.mp hevents.symm
      exact .nil
  | case2 _ b =>
      rcases eq_or_ne b DLE with rfl | hb
      · rw [StreamParser.new, StreamParser.feed, step_idle_DLE] at hstate
        cases hstate
      · obtain ⟨message, herror⟩ := error_of_stray hb max _
        exact absurd (hevents ▸ herror) (error_notMem_frames message frames)
  | case3 _ b c rest hstart =>
      rcases eq_or_ne b DLE with rfl | hb
      · rcases eq_or_ne c ENQ with rfl | henq
        · rw [StreamParser.new, StreamParser.feed, step_idle_DLE] at hevents
          dsimp only at hevents
          rw [StreamParser.feed, step_afterDLE_ENQ] at hevents
          cases frames <;> cases hevents
        · obtain ⟨message, hpair⟩ :=
            feed_idle_DLE_byte (hstart.resolve_left (not_not_intro rfl)) henq max []
          rw [StreamParser.new, hpair] at hevents
          exact absurd (hevents ▸ List.mem_cons_self) (error_notMem_frames message frames)
      · obtain ⟨message, herror⟩ := error_of_stray hb max _
        exact absurd (hevents ▸ herror) (error_notMem_frames message frames)
  | case4 _ b c rest hstart e hscan =>
      rw [not_or, not_not, not_not] at hstart
      obtain ⟨rfl, rfl⟩ := hstart
      have hopen : StreamParser.feed (.new max) (DLE :: STX :: rest) =
          StreamParser.feed ⟨max, .inFrame, []⟩ rest := by
        rw [StreamParser.new, StreamParser.feed, step_idle_DLE]
        dsimp only
        rw [StreamParser.feed, step_afterDLE_STX]
        rfl
      rw [hopen] at hevents hstate
      simp only [List.length_cons] at hroom
      have hempty : ([] : List UInt8).length + rest.length ≤ max := by
        rw [List.length_nil]
        omega
      rcases feed_of_scanBody_error hscan hempty with hbusy | ⟨message, herror⟩
      · exact absurd hstate hbusy
      · exact absurd (hevents ▸ herror) (error_notMem_frames message frames)
  | case5 _ b c rest hstart body behind hscan _ ih =>
      rw [not_or, not_not, not_not] at hstart
      obtain ⟨rfl, rfl⟩ := hstart
      rw [wrapBody_of_scanBody hscan] at hroom hevents hstate ⊢
      have hbody := wrapBody_length (dleDecode body)
      rw [List.length_append] at hroom
      rw [StreamParser.feed_append, feed_wrapBody (by omega)] at hevents hstate
      cases frames with
      | nil => cases hevents
      | cons frame frames =>
          rw [List.map_cons, List.singleton_append, List.cons.injEq] at hevents
          obtain ⟨hframe, hrest⟩ := hevents
          refine .cons ?_ (ih (by omega) hrest hstate)
          rw [completeFrame] at hframe
          split at hframe
          · next parsed hparsed =>
              cases hframe
              exact hparsed
          · cases hframe

/-- For byte strings no longer than its buffer, a fresh stream parser comes to
rest with exactly these frames where the batch decoder returns them, and only
there. -/
theorem decode_eq_ok_iff_feed {max : Nat} {data : List UInt8} (hroom : data.length ≤ max)
    (frames : List Frame) :
    decode data = .ok frames ↔
      (StreamParser.feed (.new max) data).2 = frames.map .frame ∧
        (StreamParser.feed (.new max) data).1.state = .idle := by
  rw [decode_eq_ok_iff]
  constructor
  · intro h
    rw [h.feed hroom]
    exact ⟨rfl, rfl⟩
  · rintro ⟨hevents, hstate⟩
    exact spells_of_feed hroom hevents hstate

theorem decode_eq_ok_iff_feed_truncated :
    decode [DLE, STX, DLE, ETX, DLE] = .ok [] ↔
      (StreamParser.feed (.new 5) [DLE, STX, DLE, ETX, DLE]).2 = [].map .frame ∧
        (StreamParser.feed (.new 5) [DLE, STX, DLE, ETX, DLE]).1.state = .idle :=
  decode_eq_ok_iff_feed (by decide) []

end DanWs.DecoderAgreement

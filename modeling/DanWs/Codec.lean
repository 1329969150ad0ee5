import DanWs.ByteStuffing
import DanWs.Serializer

namespace DanWs.Codec

open DanWs.ByteStuffing
open DanWs.ScalarBytes
open DanWs.Serializer
open DanWs.WireTypes

def dleEncodeLoop : List UInt8 → List UInt8
  | [] => []
  | b :: rest => b :: ((if b = DLE then [DLE] else []) ++ dleEncodeLoop rest)

def dleEncode (payload : List UInt8) : List UInt8 :=
  if payload.count DLE = 0 then payload else dleEncodeLoop payload

/-- The counting loop of `dleDecode`, which skips the byte behind each DLE. -/
def dlePairs : List UInt8 → Nat
  | [] => 0
  | [b] => if b = DLE then 1 else 0
  | b :: c :: rest => if b = DLE then dlePairs rest + 1 else dlePairs (c :: rest)

def dleDecodeLoop : List UInt8 → List UInt8
  | [] => []
  | [b] => if b = DLE then [] else [b]
  | b :: c :: rest =>
      if b = DLE then c :: dleDecodeLoop rest else b :: dleDecodeLoop (c :: rest)

def dleDecode (data : List UInt8) : List UInt8 :=
  if dlePairs data = 0 then data else dleDecodeLoop data

theorem dleEncode_eq_stuff (payload : List UInt8) : dleEncode payload = stuff DLE payload := by
  have hloop : ∀ bytes, dleEncodeLoop bytes = stuff DLE bytes := by
    intro bytes
    induction bytes with
    | nil => rfl
    | cons b rest ih =>
        rcases eq_or_ne b DLE with hb | hb
        · simp [dleEncodeLoop, stuff, hb, ih]
        · simp [dleEncodeLoop, stuff, hb, ih]
  rw [dleEncode]
  split
  · next hcount => rw [stuff_eq_self (List.count_eq_zero.mp hcount)]
  · exact hloop payload

theorem dlePairs_eq_zero {data : List UInt8} (h : dlePairs data = 0) : DLE ∉ data := by
  induction data using dlePairs.induct with
  | case1 => exact List.not_mem_nil
  | case2 => simp [dlePairs] at h
  | case3 b hb => simpa [eq_comm] using hb
  | case4 c rest ih => simp [dlePairs] at h
  | case5 b c rest hb ih =>
      rw [dlePairs, if_neg hb] at h
      rw [List.mem_cons, not_or]
      exact ⟨Ne.symm hb, ih h⟩

theorem dleDecode_eq_unstuff (data : List UInt8) : dleDecode data = unstuff DLE data := by
  have hloop : ∀ bytes, dleDecodeLoop bytes = unstuff DLE bytes := by
    intro bytes
    induction bytes using dleDecodeLoop.induct with
    | case1 => rfl
    | case2 => rfl
    | case3 b hb => rfl
    | case4 c rest ih => rw [dleDecodeLoop, unstuff, if_pos rfl, if_pos rfl, ih]
    | case5 b c rest hb ih => rw [dleDecodeLoop, unstuff, if_neg hb, if_neg hb, ih]
  rw [dleDecode]
  split
  · next hpairs => rw [unstuff_eq_self (dlePairs_eq_zero hpairs)]
  · exact hloop data

def rawPayload (frame : Frame) : Result (List UInt8) :=
  if frame.frameType.isKeyRegistrationFrame then
    match frame.payload with
    | .string path => .ok path
    | _ => .error .badVariantAccess
  else if frame.frameType.isSignalFrame then .ok []
  else serialize frame.dataType frame.payload

/-- `[FrameType:1] [KeyID:4] [DataType:1]` before the payload bytes. -/
def frameHeader (frame : Frame) : List UInt8 :=
  frame.frameType.toByte :: (writeBE32 frame.keyId ++ [frame.dataType.toByte])

def rawBody (frame : Frame) : Result (List UInt8) := do
  return frameHeader frame ++ (← rawPayload frame)

def wrapBody (body : List UInt8) : List UInt8 :=
  DLE :: STX :: (dleEncode body ++ [DLE, ETX])

def encode (frame : Frame) : Result (List UInt8) := do
  return wrapBody (← rawBody frame)

def encodeBatch : List Frame → Result (List UInt8)
  | [] => .ok []
  | frame :: frames => do
      let encoded ← encode frame
      return encoded ++ (← encodeBatch frames)

def encodeHeartbeat : List UInt8 := [DLE, ENQ]

def frameParseError (message : String) : Fault :=
  .danWSError (str "FRAME_PARSE_ERROR") (str message)

def parsePayload (frameType : FrameType) (dataType : DataType) (data : List UInt8) :
    Result Payload :=
  if frameType.isKeyRegistrationFrame then .ok (.string data)
  else if frameType.isSignalFrame then .ok .null
  else deserialize dataType data

/-- The frame in an unescaped body. The batch decoder and the stream parser
both end in these statements. -/
def parseFrame (body : List UInt8) : Result Frame :=
  if body.length < 6 then
    .error (frameParseError ("Frame body too short: " ++ toString body.length ++ " bytes"))
  else
    let frameType := FrameType.ofByte (byteAt body 0)
    let keyId := readBE32 (body.drop 1)
    let dataType := DataType.ofByte (byteAt body 5)
    (parsePayload frameType dataType (body.drop 6)).map fun payload =>
      ⟨frameType, keyId, dataType, payload⟩

/-- The loop that looks for DLE ETX: the escaped body before it and the data
behind it. -/
def scanBody : List UInt8 → Result (List UInt8 × List UInt8)
  | [] => .error (frameParseError "Missing DLE ETX terminator")
  | [b] =>
      if b = DLE then .error (frameParseError "Unexpected end after DLE")
      else .error (frameParseError "Missing DLE ETX terminator")
  | b :: c :: rest =>
      if b = DLE then
        if c = ETX then .ok ([], rest)
        else if c = DLE then
          (scanBody rest).map fun (body, behind) => (DLE :: DLE :: body, behind)
        else
          .error (.danWSError (str "INVALID_DLE_SEQUENCE")
            (str "Invalid DLE sequence in frame"))
      else (scanBody (c :: rest)).map fun (body, behind) => (b :: body, behind)

theorem scanBody_cons_of_ne {b : UInt8} (h : b ≠ DLE) (rest : List UInt8) :
    scanBody (b :: rest) =
      (scanBody rest).map fun (body, behind) => (b :: body, behind) := by
  cases rest with
  | nil => simp [scanBody, h, Except.map]
  | cons c rest => rw [scanBody, if_neg h]

theorem scanBody_stuff (raw behind : List UInt8) :
    scanBody (stuff DLE raw ++ DLE :: ETX :: behind) = .ok (stuff DLE raw, behind) := by
  induction raw with
  | nil => rfl
  | cons b raw ih =>
      rcases eq_or_ne b DLE with rfl | hb
      · simp only [stuff_cons_esc, List.cons_append]
        rw [scanBody, if_pos rfl, if_neg (by decide), if_pos rfl, ih]
        rfl
      · rw [stuff_cons_of_ne hb, List.cons_append, scanBody_cons_of_ne hb, ih]
        rfl

theorem scanBody_ok {data body behind : List UInt8}
    (h : scanBody data = .ok (body, behind)) :
    ∃ raw, body = stuff DLE raw ∧ data = body ++ DLE :: ETX :: behind := by
  induction data using scanBody.induct generalizing body with
  | case1 => simp [scanBody] at h
  | case2 => simp [scanBody] at h
  | case3 b hb => simp [scanBody, hb] at h
  | case4 rest =>
      obtain ⟨rfl, rfl⟩ : [] = body ∧ rest = behind := by simpa [scanBody] using h
      exact ⟨[], rfl, rfl⟩
  | case5 rest hne ih =>
      rw [scanBody, if_pos rfl, if_neg hne, if_pos rfl] at h
      cases hscan : scanBody rest with
      | error e => simp [hscan, Except.map] at h
      | ok found =>
          obtain ⟨inner, tail⟩ := found
          obtain ⟨rfl, rfl⟩ : DLE :: DLE :: inner = body ∧ tail = behind := by
            simpa [hscan, Except.map] using h
          obtain ⟨raw, rfl, rfl⟩ := ih hscan
          exact ⟨DLE :: raw, (stuff_cons_esc DLE raw).symm, rfl⟩
  | case6 c rest hetx hdle => simp [scanBody, hetx, hdle] at h
  | case7 b c rest hb ih =>
      rw [scanBody_cons_of_ne hb] at h
      cases hscan : scanBody (c :: rest) with
      | error e => simp [hscan, Except.map] at h
      | ok found =>
          obtain ⟨inner, tail⟩ := found
          obtain ⟨rfl, rfl⟩ : b :: inner = body ∧ tail = behind := by
            simpa [hscan, Except.map] using h
          obtain ⟨raw, rfl, hdata⟩ := ih hscan
          exact ⟨b :: raw, (stuff_cons_of_ne hb raw).symm, by rw [hdata]; rfl⟩

theorem scanBody_length {data body behind : List UInt8}
    (h : scanBody data = .ok (body, behind)) : behind.length < data.length := by
  obtain ⟨_, _, rfl⟩ := scanBody_ok h
  simp only [List.length_append, List.length_cons]
  omega

def hexText (byte : UInt8) : String := String.ofList (Nat.toDigits 16 byte.toNat)

def expectedStart (offset : Nat) (first second : UInt8) : Fault :=
  frameParseError ("Expected DLE STX at offset " ++ toString offset ++ ", got 0x" ++
    hexText first ++ " 0x" ++ hexText second)

/-- The frames in `data`, which starts `offset` bytes into the buffer. -/
def decodeFrom (offset : Nat) (data : List UInt8) : Result (List Frame) :=
  match data with
  | [] => .ok []
  | [_] => .error (frameParseError "Unexpected end of data")
  | first :: second :: tail =>
      if first ≠ DLE ∨ second ≠ STX then .error (expectedStart offset first second)
      else
        match h : scanBody tail with
        | .error e => .error e
        | .ok (body, behind) =>
            have := scanBody_length h
            do
              let frame ← parseFrame (dleDecode body)
              let frames ← decodeFrom (offset + body.length + 4) behind
              return frame :: frames
termination_by data.length
decreasing_by
  simp only [List.length_cons]
  omega

def decode (data : List UInt8) : Result (List Frame) := decodeFrom 0 data

/-- A frame whose payload alternative is the one its type and data type send. -/
def WellFormed (frame : Frame) : Prop :=
  if frame.frameType.isKeyRegistrationFrame then ∃ path, frame.payload = .string path
  else if frame.frameType.isSignalFrame then frame.payload = .null
  else Faithful frame.dataType frame.payload

end DanWs.Codec

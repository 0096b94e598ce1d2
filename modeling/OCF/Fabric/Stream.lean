import OCF.Fabric.Session
import OCF.Foundations.Framing

/-!
# Bulk streams

A stream is sent as a sequence of sealed records, each in a length-prefixed frame, and ends with a
sealed empty record. With compression every record is compressed before it is sealed. The receiver
opens record after record until the empty one.

`Carries` is the format on the wire. What `sendStream` writes carries what its reader reads
(`sendLoop_carries`), `recvStream` reads back what is carried (`Carries.recvLoop_eq`), and it fails
on everything that stops short of the end (`Carries.recvLoop_cut`): no record but the last is empty,
so nothing else passes for the end.

The cipher and the compression are libraries: what is relied on is `StreamLibs.Lawful`.
-/

namespace OCF.Fabric

/-! ## The wire -/

/-- Largest plaintext of a record: it leaves room for the tag under the limit of a message. -/
def streamChunk : ℕ := 64 * 1024 - 64

/-- The size of the buffer that a record is sealed into. -/
def sealedBuf : ℕ := streamChunk + 1024

/-- Largest plaintext that a received record may expand to. -/
def streamDecompCap : ℕ := streamChunk

/-- The libraries: the cipher of a session, by the number of the message, the compression, and what
they report about a failure. -/
structure StreamLibs where
  encrypt : ℕ → Bytes → Bytes
  decrypt : ℕ → Bytes → Except String Bytes
  compress : Bytes → Except String Bytes
  decompress : Bytes → ℕ → Except String Bytes
  report : String → String

namespace StreamLibs

variable (libs : StreamLibs)

/-- `write_message`: seal a payload into a buffer. -/
def writeMessage (nonce : ℕ) (payload : Bytes) (buf : ℕ) : Except String Bytes :=
  if Sealable payload ∧ payload.length + tagLen ≤ buf then .ok (libs.encrypt nonce payload)
  else .error (libs.report "seal")

/-- Write a length-prefixed frame: the bytes that are written. -/
def writeFramePipelined (data : Bytes) : Result Bytes :=
  if maxNoiseMsg < data.length then .error (.invalidArgument "noise frame exceeds 65535 bytes")
  else .ok (frame data)

/-- Read a frame from what the connection delivers before it ends. -/
def readFrame (input : Bytes) : Result (Bytes × Bytes) :=
  match unframe input with
  | .ok r => .ok r
  | .error .length => .error (noiseErr "read len" (libs.report "read len"))
  | .error .body => .error (noiseErr "read body" (libs.report "read body"))

/-- Read one frame and open it; the rest is left. -/
def recvOpened (nonce : ℕ) (input : Bytes) : Result (Bytes × Bytes) :=
  match libs.readFrame input with
  | .error e => .error e
  | .ok (data, rest) =>
    match libs.decrypt nonce data with
    | .error e => .error (noiseErr "open" e)
    | .ok record => .ok (record, rest)

/-! ## Sending -/

/-- What is sealed of what was read. -/
def encodeBody (compress : Bool) (chunk : Bytes) : Result Bytes :=
  if compress then (libs.compress chunk).mapError (noiseErr "zstd compress") else .ok chunk

/-- Seal a record and write it as a frame. -/
def writeRecord (ctx : String) (nonce : ℕ) (body : Bytes) : Result Bytes :=
  match libs.writeMessage nonce body sealedBuf with
  | .error e => .error (noiseErr ctx e)
  | .ok data => writeFramePipelined data

/-- The loop of `sendStream`: what each read of the reader returns, until one returns nothing. The
result is the number of bytes read, and what was written. -/
def sendLoop (compress : Bool) :
    List (Except String Bytes) → ℕ → UInt64 → Bytes → Result UInt64 × Bytes
  | .error e :: _, _, _, out => (.error (noiseErr "stream read" e), out)
  | .ok (b :: bs) :: reads, nonce, total, out =>
    match libs.encodeBody compress (b :: bs) with
    | .error e => (.error e, out)
    | .ok body =>
      match libs.writeRecord "seal record" nonce body with
      | .error e => (.error e, out)
      | .ok bytes =>
        sendLoop compress reads (nonce + 1) (total + UInt64.ofNat (b :: bs).length) (out ++ bytes)
  | _, nonce, total, out =>
    -- the reader is at its end: an empty record, never compressed
    match libs.writeRecord "seal eof" nonce [] with
    | .error e => (.error e, out)
    | .ok bytes => (.ok total, out ++ bytes)

/-- Send everything the reader has. -/
def sendStream (compress : Bool) (nonce : ℕ) (reads : List (Except String Bytes)) :
    Result UInt64 × Bytes :=
  libs.sendLoop compress reads nonce 0 []

/-! ## Receiving -/

theorem length_lt_of_recvOpened {nonce : ℕ} {input record rest : Bytes}
    (h : libs.recvOpened nonce input = .ok (record, rest)) : rest.length < input.length := by
  unfold recvOpened readFrame at h
  cases hu : unframe input with
  | error m => cases m <;> simp [hu] at h
  | ok r =>
    simp only [hu] at h
    split at h
    · cases h
    · obtain ⟨-, rfl⟩ := Prod.mk.inj (Except.ok.inj h)
      exact length_lt_of_unframe hu

/-- What was read, given what was sealed. -/
def decodeBody (compress : Bool) (record : Bytes) : Result Bytes :=
  if compress then (libs.decompress record streamDecompCap).mapError (noiseErr "zstd decompress")
  else .ok record

/-- The loop of `recvStream`: the number of bytes received, and what the writer was given. -/
def recvLoop (compress : Bool) (nonce : ℕ) (input : Bytes) (total : UInt64) (written : Bytes) :
    Result UInt64 × Bytes :=
  match _h : libs.recvOpened nonce input with
  | .error e => (.error e, written)
  | .ok (record, rest) =>
    if record = [] then (.ok total, written)
    else
      match libs.decodeBody compress record with
      | .error e => (.error e, written)
      | .ok body =>
        recvLoop compress (nonce + 1) rest (total + UInt64.ofNat body.length) (written ++ body)
termination_by input.length
decreasing_by exact libs.length_lt_of_recvOpened _h

/-- Receive a stream from what the connection delivers. -/
def recvStream (compress : Bool) (nonce : ℕ) (input : Bytes) : Result UInt64 × Bytes :=
  libs.recvLoop compress nonce input 0 []

/-! ## The format -/

/-- What is relied on: sealing adds a tag and opening inverts it, and for what fits a record,
decompression inverts compression, which yields something and adds little. -/
structure Lawful : Prop where
  length_encrypt : ∀ n p, (libs.encrypt n p).length = p.length + tagLen
  decrypt_encrypt : ∀ n p, libs.decrypt n (libs.encrypt n p) = .ok p
  compress : ∀ b : Bytes, b.length ≤ streamChunk → ∃ z, libs.compress b = .ok z ∧ z ≠ [] ∧
    z.length ≤ b.length + 47 ∧ libs.decompress z streamDecompCap = .ok b

/-- The bytes are a stream, from the message with the number on, that carries the data. -/
inductive Carries (compress : Bool) : ℕ → Bytes → Bytes → Prop
  | eof (n : ℕ) : Carries compress n (frame (libs.encrypt n [])) []
  | record {n : ℕ} {body chunk w data : Bytes} (hne : body ≠ []) (hfit : Sealable body)
      (hdec : libs.decodeBody compress body = .ok chunk) (h : Carries compress (n + 1) w data) :
      Carries compress n (frame (libs.encrypt n body) ++ w) (chunk ++ data)

variable {libs} (hlibs : libs.Lawful) {compress : Bool}

include hlibs

/-- A body that fits a message is written as one frame. -/
theorem writeRecord_eq {body : Bytes} (hfit : Sealable body) (ctx : String) (nonce : ℕ) :
    libs.writeRecord ctx nonce body = .ok (frame (libs.encrypt nonce body)) := by
  have hbuf : body.length + tagLen ≤ sealedBuf := hfit.trans (by decide)
  have hlen : ¬maxNoiseMsg < (libs.encrypt nonce body).length := by
    rw [hlibs.length_encrypt]
    exact Nat.not_lt.2 hfit
  simp only [writeRecord, writeMessage, hfit, hbuf, and_self, if_true, writeFramePipelined, hlen,
    if_false]

/-- What is read at a time makes a body that is not empty, fits a message and is decoded again. -/
theorem encodeBody_spec (compress : Bool) {chunk : Bytes} (hne : chunk ≠ [])
    (hlen : chunk.length ≤ streamChunk) :
    ∃ body, libs.encodeBody compress chunk = .ok body ∧ body ≠ [] ∧ Sealable body ∧
      libs.decodeBody compress body = .ok chunk := by
  cases compress with
  | false =>
    refine ⟨chunk, rfl, hne, ?_, rfl⟩
    simp only [Sealable, tagLen, maxNoiseMsg, streamChunk] at hlen ⊢
    omega
  | true =>
    obtain ⟨z, hz, hzne, hzlen, hdec⟩ := hlibs.compress chunk hlen
    refine ⟨z, by simp [encodeBody, hz, Except.mapError], hzne, ?_, by
      simp [decodeBody, hdec, Except.mapError]⟩
    simp only [Sealable, tagLen, maxNoiseMsg, streamChunk] at hlen ⊢
    omega

/-- **What is sent carries what was read.** -/
theorem sendLoop_carries (compress : Bool) {reads : List Bytes}
    (hreads : ∀ r ∈ reads, 1 ≤ r.length ∧ r.length ≤ streamChunk) (nonce : ℕ) (total : UInt64)
    (out : Bytes) :
    ∃ w, libs.sendLoop compress (reads.map .ok) nonce total out =
        (.ok (total + UInt64.ofNat reads.flatten.length), out ++ w) ∧
      libs.Carries compress nonce w reads.flatten := by
  induction reads generalizing nonce total out with
  | nil =>
    refine ⟨_, ?_, .eof nonce⟩
    simp [sendLoop, writeRecord_eq hlibs (show Sealable [] by decide)]
  | cons chunk reads ih =>
    obtain ⟨hpos, hlen⟩ := hreads chunk (List.mem_cons_self ..)
    have hne : chunk ≠ [] := List.ne_nil_of_length_pos hpos
    obtain ⟨body, hbody, hbne, hfit, hdec⟩ := encodeBody_spec hlibs compress hne hlen
    obtain ⟨w, hsend, hw⟩ := ih (fun r hr => hreads r (List.mem_cons_of_mem _ hr)) (nonce + 1)
      (total + UInt64.ofNat chunk.length) (out ++ frame (libs.encrypt nonce body))
    refine ⟨frame (libs.encrypt nonce body) ++ w, ?_, .record hbne hfit hdec hw⟩
    obtain ⟨b, bs, rfl⟩ := List.exists_cons_of_ne_nil hne
    simp only [List.map_cons, sendLoop, hbody, writeRecord_eq hlibs hfit, hsend]
    rw [List.flatten_cons, List.length_append, UInt64.ofNat_add, UInt64.add_assoc,
      List.append_assoc]

/-- The first record of what is carried is opened, and the rest is left. -/
theorem recvOpened_frame {body : Bytes} (hfit : Sealable body) (nonce : ℕ) (rest : Bytes) :
    libs.recvOpened nonce (frame (libs.encrypt nonce body) ++ rest) = .ok (body, rest) := by
  have hlen : (libs.encrypt nonce body).length < 65536 := by
    rw [hlibs.length_encrypt]
    exact Nat.lt_succ_of_le hfit
  simp only [recvOpened, readFrame, unframe_frame_append hlen, hlibs.decrypt_encrypt]

/-- A record that is cut off is not opened. -/
theorem recvOpened_cut {body p : Bytes} (hfit : Sealable body) {nonce : ℕ}
    (hp : Cut p (frame (libs.encrypt nonce body))) : ∃ e, libs.recvOpened nonce p = .error e := by
  have hlen : (libs.encrypt nonce body).length < 65536 := by
    rw [hlibs.length_encrypt]
    exact Nat.lt_succ_of_le hfit
  obtain ⟨m, hm⟩ := unframe_cut hlen hp
  simp only [recvOpened, readFrame, hm]
  cases m with
  | length => exact ⟨_, rfl⟩
  | body => exact ⟨_, rfl⟩

omit hlibs

theorem recvLoop_of_error {nonce : ℕ} {input : Bytes} {e : Error}
    (h : libs.recvOpened nonce input = .error e) (total : UInt64) (written : Bytes) :
    libs.recvLoop compress nonce input total written = (.error e, written) := by
  rw [recvLoop]
  split <;> simp_all

theorem recvLoop_of_ok {nonce : ℕ} {input record rest : Bytes}
    (h : libs.recvOpened nonce input = .ok (record, rest)) (total : UInt64) (written : Bytes) :
    libs.recvLoop compress nonce input total written =
      if record = [] then (.ok total, written)
      else match libs.decodeBody compress record with
        | .error e => (.error e, written)
        | .ok body => libs.recvLoop compress (nonce + 1) rest
            (total + UInt64.ofNat body.length) (written ++ body) := by
  rw [recvLoop]
  split
  · simp_all
  · next r s hrs =>
    obtain ⟨rfl, rfl⟩ := Prod.mk.inj (Except.ok.inj (h.symm.trans hrs))
    rfl

include hlibs

/-- **What is carried is received.** -/
theorem Carries.recvLoop_eq {n : ℕ} {w data : Bytes} (h : libs.Carries compress n w data)
    (total : UInt64) (written : Bytes) :
    libs.recvLoop compress n w total written =
      (.ok (total + UInt64.ofNat data.length), written ++ data) := by
  induction h generalizing total written with
  | eof n =>
    have hopen := recvOpened_frame hlibs (show Sealable [] by decide) n []
    rw [List.append_nil] at hopen
    rw [recvLoop_of_ok hopen, if_pos rfl]
    simp
  | record hne hfit hdec _ ih =>
    rw [recvLoop_of_ok (recvOpened_frame hlibs hfit _ _), if_neg hne, hdec]
    dsimp only
    rw [ih, List.length_append, UInt64.ofNat_add, UInt64.add_assoc, List.append_assoc]

/-- **A stream that is cut off is not received**, wherever the cut is. -/
theorem Carries.recvLoop_cut {n : ℕ} {w data p : Bytes} (h : libs.Carries compress n w data)
    (hp : Cut p w) (total : UInt64) (written : Bytes) :
    ∃ e, (libs.recvLoop compress n p total written).1 = .error e := by
  induction h generalizing p total written with
  | eof n =>
    obtain ⟨e, he⟩ := recvOpened_cut hlibs (show Sealable [] by decide) hp
    exact ⟨e, by rw [recvLoop_of_error he]⟩
  | record hne hfit hdec _ ih =>
    obtain hcut | ⟨q, rfl, hq⟩ := hp.append_cases
    · -- the cut is in the first record
      obtain ⟨e, he⟩ := recvOpened_cut hlibs hfit hcut
      exact ⟨e, by rw [recvLoop_of_error he]⟩
    · -- the first record is whole and not the last one
      rw [recvLoop_of_ok (recvOpened_frame hlibs hfit _ _), if_neg hne, hdec]
      exact ih hq _ _

end StreamLibs

open StreamLibs

/-- **Streams arrive.** Whatever the data and however the reader cuts it into reads of 1 to
`streamChunk` bytes, with and without compression: sending succeeds, receiving what was sent gives
the writer exactly the data, and both return its length. -/
theorem stream_round_trip (libs : StreamLibs) (hlibs : libs.Lawful) (compress : Bool) (nonce : ℕ)
    (data : Bytes) (reads : List Bytes) (hdata : reads.flatten = data)
    (hreads : ∀ r ∈ reads, 1 ≤ r.length ∧ r.length ≤ streamChunk) :
    (libs.sendStream compress nonce (reads.map .ok)).1 = .ok (UInt64.ofNat data.length) ∧
      libs.recvStream compress nonce (libs.sendStream compress nonce (reads.map .ok)).2 =
        (.ok (UInt64.ofNat data.length), data) := by
  subst hdata
  obtain ⟨w, hsend, hw⟩ := sendLoop_carries hlibs compress hreads nonce 0 []
  rw [sendStream, hsend, recvStream]
  refine ⟨by simp, ?_⟩
  rw [List.nil_append, hw.recvLoop_eq hlibs]
  simp

/-- **Truncation is detected.** When the connection delivers only a beginning of what was sent,
receiving fails, wherever it was cut off. -/
theorem stream_cut_detected (libs : StreamLibs) (hlibs : libs.Lawful) (compress : Bool) (nonce : ℕ)
    (reads : List Bytes) (hreads : ∀ r ∈ reads, 1 ≤ r.length ∧ r.length ≤ streamChunk)
    (delivered : Bytes)
    (hcut : Cut delivered (libs.sendStream compress nonce (reads.map .ok)).2) :
    ∃ e, (libs.recvStream compress nonce delivered).1 = .error e := by
  obtain ⟨w, hsend, hw⟩ := sendLoop_carries hlibs compress hreads nonce 0 []
  rw [sendStream, hsend, List.nil_append] at hcut
  exact hw.recvLoop_cut hlibs hcut 0 []

/-! ## An instance of the libraries -/

/-- The header of a zstd frame that stores `n` bytes as they are in one block. -/
def zstdHeader (n : ℕ) : Bytes :=
  [0x28, 0xb5, 0x2f, 0xfd] ++
    (if n < 256 then [0x20, UInt8.ofNat n]
      else [0x60, UInt8.ofNat (n - 256), UInt8.ofNat ((n - 256) / 256)]) ++
    [UInt8.ofNat (8 * n + 1), UInt8.ofNat ((8 * n + 1) / 256), UInt8.ofNat ((8 * n + 1) / 65536)]

/-- A cipher that only appends a tag with the number of the message, and a compression that stores
what does not compress. -/
def plainLibs : StreamLibs where
  encrypt n p := p ++ List.replicate 15 0 ++ [UInt8.ofNat n]
  decrypt n c :=
    let p := c.take (c.length - tagLen)
    if c = p ++ List.replicate 15 0 ++ [UInt8.ofNat n] then .ok p else .error "decrypt error"
  compress b := .ok (zstdHeader b.length ++ b)
  decompress z cap :=
    let b := z.drop (if z[4]? = some 0x20 then 9 else 10)
    if b.length ≤ cap then .ok b else .error "Destination buffer is too small"
  report _ := "early eof"

theorem lawful_plainLibs : plainLibs.Lawful where
  length_encrypt n p := by simp [plainLibs, tagLen]
  decrypt_encrypt n p := by
    have hlen : (p ++ List.replicate 15 (0 : UInt8) ++ [UInt8.ofNat n]).length - tagLen = p.length := by
      simp [tagLen]
    simp only [plainLibs, hlen]
    simp
  compress b hb := by
    refine ⟨_, rfl, by simp [zstdHeader], ?_, ?_⟩
    · simp only [zstdHeader]
      split_ifs <;> simp
    · simp only [plainLibs, zstdHeader]
      split_ifs <;> simp_all [streamDecompCap]

/-- Two reads, compressed, are received. -/
theorem stream_round_trip_twoReads :
    (plainLibs.sendStream true 0 ([[1, 2, 3], [4]].map .ok)).1 = .ok 4 ∧
      plainLibs.recvStream true 0 (plainLibs.sendStream true 0 ([[1, 2, 3], [4]].map .ok)).2 =
        (.ok 4, [1, 2, 3, 4]) :=
  stream_round_trip plainLibs lawful_plainLibs true 0 [1, 2, 3, 4] [[1, 2, 3], [4]] rfl
    (by decide)

/-- The first record alone, without the second and the end. -/
theorem stream_cut_detected_firstRecord :
    ∃ e, (plainLibs.recvStream false 0 (frame (plainLibs.encrypt 0 [1, 2, 3]))).1 = .error e :=
  stream_cut_detected plainLibs lawful_plainLibs false 0 [[1, 2, 3], [4]] (by decide) _
    ⟨by decide +kernel, by decide +kernel⟩

end OCF.Fabric

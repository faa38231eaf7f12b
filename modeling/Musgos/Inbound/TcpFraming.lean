import Musgos.Foundation.Chunking
import Musgos.Smus.Message

/-!
# Framing the TCP stream

`nextFrame` and the read loop of `TCPServer.handleConnection`. A MUS frame is
the two magic bytes, a big-endian size and a payload of that size. The loop
appends every read to an accumulator and hands each complete frame to the
message handler; it ends on a malformed frame, on a response it cannot write, when
the handler panics, or when the connection has no more reads.
-/
namespace Musgos.Inbound

open Foundation Smus

/-- Two magic bytes and a four-byte size. -/
def musFrameHeaderLen : ℕ := 6

/-- The protocol violations of `nextFrame`. The size field is unsigned and `int`
has 64 bits, so the source's test for a negative size never fires. -/
inductive FrameError where
  | invalidHeader (b₀ b₁ : UInt8)
  | exceedsMax (total maxSize : ℕ)
  deriving DecidableEq

def nextFrame (maxSize : ℕ) (buf : List UInt8) : Split UInt8 FrameError :=
  match buf with
  | b₀ :: b₁ :: s₀ :: s₁ :: s₂ :: s₃ :: _ =>
    if [b₀, b₁] ≠ musHeader then .fail (.invalidHeader b₀ b₁)
    else
      let total := musFrameHeaderLen + beNat [s₀, s₁, s₂, s₃]
      if 0 < maxSize ∧ maxSize < total then .fail (.exceedsMax total maxSize)
      else if buf.length < total then .need
      else .emit (buf.take total) (buf.drop total)
  | _ => .need

/-- What the read loop calls for each frame. A session store, a pool and a rate
limiter stand behind the state `σ`. -/
structure FrameServer (σ : Type) where
  /-- `rateLimiter.Allow(host)`; true when there is no limiter. -/
  allow : σ → σ × Bool
  /-- `handler.HandleRawMessage`: the response and whether it failed; nothing for a panic,
  which `handleConnection` recovers from when it is over. -/
  handleRawMessage : σ → List UInt8 → σ × Option (List UInt8 × Bool)
  /-- `sessionStore.UpdateLastActivity` after a message without error. -/
  updateLastActivity : σ → σ
  /-- `pool.WriteToClient` of a response; false when the write failed. -/
  writeToClient : σ → List UInt8 → σ × Bool

/-- The body of the inner loop after a frame was cut off; false ends the read loop. -/
def FrameServer.onFrame {σ : Type} (h : FrameServer σ) (s : σ) (frame : List UInt8) : σ × Bool :=
  let a := h.allow s
  if !a.2 then (a.1, true)
  else
    let r := h.handleRawMessage a.1 frame
    match r.2 with
    | none => (r.1, false)
    | some (response, failed) =>
      let s' := if failed then r.1 else h.updateLastActivity r.1
      if response.isEmpty then (s', true) else h.writeToClient s' response

/-- The handler panics on none of the frames it is handed, one after the other. -/
def FrameServer.Returns {σ : Type} (h : FrameServer σ) : σ → List (List UInt8) → Prop
  | _, [] => True
  | s, frame :: frames =>
    ((h.allow s).2 = true → (h.handleRawMessage (h.allow s).1 frame).2.isSome = true) ∧
      h.Returns (h.onFrame s frame).1 frames

theorem FrameServer.returns_of_forall {σ : Type} {h : FrameServer σ}
    (hreturns : ∀ s frame, (h.handleRawMessage s frame).2.isSome = true) (s : σ)
    (frames : List (List UInt8)) : h.Returns s frames := by
  induction frames generalizing s with
  | nil => trivial
  | cons frame frames ih => exact ⟨fun _ => hreturns _ _, ih _⟩

section Splitter

variable {maxSize : ℕ}

/-- What `nextFrame` makes of a buffer with a complete header. -/
theorem nextFrame_header {b₀ b₁ s₀ s₁ s₂ s₃ : UInt8} (rest : List UInt8) :
    nextFrame maxSize (b₀ :: b₁ :: s₀ :: s₁ :: s₂ :: s₃ :: rest) =
      if [b₀, b₁] ≠ musHeader then .fail (.invalidHeader b₀ b₁)
      else if 0 < maxSize ∧ maxSize < 6 + beNat [s₀, s₁, s₂, s₃] then
        .fail (.exceedsMax (6 + beNat [s₀, s₁, s₂, s₃]) maxSize)
      else if rest.length < beNat [s₀, s₁, s₂, s₃] then .need
      else .emit (b₀ :: b₁ :: s₀ :: s₁ :: s₂ :: s₃ :: rest.take (beNat [s₀, s₁, s₂, s₃]))
        (rest.drop (beNat [s₀, s₁, s₂, s₃])) := by
  have hlen : (b₀ :: b₁ :: s₀ :: s₁ :: s₂ :: s₃ :: rest).length <
      6 + beNat [s₀, s₁, s₂, s₃] ↔ rest.length < beNat [s₀, s₁, s₂, s₃] := by
    simp only [List.length_cons]
    omega
  simp only [nextFrame, musFrameHeaderLen, hlen]
  simp [show 6 + beNat [s₀, s₁, s₂, s₃] = beNat [s₀, s₁, s₂, s₃] + 6 by omega]

/-- Anything but a request for more bytes was decided by a complete header. -/
theorem nextFrame_cases (buf : List UInt8) :
    (buf.length < 6 ∧ nextFrame maxSize buf = .need) ∨
      ∃ b₀ b₁ s₀ s₁ s₂ s₃ rest, buf = b₀ :: b₁ :: s₀ :: s₁ :: s₂ :: s₃ :: rest := by
  match buf with
  | [] | [_] | [_, _] | [_, _, _] | [_, _, _, _] | [_, _, _, _, _] => exact .inl ⟨by simp, rfl⟩
  | b₀ :: b₁ :: s₀ :: s₁ :: s₂ :: s₃ :: rest => exact .inr ⟨b₀, b₁, s₀, s₁, s₂, s₃, rest, rfl⟩

theorem nextFrame_emit {buf frame rest : List UInt8}
    (h : nextFrame maxSize buf = .emit frame rest) :
    buf = frame ++ rest ∧ 6 ≤ frame.length ∧
      ∀ more, nextFrame maxSize (buf ++ more) = .emit frame (rest ++ more) := by
  obtain ⟨-, hneed⟩ | ⟨b₀, b₁, s₀, s₁, s₂, s₃, tail, rfl⟩ := @nextFrame_cases maxSize buf
  · rw [hneed] at h
    cases h
  · rw [nextFrame_header] at h
    split_ifs at h with hmagic hmax hlen
    simp only [Split.emit.injEq] at h
    obtain ⟨rfl, rfl⟩ := h
    refine ⟨by simp, by simp, fun more => ?_⟩
    have hle : beNat [s₀, s₁, s₂, s₃] ≤ tail.length := by omega
    have hlen' : ¬ (tail ++ more).length < beNat [s₀, s₁, s₂, s₃] := by
      rw [List.length_append]
      omega
    simp only [List.cons_append, nextFrame_header, hmagic, hmax, hlen', if_false,
      List.take_append_of_le_length hle, List.drop_append_of_le_length hle]

theorem nextFrame_fail {buf : List UInt8} {error : FrameError}
    (h : nextFrame maxSize buf = .fail error) (more : List UInt8) :
    nextFrame maxSize (buf ++ more) = .fail error := by
  obtain ⟨-, hneed⟩ | ⟨b₀, b₁, s₀, s₁, s₂, s₃, tail, rfl⟩ := @nextFrame_cases maxSize buf
  · rw [hneed] at h
    cases h
  · simp only [List.cons_append, nextFrame_header] at h ⊢
    split_ifs at h ⊢ <;> exact h

theorem nextFrame_need {buf : List UInt8} (hmax : 0 < maxSize)
    (h : nextFrame maxSize buf = .need) : buf.length < max 6 maxSize := by
  obtain ⟨hshort, -⟩ | ⟨b₀, b₁, s₀, s₁, s₂, s₃, tail, rfl⟩ := @nextFrame_cases maxSize buf
  · omega
  · rw [nextFrame_header] at h
    split_ifs at h with hmagic hsize hlen
    simp only [List.length_cons]
    omega

/-- `nextFrame` never revises a verdict when more bytes arrive. -/
def musSplitter (maxSize : ℕ) : Splitter UInt8 FrameError where
  next := nextFrame maxSize
  emit_append h more := (nextFrame_emit h).2.2 more
  fail_append h more := nextFrame_fail h more
  emit_shrinks h := by
    obtain ⟨hbuf, hlen, -⟩ := nextFrame_emit h
    rw [hbuf, List.length_append]
    omega

end Splitter

section ReadLoop

variable {σ : Type} (h : FrameServer σ) (maxSize : ℕ)

/-- The read loop over the reads of one connection, each read a non-empty chunk,
from the state in which the loop starts. -/
def readLoop (s : σ) (reads : List (List UInt8)) : Reader σ UInt8 FrameError :=
  Reader.run (musSplitter maxSize) h.onFrame ⟨s, [], [], none⟩ reads

/-- The wire form of one message. -/
def frameBytes (payload : List UInt8) : List UInt8 :=
  musHeader ++ beBytes 4 payload.length ++ payload

theorem length_frameBytes (payload : List UInt8) :
    (frameBytes payload).length = 6 + payload.length := by
  simp [frameBytes, musHeader]
  omega

theorem nextFrame_frameBytes {payload : List UInt8} (hlen : payload.length < 2 ^ 32)
    (hmax : (frameBytes payload).length ≤ maxSize) (more : List UInt8) :
    nextFrame maxSize (frameBytes payload ++ more) = .emit (frameBytes payload) more := by
  obtain ⟨s₀, s₁, s₂, s₃, hsize⟩ : ∃ s₀ s₁ s₂ s₃, beBytes 4 payload.length = [s₀, s₁, s₂, s₃] :=
    ⟨_, _, _, _, rfl⟩
  have hvalue : beNat [s₀, s₁, s₂, s₃] = payload.length := by
    rw [← hsize, beNat_beBytes]
    exact Nat.mod_eq_of_lt hlen
  rw [length_frameBytes] at hmax
  have hbytes : frameBytes payload = 0x72 :: 0x00 :: s₀ :: s₁ :: s₂ :: s₃ :: payload := by
    simp [frameBytes, musHeader, hsize]
  have hfits : ¬ (0 < maxSize ∧ maxSize < 6 + payload.length) := by omega
  simp only [hbytes, List.cons_append, nextFrame_header, hvalue, hfits, if_false]
  simp [musHeader]

/-- With writes that succeed, a panic is all that ends the loop after a frame. -/
theorem onFrame_continues_iff (hwrites : ∀ s response, (h.writeToClient s response).2 = true)
    (s : σ) (frame : List UInt8) :
    (h.onFrame s frame).2 = true ↔
      ((h.allow s).2 = true → (h.handleRawMessage (h.allow s).1 frame).2.isSome = true) := by
  unfold FrameServer.onFrame
  dsimp only
  cases hallow : (h.allow s).2 with
  | false => simp
  | true =>
    cases (h.handleRawMessage (h.allow s).1 frame).2 with
    | none => simp
    | some r =>
      obtain ⟨response, failed⟩ := r
      cases hempty : response.isEmpty <;> simp [hempty, hwrites]

theorem takesAll_iff_returns (hwrites : ∀ s response, (h.writeToClient s response).2 = true)
    (s : σ) (frames : List (List UInt8)) :
    Reader.TakesAll h.onFrame s frames ↔ h.Returns s frames := by
  induction frames generalizing s with
  | nil => exact Iff.rfl
  | cons frame frames ih => exact and_congr (onFrame_continues_iff h hwrites s frame) (ih _)

theorem readLoop_settled (s : σ) (reads : List (List UInt8)) :
    Reader.Settled (musSplitter maxSize) (readLoop h maxSize s reads) :=
  Reader.run_settled (fun _ => rfl) reads

/-- Whole frames within the size limit are handed over, each once and in order, up to the one
on which the handler panics. -/
theorem readLoop_served (s : σ) {payloads : List (List UInt8)}
    (hpayloads : ∀ p ∈ payloads, p.length < 2 ^ 32 ∧ (frameBytes p).length ≤ maxSize)
    {reads : List (List UInt8)} (hreads : reads.flatten = (payloads.map frameBytes).flatten) :
    Reader.Served h.onFrame (payloads.map frameBytes) ⟨s, [], [], none⟩
      (readLoop h maxSize s reads) := by
  refine Reader.run_frames (S := musSplitter maxSize) rfl (payloads.map frameBytes) ?_ s hreads
  intro f hf more
  obtain ⟨p, hp, rfl⟩ := List.mem_map.mp hf
  exact nextFrame_frameBytes maxSize (hpayloads p hp).1 (hpayloads p hp).2 more

/-- If the handler panics on none, they all arrive and nothing is left over. -/
theorem readLoop_frames (hwrites : ∀ s response, (h.writeToClient s response).2 = true) (s : σ)
    {payloads : List (List UInt8)}
    (hpayloads : ∀ p ∈ payloads, p.length < 2 ^ 32 ∧ (frameBytes p).length ≤ maxSize)
    (hreturns : h.Returns s (payloads.map frameBytes)) {reads : List (List UInt8)}
    (hreads : reads.flatten = (payloads.map frameBytes).flatten) :
    (readLoop h maxSize s reads).frames = payloads.map frameBytes ∧
      (readLoop h maxSize s reads).ended = none ∧ (readLoop h maxSize s reads).acc = [] := by
  have hserved := readLoop_served h maxSize s hpayloads hreads
  have htakes := (takesAll_iff_returns h hwrites s (payloads.map frameBytes)).mpr hreturns
  exact ⟨hserved.frames.trans htakes.served_eq, hserved.all htakes⟩

/-- The frames the read loop hands over, the state it leaves the server in and
the way it ends depend only on the bytes of the stream and not on how they are
cut into reads. Whole frames within the size limit arrive, each once and in order,
up to the first on which the handler panics, which ends the loop; if it panics on
none, they all arrive and nothing is left over. While the loop runs, it holds fewer
bytes than the larger of a header and the size limit. -/
theorem readLoop_chunking (hmax : 0 < maxSize)
    (hwrites : ∀ s response, (h.writeToClient s response).2 = true) (s : σ) :
    (∀ reads reads' : List (List UInt8), reads.flatten = reads'.flatten →
      (readLoop h maxSize s reads).frames = (readLoop h maxSize s reads').frames ∧
      (readLoop h maxSize s reads).ended = (readLoop h maxSize s reads').ended ∧
      (readLoop h maxSize s reads).server = (readLoop h maxSize s reads').server) ∧
    (∀ payloads : List (List UInt8),
      (∀ p ∈ payloads, p.length < 2 ^ 32 ∧ (frameBytes p).length ≤ maxSize) →
      ∀ reads, reads.flatten = (payloads.map frameBytes).flatten →
        (readLoop h maxSize s reads).frames =
            Reader.served h.onFrame s (payloads.map frameBytes) ∧
        (h.Returns s (payloads.map frameBytes) →
          (readLoop h maxSize s reads).frames = payloads.map frameBytes ∧
          (readLoop h maxSize s reads).ended = none ∧ (readLoop h maxSize s reads).acc = []) ∧
        (¬ h.Returns s (payloads.map frameBytes) →
          (readLoop h maxSize s reads).ended = some .consumer)) ∧
    (∀ reads, (readLoop h maxSize s reads).ended = none →
      (readLoop h maxSize s reads).acc.length < max 6 maxSize) := by
  refine ⟨fun reads reads' hreads => ?_, fun payloads hpayloads reads hreads => ?_,
    fun reads hopen => ?_⟩
  · have hagree : Reader.Agrees (readLoop h maxSize s reads) (readLoop h maxSize s reads') :=
      Reader.run_agrees (fun _ => rfl) hreads
    exact ⟨hagree.frames, hagree.ended, hagree.server⟩
  · have hserved := readLoop_served h maxSize s hpayloads hreads
    refine ⟨hserved.frames, fun hreturns => ?_, fun hpanics => ?_⟩
    · exact readLoop_frames h maxSize hwrites s hpayloads hreturns hreads
    · rw [← takesAll_iff_returns h hwrites] at hpanics
      exact hserved.stopped hpanics
  · exact nextFrame_need hmax (readLoop_settled h maxSize s reads hopen)

/-- A server that accepts every frame and answers nothing. -/
def silentServer : FrameServer Unit where
  allow s := (s, true)
  handleRawMessage s _ := (s, some ([], false))
  updateLastActivity s := s
  writeToClient s _ := (s, true)

theorem silentServer_returns (frames : List (List UInt8)) : silentServer.Returns () frames :=
  FrameServer.returns_of_forall (fun _ _ => rfl) () frames

/-- Two frames read in one piece, or cut inside the size field. -/
theorem readLoop_chunking_two_frames :
    (readLoop silentServer 9 () [[0x72, 0, 0], [0, 0, 1, 5, 0x72, 0, 0, 0, 0, 0]]).frames =
      (readLoop silentServer 9 () [[0x72, 0, 0, 0, 0, 1, 5, 0x72, 0, 0, 0, 0, 0]]).frames ∧
    (readLoop silentServer 9 () [[0x72, 0, 0], [0, 0, 1, 5, 0x72, 0, 0, 0, 0, 0]]).frames =
      [[0x72, 0, 0, 0, 0, 1, 5], [0x72, 0, 0, 0, 0, 0]] := by
  have hall := readLoop_chunking silentServer 9 (by decide) (fun _ _ => rfl) ()
  refine ⟨(hall.1 _ _ (by decide)).1, ?_⟩
  exact ((hall.2.1 [[5], []] (by decide) _ (by decide)).2.1 (silentServer_returns _)).1

end ReadLoop

end Musgos.Inbound

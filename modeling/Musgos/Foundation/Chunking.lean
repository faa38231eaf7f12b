import Mathlib.Tactic

/-!
# Streams read in chunks

A splitter cuts frames off the front of an accumulator. If its verdict on a
buffer does not change when more input arrives, then feeding a stream to a
consumer chunk by chunk hands over the same frames, leaves the consumer in the
same state and stops for the same reason as feeding it at once.
-/
namespace Musgos.Foundation

/-- The verdict on an accumulator: more input is needed, the stream is broken,
or one frame comes off the front. -/
inductive Split (α ε : Type) where
  | need
  | fail (error : ε)
  | emit (frame rest : List α)

/-- A splitter whose verdicts are stable under further input. -/
structure Splitter (α ε : Type) where
  next : List α → Split α ε
  emit_append : ∀ {buf frame rest : List α}, next buf = .emit frame rest →
    ∀ more, next (buf ++ more) = .emit frame (rest ++ more)
  fail_append : ∀ {buf : List α} {error : ε}, next buf = .fail error →
    ∀ more, next (buf ++ more) = .fail error
  emit_shrinks : ∀ {buf frame rest : List α}, next buf = .emit frame rest →
    rest.length < buf.length

/-- Why a reader stopped: the stream was broken, or the consumer gave up. -/
inductive Stop (ε : Type) where
  | violation (error : ε)
  | consumer
  deriving DecidableEq

/-- The state of a reader: the consumer's own state, the bytes not yet framed,
the frames handed over so far, and the reason it stopped. -/
@[ext] structure Reader (σ α ε : Type) where
  server : σ
  acc : List α
  frames : List (List α)
  ended : Option (Stop ε)

variable {σ α ε : Type} (S : Splitter α ε) (consume : σ → List α → σ × Bool)

namespace Reader

/-- Handing one frame to the consumer, which may give up. -/
def take (s : Reader σ α ε) (frame rest : List α) : Reader σ α ε :=
  let r := consume s.server frame
  { server := r.1, acc := rest, frames := s.frames ++ [frame],
    ended := if r.2 then none else some .consumer }

/-- Cutting frames off the accumulator until it is too short; each frame makes
it shorter, so its length bounds the rounds. -/
def drain : ℕ → Reader σ α ε → Reader σ α ε
  | 0, s => s
  | fuel + 1, s =>
    match S.next s.acc with
    | .need => s
    | .fail error => { s with ended := some (.violation error) }
    | .emit frame rest =>
      let s' := s.take consume frame rest
      if s'.ended.isSome then s' else drain fuel s'

/-- One read: nothing happens after the reader has stopped. -/
def feed (s : Reader σ α ε) (chunk : List α) : Reader σ α ε :=
  if s.ended.isSome then s
  else
    let acc := s.acc ++ chunk
    drain S consume (acc.length + 1) { s with acc := acc }

def run (s : Reader σ α ε) (chunks : List (List α)) : Reader σ α ε :=
  chunks.foldl (feed S consume) s

/-- The same observable outcome. What is left in the accumulator of a reader that
has stopped is never looked at again. -/
structure Agrees (s t : Reader σ α ε) : Prop where
  server : s.server = t.server
  frames : s.frames = t.frames
  ended : s.ended = t.ended
  acc : s.ended = none → s.acc = t.acc

variable {S consume}

theorem Agrees.refl (s : Reader σ α ε) : Agrees s s := ⟨rfl, rfl, rfl, fun _ => rfl⟩

theorem Agrees.symm {s t : Reader σ α ε} (h : Agrees s t) : Agrees t s :=
  ⟨h.server.symm, h.frames.symm, h.ended.symm, fun ht => (h.acc (h.ended.trans ht)).symm⟩

theorem Agrees.trans {s t u : Reader σ α ε} (h : Agrees s t) (h' : Agrees t u) : Agrees s u :=
  ⟨h.server.trans h'.server, h.frames.trans h'.frames, h.ended.trans h'.ended,
    fun hs => (h.acc hs).trans (h'.acc (h.ended ▸ hs))⟩

theorem drain_congr (fuel fuel' : ℕ) (s : Reader σ α ε) (h : s.acc.length < fuel)
    (h' : s.acc.length < fuel') : drain S consume fuel s = drain S consume fuel' s := by
  induction fuel generalizing fuel' s with
  | zero => omega
  | succ fuel ih =>
    obtain ⟨fuel', rfl⟩ : ∃ k, fuel' = k + 1 := ⟨fuel' - 1, by omega⟩
    simp only [drain]
    cases hnext : S.next s.acc with
    | need => rfl
    | fail error => rfl
    | emit frame rest =>
      have hshrink := S.emit_shrinks hnext
      simp only
      split_ifs
      · rfl
      · apply ih
        · show rest.length < fuel
          omega
        · show rest.length < fuel'
          omega

/-- Draining, and then reading more, agrees with reading it all before draining. -/
theorem feed_drain (fuel : ℕ) (s : Reader σ α ε) (more : List α) (hopen : s.ended = none)
    (hfuel : s.acc.length < fuel) :
    Agrees (feed S consume (drain S consume fuel s) more) (feed S consume s more) := by
  induction fuel generalizing s with
  | zero => omega
  | succ fuel ih =>
    simp only [drain]
    cases hnext : S.next s.acc with
    | need => exact Agrees.refl _
    | fail error =>
      have hmore := S.fail_append hnext more
      simp only [feed, hopen, drain, hmore, Option.isSome_some, Option.isSome_none, if_true,
        Bool.false_eq_true, if_false]
      exact ⟨rfl, rfl, rfl, fun h => by cases h⟩
    | emit frame rest =>
      have hmore := S.emit_append hnext more
      have hshrink := S.emit_shrinks hnext
      have hright : feed S consume s more =
          let s' := s.take consume frame (rest ++ more)
          if s'.ended.isSome then s'
          else drain S consume (s.acc ++ more).length s' := by
        simp [feed, hopen, drain, hmore, take]
      rw [hright]
      by_cases hend : (s.take consume frame rest).ended.isSome
      · have hend' : (s.take consume frame (rest ++ more)).ended.isSome := hend
        simp only [hend, hend', if_true, feed]
        exact ⟨rfl, rfl, rfl, fun h => by simp [h] at hend⟩
      · have hend' : ¬ (s.take consume frame (rest ++ more)).ended.isSome := hend
        simp only [hend, hend']
        have hopen' : (s.take consume frame rest).ended = none := by simpa using hend
        refine (ih _ hopen' (show rest.length < fuel by omega)).trans ?_
        simp only [feed, hend]
        rw [drain_congr _ (s.acc ++ more).length]
        · exact Agrees.refl _
        · exact Nat.lt_succ_self _
        · show (rest ++ more).length < _
          simp only [List.length_append]
          omega

theorem feed_feed (s : Reader σ α ε) (chunk more : List α) :
    Agrees (feed S consume (feed S consume s chunk) more) (feed S consume s (chunk ++ more)) := by
  by_cases hs : s.ended.isSome
  · simpa only [feed, hs, if_true] using Agrees.refl s
  · have hopen : s.ended = none := by simpa using hs
    have h := @feed_drain _ _ _ S consume ((s.acc ++ chunk).length + 1)
      { s with acc := s.acc ++ chunk } more hopen (Nat.lt_succ_self _)
    have hleft : feed S consume s chunk =
        drain S consume ((s.acc ++ chunk).length + 1) { s with acc := s.acc ++ chunk } := by
      simp [feed, hopen]
    rw [hleft]
    simpa [feed, hopen] using h

/-- A reader that is still open waits for more input. -/
def Settled (S : Splitter α ε) (s : Reader σ α ε) : Prop := s.ended = none → S.next s.acc = .need

theorem drain_settled (fuel : ℕ) (s : Reader σ α ε) (hfuel : s.acc.length < fuel) :
    Settled S (drain S consume fuel s) := by
  induction fuel generalizing s with
  | zero => omega
  | succ fuel ih =>
    simp only [drain]
    cases hnext : S.next s.acc with
    | need => exact fun _ => hnext
    | fail error => exact fun h => by cases h
    | emit frame rest =>
      have hshrink := S.emit_shrinks hnext
      simp only
      split_ifs with hend
      · exact fun h => by simp [h] at hend
      · exact ih _ (show rest.length < fuel by omega)

theorem feed_settled {s : Reader σ α ε} (hs : Settled S s) (chunk : List α) :
    Settled S (feed S consume s chunk) := by
  unfold feed
  split_ifs
  · exact hs
  · exact drain_settled _ _ (Nat.lt_succ_self _)

theorem run_settled {s : Reader σ α ε} (hs : Settled S s) (chunks : List (List α)) :
    Settled S (run S consume s chunks) := by
  induction chunks generalizing s with
  | nil => exact hs
  | cons chunk chunks ih => exact ih (feed_settled hs chunk)

theorem feed_nil {s : Reader σ α ε} (hs : Settled S s) : feed S consume s [] = s := by
  obtain ⟨server, acc, frames, ended⟩ := s
  cases ended with
  | none => simp [feed, drain, show S.next acc = .need from hs rfl]
  | some stop => simp [feed]

/-- Reading chunk by chunk agrees with reading the whole stream at once. -/
theorem run_agrees_feed {s : Reader σ α ε} (hs : Settled S s) (chunks : List (List α)) :
    Agrees (run S consume s chunks) (feed S consume s chunks.flatten) := by
  induction chunks generalizing s with
  | nil =>
    rw [List.flatten_nil, feed_nil hs]
    exact Agrees.refl s
  | cons chunk chunks ih =>
    rw [List.flatten_cons]
    exact (ih (feed_settled hs chunk)).trans (feed_feed s chunk _)

/-- Two ways to cut one stream have the same outcome. -/
theorem run_agrees {s : Reader σ α ε} (hs : Settled S s) {chunks chunks' : List (List α)}
    (h : chunks.flatten = chunks'.flatten) :
    Agrees (run S consume s chunks) (run S consume s chunks') := by
  have hleft := @run_agrees_feed _ _ _ S consume _ hs chunks
  have hright := @run_agrees_feed _ _ _ S consume _ hs chunks'
  rw [h] at hleft
  exact hleft.trans hright.symm

/-- The frames the consumer is handed, up to the one on which it gives up. -/
def served (consume : σ → List α → σ × Bool) : σ → List (List α) → List (List α)
  | _, [] => []
  | s, f :: fs => f :: if (consume s f).2 then served consume (consume s f).1 fs else []

/-- The consumer gives up on none of the frames. -/
def TakesAll (consume : σ → List α → σ × Bool) : σ → List (List α) → Prop
  | _, [] => True
  | s, f :: fs => (consume s f).2 = true ∧ TakesAll consume (consume s f).1 fs

theorem TakesAll.served_eq {s : σ} {frames : List (List α)} (h : TakesAll consume s frames) :
    served consume s frames = frames := by
  induction frames generalizing s with
  | nil => rfl
  | cons f frames ih => rw [served, if_pos h.1, ih h.2]

theorem takesAll_of_forall (h : ∀ s frame, (consume s frame).2 = true) (s : σ)
    (frames : List (List α)) : TakesAll consume s frames := by
  induction frames generalizing s with
  | nil => trivial
  | cons f frames ih => exact ⟨h s f, ih _⟩

/-- What has come of frames that were all in the accumulator. -/
structure Served (consume : σ → List α → σ × Bool) (stream : List (List α))
    (s t : Reader σ α ε) : Prop where
  frames : t.frames = s.frames ++ served consume s.server stream
  all : TakesAll consume s.server stream → t.ended = none ∧ t.acc = []
  stopped : ¬ TakesAll consume s.server stream → t.ended = some .consumer

theorem drain_frames (hempty : S.next [] = .need) (frames : List (List α))
    (hframes : ∀ f ∈ frames, ∀ more, S.next (f ++ more) = .emit f more) (fuel : ℕ)
    (s : Reader σ α ε) (hopen : s.ended = none) (hacc : s.acc = frames.flatten)
    (hfuel : s.acc.length < fuel) : Served consume frames s (drain S consume fuel s) := by
  induction frames generalizing fuel s with
  | nil =>
    obtain ⟨fuel, rfl⟩ : ∃ k, fuel = k + 1 := ⟨fuel - 1, by omega⟩
    have hnil : s.acc = [] := by simpa using hacc
    have hdrain : drain S consume (fuel + 1) s = s := by simp [drain, hnil, hempty]
    rw [hdrain]
    exact ⟨(List.append_nil _).symm, fun _ => ⟨hopen, hnil⟩, fun h => absurd trivial h⟩
  | cons f frames ih =>
    obtain ⟨fuel, rfl⟩ : ∃ k, fuel = k + 1 := ⟨fuel - 1, by omega⟩
    have hnext : S.next s.acc = .emit f frames.flatten := by
      rw [hacc, List.flatten_cons]
      exact hframes f List.mem_cons_self _
    have hshrink := S.emit_shrinks hnext
    have hdrain : drain S consume (fuel + 1) s =
        if (consume s.server f).2 then drain S consume fuel (s.take consume f frames.flatten)
        else s.take consume f frames.flatten := by
      cases h : (consume s.server f).2 <;> simp [drain, hnext, take, h]
    rw [hdrain]
    split_ifs with hgoes
    · have hrest := ih (fun g hg => hframes g (List.mem_cons_of_mem f hg)) fuel
        (s.take consume f frames.flatten) (by simp [take, hgoes]) rfl
        (show frames.flatten.length < fuel by omega)
      refine ⟨?_, fun h => hrest.all h.2, fun h => hrest.stopped fun h' => h ⟨hgoes, h'⟩⟩
      rw [hrest.frames, served, if_pos hgoes]
      simp [take]
    · refine ⟨?_, fun h => absurd h.1 hgoes, fun _ => by simp [take, hgoes]⟩
      rw [served, if_neg hgoes]
      rfl

/-- A stream of whole frames, cut anywhere, is handed over frame by frame. -/
theorem run_frames (hempty : S.next [] = .need) (frames : List (List α))
    (hframes : ∀ f ∈ frames, ∀ more, S.next (f ++ more) = .emit f more) (server : σ)
    {chunks : List (List α)} (hchunks : chunks.flatten = frames.flatten) :
    Served consume frames (⟨server, [], [], none⟩ : Reader σ α ε)
      (run S consume ⟨server, [], [], none⟩ chunks) := by
  have hagree := @run_agrees_feed _ _ _ S consume ⟨server, [], [], none⟩
    (fun _ => hempty) chunks
  have hdrain : Served consume frames (⟨server, frames.flatten, [], none⟩ : Reader σ α ε)
      (drain S consume (frames.flatten.length + 1) ⟨server, frames.flatten, [], none⟩) :=
    drain_frames hempty frames hframes _ _ rfl rfl (Nat.lt_succ_self _)
  have hfeed : feed S consume ⟨server, [], [], none⟩ chunks.flatten =
      drain S consume (frames.flatten.length + 1) ⟨server, frames.flatten, [], none⟩ := by
    simp [feed, hchunks]
  rw [hfeed] at hagree
  refine ⟨hagree.frames.trans hdrain.frames, fun htakes => ?_, fun hstops => ?_⟩
  · obtain ⟨hended, hacc⟩ := hdrain.all htakes
    have hopen := hagree.ended.trans hended
    exact ⟨hopen, (hagree.acc hopen).trans hacc⟩
  · exact hagree.ended.trans (hdrain.stopped hstops)

/-- Whole frames and the beginning of one more, to a consumer that never gives up. -/
theorem run_frames_append (hconsume : ∀ s frame, (consume s frame).2 = true)
    (hempty : S.next [] = .need) (frames : List (List α))
    (hframes : ∀ f ∈ frames, ∀ more, S.next (f ++ more) = .emit f more) {part : List α}
    (hpart : S.next part = .need) (server : σ) {chunks : List (List α)}
    (hchunks : chunks.flatten = frames.flatten ++ part) :
    (run S consume ⟨server, [], [], none⟩ chunks).frames = frames ∧
      (run S consume ⟨server, [], [], none⟩ chunks).ended = none := by
  have htakes := takesAll_of_forall hconsume server frames
  have hwhole : Served consume frames (⟨server, [], [], none⟩ : Reader σ α ε)
      (run S consume ⟨server, [], [], none⟩ [frames.flatten]) :=
    run_frames hempty frames hframes server (by simp)
  obtain ⟨hended, hacc⟩ := hwhole.all htakes
  have hall := hwhole.frames
  rw [htakes.served_eq, List.nil_append] at hall
  have htwo : run S consume ⟨server, [], [], none⟩ [frames.flatten, part] =
      feed S consume (run S consume ⟨server, [], [], none⟩ [frames.flatten]) part := rfl
  have hagree := @run_agrees _ _ _ S consume ⟨server, [], [], none⟩ (fun _ => hempty) chunks
    [frames.flatten, part] (by simp [hchunks])
  rw [hagree.frames, hagree.ended, htwo]
  simp [feed, drain, hended, hacc, hpart, hall]

end Reader

end Musgos.Foundation

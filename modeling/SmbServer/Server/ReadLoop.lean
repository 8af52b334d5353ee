/-
# The read loop of a connection

`serveConn` (`smb/server/server.go`) reads one message after the other under a deadline of
200 ms and starts the same call again when the deadline passes.  `ReadMessage` keeps no
progress between two calls, so what a call had read when the deadline passed is lost, and
the next one takes what follows for a header.

What is passed on are the frames of the stream, with nothing lost, exactly if each deadline
passes between two frames or when the loop reads no more (`serveConn_frames_iff`).

What becomes of a message is left to the function `ends`: whether the loop ends after it,
given it and the messages before it, the last one first.
-/

import SmbServer.Transport.Frame

namespace SmbServer
namespace Server

open Transport List

/-- What became of a stream: the messages that were passed on, and the bytes of the calls
that the deadline cut off. -/
structure Served where
  passed : List Bytes := []
  lost : Bytes := []

/-- The loop of `serveConn`, `n` rounds of it at most. -/
def readLoop (ends : List Bytes → Bool) : ℕ → List Bytes → List Delivery → Served
  | 0, _, _ => {}
  | n + 1, past, ds =>
    let r := readMessage ds
    match r.result with
    | .error e =>
      if e.timeout then
        let s := readLoop ends n past r.rest
        { s with lost := r.read ++ s.lost }
      else {}
    | .ok m =>
      if ends (m :: past) then { passed := [m] }
      else
        let s := readLoop ends n (m :: past) r.rest
        { s with passed := m :: s.passed }

/-- `serveConn` until it returns.  A round takes a byte or a deadline off the stream, or is
the last one. -/
def serveConn (ends : List Bytes → Bool) (ds : List Delivery) : Served :=
  readLoop ends ((stream ds).length + 1) [] ds

/-- The messages that are handled before the loop ends. -/
def handled (ends : List Bytes → Bool) : List Bytes → List Bytes → List Bytes
  | _, [] => []
  | past, m :: ms => if ends (m :: past) then [m] else m :: handled ends (m :: past) ms

/-- The loop ends within these messages. -/
def EndsWithin (ends : List Bytes → Bool) : List Bytes → List Bytes → Prop
  | _, [] => False
  | past, m :: ms => ends (m :: past) = true ∨ EndsWithin ends (m :: past) ms

/-- **What is passed on are the frames of the stream**, up to the one the loop ends with,
and no byte is lost. -/
def Intact (ends : List Bytes → Bool) (past : List Bytes) (s : Bytes) (served : Served) : Prop :=
  ∃ ms tail, Framed s ms tail ∧ served.passed = handled ends past ms ∧ served.lost = []

/-- After these bytes no call of `ReadMessage` has read part of a frame: they are whole
frames, or the loop has ended with one of them or at the header of no frame. -/
def AtBoundary (ends : List Bytes → Bool) (past : List Bytes) (s : Bytes) : Prop :=
  ∃ ms tail, Framed s ms tail ∧ (tail = [] ∨ Bad tail ∨ EndsWithin ends past ms)

section

variable {ends : List Bytes → Bool} {past : List Bytes} {s m : Bytes}

theorem atBoundary_nil : AtBoundary ends past [] :=
  ⟨[], [], .nil not_whole_nil, .inl rfl⟩

theorem atBoundary_of_bad (h : Bad s) : AtBoundary ends past s :=
  ⟨[], s, .nil h.not_whole, .inr (.inl h)⟩

theorem not_atBoundary (h : Unfinished s) (hs : s ≠ []) : ¬AtBoundary ends past s := by
  rintro ⟨ms, tail, hf, hb⟩
  obtain ⟨rfl, rfl⟩ := hf.of_not_whole h.1
  rcases hb with hnil | hbad | hend
  · exact hs hnil
  · exact h.2 hbad
  · exact hend

theorem atBoundary_frame (hm : m.length < 2 ^ 24) :
    AtBoundary ends past (frame m ++ s) ↔ ends (m :: past) = true ∨ AtBoundary ends (m :: past) s := by
  constructor
  · rintro ⟨ms, tail, hf, hb⟩
    obtain ⟨ms', rfl, hf'⟩ := hf.of_frame hm
    rcases hb with hnil | hbad | hend | hend
    · exact .inr ⟨ms', tail, hf', .inl hnil⟩
    · exact .inr ⟨ms', tail, hf', .inr (.inl hbad)⟩
    · exact .inl hend
    · exact .inr ⟨ms', tail, hf', .inr (.inr hend)⟩
  · rintro (hend | ⟨ms, tail, hf, hb⟩)
    · obtain ⟨ms, tail, hf⟩ := Framed.exists_framed s
      exact ⟨m :: ms, tail, hf.cons hm, .inr (.inr (.inl hend))⟩
    · exact ⟨m :: ms, tail, hf.cons hm, hb.imp_right (.imp_right .inr)⟩

/-- A frame that is passed on, and the loop goes on. -/
theorem intact_frame (hm : m.length < 2 ^ 24) (hgo : ends (m :: past) = false) {served : Served} :
    Intact ends past (frame m ++ s) { served with passed := m :: served.passed } ↔
      Intact ends (m :: past) s served := by
  constructor
  · rintro ⟨ms, tail, hf, hp, hl⟩
    obtain ⟨ms', rfl, hf'⟩ := hf.of_frame hm
    refine ⟨ms', tail, hf', ?_, hl⟩
    simpa [handled, hgo] using hp
  · rintro ⟨ms, tail, hf, hp, hl⟩
    exact ⟨m :: ms, tail, hf.cons hm, by simp [handled, hgo, hp], hl⟩

/-- A frame that is passed on, and the loop ends. -/
theorem intact_last (hm : m.length < 2 ^ 24) (hend : ends (m :: past) = true) :
    Intact ends past (frame m ++ s) { passed := [m] } := by
  obtain ⟨ms, tail, hf⟩ := Framed.exists_framed s
  exact ⟨m :: ms, tail, hf.cons hm, by simp [handled, hend], rfl⟩

theorem intact_none (h : ¬Whole s) : Intact ends past s {} := ⟨[], s, .nil h, rfl, rfl⟩

/-- All deadlines of a stream are at boundaries. -/
def Timely (ends : List Bytes → Bool) (past : List Bytes) (l : List (Option UInt8)) : Prop :=
  ∀ pre post, l = pre ++ none :: post → AtBoundary ends past pre.reduceOption

theorem timely_frame (hm : m.length < 2 ^ 24) {l : List (Option UInt8)} :
    Timely ends past ((frame m).map some ++ l) ↔ ends (m :: past) = true ∨ Timely ends (m :: past) l := by
  constructor
  · intro h
    refine or_iff_not_imp_left.2 fun hgo pre post hl => ?_
    have hpre := h ((frame m).map some ++ pre) post (by rw [hl, append_assoc])
    rw [reduceOption_map_some, atBoundary_frame hm] at hpre
    exact hpre.resolve_left hgo
  · intro h pre post hl
    obtain ⟨pre, rfl, hrest⟩ := none_after hl
    rw [reduceOption_map_some, atBoundary_frame hm]
    exact h.imp_right fun h => h pre post hrest

/-- A deadline that passes with some bytes read. -/
theorem timely_none (hopen : Unfinished s) {l : List (Option UInt8)} :
    Timely ends past (s.map some ++ none :: l) ↔ s = [] ∧ Timely ends past l := by
  constructor
  · intro h
    have hs : s = [] := by
      by_contra hs
      have hpre := h (s.map some) l rfl
      rw [reduceOption_some] at hpre
      exact not_atBoundary hopen hs hpre
    subst hs
    exact ⟨rfl, fun pre post hl => h (none :: pre) post (by rw [hl]; rfl)⟩
  · rintro ⟨rfl, h⟩ pre post hl
    cases pre with
    | nil => exact atBoundary_nil
    | cons x pre =>
      obtain ⟨rfl, hrest⟩ := List.cons.inj hl
      exact h pre post hrest

/-- **A stream is passed on intact exactly if its deadlines are at boundaries**, by
induction on the rounds of the loop. -/
theorem readLoop_intact_iff (ends : List Bytes → Bool) (n : ℕ) (past : List Bytes) (ds : List Delivery)
    (hn : (stream ds).length < n) :
    Intact ends past (stream ds).reduceOption (readLoop ends n past ds) ↔ Timely ends past (stream ds) := by
  induction n generalizing past ds with
  | zero => exact absurd hn (Nat.not_lt_zero _)
  | succ n ih =>
    rw [readLoop]
    cases readMessage_attempt ds with
    | message m hr hm hs =>
      have hlen := congrArg List.length hs
      rw [length_append, length_map, length_frame] at hlen
      simp only [hr]
      rw [hs, reduceOption_map_some, timely_frame hm]
      cases hend : ends (m :: past) with
      | true => exact ⟨fun _ => .inl rfl, fun _ => intact_last hm hend⟩
      | false =>
        simp only [Bool.false_eq_true, if_false, false_or]
        rw [intact_frame hm hend]
        exact ih _ _ (by omega)
    | timeout e hr he hopen hs =>
      have hlen := congrArg List.length hs
      rw [length_append, length_cons] at hlen
      simp only [hr, he, if_true]
      rw [hs, timely_none hopen, ← ih past (readMessage ds).rest (by omega)]
      constructor
      · rintro ⟨ms, tail, hf, hp, hl⟩
        obtain ⟨hread, hlost⟩ := append_eq_nil_iff.1 hl
        rw [hread] at hf
        exact ⟨hread, ms, tail, hf, hp, hlost⟩
      · rintro ⟨hread, ms, tail, hf, hp, hlost⟩
        rw [hread]
        exact ⟨ms, tail, hf, hp, hlost⟩
    | bad e hr he b l hbad hs =>
      simp only [hr, he, Bool.false_eq_true, if_false]
      rw [hs]
      refine ⟨fun _ pre post hl => ?_, fun _ => ?_⟩
      · obtain ⟨pre, rfl, -⟩ := none_after hl
        rw [reduceOption_map_some]
        exact atBoundary_of_bad (hbad.append _)
      · rw [reduceOption_map_some]
        exact intact_none (hbad.append _).not_whole
    | eof e hr he b hopen hs =>
      simp only [hr, he, Bool.false_eq_true, if_false]
      rw [hs, reduceOption_some]
      refine ⟨fun _ pre post hl => ?_, fun _ => intact_none hopen.1⟩
      obtain ⟨pre, -, hnil⟩ := none_after (l := []) (by rw [append_nil, hl])
      simp at hnil

end

/-- **Messages under slow delivery.**  However the bytes of a stream arrive, `serveConn`
passes on exactly its frames and loses no byte if and only if each read deadline passes
between two frames or after the loop has ended. -/
theorem serveConn_frames_iff (ends : List Bytes → Bool) (ds : List Delivery) :
    Intact ends [] (sent ds) (serveConn ends ds) ↔
      ∀ before after, ds = before ++ .timeout :: after → AtBoundary ends [] (sent before) := by
  rw [sent_eq, serveConn, readLoop_intact_iff ends _ _ _ (Nat.lt_succ_self _)]
  constructor
  · rintro h before after rfl
    rw [sent_eq]
    exact h _ _ (stream_eq_iff.2 ⟨before, after, rfl, rfl, rfl⟩)
  · intro h pre post hs
    obtain ⟨before, after, rfl, rfl, -⟩ := stream_eq_iff.1 hs
    rw [← sent_eq]
    exact h before after rfl

/-- **A deadline in the middle of a header loses a byte and the frame.**  The first byte of
the frame of `[7]` arrives, the deadline passes, the others arrive. -/
theorem late_header_is_lost : ¬∀ (ends : List Bytes → Bool) (ds : List Delivery),
    Intact ends [] (sent ds) (serveConn ends ds) := by
  intro h
  obtain ⟨ms, tail, hf, hp, -⟩ := h (fun _ => false) [.bytes [0x00], .timeout, .bytes [0x00, 0x00, 0x01, 0x07]]
  have hone : Framed (frame [0x07] ++ []) [[0x07]] [] := (Framed.nil not_whole_nil).cons (by decide)
  obtain ⟨rfl, -⟩ := hf.unique hone
  exact absurd hp (by decide)

end Server
end SmbServer

/-
# Frames on a stream

`smb/transport/frame.go`.  A message goes over the connection behind a header of four
bytes, a zero and the length in 24 bits (`frame`), and `ReadMessage` takes it off again
with two calls of `io.ReadFull`.

What the connection delivers is a list of arrivals and of read deadlines that pass before
the next one (`Delivery`).  A `ReadFull` that is cut off by a deadline returns the bytes it
has read, and `ReadMessage` drops them: `readMessage_attempt` says what a call does to the
stream whichever way it ends.
-/

import SmbServer.Lib.Bytes
import Mathlib.Tactic.Linarith

namespace SmbServer
open List Nat
namespace Transport

/-! ### The stream -/

/-- What the connection does next: bytes arrive, or the read deadline passes. -/
inductive Delivery where
  | bytes (b : Bytes)
  | timeout
  deriving DecidableEq

/-- The bytes of the stream. -/
def sent : List Delivery → Bytes
  | [] => []
  | .bytes b :: ds => b ++ sent ds
  | .timeout :: ds => sent ds

/-- The bytes of the stream and the deadlines among them. -/
def stream : List Delivery → List (Option UInt8)
  | [] => []
  | .bytes b :: ds => b.map some ++ stream ds
  | .timeout :: ds => none :: stream ds

theorem reduceOption_map_some (b : Bytes) (l : List (Option UInt8)) :
    (b.map some ++ l).reduceOption = b ++ l.reduceOption := by
  show (b.map some ++ l).filterMap id = b ++ l.filterMap id
  simp

theorem reduceOption_some (b : Bytes) : (b.map some).reduceOption = b := by
  show (b.map some).filterMap id = b
  simp

theorem sent_eq (ds : List Delivery) : sent ds = (stream ds).reduceOption := by
  induction ds with
  | nil => rfl
  | cons d ds ih =>
    cases d with
    | bytes b => rw [sent, stream, reduceOption_map_some, ih]
    | timeout => rw [sent, ih]; rfl

theorem stream_append (ds ds' : List Delivery) : stream (ds ++ ds') = stream ds ++ stream ds' := by
  induction ds with
  | nil => rfl
  | cons d ds ih => cases d <;> simp [stream, ih]

/-- A deadline that follows bytes comes after all of them. -/
theorem none_after {b : Bytes} {l pre post : List (Option UInt8)} (h : b.map some ++ l = pre ++ none :: post) :
    ∃ pre', pre = b.map some ++ pre' ∧ l = pre' ++ none :: post := by
  rcases append_eq_append_iff.1 h with ⟨pre', rfl, hl⟩ | ⟨c, hb, hc⟩
  · exact ⟨pre', rfl, hl⟩
  · cases c with
    | nil => exact ⟨[], by simpa using hb.symm, by simpa using hc.symm⟩
    | cons x c =>
      obtain rfl : none = x := (List.cons.inj hc).1
      have hm : none ∈ b.map some := by rw [hb]; simp
      simp at hm

/-- The deadlines of a stream are those of the connection. -/
theorem stream_eq_iff {ds : List Delivery} {pre post : List (Option UInt8)} :
    stream ds = pre ++ none :: post ↔
      ∃ before after, ds = before ++ .timeout :: after ∧ stream before = pre ∧ stream after = post := by
  constructor
  · intro h
    induction ds generalizing pre with
    | nil => simp [stream] at h
    | cons d ds ih =>
      cases d with
      | bytes b =>
        obtain ⟨pre', rfl, hl⟩ := none_after h
        obtain ⟨before, after, rfl, hb, ha⟩ := ih hl
        exact ⟨.bytes b :: before, after, rfl, by rw [stream, hb], ha⟩
      | timeout =>
        cases pre with
        | nil => exact ⟨[], ds, rfl, rfl, (List.cons.inj h).2⟩
        | cons x pre =>
          obtain ⟨rfl, hl⟩ := List.cons.inj h
          obtain ⟨before, after, rfl, hb, ha⟩ := ih hl
          exact ⟨.timeout :: before, after, rfl, by rw [stream, hb], ha⟩
  · rintro ⟨before, after, rfl, rfl, rfl⟩
    rw [stream_append, stream]

/-! ### Reading -/

/-- The errors of `Read` and `io.ReadFull`. -/
inductive ReadError where
  | eof
  | unexpectedEOF
  | timeout
  deriving DecidableEq

/-- The outcome of `io.ReadFull`, and what the connection has still to deliver. -/
structure ReadFull where
  read : Bytes
  err : Option ReadError
  rest : List Delivery

/-- An `EOF` after some bytes is unexpected. -/
def ReadError.after (b : Bytes) (e : ReadError) : ReadError :=
  if b ≠ [] ∧ e = .eof then .unexpectedEOF else e

/-- `io.ReadFull` into a buffer of `n` bytes. -/
def readFull : ℕ → List Delivery → ReadFull
  | 0, ds => ⟨[], none, ds⟩
  | _ + 1, [] => ⟨[], some .eof, []⟩
  | _ + 1, .timeout :: ds => ⟨[], some .timeout, ds⟩
  | n + 1, .bytes b :: ds =>
    -- A `Read` takes what has arrived, up to the length of the buffer.
    if n + 1 ≤ b.length then ⟨b.take (n + 1), none, .bytes (b.drop (n + 1)) :: ds⟩
    else
      let r := readFull (n + 1 - b.length) ds
      ⟨b ++ r.read, r.err.map (.after b), r.rest⟩

/-- `MaxMessageLen`. -/
def maxMessageLen : UInt32 := 16777216

/-- `readUint24`. -/
def readUint24 (b : Bytes) : UInt32 :=
  (u8At b 0).toUInt32 <<< 16 ||| (u8At b 1).toUInt32 <<< 8 ||| (u8At b 2).toUInt32

/-- `writeUint24`. -/
def writeUint24 (v : UInt32) : Bytes := [(v >>> 16).toUInt8, (v >>> 8).toUInt8, v.toUInt8]

/-- The errors of `ReadMessage`. -/
inductive FrameError where
  | header (e : ReadError)
  | typeByte (b : UInt8)
  | tooLarge (n : UInt32)
  | body (e : ReadError)
  deriving DecidableEq

/-- Whether the error wraps a `net.Error` that is a timeout. -/
def FrameError.timeout : FrameError → Bool
  | .header e | .body e => e = .timeout
  | .typeByte _ | .tooLarge _ => false

/-- The outcome of `ReadMessage`, the bytes it took off the connection, and what there is
still to come. -/
structure ReadMessage where
  result : Except FrameError Bytes
  read : Bytes
  rest : List Delivery

/-- `ReadMessage`. -/
def readMessage (ds : List Delivery) : ReadMessage :=
  let hdr := readFull 4 ds
  match hdr.err with
  | some e => ⟨.error (.header e), hdr.read, hdr.rest⟩
  | none =>
    if u8At hdr.read 0 ≠ 0 then ⟨.error (.typeByte (u8At hdr.read 0)), hdr.read, hdr.rest⟩
    else
      let n := readUint24 (hdr.read.drop 1)
      if n = 0 then ⟨.ok [], hdr.read, hdr.rest⟩
      else if maxMessageLen < n then ⟨.error (.tooLarge n), hdr.read, hdr.rest⟩
      else
        let body := readFull n.toNat hdr.rest
        match body.err with
        | some e => ⟨.error (.body e), hdr.read ++ body.read, body.rest⟩
        | none => ⟨.ok body.read, hdr.read ++ body.read, body.rest⟩

/-- How a `ReadFull` ends. -/
inductive Filled (n : ℕ) (ds : List Delivery) (r : ReadFull) : Prop where
  | full (herr : r.err = none) (hn : r.read.length = n) (hs : stream ds = r.read.map some ++ stream r.rest)
  | timeout (herr : r.err = some .timeout) (hn : r.read.length < n)
      (hs : stream ds = r.read.map some ++ none :: stream r.rest)
  | eof (e : ReadError) (herr : r.err = some e) (he : e ≠ .timeout) (hn : r.read.length < n)
      (hs : stream ds = r.read.map some)

theorem readFull_filled (n : ℕ) (ds : List Delivery) : Filled n ds (readFull n ds) := by
  induction ds generalizing n with
  | nil =>
    cases n with
    | zero => exact .full rfl rfl rfl
    | succ n => exact .eof .eof rfl (by simp) (succ_pos n) rfl
  | cons d ds ih =>
    cases n with
    | zero => exact .full rfl rfl rfl
    | succ n =>
      cases d with
      | timeout => exact .timeout rfl (succ_pos n) rfl
      | bytes b =>
        rw [readFull]
        split_ifs with hle
        · refine .full rfl (by simp [hle]) ?_
          simp only [stream, ← append_assoc, ← map_append, take_append_drop]
        · have hlt : b.length < n + 1 := Nat.lt_of_not_le hle
          cases ih (n + 1 - b.length) with
          | full herr hn hs =>
            refine .full (by simp [herr]) (by simp [hn]; omega) ?_
            simp [stream, hs]
          | timeout herr hn hs =>
            refine .timeout (by simp [herr, ReadError.after]) (by simp; omega) ?_
            simp [stream, hs]
          | eof e herr he hn hs =>
            refine .eof (e.after b) (by simp [herr]) ?_ (by simp; omega) ?_
            · unfold ReadError.after
              split_ifs
              · simp
              · exact he
            · simp [stream, hs]

/-! ### Frames -/

/-- A message behind its header. -/
def frame (m : Bytes) : Bytes := 0 :: writeUint24 (UInt32.ofNat m.length) ++ m

theorem readUint24_toNat (a b c : UInt8) :
    (readUint24 [a, b, c]).toNat = a.toNat * 65536 + b.toNat * 256 + c.toNat := by
  have ha := a.toNat_lt
  have hb := b.toNat_lt
  have hlow := shiftLeft_add_eq_or_of_lt c.toNat_lt b.toNat
  have hall := shiftLeft_add_eq_or_of_lt (i := 16) (b := b.toNat <<< 8 + c.toNat)
    (by have := c.toNat_lt; rw [shiftLeft_eq]; omega) a.toNat
  have h : (readUint24 [a, b, c]).toNat =
      a.toNat <<< 16 % 2 ^ 32 ||| b.toNat <<< 8 % 2 ^ 32 ||| c.toNat := by
    simp only [readUint24, u8At, getD_cons_zero, getD_cons_succ, UInt32.toNat_or,
      UInt32.toNat_shiftLeft, UInt8.toNat_toUInt32]
    rfl
  rw [h, mod_eq_of_lt (by rw [shiftLeft_eq]; omega), mod_eq_of_lt (by rw [shiftLeft_eq]; omega),
    Nat.or_assoc, ← hlow, ← hall, shiftLeft_eq, shiftLeft_eq]
  omega

theorem writeUint24_toNat (v : UInt32) : (writeUint24 v).map UInt8.toNat =
    [v.toNat / 65536 % 256, v.toNat / 256 % 256, v.toNat % 256] := by
  simp only [writeUint24, map_cons, map_nil, UInt32.toNat_toUInt8, UInt32.toNat_shiftRight,
    shiftRight_eq_div_pow]
  rfl

theorem writeUint24_readUint24 (a b c : UInt8) : writeUint24 (readUint24 [a, b, c]) = [a, b, c] := by
  apply map_injective_iff.2 fun _ _ => UInt8.toNat.inj
  have ha := a.toNat_lt
  have hb := b.toNat_lt
  have hc := c.toNat_lt
  rw [writeUint24_toNat, readUint24_toNat]
  simp only [map_cons, map_nil, List.cons.injEq, and_true]
  omega

theorem readUint24_writeUint24 {v : UInt32} (h : v.toNat < 2 ^ 24) : readUint24 (writeUint24 v) = v := by
  apply UInt32.toNat.inj
  have hv := writeUint24_toNat v
  unfold writeUint24 at hv ⊢
  simp only [map_cons, map_nil, List.cons.injEq, and_true] at hv
  rw [readUint24_toNat, hv.1, hv.2.1, hv.2.2]
  omega

/-- The bytes begin with a whole frame. -/
def Whole (b : Bytes) : Prop := ∃ m t, m.length < 2 ^ 24 ∧ b = frame m ++ t

/-- The bytes begin with the header of no frame. -/
def Bad (b : Bytes) : Prop := 4 ≤ b.length ∧ u8At b 0 ≠ 0

/-- The bytes are the beginning of a frame and no more. -/
def Unfinished (b : Bytes) : Prop := ¬Whole b ∧ ¬Bad b

theorem length_frame (m : Bytes) : (frame m).length = m.length + 4 := by
  simp [frame, writeUint24]

theorem Unfinished.of_short {b : Bytes} (h : b.length < 4) : Unfinished b := by
  refine ⟨?_, fun hbad => absurd hbad.1 (by omega)⟩
  rintro ⟨m, t, -, rfl⟩
  rw [length_append, length_frame] at h
  omega

/-- The header of a frame has the length of its message. -/
theorem readUint24_length {m : Bytes} (h : m.length < 2 ^ 24) :
    (readUint24 (writeUint24 (UInt32.ofNat m.length))).toNat = m.length := by
  have hv : (UInt32.ofNat m.length).toNat = m.length := mod_eq_of_lt (by omega)
  rw [readUint24_writeUint24 (by rwa [hv]), hv]

theorem not_whole_nil : ¬Whole [] := (Unfinished.of_short (b := []) (succ_pos 3)).1

/-- A frame gives away its message and what follows it. -/
theorem frame_append_inj {m m' s s' : Bytes} (hm : m.length < 2 ^ 24) (hm' : m'.length < 2 ^ 24)
    (h : frame m ++ s = frame m' ++ s') : m = m' ∧ s = s' := by
  simp only [frame, cons_append, append_assoc, List.cons.injEq, true_and] at h
  obtain ⟨hhdr, hrest⟩ := append_inj h rfl
  have heq : m.length = m'.length := by rw [← readUint24_length hm, hhdr, readUint24_length hm']
  exact append_inj hrest heq

/-- A header and the body it announces are a frame. -/
theorem frame_eq {a b c : UInt8} {body : Bytes} (h : body.length = (readUint24 [a, b, c]).toNat) :
    frame body = 0 :: a :: b :: c :: body := by
  have hv : UInt32.ofNat body.length = readUint24 [a, b, c] := by rw [h, UInt32.ofNat_toNat]
  rw [frame, hv, writeUint24_readUint24]
  rfl

theorem readUint24_lt (a b c : UInt8) : (readUint24 [a, b, c]).toNat < 2 ^ 24 := by
  have ha := a.toNat_lt
  have hb := b.toNat_lt
  have hc := c.toNat_lt
  rw [readUint24_toNat]
  omega

theorem Bad.append {b : Bytes} (h : Bad b) (t : Bytes) : Bad (b ++ t) := by
  obtain ⟨hlen, h0⟩ := h
  match b with
  | x :: b => exact ⟨by simp at hlen ⊢; omega, h0⟩

theorem Bad.not_whole {b : Bytes} (h : Bad b) : ¬Whole b := by
  rintro ⟨m, t, -, rfl⟩
  exact h.2 rfl

/-- How a `ReadMessage` ends: with a message, at a deadline with the beginning of a frame in
its hands, at a header that is none, or at the end of the stream. -/
inductive Attempt (ds : List Delivery) (r : ReadMessage) : Prop where
  | message (m : Bytes) (hr : r.result = .ok m) (hm : m.length < 2 ^ 24)
      (hs : stream ds = (frame m).map some ++ stream r.rest)
  | timeout (e : FrameError) (hr : r.result = .error e) (he : e.timeout = true) (hopen : Unfinished r.read)
      (hs : stream ds = r.read.map some ++ none :: stream r.rest)
  | bad (e : FrameError) (hr : r.result = .error e) (he : e.timeout = false) (b : Bytes)
      (l : List (Option UInt8)) (hbad : Bad b) (hs : stream ds = b.map some ++ l)
  | eof (e : FrameError) (hr : r.result = .error e) (he : e.timeout = false) (b : Bytes)
      (hopen : Unfinished b) (hs : stream ds = b.map some)

theorem Unfinished.of_body {a b c : UInt8} {body : Bytes}
    (h : body.length < (readUint24 [a, b, c]).toNat) : Unfinished (0 :: a :: b :: c :: body) := by
  refine ⟨?_, fun hbad => hbad.2 rfl⟩
  rintro ⟨m, t, hm, heq⟩
  have happ : [a, b, c] ++ body = writeUint24 (UInt32.ofNat m.length) ++ (m ++ t) := (List.cons.inj heq).2
  obtain ⟨hhdr, rfl⟩ := append_inj happ rfl
  rw [hhdr, readUint24_length hm, length_append] at h
  omega

theorem readMessage_attempt (ds : List Delivery) : Attempt ds (readMessage ds) := by
  unfold readMessage
  cases readFull_filled 4 ds with
  | timeout herr hn hs =>
    simp only [herr]
    exact .timeout _ rfl rfl (.of_short hn) hs
  | eof e herr he hn hs =>
    simp only [herr]
    exact .eof _ rfl (decide_eq_false he) _ (.of_short hn) hs
  | full herr hn hs =>
    simp only [herr]
    generalize readFull 4 ds = hdr at *
    obtain ⟨read, err, rest⟩ := hdr
    obtain ⟨t, a, b, c, rfl⟩ : ∃ t a b c, read = [t, a, b, c] := length_eq_four.1 hn
    by_cases ht : u8At [t, a, b, c] 0 = 0
    · rw [if_neg (not_not.2 ht)]
      obtain rfl : t = 0 := ht
      simp only [drop_succ_cons, drop_zero]
      by_cases h0 : readUint24 [a, b, c] = 0
      · rw [if_pos h0]
        refine .message [] rfl (by simp) ?_
        rw [frame_eq (a := a) (b := b) (c := c) (by rw [h0]; rfl)]
        exact hs
      · have hlt := readUint24_lt a b c
        rw [if_neg h0, if_neg (by rw [UInt32.lt_iff_toNat_lt]; exact (hlt.le).not_gt)]
        cases readFull_filled (readUint24 [a, b, c]).toNat rest with
        | full herr' hn' hs' =>
          simp only [herr']
          refine .message _ rfl (by rw [hn']; exact hlt) ?_
          rw [frame_eq hn', hs, hs']
          rfl
        | timeout herr' hn' hs' =>
          simp only [herr']
          refine .timeout _ rfl rfl (.of_body hn') ?_
          rw [hs, hs', map_append, append_assoc]
        | eof e herr' he hn' hs' =>
          simp only [herr']
          refine .eof _ rfl (decide_eq_false he) _ (.of_body hn') ?_
          rw [hs, hs']
          rfl
    · rw [if_pos ht]
      exact .bad _ rfl rfl [t, a, b, c] _ ⟨Nat.le_refl 4, ht⟩ hs

/-! ### A stream of frames -/

/-- The frames of a stream, and what there is behind them. -/
structure Framed (s : Bytes) (ms : List Bytes) (tail : Bytes) : Prop where
  eq : s = (ms.map frame).flatten ++ tail
  fits : ∀ m ∈ ms, m.length < 2 ^ 24
  rest : ¬Whole tail

namespace Framed

variable {s tail tail' m : Bytes} {ms ms' : List Bytes}

theorem nil (h : ¬Whole s) : Framed s [] s := ⟨rfl, by simp, h⟩

theorem cons (hm : m.length < 2 ^ 24) (h : Framed s ms tail) : Framed (frame m ++ s) (m :: ms) tail :=
  ⟨by simp [h.eq], by simpa using ⟨hm, h.fits⟩, h.rest⟩

/-- **Every stream has its frames.** -/
theorem exists_framed (s : Bytes) : ∃ ms tail, Framed s ms tail := by
  induction h : s.length using Nat.strong_induction_on generalizing s with
  | _ n ih =>
    by_cases hw : Whole s
    · obtain ⟨m, t, hm, rfl⟩ := hw
      obtain ⟨ms, tail, ht⟩ := ih t.length (by rw [← h, length_append, length_frame]; omega) t rfl
      exact ⟨m :: ms, tail, ht.cons hm⟩
    · exact ⟨[], s, .nil hw⟩

/-- **It has them in one way only.** -/
theorem unique (h : Framed s ms tail) (h' : Framed s ms' tail') : ms = ms' ∧ tail = tail' := by
  induction ms generalizing s ms' with
  | nil =>
    cases ms' with
    | nil => exact ⟨rfl, by simpa using h.eq.symm.trans h'.eq⟩
    | cons m' ms' =>
      have heq := h.eq.symm.trans h'.eq
      simp only [map_nil, flatten_nil, nil_append, map_cons, flatten_cons,
        append_assoc] at heq
      exact absurd ⟨m', _, h'.fits m' (by simp), heq⟩ h.rest
  | cons m ms ih =>
    have hm := h.fits m (by simp)
    cases ms' with
    | nil =>
      have heq := h.eq.symm.trans h'.eq
      simp only [map_nil, flatten_nil, nil_append, map_cons, flatten_cons,
        append_assoc] at heq
      exact absurd ⟨m, _, hm, heq.symm⟩ h'.rest
    | cons m' ms' =>
      have heq := h.eq.symm.trans h'.eq
      simp only [map_cons, flatten_cons, append_assoc] at heq
      obtain ⟨rfl, hrest⟩ := frame_append_inj hm (h'.fits m' (by simp)) heq
      have hms : Framed ((ms.map frame).flatten ++ tail) ms tail :=
        ⟨rfl, fun m hm => h.fits m (by simp [hm]), h.rest⟩
      have hms' : Framed ((ms.map frame).flatten ++ tail) ms' tail' :=
        ⟨hrest, fun m hm => h'.fits m (by simp [hm]), h'.rest⟩
      obtain ⟨rfl, rfl⟩ := ih hms hms'
      exact ⟨rfl, rfl⟩

theorem of_frame (hm : m.length < 2 ^ 24) (h : Framed (frame m ++ s) ms tail) :
    ∃ ms', ms = m :: ms' ∧ Framed s ms' tail := by
  obtain ⟨ms', tail', h'⟩ := exists_framed s
  obtain ⟨rfl, rfl⟩ := h.unique (h'.cons hm)
  exact ⟨ms', rfl, h'⟩

/-- Bytes that begin with no whole frame have none. -/
theorem of_not_whole (hw : ¬Whole s) (h : Framed s ms tail) : ms = [] ∧ tail = s :=
  h.unique (.nil hw)

end Framed

end Transport
end SmbServer

/-
# Writing frames and reading them back

`WriteMessage` of `smb/transport/frame.go`, and what `ReadMessage` makes of its output.

`WriteMessage` refuses a payload whose length, converted to `uint32`, is above
`MaxMessageLen`, which is `2^24`.  The length field has 24 bits, and so `2^24` itself is
written as zero, and a payload of `2^32` bytes or more may pass with any length.
Messages read back are shorter than `2^24`, so the round trip holds exactly for payloads
that are (`roundTrip_iff`).
-/

import SmbServer.Transport.Frame

namespace SmbServer
open List
namespace Transport

/-- The framing errors of `WriteMessage`. -/
inductive WriteError where
  | empty
  | tooLarge (n : ℕ)
  deriving DecidableEq

/-- `WriteMessage` to a writer that accepts all bytes: what it writes. -/
def writeMessage (payload : Bytes) : Except WriteError Bytes :=
  if payload.length = 0 then .error .empty
  else if maxMessageLen < UInt32.ofNat payload.length then .error (.tooLarge payload.length)
  else .ok (frame payload)

/-- The output of a list of `WriteMessage` calls. -/
def writeMessages : List Bytes → Except WriteError Bytes
  | [] => .ok []
  | m :: ms => do
      let b ← writeMessage m
      let bs ← writeMessages ms
      return b ++ bs

/-- Up to `n` calls of `ReadMessage`, which end at the first error: the messages read, and
what there is still to come. -/
def readMessages : ℕ → List Delivery → Except FrameError (List Bytes) × List Delivery
  | 0, ds => (.ok [], ds)
  | n + 1, ds =>
    let r := readMessage ds
    match r.result with
    | .error e => (.error e, r.rest)
    | .ok m =>
      let t := readMessages n r.rest
      (t.1.map (m :: ·), t.2)

/-- However the output of the writes is cut into arrivals, the reads return the payloads
in order and leave nothing. -/
def RoundTrip (ms : List Bytes) (out : Bytes) : Prop :=
  ∀ ds, .timeout ∉ ds → sent ds = out →
    ∃ rest, readMessages ms.length ds = (.ok ms, rest) ∧ sent rest = []

/-- What is written is the frames of the payloads. -/
theorem writeMessages_eq {ms : List Bytes} {out : Bytes} (h : writeMessages ms = .ok out) :
    out = (ms.map frame).flatten := by
  induction ms generalizing out with
  | nil =>
    cases h
    rfl
  | cons m ms ih =>
    unfold writeMessages writeMessage at h
    split_ifs at h with hempty hlarge
    · cases h
    · cases h
    · cases hms : writeMessages ms with
      | error e => rw [hms] at h; cases h
      | ok bs =>
        rw [hms] at h
        cases h
        rw [map_cons, flatten_cons, ← ih hms]

theorem stream_of_no_timeout {ds : List Delivery} (h : .timeout ∉ ds) : stream ds = (sent ds).map some := by
  induction ds with
  | nil => rfl
  | cons d ds ih =>
    rw [mem_cons, not_or] at h
    cases d with
    | bytes b => rw [stream, sent, ih h.2, map_append]
    | timeout => exact absurd rfl h.1

/-- A `ReadMessage` at a frame takes the frame off the stream. -/
theorem readMessage_frame {ds : List Delivery} {m t : Bytes} (hm : m.length < 2 ^ 24)
    (hs : stream ds = (frame m ++ t).map some) :
    (readMessage ds).result = .ok m ∧ stream (readMessage ds).rest = t.map some := by
  have hbytes : ∀ {b : Bytes} {l : List (Option UInt8)}, stream ds = b.map some ++ l →
      frame m ++ t = b ++ l.reduceOption := fun {b l} h => by
    have := congrArg reduceOption (hs.symm.trans h)
    rwa [reduceOption_some, reduceOption_map_some] at this
  have hframe : Whole (frame m ++ t) := ⟨m, t, hm, rfl⟩
  cases readMessage_attempt ds with
  | message m' hr hm' hs' =>
    obtain ⟨rfl, ht⟩ := frame_append_inj hm hm' (hbytes hs')
    refine ⟨hr, ?_⟩
    rw [hs, map_append] at hs'
    exact (append_cancel_left hs').symm
  | timeout e hr he hopen hs' =>
    have hnone : none ∈ (frame m ++ t).map some := by
      rw [← hs, hs']
      simp
    simp at hnone
  | bad e hr he b l hbad hs' =>
    have hwhole := hframe
    rw [hbytes hs'] at hwhole
    exact absurd hwhole (hbad.append _).not_whole
  | eof e hr he b hopen hs' =>
    have heq : frame m ++ t = b := by
      have := hbytes (hs'.trans (append_nil _).symm)
      exact this.trans (append_nil b)
    exact absurd (heq ▸ hframe) hopen.1

theorem readMessages_frames {ms : List Bytes} (hms : ∀ m ∈ ms, m.length < 2 ^ 24) {ds : List Delivery}
    (hs : stream ds = ((ms.map frame).flatten).map some) :
    ∃ rest, readMessages ms.length ds = (.ok ms, rest) ∧ stream rest = [] := by
  induction ms generalizing ds with
  | nil => exact ⟨ds, rfl, hs⟩
  | cons m ms ih =>
    rw [map_cons, flatten_cons] at hs
    obtain ⟨hr, hrest⟩ := readMessage_frame (hms m (mem_cons_self ..)) hs
    obtain ⟨rest, hread, hnil⟩ := ih (fun x hx => hms x (mem_cons_of_mem _ hx)) hrest
    refine ⟨rest, ?_, hnil⟩
    rw [length_cons, readMessages]
    simp only [hr, hread]
    rfl

theorem readMessages_fit {n : ℕ} {ds : List Delivery} {ms : List Bytes}
    (h : (readMessages n ds).1 = .ok ms) : ∀ m ∈ ms, m.length < 2 ^ 24 := by
  induction n generalizing ds ms with
  | zero =>
    cases h
    intro m hm
    cases hm
  | succ n ih =>
    rw [readMessages] at h
    cases hr : (readMessage ds).result with
    | error e =>
      simp only [hr] at h
      cases h
    | ok m =>
      simp only [hr] at h
      cases ht : (readMessages n (readMessage ds).rest).1 with
      | error e => rw [ht] at h; cases h
      | ok ms' =>
        rw [ht] at h
        obtain rfl : m :: ms' = ms := Except.ok.inj h
        have hm : m.length < 2 ^ 24 := by
          cases readMessage_attempt ds with
          | message m' hr' hm' hs' =>
            rw [hr] at hr'
            exact Except.ok.inj hr' ▸ hm'
          | timeout e hr' => rw [hr] at hr'; cases hr'
          | bad e hr' => rw [hr] at hr'; cases hr'
          | eof e hr' => rw [hr] at hr'; cases hr'
        intro x hx
        rcases mem_cons.1 hx with rfl | hx
        · exact hm
        · exact ih ht x hx

/-- **Messages written are read back exactly when each is shorter than `2^24` bytes.** -/
theorem roundTrip_iff (ms : List Bytes) (out : Bytes) (h : writeMessages ms = .ok out) :
    RoundTrip ms out ↔ ∀ m ∈ ms, m.length < 2 ^ 24 := by
  obtain rfl := writeMessages_eq h
  constructor
  · intro hrt
    -- The output may arrive all at once.
    obtain ⟨rest, hread, -⟩ := hrt [.bytes (ms.map frame).flatten] (by simp) (List.append_nil _)
    exact readMessages_fit (congrArg Prod.fst hread)
  · intro hms ds hds hsent
    have hs : stream ds = ((ms.map frame).flatten).map some := by rw [stream_of_no_timeout hds, hsent]
    obtain ⟨rest, hread, hnil⟩ := readMessages_frames hms hs
    refine ⟨rest, hread, ?_⟩
    rw [sent_eq, hnil]
    rfl

theorem roundTrip_two : writeMessages [[1], [2, 3]] = .ok [0, 0, 0, 1, 1, 0, 0, 0, 2, 2, 3] ∧
    RoundTrip [[1], [2, 3]] [0, 0, 0, 1, 1, 0, 0, 0, 2, 2, 3] :=
  ⟨rfl, (roundTrip_iff _ _ rfl).2 (by decide)⟩

/-- A payload of `2^24` bytes is accepted and its length written as zero. -/
theorem not_roundTrip_max : ¬∀ ms out, writeMessages ms = .ok out → RoundTrip ms out := by
  intro hall
  have hm : ∃ m : Bytes, m.length = 2 ^ 24 := ⟨List.replicate (2 ^ 24) 0, List.length_replicate⟩
  obtain ⟨m, hm⟩ := hm
  have hwrite : writeMessages [m] = .ok (frame m ++ []) := by
    unfold writeMessages writeMessage
    rw [hm, if_neg (by norm_num), if_neg (by decide)]
    rfl
  obtain ⟨rest, hread, -⟩ := hall [m] _ hwrite [.bytes (frame m ++ [])] (by simp) (List.append_nil _)
  have := readMessages_fit (congrArg Prod.fst hread) m (List.mem_singleton.2 rfl)
  omega

end Transport
end SmbServer

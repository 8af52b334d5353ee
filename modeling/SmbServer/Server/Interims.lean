/-
# Interim responses

A CHANGE_NOTIFY that is pending is answered twice: with an interim response, which goes
into the reply of its frame, and with a final response, which its watcher sends.  Both
carry the AsyncId of the operation, and the Async flag, by which `Loop.interims` finds
the interim responses in the reply of a frame.

The responses of a frame lie 64 bytes apart at least (`Loop.Laid`), and linking one to the
next touches the `NextCommand` of the one before only, so an interim response stays as it
was appended (`Loop.Laid.round`).
-/

import SmbServer.Server.Traffic

namespace SmbServer
namespace Server

open Wire List Option

variable {E : Env} {srv : Config E}

/-- The AsyncId of the response at `start`, if its Async flag is set. -/
def interimAt (out : Bytes) (start : ℕ) : Option UInt64 :=
  if u32At out (start + 16) &&& flagAsyncCommand ≠ 0 then some (u64At out (start + 32)) else none

/-- The AsyncIds of the interim responses among the responses of a frame. -/
def Loop.interims (lp : Loop) (out : Bytes) : List UInt64 := lp.replies.filterMap fun r => interimAt out r.start

/-- The AsyncIds of the interim responses in the reply a connection is making. -/
def Conn.interims (c : Conn E) : List UInt64 := (c.loop.map fun lp => lp.interims c.out).getD []

/-- The responses of a frame do not overlap, and the next is linked to one of them. -/
structure Loop.Laid (lp : Loop) (out : Bytes) : Prop where
  starts : ∀ r ∈ lp.replies, r.start + 64 ≤ out.length
  spaced : lp.replies.Pairwise fun r r' => r.start + 64 ≤ r'.start
  prev : ∀ p ∈ lp.prevRespStart, ∃ r ∈ lp.replies, r.start = p

theorem interimAt_append_left {out : Bytes} {start : ℕ} (h : start + 64 ≤ out.length) (b : Bytes) :
    interimAt (out ++ b) start = interimAt out start := by
  unfold interimAt
  rw [u32At_append_left _ (by omega), u64At_append_left _ (by omega)]

theorem interimAt_append_right (out b : Bytes) : interimAt (out ++ b) out.length = interimAt b 0 := by
  unfold interimAt
  rw [u32At_append_right _ (by omega), u64At_append_right _ (by omega), Nat.add_sub_cancel_left, Nat.add_sub_cancel_left]

/-- The interim response of an operation carries its AsyncId. -/
theorem interimAt_buildAsyncInterim (hdr : Header) (id : UInt64) : interimAt (buildAsyncInterim hdr id) 0 = some id := by
  have hasync : (flagServerToRedir ||| flagAsyncCommand) &&& flagAsyncCommand ≠ 0 := by decide
  obtain ⟨hflags, hid⟩ := Header.encode_async { hdr with
    flags := flagServerToRedir ||| flagAsyncCommand, status := statusPending, asyncId := id, credit := 0 }
  unfold interimAt buildAsyncInterim
  rw [hflags, if_pos hasync, hid hasync]

namespace Loop.Laid

variable {lp lp' : Loop} {out : Bytes} {r : Reply}

/-- Linking the next response leaves interim responses alone. -/
theorem interimAt_link (h : lp.Laid out) (junk : Bytes) (hr : r ∈ lp.replies) :
    interimAt (linkPrevious lp.prevRespStart (out ++ junk)) r.start = interimAt out r.start := by
  have hlen := h.starts r hr
  have hfar : ∀ p ∈ lp.prevRespStart, p = r.start ∨ p + 64 ≤ r.start ∨ r.start + 64 ≤ p := by
    intro p hp
    obtain ⟨r', hr', rfl⟩ := h.prev p hp
    by_cases hne : r' = r
    · exact .inl (hne ▸ rfl)
    · have hapart : lp.replies.Pairwise fun r r' => r.start + 64 ≤ r'.start ∨ r'.start + 64 ≤ r.start :=
        h.spaced.imp Or.inl
      have : Std.Symm fun r r' : Reply => r.start + 64 ≤ r'.start ∨ r'.start + 64 ≤ r.start := ⟨fun _ _ => Or.symm⟩
      exact .inr (hapart.forall hr' hr hne)
  have hslice : ∀ {o n : ℕ}, o + n ≤ 20 ∨ 24 ≤ o → o + n ≤ 64 →
      slice (linkPrevious lp.prevRespStart (out ++ junk)) (r.start + o) n = slice out (r.start + o) n := by
    intro o n ho hn
    rw [← slice_append_left junk (show r.start + o + n ≤ out.length by omega)]
    refine slice_linkPrevious (fun p hp => ?_) (by rw [length_append]; omega)
    have := hfar p hp
    omega
  unfold interimAt u32At u64At
  rw [hslice (by omega) (by omega), hslice (by omega) (by omega)]

/-- A further response behind `base`, which has the interim responses as they were. -/
theorem push {base e : Bytes} (h : lp.Laid out) (hlen : out.length ≤ base.length) (he : 64 ≤ e.length)
    (hsame : ∀ r ∈ lp.replies, interimAt base r.start = interimAt out r.start) (hr : r.start = base.length)
    (hreplies : lp'.replies = lp.replies ++ [r])
    (hprev : lp'.prevRespStart = lp.prevRespStart ∨ lp'.prevRespStart = some r.start) :
    lp'.Laid (base ++ e) ∧ lp'.interims (base ++ e) = lp.interims out ++ (interimAt e 0).toList := by
  have hbase : ∀ r' ∈ lp.replies, r'.start + 64 ≤ base.length := fun r' hr' => (h.starts r' hr').trans hlen
  refine ⟨⟨fun r' hr' => ?_, ?_, fun p hp => ?_⟩, ?_⟩
  · rw [length_append]
    rw [hreplies, mem_append, mem_singleton] at hr'
    rcases hr' with hold | rfl
    · exact (hbase r' hold).trans (Nat.le_add_right _ _)
    · omega
  · rw [hreplies]
    refine pairwise_append.2 ⟨h.spaced, pairwise_singleton .., fun r1 h1 r2 h2 => ?_⟩
    rw [mem_singleton.1 h2, hr]
    exact hbase r1 h1
  · rw [hreplies]
    rcases hprev with hkept | hnew
    · obtain ⟨r', hr', hp⟩ := h.prev p (hkept ▸ hp)
      exact ⟨r', mem_append_left _ hr', hp⟩
    · rw [hnew] at hp
      exact ⟨r, mem_append_right _ (mem_singleton_self r), some.inj hp⟩
  · have hold : lp.replies.filterMap (fun r => interimAt (base ++ e) r.start) = lp.interims out :=
      filterMap_congr fun r' hr' => (interimAt_append_left (hbase r' hr') e).trans (hsame r' hr')
    rw [Loop.interims, hreplies, filterMap_append, hold, filterMap_cons, filterMap_nil, hr,
      interimAt_append_right]
    cases interimAt e 0 <;> rfl

end Loop.Laid

theorem Conn.cancelPending_nextAsync (c : Conn E) (id : UInt64) : (c.cancelPending id).nextAsync = c.nextAsync := by
  unfold Conn.cancelPending
  cases c.pending.lookup id <;> rfl

/-- Only a CHANGE_NOTIFY that finds its open gets an AsyncId. -/
theorem round_nextAsync (srv : Config E) {c : Conn E} {lp : Loop} {k : Command E} (hk : nextCommand c lp = some k)
    (hw : ¬(k.IsNotify ∧ k.Watches)) (hl : c.Listed) (sh : Shared E) :
    (round srv lp ⟨sh, c⟩).state.c.nextAsync = c.nextAsync := by
  by_cases hcancel : k.hdr.command = cmdCancel ∧ k.lp.chainFailed = false
  · have hasync : (round srv lp ⟨sh, c⟩).state.c.async = _ := round_cancels hk hcancel.1 hcancel.2 sh
    exact (congrArg Prod.fst hasync).trans (c.cancelPending_nextAsync _)
  · refine congrArg Prod.fst (round_async hk hw (fun hcmd => ?_) hl sh)
    cases hf : k.lp.chainFailed with
    | true => rfl
    | false => exact absurd ⟨hcmd, hf⟩ hcancel

/-- **What a pass does to the interim responses.**  One is appended where an operation is
started, with its AsyncId. -/
theorem Loop.Laid.round {s s' : St E} {lp lp' : Loop} (h : lp.Laid s.c.out) (hl : s.c.Listed)
    (hrun : round srv lp s = .ok lp' s') : lp'.Laid s'.c.out ∧
      (lp'.interims s'.c.out = lp.interims s.c.out ∧ s'.c.nextAsync = s.c.nextAsync ∨
        lp'.interims s'.c.out = lp.interims s.c.out ++ [s.c.nextAsync + 1] ∧ s'.c.nextAsync = s.c.nextAsync + 1) := by
  cases round_pass hl hrun with
  | stop hnone => exact ⟨⟨h.starts, h.spaced, h.prev⟩, .inl ⟨rfl, rfl⟩⟩
  | pending k id hk hn hw _ _ _ =>
    obtain ⟨w, lp1, s1, hrun1, -, -, -, hasync, hout, -, -, -, -, hafter⟩ := round_watches srv hk hn hw s.sh
    obtain ⟨rfl, rfl⟩ := Outcome.ok.inj (hrun.symm.trans hrun1)
    have hpush := h.push (e := buildAsyncInterim k.hdr (s.c.nextAsync + 1)) le_rfl
      (by rw [buildAsyncInterim, Header.length_encode]) (fun _ _ => rfl) rfl hafter.replies (.inl hafter.prev)
    rw [hout]
    refine ⟨hpush.1, .inr ⟨?_, congrArg Prod.fst hasync⟩⟩
    rw [hpush.2, interimAt_buildAsyncInterim]
    rfl
  | answer k junk a hk hj ha =>
    have hnot : ¬(k.IsNotify ∧ k.Watches) := by
      rcases hj with ⟨-, hn⟩ | ⟨-, -, hw⟩
      · exact fun h => hn h.1
      · exact fun h => hw h.2
    have hlen : s.c.out.length ≤ (linkPrevious lp.prevRespStart (s.c.out ++ junk)).length := by
      have := length_linkPrevious lp.prevRespStart (s.c.out ++ junk)
      rw [length_append] at this
      omega
    have hsync : interimAt (a.element E.crypto) 0 = none := by
      rw [interimAt, a.element_flags E.crypto ha.sync]
      rfl
    have hpush := h.push (e := a.element E.crypto) hlen (by rw [a.length_element]; omega)
      (fun r hr => h.interimAt_link junk hr) rfl ha.after.replies (.inr ha.after.prev)
    have hnext := round_nextAsync srv hk hnot hl s.sh
    rw [hrun] at hnext
    rw [ha.out]
    refine ⟨hpush.1, .inl ⟨?_, hnext⟩⟩
    rw [hpush.2, hsync, toList_none, append_nil]

end Server
end SmbServer

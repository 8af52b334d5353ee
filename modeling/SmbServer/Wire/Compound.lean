/-
# Compounds

A frame may hold several SMB2 messages, each with a header that names the distance
to the next one in `NextCommand`.  `visits` follows these distances as a client
does; `Compound` is the same from the side of whoever builds the frame: which
headers stand where, and that each but the last points at its successor.
-/

import Mathlib.Data.List.Chain
import SmbServer.Wire.Header

namespace SmbServer
open List Option
namespace Wire

/-- A header met in a frame. -/
structure Visit where
  start : ℕ
  command : UInt16
  messageId : UInt64
  deriving DecidableEq

/-- Follow `NextCommand` from an offset, through at most `fuel` headers.  Every header
has 64 bytes and its structure size, and every header after the first is aligned to
eight bytes. -/
def visits (out : Bytes) : ℕ → ℕ → Option (List Visit)
  | 0, _ => none
  | fuel + 1, off =>
    let next := (u32At out (off + 20)).toNat
    let v : Visit := ⟨off, u16At out (off + 12), u64At out (off + 24)⟩
    if out.length < off + headerSize ∨ slice out off 6 ≠ smb2ProtocolId ++ put16 64 then none
    else if next = 0 then some [v]
    else if (off + next) % 8 ≠ 0 then none
    else (visits out fuel (off + next)).map (v :: ·)

/-- The headers of a frame from its start.  Each takes up a byte at least, so a frame
has no more headers than bytes. -/
def compound? (out : Bytes) : Option (List Visit) := visits out out.length 0

/-- The header of a visit stands where the visit says. -/
structure HeaderAt (out : Bytes) (v : Visit) : Prop where
  length : v.start + 64 ≤ out.length
  magic : slice out v.start 6 = smb2ProtocolId ++ put16 64
  command : u16At out (v.start + 12) = v.command
  messageId : u64At out (v.start + 24) = v.messageId

/-- One header points at the next. -/
structure Links (out : Bytes) (v v' : Visit) : Prop where
  after : v.start + 64 ≤ v'.start
  aligned : v'.start % 8 = 0
  next : (u32At out (v.start + 20)).toNat = v'.start - v.start

/-- The frame is a compound of these headers, up to `NextCommand` of the last. -/
structure Compound (out : Bytes) (vs : List Visit) : Prop where
  head : ∀ v ∈ vs.head?, v.start = 0
  headers : ∀ v ∈ vs, HeaderAt out v
  links : vs.IsChain (Links out)

/-! ### What a client sees -/

/-- From any header of a compound whose last header points nowhere, a client meets the
rest of them. -/
theorem visits_of_links {out : Bytes} (vs : List Visit) {v : Visit} {fuel : ℕ}
    (hh : ∀ x ∈ v :: vs, HeaderAt out x) (hl : (v :: vs).IsChain (Links out))
    (hlast : ∀ x ∈ (v :: vs).getLast?, u32At out (x.start + 20) = 0)
    (hfuel : out.length ≤ fuel + v.start) : visits out fuel v.start = some (v :: vs) := by
  induction vs generalizing v fuel with
  | nil =>
    have hv := hh v (by simp)
    obtain ⟨fuel, rfl⟩ : ∃ k, fuel = k + 1 := ⟨fuel - 1, by have := hv.length; omega⟩
    have hnext : u32At out (v.start + 20) = 0 := hlast v (by simp)
    have hok : ¬(out.length < v.start + headerSize ∨
        slice out v.start 6 ≠ smb2ProtocolId ++ put16 64) := by
      rw [hv.magic]
      simpa [headerSize] using hv.length
    rw [visits, if_neg hok, hnext, hv.command, hv.messageId]
    rfl
  | cons v' vs ih =>
    have hv := hh v (by simp)
    obtain ⟨fuel, rfl⟩ : ∃ k, fuel = k + 1 := ⟨fuel - 1, by have := hv.length; omega⟩
    obtain ⟨hlink, hl⟩ := isChain_cons_cons.1 hl
    have hafter := hlink.after
    have hok : ¬(out.length < v.start + headerSize ∨
        slice out v.start 6 ≠ smb2ProtocolId ++ put16 64) := by
      rw [hv.magic]
      simpa [headerSize] using hv.length
    have hnext : v.start + (v'.start - v.start) = v'.start := by omega
    have hrest : visits out fuel v'.start = some (v' :: vs) :=
      ih (fun x hx => hh x (mem_cons_of_mem _ hx)) hl
        (fun x hx => hlast x (by rwa [getLast?_cons_cons])) (by omega)
    rw [visits, if_neg hok, hlink.next, if_neg (by omega), hnext, hlink.aligned, hrest,
      hv.command, hv.messageId]
    rfl

/-- **A client that follows `NextCommand` meets the headers of the compound.** -/
theorem Compound.compound_eq {out : Bytes} {vs : List Visit} (h : Compound out vs) (hne : vs ≠ [])
    (hlast : ∀ x ∈ vs.getLast?, u32At out (x.start + 20) = 0) : compound? out = some vs := by
  cases vs with
  | nil => exact absurd rfl hne
  | cons v vs =>
    have h0 : v.start = 0 := h.head v rfl
    have hv : visits out out.length v.start = some (v :: vs) :=
      visits_of_links vs h.headers h.links hlast (by omega)
    rwa [h0] at hv

/-! ### Building a compound -/

/-- The bytes of one message begin with its header. -/
structure Message (e : Bytes) (command : UInt16) (nextCommand : UInt32) (messageId : UInt64) :
    Prop where
  length : 64 ≤ e.length
  magic : slice e 0 6 = smb2ProtocolId ++ put16 64
  command : u16At e 12 = command
  nextCommand : u32At e 20 = nextCommand
  messageId : u64At e 24 = messageId

theorem Message.headerAt {e : Bytes} {command : UInt16} {nextCommand : UInt32} {messageId : UInt64}
    (h : Message e command nextCommand messageId) (out : Bytes) :
    HeaderAt (out ++ e) ⟨out.length, command, messageId⟩ ∧
      u32At (out ++ e) (out.length + 20) = nextCommand := by
  have hs : ∀ o n, slice (out ++ e) (out.length + o) n = slice e o n := fun o n => by
    rw [slice_append_right _ _ (Nat.le_add_right ..), Nat.add_sub_cancel_left]
  refine ⟨⟨?_, (hs 0 6).trans h.magic, ?_, ?_⟩, ?_⟩
  · rw [length_append]
    exact Nat.add_le_add_left h.length _
  · exact (congrArg (UInt16.ofNat ∘ leNat) (hs 12 2)).trans h.command
  · exact (congrArg (UInt64.ofNat ∘ leNat) (hs 24 8)).trans h.messageId
  · exact (congrArg (UInt32.ofNat ∘ leNat) (hs 20 4)).trans h.nextCommand

namespace Compound

variable {out out' : Bytes} {vs : List Visit} {u v : Visit}

theorem single (hv : HeaderAt out v) (h0 : v.start = 0) : Compound out [v] :=
  ⟨fun x hx => by obtain rfl := some.inj hx; exact h0,
    fun x hx => by obtain rfl := mem_singleton.1 hx; exact hv, .singleton v⟩

theorem push (h : Compound out (vs ++ [u])) (hv : HeaderAt out v) (hl : Links out u v) :
    Compound out (vs ++ [u] ++ [v]) := by
  refine ⟨fun x hx => h.head x ?_, fun x hx => ?_, ?_⟩
  · rwa [head?_append_of_ne_nil _ (by simp)] at hx
  · rcases mem_append.1 hx with hx | hx
    · exact h.headers x hx
    · obtain rfl := mem_singleton.1 hx
      exact hv
  · refine isChain_append.2 ⟨h.links, .singleton v, fun x hx y hy => ?_⟩
    rw [getLast?_concat] at hx
    cases hx
    cases hy
    exact hl

theorem before_last (h : Compound out (vs ++ [u])) : ∀ x ∈ vs, x.start + 64 ≤ u.start := by
  have htrans : IsTrans Visit fun v v' => v.start + 64 ≤ v'.start := ⟨fun a b c _ _ => by omega⟩
  have hp := (h.links.imp fun _ _ hl => hl.after).pairwise
  exact fun x hx => (pairwise_append.1 hp).2.2 x hx u (by simp)

/-- A frame that is longer and differs only in `NextCommand` of the last header is still
a compound of these headers. -/
theorem relink (h : Compound out (vs ++ [u])) (hlen : out.length ≤ out'.length)
    (hs : ∀ o n, o + n ≤ out.length → o + n ≤ u.start + 20 ∨ u.start + 24 ≤ o →
      slice out' o n = slice out o n) : Compound out' (vs ++ [u]) := by
  have hbefore := h.before_last
  have hpos : ∀ x ∈ vs ++ [u], x = u ∨ x.start + 64 ≤ u.start := fun x hx =>
    (mem_append.1 hx).elim (fun hx => .inr (hbefore x hx)) fun hx =>
      .inl (mem_singleton.1 hx)
  refine ⟨h.head, fun x hx => ?_, ?_⟩
  · have hx' := h.headers x hx
    have hl := hx'.length
    have hslice : ∀ o n, o + n ≤ 20 ∨ 24 ≤ o ∧ o + n ≤ 64 →
        slice out' (x.start + o) n = slice out (x.start + o) n := fun o n hon => by
      refine hs _ _ (by omega) ?_
      rcases hpos x hx with rfl | hlt
      · omega
      · omega
    exact ⟨hl.trans hlen, (hslice 0 6 (by omega)).trans hx'.magic,
      (congrArg (UInt16.ofNat ∘ leNat) (hslice 12 2 (by omega))).trans hx'.command,
      (congrArg (UInt64.ofNat ∘ leNat) (hslice 24 8 (by omega))).trans hx'.messageId⟩
  · obtain ⟨hvs, hu, hseam⟩ := isChain_append.1 h.links
    have hlink : ∀ x ∈ vs, ∀ y, Links out x y → Links out' x y := fun x hx y hl => by
      refine ⟨hl.after, hl.aligned, ?_⟩
      have hlt := hbefore x hx
      have hul := (h.headers u (by simp)).length
      rw [u32At, hs _ _ (by omega) (by omega)]
      exact hl.next
    refine isChain_append.2 ⟨?_, .singleton u, fun x hx y hy => ?_⟩
    · exact hvs.imp_of_mem_imp fun x y hx _ hl => hlink x hx y hl
    · exact hlink x (mem_of_getLast? hx) y (hseam x hx y hy)

end Compound

end Wire
end SmbServer

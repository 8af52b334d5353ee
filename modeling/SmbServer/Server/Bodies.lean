/-
# Successful answers

What a handler appends to the reply when it answers STATUS_SUCCESS.  `Body Q m` says
that it satisfies `Q`; the rules follow the text of a handler.
-/

import SmbServer.Server.Handlers

namespace SmbServer
namespace Server

open Wire Vfs

variable {E : Env} {α : Type} {Q : Bytes → Prop}

/-- What `m` appends when it answers STATUS_SUCCESS satisfies `Q`. -/
def Body (Q : Bytes → Prop) (m : M E UInt32) : Prop :=
  ∀ s s', m s = .ok statusSuccess s' → ∃ b, s'.c.out = s.c.out ++ b ∧ Q b

namespace Body

theorem errBody {status : UInt32} (h : status ≠ statusSuccess) : Body Q (errBody status : M E UInt32) := by
  intro s s' hrun
  exact absurd (Outcome.ok.inj hrun).1 h

theorem succeed {b : Bytes} (h : Q b) : Body Q (succeed b : M E UInt32) := by
  intro s s' hrun
  obtain ⟨-, rfl⟩ := Outcome.ok.inj hrun
  exact ⟨b, rfl, h⟩

theorem fault : Body Q (Go.fault : M E UInt32) := by
  intro s s' hrun
  cases hrun

theorem get {f : St E → M E UInt32} (h : ∀ s, Body Q (f s)) : Body Q (Go.get >>= f) :=
  fun s s' hrun => h s s s' hrun

theorem call {origin : Option Origin} {op : α → Call E} {f : E.World → α × E.World} {k : α → M E UInt32}
    (h : ∀ w, Body Q (k (f w).1)) : Body Q (call origin op f >>= k) :=
  fun s s' hrun => h s.sh.world { s with sh := { s.sh with
    world := (f s.sh.world).2, trace := .call origin (op (f s.sh.world).1) :: s.sh.trace } } s' hrun

theorem ite {φ : Prop} [Decidable φ] {m1 m2 : M E UInt32} (h1 : φ → Body Q m1) (h2 : ¬φ → Body Q m2) :
    Body Q (if φ then m1 else m2) := by
  split_ifs with h
  · exact h1 h
  · exact h2 h

theorem parsed {ρ : Type} {r : Res Wire.Error ρ} {k : ρ → M E UInt32} (h : ∀ req, r = .ok req → Body Q (k req)) :
    Body Q (parsed r k) := by
  cases r with
  | ok req => exact h req rfl
  | err e => exact errBody (by decide)
  | panic => exact fault

theorem withTree {o : Origin} {k : Tree E → M E UInt32} (h : ∀ tr, Body Q (k tr)) : Body Q (withTree o k) := by
  refine get fun s => ?_
  cases s.c.tree? o.sid o.tid with
  | none => exact fault
  | some tr => exact h tr

theorem withOpen {o : Origin} {fid : FileId} {k : Tree E → OpenHandle E → M E UInt32}
    (h : ∀ tr oh, Body Q (k tr oh)) : Body Q (withOpen o fid k) := by
  refine withTree fun tr => ?_
  cases tr.opens.lookup fid with
  | none => exact errBody (by decide)
  | some oh => exact h tr oh

end Body

/-! ### READ and QUERY_INFO -/

/-- The data of a READ is no longer than asked for, and no longer than `maxRead`. -/
theorem handleRead_body (o : Origin) (msg : Bytes) :
    Body (fun b => ∃ data, b = readResponseFixed data.length ++ data ∧
      data.length ≤ (u32At msg (64 + 4)).toNat ∧ data.length ≤ maxRead.toNat)
      (handleRead o msg : M E UInt32) := by
  refine .parsed fun req hreq => .ite (fun _ => .errBody (by decide)) fun hmax => ?_
  refine .withOpen fun _ oh => .get fun s => .ite (fun _ => .errBody (by decide)) fun _ => .call fun w => ?_
  have hread := E.read_le oh.h req.offset.toNat req.length.toNat w
  have hlen : req.length.toNat ≤ maxRead.toNat :=
    UInt32.le_iff_toNat_le.1 (UInt32.not_lt.1 fun h => hmax (.inl h))
  generalize (E.read oh.h req.offset.toNat req.length.toNat w).1 = res at hread
  obtain ⟨data, err⟩ := res
  dsimp only at hread ⊢
  split
  · exact .errBody (osErrToStatus_ne _)
  · refine .ite (fun _ => .errBody (by decide)) fun _ => .succeed ⟨_, rfl, ?_, hread.trans hlen⟩
    rw [← ReadRequest.length_eq hreq]
    exact hread

/-- The information of a QUERY_INFO is cut to the length asked for. -/
theorem sendInfo_body {limit : UInt32} {info : Option Bytes} (h : ∀ b, info = some b → b.length ≤ 84) :
    Body (fun b => ∃ info, b = queryInfoResponse info ∧ info.length ≤ limit.toNat ∧ info.length ≤ 84)
      (sendInfo limit info : M E UInt32) := by
  cases info with
  | none => exact .errBody (by decide)
  | some b =>
    have hb := h b rfl
    refine .succeed ⟨_, rfl, ?_⟩
    have hof : (UInt32.ofNat b.length).toNat = b.length :=
      UInt32.toNat_ofNat_of_lt' (show b.length < 2 ^ 32 by omega)
    split_ifs with hlt
    · rw [List.length_take]
      omega
    · have := UInt32.le_iff_toNat_le.1 (UInt32.not_lt.1 hlt)
      omega

theorem handleQueryInfo_body (o : Origin) (msg : Bytes) :
    Body (fun b => ∃ info, b = queryInfoResponse info ∧ info.length ≤ (u32At msg (64 + 4)).toNat ∧
      info.length ≤ 84) (handleQueryInfo o msg : M E UInt32) := by
  refine .parsed fun req hreq => .withOpen fun _ oh => ?_
  rw [← QueryInfoRequest.outputBufferLength_eq hreq]
  refine .ite (fun _ => .call fun w => ?_) fun _ => .ite (fun _ => ?_) fun _ => .errBody (by decide)
  · split
    · exact .errBody (osErrToStatus_ne _)
    · exact sendInfo_body fun b hb => length_fileInfo_le hb
  · exact sendInfo_body fun b hb => length_filesystemInfo_le hb

end Server
end SmbServer

/-
# The transition that handles a CREATE

`Effect` lists the steps of a CREATE one at a time, so it does not say how many of them
there are.  Here the transition is followed as a whole.  The backend is asked to open
one file at most; what it returned is closed again where `Stat` fails, and otherwise it
goes into the tree with the one answer (`CreateRun`, `subCommand_creates`).
-/

import SmbServer.Server.Numbering

namespace SmbServer
namespace Server

open Wire Go List Event

variable {E : Env} {srv : Config E} {o : Origin} {s s₁ s' : St E} {α β : Type}

/-- A command reaches its handler. -/
def Event.isExec : Event E → Bool
  | .exec .. => true
  | _ => false

/-- A command reaches its handler, or calls a backend or a handle. -/
def Event.isWork : Event E → Bool
  | .exec .. | .call .. => true
  | _ => false

theorem Event.isWork_of_isExec (e : Event E) (h : e.isExec = true) : e.isWork = true := by
  cases e <;> first | rfl | cases h

theorem Shut.of_isExec {es : List (Event E)} (hes : ∀ e ∈ es, e.isExec = true) (cid : ConnId) (h : E.Handle) :
    Shut cid h es := by
  refine .of_not fun e he => ?_
  have hexec := hes e he
  rintro ⟨o, share, opts, rfl, -⟩
  cases hexec

/-- What handling a CREATE comes to: no open is new and every handle it got was closed, or
one is new and its handle is the only one that was not. -/
inductive CreateRun (o : Origin) (s s' : St E) : Prop where
  | none (ha : Aside Event.isWork s s') (es : List (Event E)) (ht : s'.sh.trace = es ++ s.sh.trace)
      (hshut : ∀ cid h, Shut cid h es)
  | made (tr : Tree E) (req : CreateRequest) (h : E.Handle) (r : FileId × UInt8) (s₁ s₂ : St E)
      (ha : Aside Event.isWork s s₁) (es : List (Event E)) (ht : s₁.sh.trace = es ++ s.sh.trace)
      (hshut : ∀ cid h', (cid = o.conn → h' ≠ h) → Shut cid h' es)
      (htr : s₁.c.tree? o.sid o.tid = some tr) (hrun : registerOpen o tr req h s₁ = .ok r s₂)
      (hb : Aside Event.isExec s₂ s')

/-- A computation that is one CREATE at most. -/
def Creates (o : Origin) (m : M E α) : Prop := ∀ s, CreateRun o s (m s).state

namespace Creates

theorem ofQuiet {m : M E α} (hm : Quiet isExec m) : Creates o m := by
  intro s
  obtain ⟨es, ht, hes⟩ := (hm s).trace
  exact .none ((hm s).mono isWork_of_isExec) es ht (.of_isExec hes)

theorem run_after (ha : Aside isExec s s₁) (h : CreateRun o s₁ s') : CreateRun o s s' := by
  obtain ⟨es1, ht1, hes1⟩ := ha.trace
  have hw := ha.mono isWork_of_isExec
  cases h with
  | none hb es ht hshut =>
    refine .none (hw.trans hb) (es ++ es1) (by rw [ht, ht1, append_assoc]) fun cid h => ?_
    exact (hshut cid h).append (.of_isExec hes1 cid h)
  | made tr req h r s2 s3 hb es ht hshut htr hrun hc =>
    refine .made tr req h r s2 s3 (hw.trans hb) (es ++ es1) (by rw [ht, ht1, append_assoc])
      (fun cid h' hne => ?_) htr hrun hc
    exact (hshut cid h' hne).append (.of_isExec hes1 cid h')

theorem run_before (h : CreateRun o s s₁) (hb : Aside isExec s₁ s') : CreateRun o s s' := by
  cases h with
  | none ha es ht hshut =>
    obtain ⟨es1, ht1, hes1⟩ := hb.trace
    refine .none (ha.trans (hb.mono isWork_of_isExec)) (es1 ++ es) (by rw [ht1, ht, append_assoc])
      fun cid h => ?_
    exact (Shut.of_isExec hes1 cid h).append (hshut cid h)
  | made tr req h r s2 s3 ha es ht hshut htr hrun hc =>
    exact .made tr req h r s2 s3 ha es ht hshut htr hrun (hc.trans hb)

theorem after {m : M E α} {f : α → M E β} (hm : Quiet isExec m) (hf : ∀ a, Creates o (f a)) :
    Creates o (m >>= f) := by
  intro s
  have h := hm s
  rw [bind_apply]
  cases hms : m s with
  | ok a s₁ =>
    rw [hms] at h
    exact run_after h (hf a s₁)
  | panic s₁ =>
    rw [hms] at h
    have hrefl : CreateRun o s₁ s₁ := .none (.refl s₁) [] rfl fun cid h => .of_not (by simp)
    exact run_after h hrefl

theorem before {m : M E α} {f : α → M E β} (hm : Creates o m) (hf : ∀ a, Quiet isExec (f a)) :
    Creates o (m >>= f) := by
  intro s
  have h := hm s
  rw [bind_apply]
  cases hms : m s with
  | ok a s₁ =>
    rw [hms] at h
    exact run_before h (hf a s₁)
  | panic s₁ =>
    rw [hms] at h
    exact h

theorem get {f : St E → M E β} (hf : ∀ s, Creates o (f s)) : Creates o (Go.get >>= f) :=
  after (fun s => .refl s) hf

end Creates

theorem Quiet.emit {p : Event E → Bool} (b : Bytes) : Quiet p (emit b : M E Unit) := fun _ => .ofConn rfl

theorem Quiet.errBody {p : Event E → Bool} (status : UInt32) : Quiet p (errBody status : M E UInt32) :=
  fun _ => .ofConn rfl

theorem Quiet.fault {p : Event E → Bool} : Quiet p (Go.fault : M E α) := fun s => .refl s

theorem call_run (origin : Option Origin) (op : α → Call E) (f : E.World → α × E.World) (s : St E)
    (hran : ∀ w, (op (f w).1).Ran w (f w).2) :
    ∃ a s₁, call origin op f s = .ok a s₁ ∧ Aside isWork s s₁ ∧ s₁.c = s.c ∧
      s₁.sh.trace = [.call origin (op a)] ++ s.sh.trace :=
  ⟨_, _, rfl, .ofTrace rfl rfl rfl rfl (fun _ => List.Subset.refl _) ⟨[_], rfl, by simp [isWork]⟩
    (.single (.inr ⟨_, ⟨origin, rfl⟩, hran _⟩)), rfl, rfl⟩

/-- **`createFile` keeps the handle it got or closes it.** -/
theorem createFile_creates (o : Origin) (req : CreateRequest) (fid : FileId) :
    Creates o (createFile o req fid : M E (UInt32 × FileId)) := by
  intro s
  have hrefuse : ∀ status : UInt32, Quiet isExec (do return (← errBody status, fid) : M E (UInt32 × FileId)) :=
    fun status => .bind (.errBody _) fun _ => .pure _
  unfold createFile withTree
  rw [bind_ok (get_apply s)]
  cases htr : s.c.tree? o.sid o.tid with
  | none => exact Creates.ofQuiet .fault s
  | some tr =>
    dsimp only
    split_ifs
    · exact Creates.ofQuiet (hrefuse _) s
    obtain ⟨opened, s₁, h1, ha1, hc1, ht1⟩ := call_run (some o) (.openFile tr.share (openOptions req))
      (E.openFile tr.share.backend (openOptions req)) s fun _ => rfl
    rw [bind_ok h1]
    cases opened with
    | error e =>
      refine Creates.run_before (.none ha1 _ ht1 fun cid h => .of_not fun ev he => ?_) (hrefuse _ s₁)
      obtain rfl := mem_singleton.1 he
      rintro ⟨o', share, opts, heq, -⟩
      cases heq
    | ok h =>
      obtain ⟨st, s2, h2, ha2, hc2, ht2⟩ := call_run (some o) (fun _ => .stat h) (E.stat h) s₁ fun _ => rfl
      let work : List (Event E) :=
        [.call (some o) (.stat h), .call (some o) (.openFile tr.share (openOptions req) (.ok h))]
      have hother : ∀ cid h', (cid = o.conn → h' ≠ h) → ∀ e ∈ work, ¬Opened cid h' e := by
        rintro cid h' hne e he ⟨o', share, opts, rfl, hconn⟩
        rcases mem_pair.1 he with heq | heq
        · cases heq
        · cases heq
          exact hne hconn.symm rfl
      dsimp only
      rw [bind_ok h2]
      cases st with
      | error e =>
        obtain ⟨err, s3, h3, ha3, hc3, ht3⟩ := call_run (some o) (fun _ => .close h) (E.close h) s2
          fun _ => rfl
        dsimp only
        rw [bind_ok h3]
        rw [ht2, ht1] at ht3
        refine Creates.run_before (.none ((ha1.trans ha2).trans ha3) (.call (some o) (.close h) :: work) ht3
          fun cid h' => ?_) (hrefuse _ s3)
        have hclose : ∀ e ∈ [.call (some o) (.close h)], ¬Opened cid h' e := by
          rintro e he ⟨o', share, opts, rfl, -⟩
          cases mem_singleton.1 he
        by_cases hne : h' = h
        · subst hne
          exact .of_close (mem_singleton_self _) hclose
        · exact (Shut.of_not hclose).append (.of_not (hother cid h' fun _ => hne))
      | ok fi =>
        obtain ⟨r, s3, h3⟩ : ∃ r s3, registerOpen o tr req h s2 = .ok r s3 := ⟨_, _, rfl⟩
        dsimp only
        rw [bind_ok h3]
        rw [ht1] at ht2
        refine .made tr req h r s2 s3 (ha1.trans ha2) work ht2 (fun cid h' hne => .of_not (hother cid h' hne)) ?_ h3
          (.ofConn rfl)
        rw [hc2, hc1]
        exact htr

theorem handleCreate_creates (o : Origin) (msg : Bytes) (fid : FileId) :
    Creates o (handleCreate o msg fid : M E (UInt32 × FileId)) := by
  unfold handleCreate
  cases CreateRequest.parse msg with
  | panic => exact .ofQuiet .fault
  | err e => exact .ofQuiet (.bind (.errBody _) fun _ => .pure _)
  | ok req => exact createFile_creates o req fid

theorem route_creates {hdr : Header} {lp : Loop} (hcmd : o.cmd = cmdCreate) : Creates o (route srv o hdr lp) := by
  unfold route
  split_ifs with hf hcancel
  · exact .ofQuiet (.pure _)
  · rw [hcmd] at hcancel
    exact absurd hcancel (by decide)
  · have hlog : Quiet isExec (logExec o lp.via : M E Unit) := fun _ =>
      .ofTrace rfl rfl rfl rfl (fun _ => List.Subset.refl _) ⟨[_], rfl, by simp [isExec]⟩ .refl
    refine .after hlog fun _ => .get fun s => ?_
    cases s.c.refusal o with
    | some status => exact .ofQuiet (.bind (.errBody _) fun _ => .pure _)
    | none =>
      dsimp only [handle]
      rw [if_neg (by rw [hcmd]; decide), if_neg (by rw [hcmd]; decide), if_pos hcmd]
      exact .before (handleCreate_creates _ _ _) fun _ => .pure _

theorem respond_creates {hdr : Header} {lp : Loop} (hcmd : o.cmd = cmdCreate) :
    Creates o (respond srv o hdr lp) := by
  refine .after (.modifyConn fun _ => rfl) fun _ => .get fun before => .after (.emit _) fun _ => ?_
  refine .before (route_creates hcmd) fun r => ?_
  exact .bind (.modifyConn fun c => c.finishResponse_tables ..) fun _ => .get fun _ => .pure _

theorem round_creates (srv : Config E) {c : Conn E} {lp : Loop} {k : Command E}
    (hk : nextCommand c lp = some k) (hcmd : k.origin.cmd = cmdCreate) (sh : Shared E) :
    CreateRun k.origin ⟨sh, c⟩ (round srv lp ⟨sh, c⟩).state := by
  have hcharge : Aside isExec (⟨sh, c⟩ : St E) ⟨sh, c.charge k.hdr.creditCharge⟩ := .ofConn rfl
  rw [round_eq_respond srv hk (fun h => absurd (hcmd.symm.trans h) (by decide)) sh]
  exact Creates.run_after hcharge (respond_creates hcmd _)

/-- **A transition that handles a CREATE is one at most.** -/
theorem subCommand_creates (srv : Config E) {c : Conn E} {lp : Loop} {k : Command E}
    (hk : nextCommand c lp = some k) (hcmd : k.origin.cmd = cmdCreate) (sh : Shared E) :
    CreateRun k.origin ⟨sh, c⟩ (subCommand srv lp ⟨sh, c⟩).state := by
  have h := round_creates srv hk hcmd sh
  unfold subCommand
  rw [bind_apply]
  cases hr : round srv lp ⟨sh, c⟩ with
  | ok lp' s₁ =>
    rw [hr] at h
    exact Creates.run_before h (.ofConn rfl)
  | panic s₁ =>
    rw [hr] at h
    exact h

end Server
end SmbServer

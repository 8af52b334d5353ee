/-
# Invariants of the frame being handled

Between `receive` and `sendReply` a connection holds a frame: `c.out` with the
responses so far and the locals of `handleMessage`.  Nothing but the passes of the
loop moves either, nor the sessions of the connection (`Background`).  So
what holds when a frame is taken up and is kept by each pass (`FrameRule`) holds
until its reply is written (`FrameRule.reach`).
-/

import SmbServer.Server.Response

namespace SmbServer
namespace Server

open Wire Go Function Option Sys

variable {E : Env} {srv : Config E}

/-! ### What leaves the frame alone -/

/-- The part of a connection that belongs to its frame. -/
def Conn.frame (c : Conn E) : Bytes × GoMap UInt64 (Session E) × Option Loop :=
  (c.out, c.sessions, c.loop)

/-- A computation that leaves the frame of its connection alone. -/
abbrev Background {α : Type} (m : M E α) : Prop := Keeps (fun s => s.c.frame) m

theorem writeMessage_background (frame : Bytes) (sealing : Option (UInt64 × Bytes × Bytes))
    (content : List Addressee) : Background (writeMessage frame sealing content : M E Bool) := by
  intro s
  unfold writeMessage
  split_ifs <;> rfl

theorem drainOne_background (q : Queued) (rest : List Queued) :
    Background (drainOne q rest : M E Unit) :=
  .bind (fun _ => rfl) fun _ => .bind (writeMessage_background _ _ _) fun _ => .pure _

theorem finalizeCN_background (i : ℕ) (w : Watcher E) (status : UInt32) (body : Bytes) :
    Background (finalizeCN i w status body) := fun _ => rfl

theorem watchTick_background (i : ℕ) (w : Watcher E) : Background (watchTick i w) := by
  refine .bind (.bind (fun _ => rfl) fun _ => .pure _) fun cur => .bind (fun _ => rfl) fun curNames =>
    .bind (fun _ => rfl) fun oldNames => ?_
  dsimp only
  split_ifs
  · exact finalizeCN_background _ _ _ _
  · exact .pure _

theorem screen_keeps {γ : Type} {f : St E → γ}
    (hf : ∀ (s : St E) sid g, f { s with c := s.c.modifySession sid g } = f s) (raw : Bytes) : Keeps f (screen raw) := by
  unfold screen
  split_ifs
  · unfold openTransform
    split_ifs
    · exact .pure _
    refine .get fun s => ?_
    cases s.c.session? (u64At raw 44) with
    | none => exact .pure _
    | some sess =>
      dsimp only
      cases sess.decryptionKey with
      | none => exact .pure _
      | some key =>
        dsimp only
        cases sess.decCCM <|> Encryption.newAESCCM key with
        | none => exact .pure _
        | some ccm => exact .bind (fun s => hf s _ _) fun _ => .pure _
  · refine .get fun s => ?_
    split_ifs <;> exact .pure _

theorem screen_keeps_loop (raw : Bytes) : Keeps (fun s => s.c.loop) (screen raw : M E _) :=
  screen_keeps (fun _ _ _ => rfl) raw

theorem sendReply_loop {lp : Loop} {s s' : St E} (h : sendReply lp s = .ok () s') :
    s'.c.loop = none := by
  unfold sendReply at h
  obtain ⟨_, _, h1, h⟩ := bind_eq_ok h
  cases h1
  split_ifs at h
  · cases h
    rfl
  · obtain ⟨r, s1, -, h⟩ := bind_eq_ok h
    cases r with
    | none =>
      obtain ⟨ok, s2, -, h⟩ := bind_eq_ok h
      cases h
      rfl
    | some r =>
      obtain ⟨ok, s2, -, h⟩ := bind_eq_ok h
      cases h
      rfl

/-- A frame that is taken up: no response yet, and the locals at their start. -/
theorem Conn.begin_frame (c : Conn E) (msg : Bytes) (via : Arrival) :
    (c.begin msg via).frame = ([], c.sessions, some { msg, via }) := by
  simp only [Conn.begin, Conn.updatePreauth]
  split_ifs <;> rfl

/-! ### The rule -/

/-- What has to be shown of a property `J` of frames in the runs that meet `C`. -/
structure FrameRule (srv : Config E) (C : Sys E → Label → Prop) (J : Conn E → Loop → Prop) :
    Prop where
  congr : ∀ {c c' lp}, c'.out = c.out → c'.sessions = c.sessions → J c lp → J c' lp
  start : ∀ {S cid raw c msg via s'}, Base S → S.conns cid = some c → C S (.recv cid raw) →
    screen raw ⟨S.sh, c⟩ = .ok (some (msg, via)) s' → J { s'.c with out := [] } { msg, via }
  pass : ∀ {S cid c lp lp' s'}, Base S → S.conns cid = some c → c.loop = some lp →
    lp.finished = false → C S (.sub cid) → J c lp →
    Relation.ReflTransGen (Change srv (nextCommand c lp)) ⟨S.sh, c⟩ s' →
    Pass ⟨S.sh, c⟩ lp lp' s' → round srv lp ⟨S.sh, c⟩ = .ok lp' s' → J s'.c lp'

theorem reach_base {C : Sys E → Label → Prop} {w : E.World} {S : Sys E}
    (h : (system srv w).Reach C S) : Base S := by
  have hI : Preserved srv C (fun _ _ => True) fun _ => True := by
    constructor <;> intros <;> trivial
  exact (hI.reach trivial h).1

/-- A connection after a computation of one of them. -/
theorem Sys.conns_exec {S : Sys E} {cid cid' : ConnId} {c c' : Conn E} {m : M E Unit}
    (h : (S.exec cid c m).conns cid' = some c') :
    cid' ≠ cid ∧ S.conns cid' = some c' ∨
      cid' = cid ∧ ((∃ s', m ⟨S.sh, c⟩ = .ok () s' ∧ c' = s'.c) ∨ c'.loop = none) := by
  by_cases hc : cid' = cid
  · subst hc
    refine .inr ⟨rfl, ?_⟩
    unfold Sys.exec at h
    cases hm : m ⟨S.sh, c⟩ with
    | ok u s' =>
      simp only [hm, update_self, some.injEq] at h
      exact .inl ⟨s', rfl, h.symm⟩
    | panic s' =>
      simp only [hm, update_self, some.injEq] at h
      exact .inr (by rw [← h])
  · refine .inl ⟨hc, ?_⟩
    unfold Sys.exec at h
    cases hm : m ⟨S.sh, c⟩ <;> simpa only [hm, update_of_ne hc] using h

/-- How the frame of a connection comes out of a transition: it is left alone, taken up, or
has its next pass. -/
inductive FrameStep (srv : Config E) (S : Sys E) (cid : ConnId) (c' : Conn E) (lp' : Loop) : Label → Prop where
  | idle {l : Label} {c : Conn E} (hsub : l ≠ .sub cid) (hrecv : ∀ raw, l ≠ .recv cid raw)
      (hc : S.conns cid = some c) (hframe : c'.frame = c.frame) : FrameStep srv S cid c' lp' l
  | start {raw msg : Bytes} {via : Arrival} {c : Conn E} {s : St E} (hc : S.conns cid = some c)
      (hscreen : screen raw ⟨S.sh, c⟩ = .ok (some (msg, via)) s) (hlp : lp' = { msg, via }) (hout : c'.out = [])
      (hsess : c'.sessions = s.c.sessions) : FrameStep srv S cid c' lp' (.recv cid raw)
  | pass {c : Conn E} {lp : Loop} {s : St E} (hc : S.conns cid = some c) (hlp : c.loop = some lp)
      (hfin : lp.finished = false) (hround : round srv lp ⟨S.sh, c⟩ = .ok lp' s) (hout : c'.out = s.c.out)
      (hsess : c'.sessions = s.c.sessions) : FrameStep srv S cid c' lp' (.sub cid)

section

variable {S S' : Sys E} {cid cid₀ : ConnId} {c c' : Conn E} {lp' : Loop} {m : M E Unit} {l : Label}

/-- A computation of one connection, by what it does to the frame of that one. -/
theorem FrameStep.exec (hl : l.conn? = some cid₀) (hc' : (S.exec cid₀ c m).conns cid = some c')
    (hlp' : c'.loop = some lp')
    (hown : ∀ s', cid = cid₀ → m ⟨S.sh, c⟩ = .ok () s' → c' = s'.c → FrameStep srv S cid c' lp' l) :
    FrameStep srv S cid c' lp' l := by
  rcases conns_exec hc' with ⟨hne, hold⟩ | ⟨heq, ⟨s', hok, hs'⟩ | hnone⟩
  · refine .idle (fun h => hne ?_) (fun raw h => hne ?_) hold rfl
    · rw [h] at hl
      exact some.inj hl
    · rw [h] at hl
      exact some.inj hl
  · exact hown s' heq hok hs'
  · rw [hnone] at hlp'
    cases hlp'

theorem FrameStep.background (hl : l.conn? = some cid₀) (hc : S.conns cid₀ = some c) (hsub : l ≠ .sub cid₀)
    (hrecv : ∀ raw, l ≠ .recv cid₀ raw) (hm : Background m) (hc' : (S.exec cid₀ c m).conns cid = some c')
    (hlp' : c'.loop = some lp') : FrameStep srv S cid c' lp' l := by
  refine .exec hl hc' hlp' fun s' hcid hok hs' => ?_
  subst hcid hs'
  have hk := hm ⟨S.sh, c⟩
  rw [hok] at hk
  exact .idle hsub hrecv hc hk

/-- **The frame of a connection after a transition.** -/
theorem Sys.step_frame (h : S.step srv l = some S') (hc' : S'.conns cid = some c') (hlp' : c'.loop = some lp') :
    FrameStep srv S cid c' lp' l := by
  cases step_fired h with
  | accept =>
    rcases conns_accept hc' with ⟨-, rfl⟩ | ⟨-, hc⟩
    · cases hlp'
    · exact .idle (nofun) (nofun) hc rfl
  | @recv cid₀ c raw hc hnone =>
    refine .exec rfl hc' hlp' fun s' hcid hok hs' => ?_
    subst hcid hs'
    obtain ⟨r, s1, hscreen, hok⟩ := bind_eq_ok hok
    cases r with
    | none =>
      cases hok
      have hkeep := screen_keeps_loop raw ⟨S.sh, c⟩
      rw [hscreen] at hkeep
      exact absurd (hlp'.symm.trans (hkeep.trans hnone)) (by simp)
    | some r =>
      obtain ⟨msg, via⟩ := r
      cases hok
      have hbegin := s1.c.begin_frame msg via
      simp only [Conn.frame, Prod.mk.injEq] at hbegin
      obtain ⟨hout, hsess, hloop⟩ := hbegin
      exact .start hc hscreen (some.inj (hlp'.symm.trans hloop)) hout hsess
  | @sub cid₀ c lp hc hlp hfin =>
    refine .exec rfl hc' hlp' fun s' hcid hok hs' => ?_
    subst hcid hs'
    obtain ⟨lp1, s1, hround, hok⟩ := bind_eq_ok hok
    cases hok
    cases hlp'
    exact .pass hc hlp hfin hround rfl rfl
  | reply hc hlp hfin =>
    refine .exec rfl hc' hlp' fun s' hcid hok hs' => ?_
    rw [hs', sendReply_loop hok] at hlp'
    cases hlp'
  | drain hc hq =>
    exact .background rfl hc (nofun) (nofun) (drainOne_background _ _) hc' hlp'
  | tick hc hw =>
    exact .background rfl hc (nofun) (nofun) (watchTick_background _ _) hc' hlp'
  | done hc hw =>
    exact .background rfl hc (nofun) (nofun) (finalizeCN_background _ _ _ _) hc' hlp'
  | close hc hcl => exact .idle (nofun) (nofun) (conns_remove hc').2 rfl

end

section

variable {C : Sys E → Label → Prop} {J : Conn E → Loop → Prop} {S S' : Sys E}

/-- Every frame of the system has the property. -/
def Frames (J : Conn E → Loop → Prop) (S : Sys E) : Prop :=
  ∀ cid c lp, S.conns cid = some c → c.loop = some lp → J c lp

theorem FrameRule.step {l : Label} (hJ : FrameRule srv C J) (hb : Base S) (h : Frames J S)
    (hC : C S l) (hs : S.step srv l = some S') : Frames J S' := by
  intro cid c' lp' hc' hlp'
  cases step_frame hs hc' hlp' with
  | idle _ _ hc hframe =>
    simp only [Conn.frame, Prod.mk.injEq] at hframe
    exact hJ.congr hframe.1 hframe.2.1 (h _ _ _ hc (hframe.2.2.symm.trans hlp'))
  | @start raw msg via c s hc hscreen hlp hout hsess =>
    subst hlp
    exact hJ.congr (c := { s.c with out := [] }) hout hsess (hJ.start hb hc hC hscreen)
  | @pass c lp s hc hlp hfin hround hout hsess =>
    have hl := (hb _ _ hc).2.2
    have hmoves := round_moves srv lp hl (s := ⟨S.sh, c⟩)
    rw [hround] at hmoves
    exact hJ.congr hout hsess (hJ.pass hb hc hlp hfin hC (h _ _ _ hc hlp) hmoves (round_pass hl hround) hround)

/-- **What holds when a frame is taken up and is kept by each pass holds of every frame
in every state reached.** -/
theorem FrameRule.reach (hJ : FrameRule srv C J) {w : E.World}
    (hS : (system srv w).Reach C S) : Frames J S := by
  induction hS with
  | init => exact fun cid c lp hc => nomatch hc
  | step hS hC hs ih => exact hJ.step (reach_base hS) ih hC hs

end

end Server
end SmbServer

/-
# Which opens share locks and oplocks

The lock managers and the oplock table are kept for the whole server under the path of an
open, the string that its client sent.  A backend reads such strings through `cleanPath`,
and each share has a backend of its own.  So two opens of one file may be kept under two
strings, and two opens of different shares under one.

`KeysFaithful` says that neither happens: opens use the same lock manager and the same
oplock slot exactly when they are of the same share and their clients' paths come to the
same.  That holds as long as every CREATE spells its path as the opens of that file do,
and no open of another share is kept under it (`KeyOk`).
-/

import SmbServer.Server.Opens
import SmbServer.Vfs.Local

namespace SmbServer
namespace Server

open Wire Vfs Function Option Sys

variable {E : Env} {srv : Config E}
variable {x : Live E} {k : Option (Command E)} {s s' : St E} {S : Sys E}

/-- What is written through one of the two opens is read through the other: in the lock
managers and in the oplock table. -/
structure OpenHandle.SharesTables (x y : OpenHandle E) : Prop where
  locks : ∀ (locks : GoString → LockManager) m, Function.update locks x.path m y.path = m
  oplocks : ∀ (oplocks : GoString → Option OplockInfo) i, Function.update oplocks x.path i y.path = i

/-- **Lock and oplock identity.**  Of any two opens, with the paths their clients sent. -/
def KeysFaithful (S : Sys E) : Prop :=
  ∀ x ∈ S.live, ∀ y ∈ S.live, ∃ p q, (x.createdAs S.sh.trace).map Prod.fst = some p ∧
    (y.createdAs S.sh.trace).map Prod.fst = some q ∧
    (x.oh.SharesTables y.oh ↔ x.share.name = y.share.name ∧ cleanPath p = cleanPath q)

/-- A CREATE of the path on the share agrees with an open. -/
def Live.Agrees (x : Live E) (share : Share E) (path : GoString) : Prop :=
  (x.oh.path = path → x.share.name = share.name) ∧
    (x.share.name = share.name → cleanPath x.oh.path = cleanPath path → x.oh.path = path)

/-- Every CREATE agrees with the opens there are. -/
def KeyOk (S : Sys E) : Label → Prop
  | .sub cid => ∀ c ∈ S.conns cid, ∀ lp ∈ c.loop, ∀ k ∈ nextCommand c lp, ∀ req ∈ k.create?,
      ∀ tr ∈ c.tree? k.origin.sid k.origin.tid, ∀ x ∈ S.live, x.Agrees tr.share (openOptions req).path
  | _ => True

section Decidable

instance (x : Live E) (share : Share E) (path : GoString) : Decidable (x.Agrees share path) :=
  inferInstanceAs (Decidable ((x.oh.path = path → x.share.name = share.name) ∧
    (x.share.name = share.name → cleanPath x.oh.path = cleanPath path → x.oh.path = path)))

instance (S : Sys E) : ∀ l, Decidable (KeyOk S l)
  | .sub cid => inferInstanceAs (Decidable (∀ c ∈ S.conns cid, ∀ lp ∈ c.loop, ∀ k ∈ nextCommand c lp,
      ∀ req ∈ k.create?, ∀ tr ∈ c.tree? k.origin.sid k.origin.tid, ∀ x ∈ S.live,
        x.Agrees tr.share (openOptions req).path))
  | .accept | .recv _ _ | .reply _ | .drain _ | .tick _ _ | .done _ _ | .close _ => isTrue trivial

end Decidable

theorem OpenHandle.sharesTables_iff {x y : OpenHandle E} : x.SharesTables y ↔ x.path = y.path := by
  constructor
  · intro h
    by_contra hne
    have hslot := h.oplocks (fun _ => none) (some ⟨Arr.zero 16, 0, 0, [], 0, false⟩)
    rw [update_of_ne (Ne.symm hne)] at hslot
    cases hslot
  · intro h
    exact ⟨fun _ _ => by rw [h, update_self], fun _ _ => by rw [h, update_self]⟩

/-! ### Where the opens of a step come from -/

/-- `x` was there before, up to what an open remembers. -/
def Live.Was (x x₀ : Live E) : Prop := x₀.share = x.share ∧ x₀.oh.path = x.oh.path

/-- `x` is the open of a CREATE on a tree of `c`. -/
def Live.MadeBy (x : Live E) (k : Command E) (c : Conn E) : Prop :=
  ∃ req tr, k.create? = some req ∧ c.tree? k.origin.sid k.origin.tid = some tr ∧ tr.share = x.share ∧
    x.oh.path = (openOptions req).path

/-- A tree after the steps of a command was there before, unless that was a TREE_CONNECT. -/
theorem Change.tree_run (h : Relation.ReflTransGen (Change srv k) s s')
    (hcmd : ∀ cmd, k = some cmd → cmd.origin.cmd ≠ cmdTreeConnect) {sid : UInt64} {tid : UInt32} {tr' : Tree E}
    (ht : s'.c.tree? sid tid = some tr') : ∃ tr, s.c.tree? sid tid = some tr ∧ tr'.share = tr.share := by
  induction h generalizing tr' with
  | refl => exact ⟨tr', ht, rfl⟩
  | tail _ hst ih =>
    cases hst with
    | aside ha => exact ih (by rwa [ha.tree?] at ht)
    | exec cmd hk hf hs => exact ih ht
    | effect cmd hk hf he =>
      rcases he.tree_cases ht with ⟨tr, htr, hsh⟩ | ⟨hc, -⟩
      · obtain ⟨tr0, htr0, hsh0⟩ := ih htr
        exact ⟨tr0, htr0, hsh.trans hsh0⟩
      · exact absurd hc (hcmd cmd hk)

theorem Change.base_run (h : Relation.ReflTransGen (Change srv k) s s')
    (hl : s.c.Listed) : s'.c.id = s.c.id ∧ s'.c.Listed := by
  induction h with
  | refl => exact ⟨rfl, hl⟩
  | tail _ hst ih =>
    have hbase := hst.base ih.2
    exact ⟨hbase.1.trans ih.1, hbase.2⟩

/-- **The opens of a connection after a command** were there before or are its own. -/
theorem Change.live_run (h : Relation.ReflTransGen (Change srv k) s s')
    (hl : s.c.Listed) (hx : x ∈ s'.c.live) :
    (∃ x0 ∈ s.c.live, x.Was x0) ∨ ∃ cmd, k = some cmd ∧ x.MadeBy cmd s.c := by
  induction h generalizing x with
  | refl => exact .inl ⟨x, hx, rfl, rfl⟩
  | @tail s1 s' hrun hst ih =>
    obtain ⟨hid, tr', htr', hsh, ho⟩ := Conn.mem_live.1 hx
    rw [(hst.base (Change.base_run hrun hl).2).1] at hid
    cases hst with
    | aside ha =>
      rw [ha.tree?] at htr'
      exact ih (Conn.mem_live.2 ⟨hid, tr', htr', hsh, ho⟩)
    | exec cmd hk hf hs => exact ih hx
    | effect cmd hk hf he =>
      have hopen : s'.c.open? x.sid x.tid x.fid = some x.oh := by
        rw [Conn.open?, htr']
        exact ho
      obtain ⟨tr1, htr1, hsh1⟩ : ∃ tr, s1.c.tree? x.sid x.tid = some tr ∧ tr'.share = tr.share := by
        rcases he.tree_cases htr' with htr1 | ⟨-, hempty, -⟩
        · exact htr1
        · rw [hempty] at ho
          cases ho
      rcases he.open_cases hopen with ⟨oh0, ho0, -, -, hp, -⟩ |
        ⟨hsid, htid, hcmd, tr, req, hd, r, hreq, -, -, -, -, hoh⟩
      · rw [Conn.open?, htr1] at ho0
        have hx1 : { x with oh := oh0 } ∈ s1.c.live :=
          Conn.mem_live.2 ⟨hid, tr1, htr1, hsh1.symm.trans hsh, ho0⟩
        rcases ih hx1 with ⟨x0, hx0, hsh0, hp0⟩ | ⟨cmd, hk, req, tr, hreq, htr, hsh0, hp0⟩
        · exact .inl ⟨x0, hx0, hsh0, hp0.trans hp.symm⟩
        · exact .inr ⟨cmd, hk, req, tr, hreq, htr, hsh0, hp.trans hp0⟩
      · have hne : ∀ cmd', k = some cmd' → cmd'.origin.cmd ≠ cmdTreeConnect := fun cmd' hk' => by
          rw [← some.inj (hk.symm.trans hk'), hcmd]
          decide
        obtain ⟨tr0, htr0, hsh0⟩ := Change.tree_run hrun hne htr1
        rw [hsid, htid] at htr0
        refine .inr ⟨cmd, hk, req, tr0, Command.create?_eq_some hf hcmd hreq, htr0, ?_, by rw [hoh]⟩
        rw [← hsh0, ← hsh1, hsh]

/-- **The opens of a server after a transition** were there before or are of the CREATE it
handled. -/
theorem Sys.step_live {S' : Sys E} {l : Label} (hb : Base S) (hb' : Base S') (h : S.step srv l = some S')
    (hx : x ∈ S'.live) : (∃ x0 ∈ S.live, x.Was x0) ∨
      ∃ cid c lp k, l = .sub cid ∧ S.conns cid = some c ∧ c.loop = some lp ∧ nextCommand c lp = some k ∧
        x.MadeBy k c := by
  obtain ⟨c', hc', hx'⟩ := (Sys.mem_live hb').1 hx
  have hold : ∀ {cid c}, S.conns cid = some c → ∀ {x0 : Live E}, x0 ∈ c.live → x.Was x0 →
      ∃ x0 ∈ S.live, x.Was x0 := by
    intro cid c hc x0 hx0 hwas
    refine ⟨x0, (Sys.mem_live hb).2 ⟨c, ?_, hx0⟩, hwas⟩
    rw [(Conn.mem_live.1 hx0).1, (hb _ _ hc).1]
    exact hc
  cases step_moved h with
  | accept =>
    rcases conns_accept hc' with ⟨-, rfl⟩ | ⟨-, hc'⟩
    · obtain ⟨-, tr, htr, -⟩ := Conn.mem_live.1 hx'
      cases htr
    · exact .inl (hold hc' hx' ⟨rfl, rfl⟩)
  | @sub cid c lp s' hc hlp hrun =>
    rcases conns_put hc' with ⟨-, rfl⟩ | ⟨-, hc'⟩
    · rcases Change.live_run (hrun (hb _ _ hc).2.2) (hb _ _ hc).2.2 hx' with ⟨x0, hx0, hwas⟩ | ⟨k, hk, hmade⟩
      · exact .inl (hold hc hx0 hwas)
      · exact .inr ⟨cid, c, lp, k, rfl, hc, hlp, hk, hmade⟩
    · exact .inl (hold hc' hx' ⟨rfl, rfl⟩)
  | @aside _ cid c s' hc ha =>
    rcases conns_put hc' with ⟨-, rfl⟩ | ⟨-, hc'⟩
    · obtain ⟨hid, tr, htr, hsh, ho⟩ := Conn.mem_live.1 hx'
      rw [ha.tree?] at htr
      exact .inl (hold hc (Conn.mem_live.2 ⟨by rw [hid, ha.id], tr, htr, hsh, ho⟩) ⟨rfl, rfl⟩)
    · exact .inl (hold hc' hx' ⟨rfl, rfl⟩)
  | close hc hcl => exact .inl (hold (conns_remove hc').2 hx' ⟨rfl, rfl⟩)

/-! ### The keys in every run -/

/-- The paths of opens tell their files apart, and no more than that. -/
def PathsFaithful (S : Sys E) : Prop :=
  ∀ x ∈ S.live, ∀ y ∈ S.live, x.oh.path = y.oh.path ↔
    x.share.name = y.share.name ∧ cleanPath x.oh.path = cleanPath y.oh.path

theorem Live.Agrees.iff {share : Share E} {path : GoString} (h : x.Agrees share path) :
    x.oh.path = path ↔ x.share.name = share.name ∧ cleanPath x.oh.path = cleanPath path :=
  ⟨fun hp => ⟨h.1 hp, by rw [hp]⟩, fun hs => h.2 hs.1 hs.2⟩

/-- A transition whose CREATE agrees with the opens keeps their paths faithful. -/
theorem PathsFaithful.step {S' : Sys E} {l : Label} (hb : Base S) (hb' : Base S')
    (hok : KeyOk S l) (h : S.step srv l = some S') (hS : PathsFaithful S) : PathsFaithful S' := by
  have hmade : ∀ {cid c lp k}, l = .sub cid → S.conns cid = some c → c.loop = some lp →
      nextCommand c lp = some k → ∀ {x : Live E}, x.MadeBy k c → ∀ {y y0 : Live E}, y0 ∈ S.live → y.Was y0 →
      (y.oh.path = x.oh.path ↔ y.share.name = x.share.name ∧ cleanPath y.oh.path = cleanPath x.oh.path) := by
    rintro cid c lp k rfl hc hlp hk x ⟨req, tr, hreq, htr, hsh, hp⟩ y y0 hy0 ⟨hsh0, hp0⟩
    have hag := (hok c hc lp hlp k hk req hreq tr htr y0 hy0).iff
    rw [hp, ← hsh, ← hsh0, ← hp0]
    exact hag
  intro x hx y hy
  rcases step_live hb hb' h hx with ⟨x0, hx0, hxs, hxp⟩ | ⟨cid, c, lp, k, hl, hc, hlp, hk, hmx⟩ <;>
    rcases step_live hb hb' h hy with ⟨y0, hy0, hys, hyp⟩ | ⟨cid', c', lp', k', hl', hc', hlp', hk', hmy⟩
  · rw [← hxs, ← hys, ← hxp, ← hyp]
    exact hS x0 hx0 y0 hy0
  · exact hmade hl' hc' hlp' hk' hmy hx0 ⟨hxs, hxp⟩
  · have hag := hmade hl hc hlp hk hmx hy0 ⟨hys, hyp⟩
    rw [eq_comm, hag, eq_comm, eq_comm (a := cleanPath x.oh.path)]
  · -- Both are the open of the one command that was handled.
    obtain rfl : cid = cid' := by simpa using hl.symm.trans hl'
    obtain rfl : c = c' := some.inj (hc.symm.trans hc')
    obtain rfl : lp = lp' := some.inj (hlp.symm.trans hlp')
    obtain rfl : k = k' := some.inj (hk.symm.trans hk')
    obtain ⟨req, tr, hreq, htr, hxs, hxp⟩ := hmx
    obtain ⟨req', tr', hreq', htr', hys, hyp⟩ := hmy
    obtain rfl : req = req' := some.inj (hreq.symm.trans hreq')
    obtain rfl : tr = tr' := some.inj (htr.symm.trans htr')
    rw [hxp, hyp, ← hxs, ← hys]
    exact ⟨fun _ => ⟨rfl, rfl⟩, fun _ => rfl⟩

theorem reach_pathsFaithful {w : E.World} (hS : (system srv w).Reach KeyOk S) : PathsFaithful S := by
  induction hS with
  | init => exact fun x hx => nomatch hx
  | @step S S' l hS hok hstep ih =>
    exact ih.step (reach_base hS) (reach_base (hS.step hok hstep)) hok hstep

/-- **Opens share locks and oplocks exactly when they are of one file of one share**, in
every run of the server in which each CREATE agrees with the opens there are. -/
theorem reach_keysFaithful (srv : Config E) (w : E.World) (S : Sys E) (hS : (system srv w).Reach KeyOk S) :
    KeysFaithful S := by
  obtain ⟨hb, htold⟩ := reach_told hS
  have hpath : ∀ x ∈ S.live, (x.createdAs S.sh.trace).map Prod.fst = some x.oh.path := by
    intro x hx
    obtain ⟨c, hc, ho⟩ := Sys.open?_of_mem_live hb hx
    obtain ⟨-, -, level, hcreated⟩ := htold x.cid c x.sid x.tid x.fid x.oh hc ho
    rw [hcreated]
    rfl
  intro x hx y hy
  refine ⟨x.oh.path, y.oh.path, hpath x hx, hpath y hy, ?_⟩
  rw [OpenHandle.sharesTables_iff]
  exact reach_pathsFaithful hS x hx y hy

/-! ### Two spellings of one file -/

/-- The shares are over local backends with different roots. -/
def DistinctLocals {glob : GoString → GoString → Option Bool} {E : Env} (srv : Config (localEnv glob E)) : Prop :=
  (∀ share ∈ srv.shares, ∃ b, share.backend = .inl b) ∧ srv.shares.Pairwise fun x y => x.backend ≠ y.backend

/-- A machine with empty directories, at a time that does not matter. -/
def blankDisk : Disk where
  fs := FileTree.FS.blank ⟨Time.zero, Time.zero, 0o755⟩
  clock _ := Time.zero

/-- The environment of a guest, with local backends; no pattern matches a name. -/
def localGuestEnv : Env := localEnv (fun _ _ => some false) guestEnv

/-- A server whose one share `s` is the root of the machine. -/
def localServer : Config localGuestEnv where
  shares := [⟨[0x73], .inl ⟨[]⟩, false⟩]
  ipcBackend := .inr ()

/-- Two CREATEs by one client. -/
def spellings (first second : Bytes) : List Label :=
  .accept :: exchange 0 setupFrame ++ exchange 0 (treeConnectFrame 1) ++
    exchange 0 (createFrame 1 0 0 first) ++ exchange 0 (createFrame 1 0 0 second)

/-- Two opens of one share whose paths clean to the same are kept under different strings. -/
def Sys.splits (S : Sys E) : Bool :=
  S.live.any fun x => S.live.any fun y => decide (x.oh.path ≠ y.oh.path) &&
    decide (x.share.name = y.share.name) && decide (cleanPath x.oh.path = cleanPath y.oh.path) &&
    decide ((x.createdAs S.sh.trace).map Prod.fst = some x.oh.path) &&
    decide ((y.createdAs S.sh.trace).map Prod.fst = some y.oh.path)

/-- **One file, two lock managers.**  After a CREATE of `\` and one of `/` the two opens
of the share's root share neither locks nor oplocks. -/
theorem spellings_do_not_share :
    ¬∀ (glob : GoString → GoString → Option Bool) (E : Env) (srv : Config (localEnv glob E))
      (w : (localEnv glob E).World) (S : Sys (localEnv glob E)), DistinctLocals srv →
        (system srv w).Reach (fun _ _ => True) S → KeysFaithful S := by
  intro h
  obtain ⟨S, hS, htest⟩ := Transition.Reach.of_run (T := system localServer (blankDisk, (0 : ℕ)))
    (C := fun _ _ => True) (f := Sys.splits) (spellings [0x5C, 0x00] [0x2F, 0x00]) (by decide +kernel) (by decide +kernel)
  have hfaithful := h (fun _ _ => some false) guestEnv localServer (blankDisk, (0 : ℕ)) S ?_ hS
  · simp only [Sys.splits, List.any_eq_true, Bool.and_eq_true, decide_eq_true_iff] at htest
    obtain ⟨x, hx, y, hy, ⟨⟨⟨hne, hshare⟩, hclean⟩, hp⟩, hq⟩ := htest
    obtain ⟨p, q, hp', hq', hiff⟩ := hfaithful x hx y hy
    obtain rfl := Option.some.inj (hp.symm.trans hp')
    obtain rfl := Option.some.inj (hq.symm.trans hq')
    exact hne (OpenHandle.sharesTables_iff.1 (hiff.2 ⟨hshare, hclean⟩))
  · refine ⟨fun share hs => ?_, List.pairwise_singleton _ _⟩
    rw [List.mem_singleton.1 hs]
    exact ⟨_, rfl⟩

/-- Two opens under one string do share them. -/
theorem reach_keysFaithful_twice : ∃ S, (system localServer (blankDisk, (0 : ℕ))).Reach KeyOk S ∧
    S.live.length = 2 ∧ KeysFaithful S := by
  obtain ⟨S, hS, htest⟩ := Transition.Reach.of_run (T := system localServer (blankDisk, (0 : ℕ)))
    (C := KeyOk) (f := fun S => decide (S.live.length = 2)) (spellings [0x5C, 0x00] [0x5C, 0x00]) (by decide +kernel)
    (by decide +kernel)
  exact ⟨S, hS, of_decide_eq_true htest, reach_keysFaithful localServer _ S hS⟩

end Server
end SmbServer

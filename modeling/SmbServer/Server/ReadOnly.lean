/-
# Read-only shares

What a run changes on disk where all trees are of read-only shares.  `DiskView` is a
backend that follows the table of dispositions: of the calls a handler can make there,
only an open with a disposition that creates a missing file changes anything, and only
where the file is missing.  OPEN_IF is such a disposition and `handleCreate` lets it
through on a read-only share, so the files stay as they are as long as every CREATE opens
or names a file that is there (`reach_unmodified`).
-/

import SmbServer.Server.Dispositions

namespace SmbServer
namespace Server

open Wire Vfs

variable {E : Env} {srv : Config E}

/-- The files of the backends, with their contents and attributes, as the table of
dispositions has it. -/
structure DiskView (E : Env) where
  F : Type
  files : E.Backend → E.World → F
  /-- The path names a file. -/
  names : F → GoString → Prop
  asked : ∀ b w w', Asked w w' → files b w' = files b w
  reads : ∀ b (op : Call E) w w', op.mutates = false → op.isOpen = false → op.Ran w w' → files b w' = files b w
  /-- FILE_OPEN changes nothing, and what is there is not created again. -/
  opens : ∀ b b' opts w, writesOptions opts = false → opts.disposition = 1 ∨ names (files b' w) opts.path →
    files b (E.openFile b' opts w).2 = files b w

/-- All trees that were connected are of read-only shares. -/
def OnReadOnly (t : List (Event E)) : Prop :=
  ∀ cid sid tid share, .treeConnect cid sid tid share ∈ t → share.readOnly = true

/-- **A CREATE opens, or names a file that is there.** -/
def FoundOk (V : DiskView E) (S : Sys E) (l : Label) : Prop :=
  ∀ cid c lp k req tr, l = .sub cid → S.conns cid = some c → c.loop = some lp → nextCommand c lp = some k →
    k.create? = some req → c.tree? k.origin.sid k.origin.tid = some tr →
    req.createDisposition = 1 ∨ V.names (V.files tr.share.backend S.sh.world) (openOptions req).path

/-- The trees of a connection are on record. -/
def Logged (t : List (Event E)) (c : Conn E) : Prop :=
  ∀ sid tid tr, c.tree? sid tid = some tr → ∃ cid sid tid, .treeConnect cid sid tid tr.share ∈ t

/-- What a command may open, as long as the files are as in the world `w`. -/
def MayOpen (V : DiskView E) (w : E.World) (k : Command E) (s : St E) : Prop :=
  OnReadOnly s.sh.trace → ∀ req tr, k.create? = some req → s.c.tree? k.origin.sid k.origin.tid = some tr →
    req.createDisposition = 1 ∨ V.names (V.files tr.share.backend w) (openOptions req).path

/-- The trees are on record, and the files are as in the world `w`. -/
def Unmodified (V : DiskView E) (w : E.World) (S : Sys E) : Prop :=
  (∀ cid c, S.conns cid = some c → Logged S.sh.trace c) ∧
    (OnReadOnly S.sh.trace → ∀ b, V.files b S.sh.world = V.files b w)

section

variable {V : DiskView E} {w : E.World} {k : Command E} {s s' : St E} {S : Sys E}

theorem OnReadOnly.of_append {l t : List (Event E)} (h : OnReadOnly (l ++ t)) : OnReadOnly t :=
  fun cid sid tid share hm => h cid sid tid share (List.mem_append_right _ hm)

theorem Logged.append {t : List (Event E)} {c : Conn E} (h : Logged t c) (es : List (Event E)) : Logged (es ++ t) c :=
  fun sid tid tr ht => (h sid tid tr ht).imp fun _ => .imp fun _ => .imp fun _ => List.mem_append_right _

theorem DiskView.runs (V : DiskView E) {p : Call E → Prop} {w w' : E.World} (h : Runs p w w')
    (hp : ∀ op, p op → op.mutates = false ∧ op.isOpen = false) (b : E.Backend) : V.files b w' = V.files b w :=
  h.keeps (V.asked b) fun op w w' ho hr => V.reads b op w w' (hp op ho).1 (hp op ho).2 hr

theorem DiskView.ends (V : DiskView E) {origin : Option Origin} {l : List (OpenHandle E)} {sh sh' : Shared E}
    (h : sh.Ends origin l sh') (b : E.Backend) : V.files b sh'.world = V.files b sh.world := by
  refine V.runs h.world (fun op hop => ?_) b
  obtain ⟨oh, -, rfl⟩ := hop
  exact ⟨rfl, rfl⟩

/-- **No step of a command changes a file** on read-only shares. -/
theorem Effect.files (he : Effect srv k.origin k.msg s s') (hf : k.lp.chainFailed = false) (hl : Logged s.sh.trace s.c)
    (hd : MayOpen V w k s) (hw : ∀ b, V.files b s.sh.world = V.files b w) (hro : OnReadOnly s.sh.trace)
    (b : E.Backend) : V.files b s'.sh.world = V.files b s.sh.world := by
  have hread : ∀ {tr}, s.c.tree? k.origin.sid k.origin.tid = some tr → tr.share.readOnly = true := fun htr => by
    obtain ⟨cid, sid, tid, hm⟩ := hl _ _ _ htr
    exact hro cid sid tid _ hm
  cases he with
  | world w' hask => exact V.asked b _ _ hask
  | auth sid w' a hcmd hask => exact V.asked b _ _ hask
  | call w' op h hran hopen =>
    cases hm : op.mutates with
    | true =>
      obtain ⟨tr, htr, hwr⟩ := h.writable hm
      exact absurd (hwr.symm.trans (hread htr)) Bool.false_ne_true
    | false =>
      cases ho : op.isOpen with
      | false => exact V.reads b op _ _ hm ho hran
      | true =>
        obtain ⟨share, req, res, hreq, rfl⟩ := hopen ho
        obtain ⟨tr, htr, rfl⟩ := h.share share rfl
        have hfound := hd hro req tr (Command.create?_eq_some hf (h.opens ho) hreq) htr
        rw [← hw] at hfound
        have hkeep := V.opens b tr.share.backend _ s.sh.world (h.guarded _ _ _ rfl (hread htr)) hfound
        rwa [show E.openFile tr.share.backend (openOptions req) s.sh.world = _ from hran] at hkeep
  | create tr req hd r _ hcmd hreq htr hopen hs =>
    simp only [registerOpen, Outcome.ok.injEq] at hs
    obtain ⟨-, rfl⟩ := hs
    exact congrArg (V.files b) (s.sh.requestOplock_world _ _)
  | treeDisconnect s1 hcmd h0 hc =>
    obtain ⟨l, -, hends⟩ := hc.ends
    exact V.ends hends b
  | logoff s1 hcmd h0 hc =>
    obtain ⟨l, -, hends⟩ := hc.ends
    exact V.ends hends b
  | _ => rfl

theorem Effect.logged {o : Origin} {msg : Bytes} (he : Effect srv o msg s s') (h : Logged s.sh.trace s.c) :
    Logged s'.sh.trace s'.c := by
  intro sid tid tr' ht'
  rcases he.tree_cases ht' with ⟨tr, ht, hsh⟩ | ⟨-, -, -, hm⟩
  · obtain ⟨es, htrace, -⟩ := he.trace
    rw [hsh, htrace]
    exact h.append es _ _ _ ht
  · exact ⟨_, hm⟩

/-- The other connections keep their trees while the trace grows. -/
theorem Unmodified.put (h : Unmodified V w S) {cid : ConnId} {l : List (Event E)}
    (ht : s'.sh.trace = l ++ S.sh.trace) (hl : Logged s'.sh.trace s'.c)
    (hw : OnReadOnly S.sh.trace → ∀ b, V.files b s'.sh.world = V.files b S.sh.world) : Unmodified V w (S.put cid s') := by
  refine ⟨fun cid' c' hc' => ?_, fun hro b => ?_⟩
  · rcases Sys.conns_put hc' with ⟨-, rfl⟩ | ⟨-, hc'⟩
    · exact hl
    · show Logged s'.sh.trace c'
      rw [ht]
      exact (h.1 _ _ hc').append l
  · have hro : OnReadOnly s'.sh.trace := hro
    rw [ht] at hro
    exact (hw hro.of_append b).trans (h.2 hro.of_append b)

theorem unmodified_preserved : Preserved srv (FoundOk V) (MayOpen V w) (Unmodified V w) where
  accept S _ h := by
    refine ⟨fun cid c hc => ?_, h.2⟩
    rcases Sys.conns_accept hc with ⟨rfl, rfl⟩ | ⟨-, hc⟩
    · exact fun sid tid tr ht => by cases ht
    · exact h.1 _ _ hc
  aside S cid c s' _ hc h ha := by
    obtain ⟨es, ht, -⟩ := ha.trace
    refine h.put ht (fun sid tid tr htr => ?_) fun _ b => V.runs ha.world (fun op hop => ?_) b
    · rw [ha.tree?] at htr
      rw [ht]
      exact (h.1 _ _ hc).append es _ _ _ htr
    · obtain ⟨origin, hop⟩ := hop
      cases op with
      | enumerate h p => exact ⟨rfl, rfl⟩
      | _ => cases origin <;> cases hop
  start S cid c lp k _ hc hlp hk h hok hro req tr hreq htr := by
    rw [← h.2 hro]
    exact hok cid c lp k req tr rfl hc hlp hk hreq htr
  carry k s s' hd ha hro req tr hreq htr := by
    obtain ⟨es, ht, -⟩ := ha.trace
    rw [ht] at hro
    rw [ha.tree?] at htr
    exact hd hro.of_append req tr hreq htr
  exec S cid c k _ hc _ _ _ h hd := by
    refine ⟨h.put (l := [_]) rfl ((h.1 _ _ hc).append [_]) fun _ _ => rfl, fun hro => ?_⟩
    exact hd (OnReadOnly.of_append (l := [_]) hro)
  effect S cid c k s' _ hc _ hf h hd he := by
    obtain ⟨es, ht, -⟩ := he.trace
    refine ⟨h.put ht (he.logged (h.1 _ _ hc)) fun hro b => he.files hf (h.1 _ _ hc) hd (h.2 hro) hro b, ?_⟩
    intro hro req tr hreq htr
    rw [ht] at hro
    rcases he.tree_cases htr with ⟨tr0, htr0, hsh⟩ | ⟨hcmd, -⟩
    · rw [hsh]
      exact hd hro.of_append req tr0 hreq htr0
    · exact absurd (hcmd.symm.trans (Command.cmd_of_create? hreq)) (by decide)
  close S cid c s' _ hc h _ hcl := by
    obtain ⟨l, -, hends⟩ := hcl.ends
    obtain ⟨es, ht, -⟩ := hends.trace
    refine ⟨fun cid' c' hc' => ?_, fun hro b => ?_⟩
    · show Logged s'.sh.trace c'
      rw [ht]
      exact (h.1 _ _ (Sys.conns_remove hc').2).append es
    · have hro : OnReadOnly s'.sh.trace := hro
      rw [ht] at hro
      exact (V.ends hends b).trans (h.2 hro.of_append b)

end

/-- **Read-only shares are not modified** in a run in which every CREATE opens, or names a
file that is there. -/
theorem reach_unmodified (V : DiskView E) (srv : Config E) (w : E.World) (S : Sys E)
    (hS : (system srv w).Reach (FoundOk V) S) (hro : OnReadOnly S.sh.trace) (b : E.Backend) :
    V.files b S.sh.world = V.files b w :=
  (unmodified_preserved.reach ⟨fun _ _ h => (nomatch h), fun _ _ => rfl⟩ hS).2.2 hro b

/-! ### OPEN_IF -/

/-- A backend with at most one file, which every path names; the world is 1 where it is
there. -/
def singleEnv : Env :=
  { guestEnv with
    openFile := fun _ opts (w : ℕ) =>
      if w = 1 then (if opts.disposition = fileCreate then .error .exist else .ok w, w)
      else if opts.disposition = 1 ∨ opts.disposition = fileOverwrite then (.error .notExist, w)
      else (.ok w, (1 : ℕ)) }

def singleView : DiskView singleEnv where
  F := ℕ
  files _ w := w
  names w _ := w = 1
  asked _ _ _ h := by cases h <;> rfl
  reads _ op _ _ hm ho h := by
    cases op with
    | openFile => cases ho
    | processPipe => obtain ⟨_, hpp, -⟩ := h; cases hpp
    | read | close | stat | enumerate => exact h.symm
    | _ => cases hm
  opens _ _ opts (w : ℕ) _ h := by
    simp only [singleEnv]
    split_ifs with hw hc hd
    · rfl
    · rfl
    · rfl
    · exact absurd h (not_or.2 ⟨fun h => hd (.inl h), hw⟩)

/-- A session that connects the read-only share `s` and sends an OPEN_IF of the file `f`. -/
def openIfRun : List Label :=
  [.accept] ++ exchange 0 setupFrame ++ exchange 0 (treeConnectFrame 1) ++ exchange 0 (dispositionFrame .openIf)

def singleSystem (w : ℕ) : Transition (Sys singleEnv) Label :=
  system { shares := [⟨[0x73], (), true⟩], ipcBackend := () } w

/-- The file is there, only read-only shares were connected, and one open was made. -/
def createdReadOnly (S : Sys singleEnv) : Bool :=
  Nat.beq S.sh.world 1 && S.sh.trace.any (fun e => match e with | .created .. => true | _ => false) &&
    S.sh.trace.all fun e => match e with | .treeConnect _ _ _ share => share.readOnly | _ => true

theorem onReadOnly_of_created {S : Sys singleEnv} (h : createdReadOnly S = true) : OnReadOnly S.sh.trace := by
  intro cid sid tid share hm
  exact List.all_eq_true.1 (Bool.and_eq_true_iff.1 h).2 _ hm

/-- OPEN_IF of a file that is there. -/
theorem reach_unmodified_openIf : ∃ S, (singleSystem 1).Reach (FoundOk singleView) S ∧ createdReadOnly S = true ∧
    ∀ b, singleView.files b S.sh.world = singleView.files b (1 : ℕ) := by
  obtain ⟨S, hS, hf⟩ := Transition.Reach.of_run (T := singleSystem 1) (C := fun S _ => (show ℕ from S.sh.world) = 1)
    (f := createdReadOnly) openIfRun (by decide +kernel) (by decide +kernel)
  have hS := hS.mono (D := FoundOk singleView) fun S l h _ _ _ _ _ _ _ _ _ _ _ _ => .inr h
  exact ⟨S, hS, hf, reach_unmodified singleView _ (1 : ℕ) S hS (onReadOnly_of_created hf)⟩

/-- **OPEN_IF creates a file on a read-only share.** -/
theorem openIf_creates_on_readOnly : ¬∀ (E : Env) (V : DiskView E) (srv : Config E) (w : E.World) (S : Sys E),
    (system srv w).Reach (fun _ _ => True) S → OnReadOnly S.sh.trace →
      ∀ b, V.files b S.sh.world = V.files b w := by
  intro h
  obtain ⟨S, hS, hf⟩ := Transition.Reach.of_run (T := singleSystem 0) (C := fun _ _ => True) (f := createdReadOnly)
    openIfRun (by decide +kernel) (by decide +kernel)
  have hfiles := h singleEnv singleView _ (0 : ℕ) S hS (onReadOnly_of_created hf) ()
  have hworld := Nat.eq_of_beq_eq_true (Bool.and_eq_true_iff.1 (Bool.and_eq_true_iff.1 hf).1).1
  exact absurd (hworld.symm.trans hfiles : (1 : ℕ) = 0) (by decide)

end Server
end SmbServer

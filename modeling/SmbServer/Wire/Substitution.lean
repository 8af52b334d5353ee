/-
# A FileId put into a request

`handleMessage` writes the FileId of the last CREATE of a frame into a related command,
at a place it takes from the command code (`fileIdOffset`).  Here is what this does to
the ten requests that carry a FileId: the parser of the rewritten request reads the new
FileId, and otherwise what was there, as long as the part of the request that the client
points at itself (the data of a WRITE, the buffer of a SET_INFO, the pattern of a
QUERY_DIRECTORY, the input of an IOCTL) does not lie over the FileId
(`Carrier.parse_copyAt_iff`).
-/

import SmbServer.Wire.Decoding

namespace SmbServer
open Res
namespace Wire

/-- The requests that carry a FileId. -/
inductive Carrier where
  | close | flush | read | write | lock | ioctl | queryDirectory | queryInfo | setInfo | changeNotify
  deriving DecidableEq

namespace Carrier

def cmd : Carrier → UInt16
  | close => cmdClose
  | flush => cmdFlush
  | read => cmdRead
  | write => cmdWrite
  | lock => cmdLock
  | ioctl => cmdIoctl
  | queryDirectory => cmdQueryDirectory
  | queryInfo => cmdQueryInfo
  | setInfo => cmdSetInfo
  | changeNotify => cmdChangeNotify

/-- What the parser of the request returns.  A FLUSH has no parser: `handleFlush` looks at
nothing of the request. -/
def Request : Carrier → Type
  | close => CloseRequest
  | flush => Unit
  | read => ReadRequest
  | write => WriteRequest
  | lock => LockRequest
  | ioctl => IoctlRequest
  | queryDirectory => QueryDirectoryRequest
  | queryInfo => QueryInfoRequest
  | setInfo => SetInfoRequest
  | changeNotify => ChangeNotifyRequest

def parse : (d : Carrier) → Bytes → Res Error d.Request
  | close => CloseRequest.parse
  | flush => fun _ => .ok ()
  | read => ReadRequest.parse
  | write => WriteRequest.parse
  | lock => LockRequest.parse
  | ioctl => IoctlRequest.parse
  | queryDirectory => QueryDirectoryRequest.parse
  | queryInfo => QueryInfoRequest.parse
  | setInfo => SetInfoRequest.parse
  | changeNotify => ChangeNotifyRequest.parse

/-- The request with another FileId and the same other fields. -/
def withFileId (fid : Arr 16) : (d : Carrier) → d.Request → d.Request
  | close => fun req : CloseRequest => { req with fileId := fid }
  | flush => id
  | read => fun req : ReadRequest => { req with fileId := fid }
  | write => fun req : WriteRequest => { req with fileId := fid }
  | lock => fun req : LockRequest => { req with fileId := fid }
  | ioctl => fun req : IoctlRequest => { req with fileId := fid }
  | queryDirectory => fun req : QueryDirectoryRequest => { req with fileId := fid }
  | queryInfo => fun req : QueryInfoRequest => { req with fileId := fid }
  | setInfo => fun req : SetInfoRequest => { req with fileId := fid }
  | changeNotify => fun req : ChangeNotifyRequest => { req with fileId := fid }

/-- Where the parser reads the FileId, from the header on. -/
def fileIdAt : Carrier → ℕ
  | close | flush | lock | ioctl | queryDirectory | changeNotify => createBody + 8
  | read | write | setInfo => createBody + 16
  | queryInfo => createBody + 24

/-- The offset and the length the client gives for the variable part. -/
def buffer (sent : Bytes) : Carrier → ℕ × ℕ
  | write => ((u16At sent (createBody + 2)).toNat, (u32At sent (createBody + 4)).toNat)
  | setInfo => ((u16At sent (createBody + 8)).toNat, (u32At sent (createBody + 4)).toNat)
  | queryDirectory => ((u16At sent (createBody + 24)).toNat, (u16At sent (createBody + 26)).toNat)
  | ioctl => ((u32At sent (createBody + 24)).toNat, (u32At sent (createBody + 28)).toNat)
  | _ => (0, 0)

/-- The parser delivers the request `sent`, with the FileId `fid`. -/
def Delivers (d : Carrier) (sent msg : Bytes) (fid : Arr 16) : Prop :=
  d.parse msg = do return d.withFileId fid (← d.parse sent)

/-- Where the bytes from `off` on, if they are in the message, lie over the 16 bytes from
`o` on, they read as `fid` already. -/
def Agree (msg : Bytes) (fid : Arr 16) (o off len : ℕ) : Prop :=
  off + len ≤ msg.length → ∀ i < 16, off ≤ o + i → o + i < off + len → u8At msg (o + i) = u8At fid.1 i

/-- The variable part of a request that is accepted does not lie over the FileId, but for
bytes that agree with `fid`. -/
def Apart (d : Carrier) (sent : Bytes) (fid : Arr 16) : Prop :=
  ∀ req, d.parse sent = .ok req → Agree sent fid d.fileIdAt (d.buffer sent).1 (d.buffer sent).2

end Carrier

/-! ### Reading beside the FileId -/

section

variable {b : Bytes} {fid : Arr 16} {o k : ℕ}
variable {msg sent : Bytes} {len off : ℕ}

theorem slice_beside {n : ℕ} (h : k + n ≤ o ∨ o + 16 ≤ k) :
    slice (copyAt b o fid.1) k n = slice b k n := by
  rcases h with h | h
  · exact slice_copyAt_before _ _ h
  · exact slice_copyAt_after _ _ _ (by rw [fid.2]; exact h)

theorem u8At_beside (h : k + 1 ≤ o ∨ o + 16 ≤ k) : u8At (copyAt b o fid.1) k = u8At b k := by
  rw [u8At_eq_slice, u8At_eq_slice, slice_beside h]

theorem u16At_beside (h : k + 2 ≤ o ∨ o + 16 ≤ k) : u16At (copyAt b o fid.1) k = u16At b k := by
  rw [u16At, u16At, slice_beside h]

theorem u32At_beside (h : k + 4 ≤ o ∨ o + 16 ≤ k) : u32At (copyAt b o fid.1) k = u32At b k := by
  rw [u32At, u32At, slice_beside h]

theorem u64At_beside (h : k + 8 ≤ o ∨ o + 16 ≤ k) : u64At (copyAt b o fid.1) k = u64At b k := by
  rw [u64At, u64At, slice_beside h]

theorem arr_copyAt {ε : Type} (h : o + 16 ≤ b.length) : (arr (copyAt b o fid.1) o 16 : Res ε _) = .ok fid := by
  rw [arr, dif_pos (by rw [length_copyAt]; exact h)]
  refine congrArg _ (Subtype.ext ?_)
  have hself : slice (copyAt b o fid.1) o fid.1.length = fid.1 := slice_copyAt_self (by rw [fid.2]; exact h)
  rwa [fid.2] at hself

theorem fixedBody_copyAt (msg : Bytes) (need : ℕ) (want : UInt16) (h : 2 ≤ o) :
    fixedBody (copyAt msg (createBody + o) fid.1) need want =
      do return copyAt (← fixedBody msg need want) o fid.1 := by
  unfold fixedBody
  rw [length_copyAt, drop_copyAt]
  split_ifs with hlt
  · rfl
  · have hss : (u16 (copyAt (msg.drop createBody) o fid.1) 0 : Res Error UInt16) =
        u16 (msg.drop createBody) 0 := by
      rw [u16, u16, length_copyAt, u16At_beside (.inl h)]
    simp only [pure_eq, hss]
    cases u16 (msg.drop createBody) 0 with
    | panic => rfl
    | err e => rfl
    | ok ss =>
      simp only [ok_bind]
      split_ifs <;> rfl

/-- A rewritten request is read as its fixed part allows. -/
theorem bind_fixedBody_copyAt {ρ : Type} {need : ℕ} {want : UInt16} {f' f : Bytes → Res Error ρ}
    {set : ρ → ρ} {A : Prop} (h : 2 ≤ o) (hok : ∀ b, b = msg.drop createBody → createBody + need ≤ msg.length →
      need ≤ b.length → need ≤ (copyAt b o fid.1).length →
      ((f' (copyAt b o fid.1) = do return set (← f b)) ↔ ∀ req, f b = .ok req → A)) :
    ((fixedBody (copyAt msg (createBody + o) fid.1) need want >>= f') = do
      return set (← fixedBody msg need want >>= f)) ↔ ∀ req, (fixedBody msg need want >>= f) = .ok req → A := by
  rw [fixedBody_copyAt _ _ _ h]
  cases hb : fixedBody msg need want with
  | err e => exact iff_of_true rfl nofun
  | panic => exact iff_of_true rfl nofun
  | ok b =>
    obtain ⟨hdrop, hle, -⟩ := fixedBody_eq_ok hb
    have hlen := length_fixedBody hb
    exact hok b hdrop hle hlen (by rw [length_copyAt]; exact hlen)

/-- The variable part of the rewritten request. -/
theorem slice_copyAt_iff (ho : o + 16 ≤ msg.length) (h : off + len ≤ msg.length) :
    slice (copyAt msg o fid.1) off len = slice msg off len ↔ Carrier.Agree msg fid o off len := by
  have hfid := fid.2
  rw [slice_eq_slice_iff (length_copyAt ..) h]
  constructor
  · intro hall _ i hi hle hlt
    have := hall (o + i) hle hlt
    rw [u8At_copyAt (by omega), if_pos ⟨by omega, by omega⟩, Nat.add_sub_cancel_left] at this
    exact this.symm
  · intro hall k hle hlt
    rw [u8At_copyAt (by omega)]
    split_ifs with hk
    · have := hall h (k - o) (by omega) (by omega) (by omega)
      rw [show o + (k - o) = k by omega] at this
      exact this.symm
    · rfl

end

/-! ### The parsers -/

theorem CloseRequest.parse_copyAt (msg : Bytes) (fid : Arr 16) :
    CloseRequest.parse (copyAt msg (createBody + 8) fid.1) =
      do return { (← CloseRequest.parse msg) with fileId := fid } := by
  unfold CloseRequest.parse
  refine (bind_fixedBody_copyAt (o := 8) (by omega) fun b _ _ hlen hlen' => iff_of_true ?_ fun _ _ => trivial).2 fun _ _ => trivial
  simp (disch := omega) only [pure_eq, ok_bind, u16_bind, u16At_beside, arr_copyAt, arr_bind]

theorem ReadRequest.parse_copyAt (msg : Bytes) (fid : Arr 16) :
    ReadRequest.parse (copyAt msg (createBody + 16) fid.1) =
      do return { (← ReadRequest.parse msg) with fileId := fid } := by
  unfold ReadRequest.parse
  refine (bind_fixedBody_copyAt (o := 16) (by omega) fun b _ _ hlen hlen' => iff_of_true ?_ fun _ _ => trivial).2 fun _ _ => trivial
  simp (disch := omega) only [pure_eq, ok_bind, u32_bind, u64_bind, u32At_beside, u64At_beside,
    arr_copyAt, arr_bind]

theorem QueryInfoRequest.parse_copyAt (msg : Bytes) (fid : Arr 16) :
    QueryInfoRequest.parse (copyAt msg (createBody + 24) fid.1) =
      do return { (← QueryInfoRequest.parse msg) with fileId := fid } := by
  unfold QueryInfoRequest.parse
  refine (bind_fixedBody_copyAt (o := 24) (by omega) fun b _ _ hlen hlen' => iff_of_true ?_ fun _ _ => trivial).2 fun _ _ => trivial
  simp (disch := omega) only [pure_eq, ok_bind, u8_bind, u32_bind, u8At_beside, u32At_beside,
    arr_copyAt, arr_bind]

/-- The elements of a LOCK lie behind the FileId. -/
theorem lockElements_copyAt (b : Bytes) (fid : Arr 16) (n i : ℕ) :
    lockElements (copyAt b 8 fid.1) n i = lockElements b n i := by
  induction n generalizing i with
  | zero => rfl
  | succ n ih =>
    have h64 : ∀ k, 24 ≤ k → (u64 (copyAt b 8 fid.1) k : Res Error UInt64) = u64 b k := fun k hk => by
      rw [u64, u64, length_copyAt, u64At_beside (.inr hk)]
    have h32 : ∀ k, 24 ≤ k → (u32 (copyAt b 8 fid.1) k : Res Error UInt32) = u32 b k := fun k hk => by
      rw [u32, u32, length_copyAt, u32At_beside (.inr hk)]
    rw [lockElements, lockElements, h64 _ (by omega), h64 _ (by omega), h32 _ (by omega), ih]

theorem LockRequest.parse_copyAt (msg : Bytes) (fid : Arr 16) :
    LockRequest.parse (copyAt msg (createBody + 8) fid.1) =
      do return { (← LockRequest.parse msg) with fileId := fid } := by
  unfold LockRequest.parse
  refine (bind_fixedBody_copyAt (o := 8) (by omega) fun b _ _ hlen hlen' => iff_of_true ?_ fun _ _ => trivial).2 fun _ _ => trivial
  simp (disch := omega) only [pure_eq, ok_bind, u16_bind, u16At_beside, arr_copyAt, arr_bind,
    length_copyAt, lockElements_copyAt]
  split_ifs
  · rfl
  · cases lockElements b (u16At b 2).toNat 0 <;> rfl

/-- A slice in range, of which a rewritten request has the same if it is apart. -/
theorem resSlice_copyAt {fid : Arr 16} {o : ℕ} (ho : o + 16 ≤ msg.length)
    (h : off + len ≤ msg.length) :
    ((Res.slice (copyAt msg o fid.1) off len : Res Error Bytes) = Res.slice msg off len ↔
      Carrier.Agree msg fid o off len) ∧
      ((∃ data, (Res.slice msg off len : Res Error Bytes) = .ok data) ∨ Carrier.Agree msg fid o off len) := by
  simp only [Res.slice, length_copyAt, if_pos h, Res.ok.injEq, slice_copyAt_iff ho h]
  exact ⟨trivial, .inl ⟨_, rfl⟩⟩

theorem varPart_copyAt {fid : Arr 16} {o : ℕ} (ho : o + 16 ≤ msg.length) :
    (varPart (copyAt msg o fid.1) off len = varPart msg off len ↔ Carrier.Agree msg fid o off len) ∧
      ((∃ data, varPart msg off len = .ok data) ∨ Carrier.Agree msg fid o off len) := by
  unfold varPart
  rw [length_copyAt]
  split_ifs with hlt
  · have hagree : Carrier.Agree msg fid o off len := fun h => absurd hlt (by omega)
    exact ⟨iff_of_true rfl hagree, .inr hagree⟩
  · exact resSlice_copyAt ho (by omega)

/-- A request that ends with its variable part. -/
theorem carried_iff {ρ : Type} {x' x : Res Error Bytes} {g' g : Bytes → ρ} {set : ρ → ρ} {A : Prop}
    (hx : (x' = x ↔ A) ∧ ((∃ data, x = .ok data) ∨ A)) (hset : ∀ a, set (g a) = g' a) (hg : ∀ a a', g' a = g' a' → a = a') :
    ((x' >>= fun a => .ok (g' a)) = ((x >>= fun a => .ok (g a)) >>= fun r => .ok (set r))) ↔
      ∀ req, (x >>= fun a => (.ok (g a) : Res Error ρ)) = .ok req → A := by
  have hcarry : ((x >>= fun a => (.ok (g a) : Res Error ρ)) >>= fun r => .ok (set r)) = x >>= fun a => .ok (g' a) := by
    cases x with
    | ok a => exact congrArg Res.ok (hset a)
    | err e => rfl
    | panic => rfl
  rw [hcarry]
  constructor
  · intro heq req hreq
    refine hx.1.1 ?_
    obtain ⟨a, rfl, -⟩ := Res.bind_eq_ok hreq
    obtain ⟨a', rfl, ha⟩ := Res.bind_eq_ok heq
    exact congrArg Res.ok (hg _ _ (Res.ok.inj ha))
  · intro h
    have hA : A := by
      rcases hx.2 with ⟨a, rfl⟩ | hA
      · exact h _ rfl
      · exact hA
    rw [hx.1.2 hA]

theorem WriteRequest.parse_copyAt_iff (msg : Bytes) (fid : Arr 16) :
    (WriteRequest.parse (copyAt msg (createBody + 16) fid.1) =
      do return { (← WriteRequest.parse msg) with fileId := fid }) ↔ Carrier.write.Apart msg fid := by
  unfold Carrier.Apart
  simp only [Carrier.parse, Carrier.fileIdAt, Carrier.buffer]
  unfold WriteRequest.parse
  refine bind_fixedBody_copyAt (o := 16) (by omega) fun b hb hle hlen hlen' => ?_
  simp (disch := omega) only [pure_eq, ok_bind, u16_bind, u32_bind, u64_bind,
    u16At_beside, u32At_beside, u64At_beside, arr_copyAt, arr_bind]
  have ho : createBody + 16 + 16 ≤ msg.length := by unfold createBody at hle ⊢; omega
  simp only [hb, u16At_drop, u32At_drop]
  exact carried_iff (varPart_copyAt ho) (fun _ => rfl) fun a a' h => congrArg WriteRequest.data h

theorem QueryDirectoryRequest.parse_copyAt_iff (msg : Bytes) (fid : Arr 16) :
    (QueryDirectoryRequest.parse (copyAt msg (createBody + 8) fid.1) =
      do return { (← QueryDirectoryRequest.parse msg) with fileId := fid }) ↔ Carrier.queryDirectory.Apart msg fid := by
  unfold Carrier.Apart
  simp only [Carrier.parse, Carrier.fileIdAt, Carrier.buffer]
  unfold QueryDirectoryRequest.parse
  refine bind_fixedBody_copyAt (o := 8) (by omega) fun b hb hle hlen hlen' => ?_
  simp (disch := omega) only [pure_eq, ok_bind, u8_bind, u16_bind, u32_bind,
    u8At_beside, u16At_beside, u32At_beside, arr_copyAt, arr_bind, length_copyAt]
  have ho : createBody + 8 + 16 ≤ msg.length := by unfold createBody at hle ⊢; omega
  simp only [hb, u16At_drop, u32At_drop]
  split_ifs with hr
  · exact carried_iff (resSlice_copyAt ho hr.2) (fun _ => rfl) fun a a' h => congrArg QueryDirectoryRequest.fileName h
  · exact iff_of_true rfl fun _ _ hle i _ h1 h2 => absurd ⟨by omega, hle⟩ hr

theorem IoctlRequest.parse_copyAt_iff (msg : Bytes) (fid : Arr 16) :
    (IoctlRequest.parse (copyAt msg (createBody + 8) fid.1) =
      do return { (← IoctlRequest.parse msg) with fileId := fid }) ↔ Carrier.ioctl.Apart msg fid := by
  unfold Carrier.Apart
  simp only [Carrier.parse, Carrier.fileIdAt, Carrier.buffer]
  unfold IoctlRequest.parse
  refine bind_fixedBody_copyAt (o := 8) (by omega) fun b hb hle hlen hlen' => ?_
  simp (disch := omega) only [pure_eq, ok_bind, u32_bind, u32At_beside, arr_copyAt, arr_bind,
    length_copyAt]
  have ho : createBody + 8 + 16 ≤ msg.length := by unfold createBody at hle ⊢; omega
  simp only [hb, u32At_drop]
  split_ifs with hr
  · exact carried_iff (resSlice_copyAt ho hr.2) (fun _ => rfl) fun a a' h => congrArg IoctlRequest.input h
  · exact iff_of_true rfl fun _ _ hle i _ h1 h2 => absurd ⟨by omega, hle⟩ hr

theorem SetInfoRequest.parse_copyAt_iff (msg : Bytes) (fid : Arr 16) :
    (SetInfoRequest.parse (copyAt msg (createBody + 16) fid.1) =
      do return { (← SetInfoRequest.parse msg) with fileId := fid }) ↔ Carrier.setInfo.Apart msg fid := by
  unfold Carrier.Apart
  simp only [Carrier.parse, Carrier.fileIdAt, Carrier.buffer]
  unfold SetInfoRequest.parse
  refine bind_fixedBody_copyAt (o := 16) (by omega) fun b hb hle hlen hlen' => ?_
  simp (disch := omega) only [pure_eq, ok_bind, u8_bind, u16_bind, u32_bind,
    u8At_beside, u16At_beside, u32At_beside, arr_copyAt, arr_bind]
  have ho : createBody + 16 + 16 ≤ msg.length := by unfold createBody at hle ⊢; omega
  simp only [hb, u16At_drop, u32At_drop]
  exact carried_iff (varPart_copyAt ho) (fun _ => rfl) fun a a' h => congrArg SetInfoRequest.buffer h

/-! ### Any of them -/

namespace Carrier

variable {d : Carrier}

/-- Without a variable part there is nothing over the FileId. -/
theorem apart_of_buffer (h : d.buffer sent = (0, 0)) (fid : Arr 16) : d.Apart sent fid := by
  intro req _ _ i _ _ hlt
  rw [h] at hlt
  omega

/-- **The parser delivers the FileId put in, and the rest as it was sent**, exactly when the
variable part is apart from it. -/
theorem delivers_iff (hd : d ≠ .changeNotify) (sent : Bytes) (fid : Arr 16) :
    d.Delivers sent (copyAt sent d.fileIdAt fid.1) fid ↔ d.Apart sent fid := by
  cases d with
  | close => exact iff_of_true (CloseRequest.parse_copyAt sent fid) (apart_of_buffer rfl fid)
  | flush => exact iff_of_true rfl (apart_of_buffer rfl fid)
  | read => exact iff_of_true (ReadRequest.parse_copyAt sent fid) (apart_of_buffer rfl fid)
  | write => exact WriteRequest.parse_copyAt_iff sent fid
  | lock => exact iff_of_true (LockRequest.parse_copyAt sent fid) (apart_of_buffer rfl fid)
  | ioctl => exact IoctlRequest.parse_copyAt_iff sent fid
  | queryDirectory => exact QueryDirectoryRequest.parse_copyAt_iff sent fid
  | queryInfo => exact iff_of_true (QueryInfoRequest.parse_copyAt sent fid) (apart_of_buffer rfl fid)
  | setInfo => exact SetInfoRequest.parse_copyAt_iff sent fid
  | changeNotify => exact absurd rfl hd

/-- A request too short for its FileId is refused. -/
theorem parse_short (hd : d ≠ .flush) (h : sent.length < d.fileIdAt + 16) :
    ∃ e, d.parse sent = .err e := by
  have hfixed : ∀ {need want}, d.fileIdAt + 16 ≤ createBody + need →
      fixedBody sent need want = .err (.short (createBody + need) sent.length) := by
    intro need want hle
    rw [fixedBody, if_pos (by omega)]
    rfl
  have hbind : ∀ {ρ : Type} {need want} {f : Bytes → Res Error ρ}, d.fileIdAt + 16 ≤ createBody + need →
      ∃ e, (fixedBody sent need want >>= f) = .err e := by
    intro ρ need want f hle
    rw [hfixed hle]
    exact ⟨_, rfl⟩
  cases d with
  | flush => exact absurd rfl hd
  | changeNotify =>
    have h96 : sent.length < 64 + 32 := by simp only [fileIdAt, createBody] at h; omega
    refine ⟨.short (64 + 32) sent.length, ?_⟩
    simp only [parse, ChangeNotifyRequest.parse, if_pos h96]
    rfl
  | _ => exact hbind (by decide)

theorem delivers_short (hd : d ≠ .flush) (h : sent.length < d.fileIdAt + 16) (fid : Arr 16) :
    d.Delivers sent sent fid ∧ d.Apart sent fid := by
  obtain ⟨e, he⟩ := parse_short hd h
  refine ⟨?_, fun req hreq => ?_⟩
  · rw [Delivers, he]
    rfl
  · rw [he] at hreq
    cases hreq

/-- A CHANGE_NOTIFY as it was sent has the FileId of the client. -/
theorem delivers_changeNotify_iff (sent : Bytes) (fid : Arr 16) : changeNotify.Delivers sent sent fid ↔
    ∀ req, ChangeNotifyRequest.parse sent = .ok req → req.fileId = fid := by
  unfold Delivers
  simp only [parse, withFileId]
  cases ChangeNotifyRequest.parse sent with
  | err e => exact iff_of_true rfl nofun
  | panic => exact iff_of_true rfl nofun
  | ok req =>
    constructor
    · intro heq req' hreq'
      obtain rfl := Res.ok.inj hreq'
      exact congrArg ChangeNotifyRequest.fileId (Res.ok.inj heq)
    · intro h
      rw [← h req rfl]
      rfl

end Carrier

end Wire
end SmbServer

/-
# Decoding requests

What the server takes out of a message of at least 64 bytes, over all its request
decoders: the `Parse` methods (`SmbServer.Wire.Decoding`) and the buffers of
SET_INFO, which `handleSetInfo` reads itself.

One of them is not safe.  `handleSetInfo` compares `int(20+fnLen)` with the length
of a rename buffer, but `fnLen` is a `uint32`, and so is the sum.  A name length of
at least `2^32 - 20` wraps to an end below 20, passes the check and makes
`req.Buffer[20 : 20+fnLen]` a slice that ends before it starts
(`inRange_iff`).  Every other decoder adds `int`s.
-/

import SmbServer.Server.System
import SmbServer.Wire.Decoding

namespace SmbServer
namespace Server

open Wire

variable {E : Env}

/-- The request decoders of the server. -/
inductive Decoder where
  | negotiate | sessionSetup | treeConnect | create | close | read | write
  | queryDirectory | queryInfo | setInfo | lock | ioctl | changeNotify
  deriving DecidableEq

/-- A decoder rejects a message or takes only slices of it that are in range.  The
info buffer of a SET_INFO is decoded by `setFileInfo`, on any open and in any state. -/
def Decoder.InRange : Decoder → Bytes → Prop
  | .negotiate, msg => headerSize ≤ msg.length ∧ (NegotiateRequest.parse (msg.drop headerSize)).Safe
  | .sessionSetup, msg => (SessionSetupRequest.parse msg).Safe
  | .treeConnect, msg => (TreeConnectRequest.parse msg).Safe
  | .create, msg => (CreateRequest.parse msg).Safe
  | .close, msg => (CloseRequest.parse msg).Safe
  | .read, msg => (ReadRequest.parse msg).Safe
  | .write, msg => (WriteRequest.parse msg).Safe
  | .queryDirectory, msg => (QueryDirectoryRequest.parse msg).Safe
  | .queryInfo, msg => (QueryInfoRequest.parse msg).Safe
  | .setInfo, msg => (SetInfoRequest.parse msg).Safe ∧
      ∀ req, SetInfoRequest.parse msg = .ok req → req.infoType = infoFile →
        ∀ (E : Env) (o : Origin) (oh : OpenHandle E) (s : St E), (setFileInfo o req oh).Returns s
  | .lock, msg => (LockRequest.parse msg).Safe
  | .ioctl, msg => (IoctlRequest.parse msg).Safe
  | .changeNotify, msg => (ChangeNotifyRequest.parse msg).Safe

/-- The message is a SET_INFO whose rename buffer tells a name length that does not
fit into 32 bits together with the 20 bytes before the name. -/
def nameWraps (msg : Bytes) : Bool :=
  match SetInfoRequest.parse msg with
  | .ok req => req.infoType = infoFile ∧ req.fileInfoClass = fileRenameInformation ∧
      20 ≤ req.buffer.length ∧ 2 ^ 32 ≤ 20 + (u32At req.buffer 16).toNat
  | _ => false

/-! ### The buffers of SET_INFO -/

theorem setInfo_returns (o : Origin) (oh : OpenHandle E) (req : Vfs.SetInfoRequest) (s : St E) :
    (setInfo o oh req).Returns s := by
  unfold setInfo
  cases E.setInfo oh.h with
  | none => exact .pure _
  | some si => exact ⟨_, _, rfl⟩

/-- The end of the name lies before its start exactly when the sum wraps. -/
theorem nameEnd_lt_iff (n : UInt32) : (20 + n).toNat < 20 ↔ 2 ^ 32 ≤ 20 + n.toNat := by
  have hn : n.toNat < 2 ^ 32 := n.toNat_lt
  rw [UInt32.toNat_add, show (20 : UInt32).toNat = 20 from rfl]
  omega

theorem renameFile_returns_iff (o : Origin) (oh : OpenHandle E) (buffer : Bytes) (s : St E) :
    (renameFile o oh buffer).Returns s ↔
      ¬(20 ≤ buffer.length ∧ 2 ^ 32 ≤ 20 + (u32At buffer 16).toNat) := by
  rw [← nameEnd_lt_iff]
  unfold renameFile
  extract_lets replaceIfExist stop
  split_ifs with hlen hstop hwrap
  · exact iff_of_true (.pure _) (by omega)
  · exact iff_of_true (.pure _) (by omega)
  · exact iff_of_false Go.not_returns_fault (not_not.2 ⟨by omega, hwrap⟩)
  · refine iff_of_true ?_ fun h => hwrap h.2
    cases E.rename oh.h with
    | none => exact .pure _
    | some rn => exact ⟨_, _, rfl⟩

/-- Of the four buffers only that of a rename can be out of range. -/
theorem setFileInfo_returns_iff (o : Origin) (req : Wire.SetInfoRequest) (oh : OpenHandle E) (s : St E) :
    (setFileInfo o req oh).Returns s ↔
      ¬(req.fileInfoClass = fileRenameInformation ∧ 20 ≤ req.buffer.length ∧
        2 ^ 32 ≤ 20 + (u32At req.buffer 16).toNat) := by
  have hne : ∀ c : UInt8, req.fileInfoClass = c → c ≠ fileRenameInformation →
      ¬(req.fileInfoClass = fileRenameInformation ∧ 20 ≤ req.buffer.length ∧
        2 ^ 32 ≤ 20 + (u32At req.buffer 16).toNat) := fun c hc hcn h => hcn (hc ▸ h.1)
  unfold setFileInfo
  split_ifs with hd hshort hb he hshort' hr
  · exact iff_of_true (.pure _) (hne _ hd (by decide))
  · exact iff_of_true ⟨_, _, rfl⟩ (hne _ hd (by decide))
  · refine iff_of_true ?_ (hne _ hb (by decide))
    have hsafe := FileBasicInformation.parse_safe req.buffer
    cases hp : FileBasicInformation.parse req.buffer with
    | ok bi => exact setInfo_returns ..
    | err e => exact .pure _
    | panic => exact absurd hp hsafe
  · exact iff_of_true (.pure _) (hne _ he (by decide))
  · exact iff_of_true (setInfo_returns ..) (hne _ he (by decide))
  · rw [renameFile_returns_iff, and_iff_right hr]
  · exact iff_of_true (.pure _) fun h => hr h.1

/-! ### All decoders -/

theorem setInfo_inRange_iff (msg : Bytes) : Decoder.setInfo.InRange msg ↔ nameWraps msg = false := by
  have hsafe := SetInfoRequest.parse_safe msg
  simp only [Decoder.InRange, nameWraps]
  cases hp : SetInfoRequest.parse msg with
  | panic => exact absurd hp hsafe
  | err e => exact iff_of_true ⟨.throw e, nofun⟩ rfl
  | ok req =>
    simp only [Res.ok.injEq, forall_eq', setFileInfo_returns_iff, decide_eq_false_iff_not]
    constructor
    · rintro ⟨-, h⟩ ⟨hty, hwrap⟩
      -- Whether the buffer is in range does not depend on the open and the state.
      exact h hty guestEnv ⟨0, 0, 0, 0⟩ ⟨(0 : ℕ), Arr.zero 16, [], false, false, [], 0, []⟩
        ⟨{ world := (0 : ℕ) }, newConn 0⟩ hwrap
    · exact fun h => ⟨.ok req, fun hty E o oh s hwrap => h ⟨hty, hwrap⟩⟩

/-- **The decoders take only slices of the message, but for the name of a rename whose
length wraps.** -/
theorem inRange_iff (d : Decoder) (msg : Bytes) (hmsg : 64 ≤ msg.length) :
    d.InRange msg ↔ (d = .setInfo → nameWraps msg = false) := by
  cases d with
  | setInfo => exact (setInfo_inRange_iff msg).trans ⟨fun h _ => h, fun h => h rfl⟩
  | negotiate => exact iff_of_true ⟨hmsg, NegotiateRequest.parse_safe _⟩ fun h => by cases h
  | sessionSetup => exact iff_of_true (SessionSetupRequest.parse_safe msg) fun h => by cases h
  | treeConnect => exact iff_of_true (TreeConnectRequest.parse_safe msg) fun h => by cases h
  | create => exact iff_of_true (CreateRequest.parse_safe msg) fun h => by cases h
  | close => exact iff_of_true (CloseRequest.parse_safe msg) fun h => by cases h
  | read => exact iff_of_true (ReadRequest.parse_safe msg) fun h => by cases h
  | write => exact iff_of_true (WriteRequest.parse_safe msg) fun h => by cases h
  | queryDirectory => exact iff_of_true (QueryDirectoryRequest.parse_safe msg) fun h => by cases h
  | queryInfo => exact iff_of_true (QueryInfoRequest.parse_safe msg) fun h => by cases h
  | lock => exact iff_of_true (LockRequest.parse_safe msg) fun h => by cases h
  | ioctl => exact iff_of_true (IoctlRequest.parse_safe msg) fun h => by cases h
  | changeNotify => exact iff_of_true (ChangeNotifyRequest.parse_safe msg) fun h => by cases h

/-- A SET_INFO that renames an open to a name of `n` bytes, of which `name` is sent. -/
def renameFrame (sid : UInt64) (tid : UInt32) (fid : FileId) (n : UInt32) (name : Bytes) : Bytes :=
  Header.encode { command := cmdSetInfo, sessionId := sid, treeId := tid } ++
    put16 33 ++ [infoFile, fileRenameInformation] ++ put32 (UInt32.ofNat (20 + name.length)) ++
    put16 96 ++ zeros 6 ++ fid.1 ++ zeros 16 ++ put32 n ++ name ++ zeros 1

theorem renameFrame_inRange :
    64 ≤ (renameFrame 1 0 (Arr.zero 16) 2 [0x67, 0]).length ∧
      Decoder.setInfo.InRange (renameFrame 1 0 (Arr.zero 16) 2 [0x67, 0]) :=
  ⟨by decide, (inRange_iff .setInfo _ (by decide)).2 fun _ => by decide +kernel⟩

/-- A name of `2^32 - 1` bytes ends before it starts. -/
theorem not_inRange_wrapped : ¬∀ d msg, 64 ≤ msg.length → Decoder.InRange d msg := by
  intro h
  have hin := h .setInfo (renameFrame 1 0 (Arr.zero 16) 0xFFFFFFFF []) (by decide)
  rw [setInfo_inRange_iff] at hin
  revert hin
  decide +kernel

end Server
end SmbServer

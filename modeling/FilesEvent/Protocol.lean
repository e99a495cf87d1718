import FilesEvent.Lib.Framing

/-! The wire protocol of `common/protocol.h` and `common/basedef.h`: a frame is
a `NET_CMD` header of four 32-bit words followed by `dwLength` bytes. -/

namespace FilesEvent
open Bytes

/-! ## Constants -/

def netFlag : Nat := 0xfefdfcfb

def moduleMsgPing : Nat := 0
def moduleMsgLogin : Nat := 1
def moduleMsgLoginRet : Nat := 2
def moduleMsgFiles : Nat := 3
def moduleMsgControlPlay : Nat := 7
def moduleMsgDataEnd : Nat := 8
def moduleMsgSectionEnd : Nat := 9

def cmdLen : Nat := 1500
def fileMemoryLen : Nat := 1024 * 1024
def ownSockExit : Int := -1528

/-- `sizeof(NET_CMD)`, `sizeof(NET_HEAD)`. -/
def sizeofNetCmd : Nat := 16
/-- `sizeof(FILE_GET)`, without its flexible array. -/
def sizeofFileGet : Nat := 8
def sizeofLoginRet : Nat := 1032
def sizeofFileInfo : Nat := 8

/-! ## Records as bytes -/

/-- A `NET_CMD` header. -/
def netCmd (dwCmd dwIndex dwLength : Nat) : List UInt8 :=
  le32 netFlag ++ le32 dwCmd ++ le32 dwIndex ++ le32 dwLength

def dwCmd (cmd : List UInt8) : Nat := rd32 (cmd.drop 4)
def dwLength (cmd : List UInt8) : Nat := rd32 (cmd.drop 12)

/-- A `FILE_GET` record, up to its data. -/
def fileGet (dwPos nLength : Nat) : List UInt8 := le32 dwPos ++ le32 nLength

/-- The `dwPos` and `nLength` of a FILES frame. -/
def fileGetPos (cmd : List UInt8) : Nat := rd32 (cmd.drop 16)
def fileGetLength (cmd : List UInt8) : Nat := rd32 (cmd.drop 20)

/-- The file data of a FILES frame. -/
def fileData (cmd : List UInt8) : List UInt8 := cmd.drop (sizeofNetCmd + sizeofFileGet)

/-- A `LOGIN_RET` whose `lpData` holds a `FILE_INFO` from 0 to `tmEnd`, zeros after it. -/
def loginRet (lRet tmEnd : Nat) : List UInt8 :=
  le32 lRet ++ le32 sizeofFileInfo ++ le32 0 ++ le32 tmEnd ++ zeros 1016

/-- The `tmEnd` of the `FILE_INFO` in a LOGINRET frame. -/
def loginRetTmEnd (cmd : List UInt8) : Nat := rd32 (cmd.drop 28)

/-- The header of a FILES frame with its `FILE_GET`; the file data follows. -/
def filesHead (dwPos nLength : Nat) : List UInt8 :=
  netCmd moduleMsgFiles 0 (nLength + sizeofFileGet) ++ fileGet dwPos nLength

/-- The LOGINRET frame for a file of `tmEnd` bytes. -/
def loginRetFrame (tmEnd : Nat) : List UInt8 :=
  netCmd moduleMsgLoginRet 0 sizeofLoginRet ++ loginRet 0 tmEnd

/-- `dwLength` is stored into an `int` by all three receivers. -/
def netFormat : Framing.Format where
  h := sizeofNetCmd
  h_pos := by decide
  len b := asInt (dwLength b)
  len_take b := by
    have h : (b.take sizeofNetCmd).drop 12 = (b.drop 12).take 4 := by
      rw [List.drop_take]; rfl
    rw [dwLength, dwLength, h, rd32_take _ (Nat.le_refl 4)]
  len_int b := by
    have h := rd32_lt (b.drop 12)
    rcases Nat.lt_or_ge (dwLength b) 2147483648 with hlt | hge
    · rw [asInt_of_lt hlt]; omega
    · rw [asInt_neg hge h]
      have : dwLength b < 4294967296 := h
      omega

@[simp] theorem netFormat_h : netFormat.h = 16 := rfl
theorem netFormat_len (b : List UInt8) : netFormat.len b = asInt (dwLength b) := by
  rw [netFormat]

theorem length_of_isFrame {f : List UInt8} (hf : netFormat.IsFrame f) :
    f.length = sizeofNetCmd + dwLength f := by
  have hlt : dwLength f < 4294967296 := rd32_lt _
  have hge := hf.1
  have hlen := hf.2
  rw [netFormat_h] at hge
  rw [netFormat_len, netFormat_h] at hlen
  have h16 : sizeofNetCmd = 16 := rfl
  rcases Nat.lt_or_ge (dwLength f) 2147483648 with h | h
  · rw [asInt_of_lt h] at hlen
    omega
  · rw [asInt_neg h hlt] at hlen
    omega

@[simp] theorem length_netCmd (c i l : Nat) : (netCmd c i l).length = 16 := rfl
@[simp] theorem length_fileGet (p l : Nat) : (fileGet p l).length = 8 := rfl
@[simp] theorem length_loginRet (l t : Nat) : (loginRet l t).length = 1032 := by
  simp [loginRet]

@[simp] theorem length_filesHead (p n : Nat) : (filesHead p n).length = 24 := rfl
@[simp] theorem length_loginRetFrame (t : Nat) : (loginRetFrame t).length = 1048 := by
  simp [loginRetFrame]

/-! ## Reading the records back -/

theorem dwCmd_netCmd (c i l : Nat) (x : List UInt8) :
    dwCmd (netCmd c i l ++ x) = c % 4294967296 := by
  have h : (netCmd c i l ++ x).drop 4 = le32 c ++ (le32 i ++ le32 l ++ x) := by
    simp [netCmd, le32]
  rw [dwCmd, h, rd32_le32]

theorem dwLength_netCmd (c i l : Nat) (x : List UInt8) :
    dwLength (netCmd c i l ++ x) = l % 4294967296 := by
  have h : (netCmd c i l ++ x).drop 12 = le32 l ++ x := by simp [netCmd, le32]
  rw [dwLength, h, rd32_le32]

theorem dwCmd_filesHead (p n : Nat) (x : List UInt8) :
    dwCmd (filesHead p n ++ x) = moduleMsgFiles := by
  rw [filesHead, List.append_assoc, dwCmd_netCmd]
  rfl

theorem dwLength_filesHead (p n : Nat) (x : List UInt8) :
    dwLength (filesHead p n ++ x) = (n + 8) % 4294967296 := by
  rw [filesHead, List.append_assoc, dwLength_netCmd]
  rfl

theorem fileGetPos_filesHead (p n : Nat) (x : List UInt8) :
    fileGetPos (filesHead p n ++ x) = p % 4294967296 := by
  have h : (filesHead p n ++ x).drop 16 = le32 p ++ (le32 n ++ x) := by
    simp [filesHead, netCmd, fileGet, le32]
  rw [fileGetPos, h, rd32_le32]

theorem fileGetLength_filesHead (p n : Nat) (x : List UInt8) :
    fileGetLength (filesHead p n ++ x) = n % 4294967296 := by
  have h : (filesHead p n ++ x).drop 20 = le32 n ++ x := by
    simp [filesHead, netCmd, fileGet, le32]
  rw [fileGetLength, h, rd32_le32]

theorem fileData_filesHead (p n : Nat) (x : List UInt8) : fileData (filesHead p n ++ x) = x := rfl

theorem dwCmd_loginRetFrame (t : Nat) (x : List UInt8) :
    dwCmd (loginRetFrame t ++ x) = moduleMsgLoginRet := by
  rw [loginRetFrame, List.append_assoc, dwCmd_netCmd]
  rfl

/-- The fields of a header are those of the buffer that begins with it. -/
theorem dwCmd_take (b : List UInt8) {n : Nat} (h : 8 ≤ n) : dwCmd (b.take n) = dwCmd b := by
  rw [dwCmd, dwCmd, List.drop_take, rd32_take _ (by omega)]

theorem fileGetLength_take (b : List UInt8) {n : Nat} (h : 24 ≤ n) :
    fileGetLength (b.take n) = fileGetLength b := by
  rw [fileGetLength, fileGetLength, List.drop_take, rd32_take _ (by omega)]

/-- A header that announces its payload, and the payload. -/
theorem isFrame_netCmd (c i : Nat) {x : List UInt8} (hx : x.length < 2147483648) :
    netFormat.IsFrame (netCmd c i x.length ++ x) := by
  refine ⟨by simp, ?_⟩
  have hl : dwLength (netCmd c i x.length ++ x) = x.length := by
    rw [dwLength_netCmd]; omega
  simp only [netFormat, hl, asInt_of_lt hx, sizeofNetCmd, List.length_append, length_netCmd]
  omega

theorem isFrame_filesHead (p : Nat) {data : List UInt8} (hd : data.length < 2147483640) :
    netFormat.IsFrame (filesHead p data.length ++ data) := by
  have h := isFrame_netCmd moduleMsgFiles 0 (x := fileGet p data.length ++ data) (by
    rw [List.length_append, length_fileGet]; omega)
  rwa [List.length_append, length_fileGet, Nat.add_comm 8, ← List.append_assoc] at h

theorem isFrame_loginRetFrame (t : Nat) : netFormat.IsFrame (loginRetFrame t) := by
  have h := isFrame_netCmd moduleMsgLoginRet 0 (x := loginRet 0 t) (by simp)
  rwa [length_loginRet] at h

/-- A header that announces nothing is a frame. -/
theorem isFrame_header (c i : Nat) : netFormat.IsFrame (netCmd c i 0) := by
  have h := isFrame_netCmd c i (x := []) (by decide)
  rwa [List.append_nil] at h

end FilesEvent

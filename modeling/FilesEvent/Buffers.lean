import FilesEvent.Protocol

/-! The two buffer records of `common/basedef.h`, and what a callback does to
the world outside its object, as a list of actions in order. -/

namespace FilesEvent
open Bytes Framing

/-! ## Buffers -/

/-- `tagCmdBuffer`. -/
structure CmdBuffer where
  cmmd : List UInt8
  bProcCmmd : Bool
  hasProcLen : Int
  totalLen : Int

namespace CmdBuffer

def reset : CmdBuffer := ⟨zeros cmdLen, true, 0, sizeofNetCmd⟩

/-- The fields that frames go through. -/
def rx (b : CmdBuffer) : Rx := ⟨b.cmmd, b.bProcCmmd, b.hasProcLen, b.totalLen⟩
def ofRx (x : Rx) : CmdBuffer := ⟨x.buf, x.head, x.has, x.total⟩

@[simp] theorem rx_ofRx (x : Rx) : (ofRx x).rx = x := rfl

end CmdBuffer

/-- `tagFileProcBuffer`. The constructor does not initialise `memLen`, which is
read only after `createMem`. -/
structure FileProcBuffer where
  cmmd : List UInt8
  bProcCmmd : Bool
  hasProcLen : Int
  totalLen : Int
  dataLen : Int
  memLen : Int
  data : Option (List UInt8)

namespace FileProcBuffer

def empty : FileProcBuffer := ⟨zeros cmdLen, true, 0, 0, 0, 0, none⟩

/-- `reset` keeps the heap block. -/
def reset (b : FileProcBuffer) : FileProcBuffer :=
  { b with cmmd := zeros cmdLen, totalLen := 0, dataLen := 0, hasProcLen := 0, bProcCmmd := true }

/-- `createMem(len)`; `block` is the memory `malloc(len)` returns. -/
def createMem (b : FileProcBuffer) (block : List UInt8) : FileProcBuffer :=
  match b.data with
  | none => { b with data := some block, memLen := block.length }
  | some _ => b

@[simp] theorem createMem_cmmd (b : FileProcBuffer) (block : List UInt8) :
    (b.createMem block).cmmd = b.cmmd := by
  unfold createMem; cases b.data <;> rfl
@[simp] theorem createMem_hasProcLen (b : FileProcBuffer) (block : List UInt8) :
    (b.createMem block).hasProcLen = b.hasProcLen := by
  unfold createMem; cases b.data <;> rfl

def setToVideo (b : FileProcBuffer) : FileProcBuffer :=
  { b with bProcCmmd := false, hasProcLen := 0, totalLen := b.dataLen }

/-- The heap block, empty while it is not allocated. -/
def mem (b : FileProcBuffer) : List UInt8 := b.data.getD []

/-- A receiver collects header and payload in the heap block. -/
def rx (b : FileProcBuffer) : Rx := ⟨b.mem, b.bProcCmmd, b.hasProcLen, b.totalLen⟩
def setRx (b : FileProcBuffer) (x : Rx) : FileProcBuffer :=
  { b with data := some x.buf, bProcCmmd := x.head, hasProcLen := x.has, totalLen := x.total }

@[simp] theorem rx_setRx (b : FileProcBuffer) (x : Rx) : (b.setRx x).rx = x := rfl

end FileProcBuffer

/-! ## Actions -/

/-- The three places where a complete frame is handled. -/
inductive Handler
  | session
  | sender
  | receiver
  deriving DecidableEq, Repr

/-- What a callback does to the world outside its object.

* `recv a`: a `recv` into the range `a`;
* `frame w f rest`: the complete frame `f` reaches the handling code `w`, with
  `rest` of the stream not yet received;
* `built inFlight f`: the header of a new frame, `f` with its data, overwrites
  `cmmd` while `totalLen` is `inFlight`;
* `memset cnt memLen`, `fread cnt memLen`: a store of up to `cnt` bytes at the
  start of the heap block, for which `memLen` bytes are allocated;
* `file isOpen`: `ftell`, `fread` or `fwrite` on a `FILE *` that is open or NULL;
* `sent cmd bs`: the socket takes `bs` of a frame whose header says `cmd`;
* `fetch path`: a new task is given the file `path`;
* `start`, `resume`: a "start" or a "send" control has been processed;
* `saved bs`: `bs` is written to the save file;
* `dataEnd`: the client handles a DATAEND;
* `overrun`: the handling code reads or writes past the end of an array. -/
inductive Act
  | recv (a : Ask)
  | frame (w : Handler) (f rest : List UInt8)
  | built (inFlight : Int) (f : List UInt8)
  | memset (cnt memLen : Int)
  | fread (cnt memLen : Int)
  | file (isOpen : Bool)
  | sent (cmd : Nat) (bs : List UInt8)
  | fetch (path : List UInt8)
  | start
  | resume
  | saved (bs : List UInt8)
  | dataEnd
  | overrun
  deriving DecidableEq, Repr

namespace Act

/-- The bytes handed to the socket. -/
def sentBytes (acts : List Act) : List UInt8 :=
  acts.flatMap fun | .sent _ bs => bs | _ => []

/-- The commands of the frames that bytes were handed to the socket for. -/
def sentCmds (acts : List Act) : List Nat :=
  acts.flatMap fun | .sent cmd _ => [cmd] | _ => []

/-- The frames built, in order. -/
def builtFrames (acts : List Act) : List (List UInt8) :=
  acts.flatMap fun | .built _ f => [f] | _ => []

/-- The bytes written to the save file. -/
def savedBytes (acts : List Act) : List UInt8 :=
  acts.flatMap fun | .saved bs => bs | _ => []

/-- The frames that reached handling code, in order, each with the stream that
had not been received then. -/
def handled (acts : List Act) : List (List UInt8 × List UInt8) :=
  acts.flatMap fun | .frame _ f rest => [(f, rest)] | _ => []

/-- The frames that the handling code `w` was given. -/
def framesOf (w : Handler) (acts : List Act) : List (List UInt8) :=
  acts.flatMap fun | .frame w' f _ => if w' = w then [f] else [] | _ => []

/-- The files that tasks were given. -/
def fetched (acts : List Act) : List (List UInt8) :=
  acts.flatMap fun | .fetch path => [path] | _ => []

/-- The destination ranges of the `recv` calls. -/
def asks (acts : List Act) : List Ask :=
  acts.flatMap fun | .recv a => [a] | _ => []

@[simp] theorem sentBytes_append (a b : List Act) :
    sentBytes (a ++ b) = sentBytes a ++ sentBytes b := List.flatMap_append
@[simp] theorem sentCmds_append (a b : List Act) : sentCmds (a ++ b) = sentCmds a ++ sentCmds b :=
  List.flatMap_append
@[simp] theorem builtFrames_append (a b : List Act) :
    builtFrames (a ++ b) = builtFrames a ++ builtFrames b := List.flatMap_append
@[simp] theorem savedBytes_append (a b : List Act) :
    savedBytes (a ++ b) = savedBytes a ++ savedBytes b := List.flatMap_append
@[simp] theorem handled_append (a b : List Act) :
    handled (a ++ b) = handled a ++ handled b := List.flatMap_append
@[simp] theorem framesOf_append (w : Handler) (a b : List Act) :
    framesOf w (a ++ b) = framesOf w a ++ framesOf w b := List.flatMap_append
@[simp] theorem fetched_append (a b : List Act) : fetched (a ++ b) = fetched a ++ fetched b :=
  List.flatMap_append
@[simp] theorem asks_append (a b : List Act) : asks (a ++ b) = asks a ++ asks b :=
  List.flatMap_append

@[simp] theorem asks_frame (w : Handler) (f rest : List UInt8) (l : List Act) :
    asks (frame w f rest :: l) = asks l := rfl
@[simp] theorem asks_fetch (path : List UInt8) (l : List Act) :
    asks (fetch path :: l) = asks l := rfl
@[simp] theorem handled_fetch (path : List UInt8) (l : List Act) :
    handled (fetch path :: l) = handled l := rfl
@[simp] theorem handled_recv (k : Ask) (l : List Act) : handled (recv k :: l) = handled l := rfl
@[simp] theorem handled_frame (w : Handler) (f rest : List UInt8) (l : List Act) :
    handled (frame w f rest :: l) = (f, rest) :: handled l := rfl

@[simp] theorem framesOf_frame (w : Handler) (f rest : List UInt8) (l : List Act) :
    framesOf w (frame w f rest :: l) = f :: framesOf w l := by
  simp [framesOf]
@[simp] theorem framesOf_fetch (w : Handler) (path : List UInt8) (l : List Act) :
    framesOf w (fetch path :: l) = framesOf w l := rfl
@[simp] theorem fetched_frame (w : Handler) (f rest : List UInt8) (l : List Act) :
    fetched (frame w f rest :: l) = fetched l := rfl
@[simp] theorem fetched_fetch (path : List UInt8) (l : List Act) :
    fetched (fetch path :: l) = path :: fetched l := rfl

@[simp] theorem savedBytes_nil : savedBytes [] = [] := rfl
@[simp] theorem savedBytes_recv (k : Ask) (l : List Act) :
    savedBytes (recv k :: l) = savedBytes l := rfl
@[simp] theorem savedBytes_frame (w : Handler) (f rest : List UInt8) (l : List Act) :
    savedBytes (frame w f rest :: l) = savedBytes l := rfl
@[simp] theorem savedBytes_dataEnd (l : List Act) : savedBytes (dataEnd :: l) = savedBytes l := rfl

/-- The logs of `recv` calls only. -/
@[simp] theorem asks_map_recv (l : List Ask) : asks (l.map recv) = l := by
  simp [asks, List.flatMap_map]
@[simp] theorem handled_map_recv (l : List Ask) : handled (l.map recv) = [] := by
  simp [handled, List.flatMap_map]
@[simp] theorem framesOf_map_recv (w : Handler) (l : List Ask) : framesOf w (l.map recv) = [] := by
  simp [framesOf, List.flatMap_map]
@[simp] theorem fetched_map_recv (l : List Ask) : fetched (l.map recv) = [] := by
  simp [fetched, List.flatMap_map]
@[simp] theorem savedBytes_map_recv (l : List Ask) : savedBytes (l.map recv) = [] := by
  simp [savedBytes, List.flatMap_map]

/-- What building and sending a frame leaves in the log. -/
def IsSend : Act → Prop
  | .built _ _ | .memset _ _ | .fread _ _ | .file _ | .sent _ _ => True
  | _ => False

theorem asks_of_isSend {acts : List Act} (h : ∀ a ∈ acts, a.IsSend) : asks acts = [] :=
  List.flatMap_eq_nil_iff.mpr fun a ha => by
    have := h a ha
    cases a <;> first | rfl | cases this

theorem handled_of_isSend {acts : List Act} (h : ∀ a ∈ acts, a.IsSend) : handled acts = [] :=
  List.flatMap_eq_nil_iff.mpr fun a ha => by
    have := h a ha
    cases a <;> first | rfl | cases this

theorem fetched_of_isSend {acts : List Act} (h : ∀ a ∈ acts, a.IsSend) : fetched acts = [] :=
  List.flatMap_eq_nil_iff.mpr fun a ha => by
    have := h a ha
    cases a <;> first | rfl | cases this

theorem framesOf_of_isSend {acts : List Act} (h : ∀ a ∈ acts, a.IsSend) (w : Handler) :
    framesOf w acts = [] :=
  List.flatMap_eq_nil_iff.mpr fun a ha => by
    have := h a ha
    cases a <;> first | rfl | cases this

end Act

end FilesEvent

import Binkd.Crypt
import Binkd.Env
import Binkd.Lib.Codec
import Binkd.Md5

/-!
# The state of a session (`protoco2.h`)

`State` is `STATE` (its field `to` is `toNode` here), cut into the parts that the different functions of
`protocol.c` work on: `Login` for the handshake and the modes it settles, `Link`
for the buffers, queues and keys of the connection, `Tx` for the sending side and
`Rx` for the receiving side.

Two fields are not in the source.  `Link.log` records every frame in the order in
which it was put into the output queue or built as a data block, newest first,
and `TFile.id` numbers the transfers.  No function reads either.
-/

namespace Binkd

open Lib

/-! ### Message types -/

def M_NUL : Byte := 0
def M_ADR : Byte := 1
def M_PWD : Byte := 2
def M_FILE : Byte := 3
def M_OK : Byte := 4
def M_EOB : Byte := 5
def M_GOT : Byte := 6
def M_ERR : Byte := 7
def M_BSY : Byte := 8
def M_GET : Byte := 9
def M_SKIP : Byte := 10
def M_MAX : Byte := 10

/-! ### Flags -/

/-- `state.state`: `P_NULL`, `P_NONSECURE`, `P_SECURE`. -/
inductive Security
  | null | nonsecure | secure
deriving DecidableEq, Repr

/-- `state.state_ext`: `P_NA`, `P_WE_NONSECURE`, `P_REMOTE_NONSECURE`. -/
inductive SecurityExt
  | na | weNonsecure | remoteNonsecure
deriving DecidableEq, Repr

/-- The bits `WANT_NR`, `WE_NR`, `THEY_NR` of `NR_flag`. -/
structure NrFlag where
  want : Bool := false
  we : Bool := false
  they : Bool := false
deriving DecidableEq, Repr

/-- The bits `WE_ND`, `THEY_ND`, `CAN_NDA` of `ND_flag`. -/
structure NdFlag where
  we : Bool := false
  they : Bool := false
  canNda : Bool := false
deriving DecidableEq, Repr

/-- The bits `WE_CRYPT`, `THEY_CRYPT`, `YES_CRYPT` of `crypt_flag`. -/
structure CryptFlag where
  we : Bool := false
  they : Bool := false
  yes : Bool := false
deriving DecidableEq, Repr

/-- `NO_CRYPT`, `WE_CRYPT | THEY_CRYPT`, `YES_CRYPT`. -/
def CryptFlag.no : CryptFlag := {}
def CryptFlag.both : CryptFlag := { we := true, they := true }
def CryptFlag.on : CryptFlag := { yes := true }

/-- The bits for GZ (1) and BZ2 (2) of `z_canrecv`, `z_cansend` and `z_recv`. -/
structure ZFlag where
  gz : Bool := false
  bz2 : Bool := false
deriving DecidableEq, Repr

/-- A value of `z_recv` other than 0. -/
def ZFlag.isOn (z : ZFlag) : Bool := z.gz || z.bz2

/-- `z_send`: the compression method of the file being sent. -/
inductive ZSend
  | off | gz | bz2
deriving DecidableEq, Repr

/-! ### Files in transfer -/

/-- `TFILE`; `id` is 0 for a zeroed record. -/
structure TFile where
  f : Option Handle := none
  path : Str := []
  flo : Str := []
  netname : Str := []
  action : Byte := 0
  type : Byte := 0
  size : Int := 0
  time : Int := 0
  start : Int := 0
  fa : FtnAddr := ⟨[], 0, 0, 0, 0⟩
  id : Nat := 0
deriving DecidableEq

/-- `TF_ZERO`. -/
def TFile.zero : TFile := {}

/-- An entry of the queue, `FTNQ`. -/
structure Ftnq where
  fa : FtnAddr := {}
  flvr : Byte := 0
  action : Byte := 0
  type : Byte := 0
  path : Str := []
  size : Int := 0
  time : Int := 0
  sent : Bool := false
deriving DecidableEq

/-- `KILLLIST`. -/
structure KillEntry where
  name : Str
  cond : Byte
deriving DecidableEq

/-- `EVTQ`. -/
structure Evtq where
  evtType : Byte
  path : Str
deriving DecidableEq

/-! ### Frames sent -/

/-- An `M_FILE` message: the file it announces, the offset (`none` is -1) and the
extra parameters as they stand in the text. -/
structure FileMsg where
  file : TFile
  off : Option Nat
  extra : Str
deriving DecidableEq

/-- The text of an `M_FILE` message. -/
def FileMsg.text (m : FileMsg) : Str :=
  m.file.netname ++ str " " ++ decimal (toUnsigned64 m.file.size) ++ str " " ++
    decimal (toUnsigned64 m.file.time) ++ str " " ++
    (match m.off with | some n => decimal n | none => str "-1") ++ m.extra

/-- A frame as it was queued or built. -/
inductive Item
  | msg (t : Byte) (text : Str)
  | file (m : FileMsg)
  | data (payload : List Byte)
deriving DecidableEq

/-! ### The parts of the state -/

/-- The handshake and the modes of the session.  `fa` has `nallfa` entries, the
first `nfa` of which are active. -/
structure Login where
  expectedPwd : Str := str "-"
  fa : List FtnAddr := []
  nfa : Nat := 0
  /-- our addresses as presented, `none` for a null `pAddr` -/
  pAddr : Option (List FtnAddr) := none
  state : Security := .null
  stateExt : SecurityExt := .na
  nrFlag : NrFlag := {}
  ndFlag : NdFlag := {}
  mdFlag : BitVec 32 := 0
  mdChallenge : Option (List Byte) := none
  cryptFlag : CryptFlag := {}
  zCanrecv : ZFlag := {}
  zCansend : ZFlag := {}
  listedFlag : Nat := 0
  major : Int := 1
  minor : Int := 0
  buggyNr : Bool := false
  extcmd : Bool := false
  delayAdr : Bool := false
  delayEob : Nat := 0
  sysop : Str := []
deriving DecidableEq

/-- The connection.  A queued message is its bytes as `msg_send2` left them;
`pend` are the `oleft` bytes at `optr`; `ibuf` are the `iread` bytes of the block
being read, and `isize` is `none` while its header is. -/
structure Link where
  msgs : List (List Byte) := []
  pend : List Byte := []
  keysOut : Keys 64 := ⟨0, 0, 0⟩
  ibuf : List Byte := []
  isize : Option Nat := none
  imsg : Bool := false
  keysIn : Keys 64 := ⟨0, 0, 0⟩
  msgsInBatch : Nat := 0
  ioError : Bool := false
  log : List Item := []
deriving DecidableEq

/-- The sending side. -/
structure Tx where
  out : TFile := {}
  flo : TFile := {}
  sentFls : List TFile := []
  q : List Ftnq := []
  maxflvr : Byte := 104
  rSkippedFlag : Bool := false
  localEOB : Bool := false
  offReqSent : Bool := false
  waitingForGOT : Bool := false
  sendEof : Bool := false
  ndAddr : FtnAddr := ⟨[], -1, 0, 0, 0⟩
  killlist : List KillEntry := []
  nosendlist : List Str := []
  zSend : ZSend := .off
  zOdata : Option (List (Call Byte)) := none
  /-- the first `z_oleft` bytes of `z_obuf` -/
  zObuf : List Byte := []
  filesSent : Nat := 0
  bytesSent : Int := 0
  nextId : Nat := 1
deriving DecidableEq

/-- The receiving side. -/
structure Rx where
  inf : TFile := {}
  inComplete : TFile := {}
  inbound : Str
  skipAllFlag : Bool := false
  zRecv : ZFlag := {}
  zIdata : Option (List (Call Byte)) := none
  remoteEOB : Bool := false
  getFileBalance : Int := 0
  rcvdlist : List Str := []
  evtQueue : List Evtq := []
  filesRcvd : Nat := 0
  bytesRcvd : Int := 0
deriving DecidableEq

/-- What a session does to the inbound and temporary areas. -/
inductive RxOp
  | openTmp (path : Str)
  | append (path : Str) (bytes : List Byte)
  | done (source target : Str)
  | removeTmp (path : Str)
deriving DecidableEq

/-- `STATE`, the disk, and the record of the file operations of the receiving
side and of the removals from the spool, newest first. -/
structure State where
  toNode : Option FtnNode
  remoteFa : Option FtnAddr
  peerName : Str := []
  ipaddr : Str := []
  login : Login := {}
  link : Link := {}
  tx : Tx := {}
  rx : Rx
  disk : Disk := ∅
  ops : List RxOp := []
deriving DecidableEq

end Binkd

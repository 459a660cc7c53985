import Binkd.FtnAddr
import Binkd.Lib.Codec
import Mathlib.Data.BitVec

/-!
# Nodes and the configuration (`ftnnode.c`, `readcfg.h`)

`FtnNode` is a record of the node table and `BinkdConfig` what the session reads
of the configuration.  `getNodeInfo` looks a node up; the records that
`get_defnode_info` adds to the table have no password and the flags of
`defnode`, so the lookup is a function of the configured table and of the clock.
-/

namespace Binkd

open Lib

/-- `MAXPWDLEN`, `MAX_NETNAME`, `MAX_BLKSIZE`, `MIN_BLKSIZE`, `ZBLKSIZE`. -/
def maxPwdLen : Nat := 40
def maxNetname : Nat := 255
def maxBlksize : Nat := 0x7fff
def minBlksize : Nat := 128
def zblksize : Nat := 1024

/-- `MD_ON`, `MD_OFF`, `MD_USE_OLD`. -/
inductive MdFlag
  | on | off | useOld
deriving DecidableEq, Repr

/-- The values 1, -1 and 0 of a node's `MD_flag`. -/
def MdFlag.val : MdFlag → BitVec 32
  | .on => 1
  | .off => -1
  | .useOld => 0

/-- `RIP_OFF`, `RIP_ON`, `RIP_SIP`. -/
inductive RestrictIP
  | off | on | sip
deriving DecidableEq, Repr

/-- `HC_ON`, `HC_OFF`, `HC_USE_OLD`. -/
inductive HcFlag
  | on | off | useOld
deriving DecidableEq, Repr

theorem dash_length : (str "-").length ≤ maxPwdLen := by decide

theorem dash_nul : (0 : Byte) ∉ str "-" := by decide

theorem none_nul : ∀ s ∈ (none : Option Str), (0 : Byte) ∉ s := by decide

/-- `FTN_NODE`.  The password buffer holds at most `MAXPWDLEN` bytes, and neither
password contains a NUL. -/
structure FtnNode where
  fa : FtnAddr
  /-- `NL_UNLISTED` 0, `NL_NODE` 1, `NL_PASSWORDS` 2 -/
  listed : Nat := 1
  hosts : Option Str := none
  pwd : Str := str "-"
  pktPwd : Option Str := none
  outPwd : Option Str := none
  oboxFlvr : Byte := 102
  obox : Option Str := none
  ibox : Option Str := none
  pipe : Option Str := none
  nrFlag : Bool := false
  ndFlag : Bool := false
  mdFlag : MdFlag := .useOld
  hcFlag : HcFlag := .useOld
  restrictIP : RestrictIP := .off
  ncFlag : Bool := false
  recheck : Int := 0
  pwd_length : pwd.length ≤ maxPwdLen := by first | exact dash_length | decide
  pwd_nul : (0 : Byte) ∉ pwd := by first | exact dash_nul | decide
  outPwd_nul : ∀ s ∈ outPwd, (0 : Byte) ∉ s := by first | exact none_nul | decide
deriving DecidableEq

/-- The password text used towards a node, `out_pwd ? out_pwd : "-"`. -/
def FtnNode.outPwdText (n : FtnNode) : Str := n.outPwd.getD (str "-")

/-- `SHARED_CHAIN`: the shared address and the nodes that share it. -/
structure SharedChain where
  sha : FtnAddr
  sfa : List FtnAddr

/-- `akachain`: a hide-aka or present-aka rule. -/
structure AkaChain where
  present : Bool
  negate : Bool
  mask : Str
  fa : FtnAddr

/-- `addrtype`, the bits `A_LST`, `A_UNLST`, `A_PROT`, `A_UNPROT`. -/
abbrev AddrType := BitVec 4

/-- `skipchain`. -/
structure SkipChain where
  mask : Str
  atype : AddrType
  size : Int
  destr : Bool

/-- `EVT_FLAG`. -/
structure EvtFlag where
  pattern : Str
  path : Option Str
  command : Option Str
  imm : Bool

/-- `zrule`. -/
structure Zrule where
  mask : Str
  allow : Bool

inductive RenameStyle
  | renamePostfix | renameExtension | renameBody
deriving DecidableEq

inductive DontSendEmpty
  | none | arcmail | all
deriving DecidableEq

/-- zlib and bzip2 as `do_compress` and `do_decompress` call them: `type` is 1 or 2. -/
structure ZLib where
  doCompress : Nat → Stepper Byte
  doDecompress : Nat → Stepper Byte

/-- A codec that passes its input through and ends when all of it has fitted. -/
def ZLib.stored : ZLib where
  doCompress _ _ k := ⟨min k.src.length k.room, k.src.take k.room,
    if k.finish ∧ k.src.length ≤ k.room then 1 else 0⟩
  doDecompress _ _ k := ⟨min k.src.length k.room, k.src.take k.room, 0⟩

theorem oblksize_default_min : minBlksize ≤ 4096 := by decide

theorem oblksize_default_max : 4096 ≤ maxBlksize := by decide

/-- The part of `BINKD_CONFIG`, and of the global options `no_MD5`, `no_crypt`
and the loaded compression libraries, that a session reads. -/
structure BinkdConfig where
  pAddr : List FtnAddr
  pDomains : List FtnDomain
  pNodArray : List FtnNode := []
  havedefnode : Bool := false
  shares : List SharedChain := []
  akamask : List AkaChain := []
  skipmask : List SkipChain := []
  overwrite : List Str := []
  rfRules : List (Str × Str) := []
  evtFlags : List EvtFlag := []
  zrules : List Zrule := []
  noMD5 : Bool := false
  noCrypt : Bool := false
  zlibLoaded : Bool := true
  bzlib2Loaded : Bool := true
  zlib : ZLib := .stored
  oblksize : Nat := 4096
  zminsize : Int := 1024
  maxServers : Int := 100
  prescan : Bool := true
  sendIfPwd : Bool := false
  killDupPartialFiles : Bool := false
  killOldPartialFiles : Int := 0
  killOldBsy : Int := 0
  minfree : Int := -1
  minfreeNonsecure : Int := -1
  pkthdrType : AddrType := 0
  pkthdrBad : Option Str := none
  inboundcase : InboundCase := .save
  renamestyle : RenameStyle := .renamePostfix
  dontsendempty : DontSendEmpty := .none
  inbound : Str := str "/in"
  inboundNonsecure : Str := str "/unsec"
  tempInbound : Str := []
  tfilebox : Str := []
  bfilebox : Str := []
  deleteablebox : Bool := false
  httpsProxy : Str := []
  httpsSocks : Str := []
  rootDomain : Str := str "binkp.net"
  sysname : Str := []
  sysop : Str := []
  location : Str := []
  nodeinfo : Str := []
  oblksize_min : minBlksize ≤ oblksize := by first | exact oblksize_default_min | decide
  oblksize_max : oblksize ≤ maxBlksize := by first | exact oblksize_default_max | decide

/-! ### The node table -/

/-- The address `0:0/0@defnode`. -/
def defnodeAddr : FtnAddr := ⟨str "defnode", 0, 0, 0, 0⟩

/-- `search_for_node`. -/
def searchForNode (fa : FtnAddr) (config : BinkdConfig) : Option FtnNode :=
  config.pNodArray.find? fun n => ftnaddressCmp n.fa fa = 0

/-- `get_defnode_info`: a known record gets the flags of `defnode`, an unknown
address a new record. -/
def getDefnodeInfo (fa : FtnAddr) (on : Option FtnNode) (config : BinkdConfig) : Option FtnNode :=
  match searchForNode defnodeAddr config with
  | none => on
  | some np => match on with
    | some on => some { on with
        hosts := np.hosts, nrFlag := np.nrFlag, ndFlag := np.ndFlag, mdFlag := np.mdFlag,
        ncFlag := np.ncFlag, hcFlag := np.hcFlag, restrictIP := np.restrictIP, pipe := np.pipe }
    | none => some {
        fa := fa, listed := 0, hosts := np.hosts.filter (· ≠ []),
        oboxFlvr := if np.oboxFlvr ≠ 45 then np.oboxFlvr else 102, obox := np.obox, ibox := np.ibox,
        nrFlag := np.nrFlag, ndFlag := np.ndFlag, mdFlag := np.mdFlag, restrictIP := np.restrictIP,
        hcFlag := np.hcFlag, ncFlag := np.ncFlag, pipe := np.pipe }

/-- `get_node_info` at time `now`. -/
def getNodeInfo (now : Int) (fa : FtnAddr) (config : BinkdConfig) : Option FtnNode :=
  let np := searchForNode fa config
  let old : Bool := match np with
    | none => true
    | some n => n.listed ≠ 1 && n.recheck < now
  let np := if old && config.havedefnode then getDefnodeInfo fa np config else np
  np.map fun n => { n with hosts := some (n.hosts.getD (str "-")) }

/-- The inbound password of an address, which the clock has no part in: `none`
for an address without a node. -/
def nodePwd (fa : FtnAddr) (config : BinkdConfig) : Option Str :=
  match searchForNode fa config with
  | some n => some n.pwd
  | none => if config.havedefnode && (searchForNode defnodeAddr config).isSome
      then some (str "-") else none

/-- A record that is already there keeps its password. -/
theorem getDefnodeInfo_some_pwd (fa : FtnAddr) (n : FtnNode) (config : BinkdConfig) :
    (getDefnodeInfo fa (some n) config).map (·.pwd) = some n.pwd := by
  unfold getDefnodeInfo
  cases searchForNode defnodeAddr config <;> rfl

theorem getDefnodeInfo_none_pwd (fa : FtnAddr) (config : BinkdConfig) :
    (getDefnodeInfo fa none config).map (·.pwd) =
      (searchForNode defnodeAddr config).map fun _ => str "-" := by
  unfold getDefnodeInfo
  cases searchForNode defnodeAddr config <;> rfl

theorem getNodeInfo_pwd (now : Int) (fa : FtnAddr) (config : BinkdConfig) :
    (getNodeInfo now fa config).map (·.pwd) = nodePwd fa config := by
  simp only [getNodeInfo, nodePwd, Option.map_map]
  cases searchForNode fa config with
  | some n =>
    by_cases hr : ((n.listed ≠ 1 && n.recheck < now) && config.havedefnode) = true
    · rw [if_pos hr]
      exact getDefnodeInfo_some_pwd fa n config
    · rw [if_neg hr]
      rfl
  | none =>
    cases hd : config.havedefnode with
    | false => simp
    | true =>
      have h := getDefnodeInfo_none_pwd fa config
      cases hs : searchForNode defnodeAddr config <;> simp [hs] at h ⊢ <;> exact h

theorem pwd_of_getNodeInfo {now : Int} {fa : FtnAddr} {config : BinkdConfig} {n : FtnNode}
    (h : getNodeInfo now fa config = some n) : nodePwd fa config = some n.pwd := by
  rw [← getNodeInfo_pwd now fa config, h]; rfl

end Binkd

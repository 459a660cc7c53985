import Binkd.Inbound
import Binkd.Output

/-!
# Opening a session (`init_protocol`, `banner`, `NUL`)

`initProtocol` is the state a session starts from, `banner` queues the messages
that both sides begin with, and `NUL` reads those of the remote: its version, and
the options of its `OPT` lines, each of which sets a flag of the session.
-/

namespace Binkd

/-- `init_protocol`. -/
def initProtocol (config : BinkdConfig) (to_ : Option FtnNode) (fa : Option FtnAddr) : State where
  toNode := to_
  remoteFa := fa
  login := {
    nrFlag := { want := match to_ with | some n => n.nrFlag || n.ndFlag | none => false }
    ndFlag := { they := match to_ with | some n => n.ndFlag | none => false }
    cryptFlag := { we := !config.noCrypt }
    delayAdr := config.akamask ≠ []
    zCanrecv := { gz := config.zlibLoaded, bz2 := config.bzlib2Loaded } }
  rx := { inbound := config.inboundNonsecure }

/-! ### Our addresses -/

/-- The effect of one hide-aka or present-aka rule. -/
def applyAka (s : State) (ps : AkaChain) (pAddr : List FtnAddr) : List FtnAddr :=
  let cmp := match s.toNode with
    | some n => ftnamaskCmpm ps.mask [n.fa]
    | none => ftnamaskCmpm ps.mask (s.login.fa.take s.login.nfa)
  if cmp = (if ps.negate then -1 else 0) then
    if ps.present then
      if pAddr.any fun a => ftnaddressCmp a ps.fa = 0 then pAddr else pAddr ++ [ps.fa]
    else pAddr.filter fun a => ftnaddressCmp a ps.fa ≠ 0
  else pAddr

/-- `send_ADR`. -/
def sendADR (config : BinkdConfig) (s : State) : State :=
  let pAddr := config.akamask.foldl (fun p ps => applyAka s ps p) (s.login.pAddr.getD config.pAddr)
  msgSend2 M_ADR (pAddr.flatMap fun a => [32] ++ ftnaddressToStr a) []
    { s with login := { s.login with pAddr := some pAddr } }

/-- The names of the compression methods we can receive. -/
def zOpts (l : Login) : Str :=
  (if l.zCanrecv.gz then str " GZ" else []) ++ (if l.zCanrecv.bz2 then str " BZ2" else [])

/-! ### `banner` -/

/-- The challenge: the answering side draws one unless MD5 is off. -/
def bannerChallenge (config : BinkdConfig) (env : Env) (s : State) : State :=
  if !config.noMD5 && s.toNode.isNone then
    msgSend2 M_NUL (str "OPT " ++ mdToString env.challenge) []
      { s with login := { s.login with mdChallenge := some env.challenge } }
  else { s with login := { s.login with mdFlag := 0 } }

/-- The lines about this system. -/
def bannerInfo (config : BinkdConfig) (env : Env) (s : State) : State :=
  msgSendf M_NUL (str "VER binkd/1.1a-115" ++ env.osString ++ str " binkp/1.1") <|
  msgSend2 M_NUL (str "TIME ") env.localTime <|
  msgSend2 M_NUL (str "NDL ") config.nodeinfo <|
  msgSend2 M_NUL (str "LOC ") config.location <|
  msgSend2 M_NUL (str "ZYZ ") config.sysop <|
  msgSend2 M_NUL (str "SYS ") config.sysname s

/-- The options of the calling side. -/
def callerOpt (l : Login) : Str :=
  str " NDA EXTCMD" ++ (if l.nrFlag.want then str " NR" else []) ++
    (if l.ndFlag.they then str " ND" else []) ++ (if l.cryptFlag.we then str " CRYPT" else []) ++ zOpts l

/-- `NR_flag |= WANT_NR` where partial files are found. -/
def autoNr (config : BinkdConfig) (env : Env) (inbound : Str) (s : State) : State :=
  if !s.login.nrFlag.want && !s.login.nrFlag.we &&
      inbHasPartials config env { s with rx := { s.rx with inbound := inbound } } then
    { s with login := { s.login with nrFlag := { s.login.nrFlag with want := true } } }
  else s

/-- `banner`. -/
def banner (config : BinkdConfig) (env : Env) (s : State) : State :=
  let s := bannerInfo config env (bannerChallenge config env s)
  let s := if s.toNode.isSome || !s.login.delayAdr then sendADR config s else s
  if s.toNode.isSome then
    let s := autoNr config env s.rx.inbound s
    msgSend2 M_NUL (str "OPT") (callerOpt s.login) s
  else s

/-! ### `NUL` -/

/-- The versions of binkd with the NR bug. -/
def isBuggyNr (s : Str) : Bool :=
  let v := s.drop 4
  (str "binkd/0.9/").isPrefixOf v || (str "binkd/0.9.1/").isPrefixOf v ||
  (str "binkd/0.9.2/").isPrefixOf v || (str "binkd/0.9.3/").isPrefixOf v ||
  ((str "binkd/0.9.3").isPrefixOf v && isalpha (s.getD 15 0) && s.getD 16 0 = 47) ||
  (str "binkd/0.9.4/").isPrefixOf v

/-- One word of an `OPT` line. -/
def nulOption (config : BinkdConfig) (toNode : Option FtnNode) (w : Str) (l : Login) : Login :=
  if w = str "NR" then { l with nrFlag := { l.nrFlag with we := true } }
  else if w = str "ND" then { l with ndFlag := { l.ndFlag with we := true } }
  else if w = str "NDA" then { l with ndFlag := { l.ndFlag with canNda := true } }
  else if w = str "CRYPT" then { l with cryptFlag := { l.cryptFlag with they := true } }
  else if (str "CRAM-").isPrefixOf w then
    match toNode with
    | some n => if !config.noMD5 && n.mdFlag ≠ .off then { l with mdChallenge := mdGetChallenge w } else l
    | none => l
  else if w = str "GZ" then
    if config.zlibLoaded then { l with zCansend := { l.zCansend with gz := true } } else l
  else if w = str "BZ2" then
    if config.bzlib2Loaded then { l with zCansend := { l.zCansend with bz2 := true } } else l
  else if w = str "EXTCMD" then { l with extcmd := true }
  else l

/-- The version of the protocol in a `VER` line. -/
def nulVersion (s : Str) : Option (Int × Int) :=
  match strstr (str "binkp/") s with
  | none => none
  | some a => match strstr (str ".") a with
    | none => none
    | some b => some (atoi (a.drop 6), atoi (b.drop 1))

/-- What an `M_NUL` line changes. -/
def nulLogin (config : BinkdConfig) (toNode : Option FtnNode) (tail buf : List Byte) (l : Login) : Login :=
  let s := strquote true false (cstr buf)
  match (if (str "VER ").isPrefixOf s then nulVersion s else none) with
  | some (major, minor) =>
    { l with major := major, minor := minor, buggyNr := isBuggyNr s || l.buggyNr }
  | none =>
    if (str "OPT ").isPrefixOf s then
      (getwords (s.drop 4 ++ 0 :: tail) {}).foldl (fun l w => nulOption config toNode w l) l
    else if (str "ZYZ ").isPrefixOf s then { l with sysop := (s.drop 4).take 120 }
    else if (str "FREQ").isPrefixOf s then { l with delayEob := l.delayEob + 1 }
    else l

/-- `NUL`. -/
def NUL (config : BinkdConfig) (env : Env) (buf : List Byte) (s : State) : State × Bool :=
  ({ s with login := nulLogin config s.toNode env.tail buf s.login }, true)

end Binkd

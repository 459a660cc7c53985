import Binkd.Banner

/-!
# Login (`ADR`, `PWD`, `OK`, `complete_login`)

`ADR` goes through the addresses of the remote: it checks each against the
configuration, marks it busy, and collects in `expectedPwd` the password that the
remote has to know and in `mdFlag` what its nodes say about MD5.  On the
answering side `PWD` then decides about the login, on the calling side `OK` does;
both end in `completeLogin`.
-/

namespace Binkd

/-! ### Shared addresses -/

/-- One word in the loop over the share table: blank it (a shared address), or the
shared addresses to add for it. -/
def sharesOf (fa : FtnAddr) : List SharedChain → Option (List FtnAddr)
  | [] => some []
  | chn :: chain =>
    if ftnaddressCmp fa chn.sha = 0 then none
    else
      (sharesOf fa chain).map fun rest =>
        if chn.sfa.any fun a => ftnaddressCmp a fa = 0 then chn.sha :: rest else rest

/-- The shared addresses found before the loop stops at one that is itself shared. -/
def sharesBefore (fa : FtnAddr) : List SharedChain → List FtnAddr
  | [] => []
  | chn :: chain =>
    if ftnaddressCmp fa chn.sha = 0 then []
    else if chn.sfa.any fun a => ftnaddressCmp a fa = 0 then chn.sha :: sharesBefore fa chain
    else sharesBefore fa chain

/-- Fills the first place where `w` stands in `s` with blanks. -/
def blankWord (w : Str) : Str → Option Str
  | [] => if w = [] then some [] else none
  | c :: s =>
    if w.isPrefixOf (c :: s) then some (List.replicate w.length 32 ++ (c :: s).drop w.length)
    else (blankWord w s).map (c :: ·)

/-- `add_shared_akas`: the text with shared addresses blanked, and the text to add. -/
def addSharedAkas (config : BinkdConfig) (tail : List Byte) :
    Nat → Nat → Str → Option Str → Str × Option Str
  | 0, _, s, ad => (s, ad)
  | fuel + 1, i, s, ad =>
    match getwordx (s ++ 0 :: tail) i {} with
    | none => (s, ad)
    | some w =>
      match (parseFtnaddress w config.pDomains).filter (·.is5D) with
      | none => addSharedAkas config tail fuel (i + 1) s ad
      | some fa =>
        let added := sharesBefore fa config.shares
        let ad := if added = [] then ad
          else some (ad.getD [] ++ added.flatMap fun a => [32] ++ ftnaddressToStr a)
        match sharesOf fa config.shares with
        | some _ => addSharedAkas config tail fuel (i + 1) s ad
        | none => match blankWord w s with
          | some s => addSharedAkas config tail fuel i s ad
          | none => addSharedAkas config tail fuel (i + 1) s ad

/-! ### The source address -/

/-- `BINKD_FQDNLEN`. -/
def fqdnLen : Nat := 1025

/-- `get_host_and_port`: a host name, `none` for an entry that cannot be parsed. -/
def hostOf (config : BinkdConfig) (env : Env) (fa : FtnAddr) (s : Str) : Option Str :=
  let bracket := s.headD 0 = 91 ∧ s.contains 93
  let host := if bracket then s.takeWhile (· != 93) else s.takeWhile (· != 58)
  let rest := if bracket then (s.dropWhile (· != 93)).dropWhile (· != 58) else s.dropWhile (· != 58)
  if rest ≠ [] ∧ !env.findPort (rest.drop 1) then none
  else if host = str "*" then
    let base := (if fa.p = 0 then [] else str "p" ++ decimalInt fa.p.toInt ++ str ".") ++
      str "f" ++ decimalInt fa.node.toInt ++ str ".n" ++ decimalInt fa.net.toInt ++ str ".z" ++
      decimalInt fa.z.toInt ++ str "."
    let d := (getDomainInfo fa.domain config.pDomains).bind (·.idomain)
    some ((base ++ d.getD config.rootDomain).take (fqdnLen - 1))
  else some ((if bracket then host.drop 1 else host).take (fqdnLen - 1))

/-- The host list of a node. -/
def hostList (hosts : Str) (tail : List Byte) : List Str :=
  getwordsFrom {} (str ",;") [] (hosts ++ 0 :: tail) (hosts.length + tail.length + 2) 1

/-- The address that the hosts are compared with: `sin` is filled in only where the address of
the peer is known. -/
def Env.source (env : Env) : Option SockAddr := env.peer.or env.sin

/-- The loop over the host list: `ipok`, 1 for a match and -1 for none. -/
def ipLoop (config : BinkdConfig) (env : Env) (fa : FtnAddr) : List Str → Int → Int
  | [], ipok => ipok
  | h :: hosts, ipok =>
    match hostOf config env fa h with
    | none => ipLoop config env fa hosts ipok
    | some host =>
      if host = str "-" then ipLoop config env fa hosts ipok
      else match env.getaddrinfo host with
        | none => ipLoop config env fa hosts ipok
        | some addrs =>
          if addrs.any fun a => some a = env.source then 1
          else ipLoop config env fa hosts (if ipok = 0 ∧ addrs ≠ [] then -1 else ipok)

/-- `ipok` for a node. -/
def ipCheck (config : BinkdConfig) (env : Env) (pn : FtnNode) : Int :=
  ipLoop config env pn.fa (hostList (pn.hosts.getD []) env.tail) (if env.peer.isNone then 2 else 0)

/-- Is the source address of this node's calls restricted in this session? -/
def ipRestricted (config : BinkdConfig) (s : State) (pn : FtnNode) : Bool :=
  pn.restrictIP ≠ .off && (s.toNode.isNone ||
    (pn.pipe.getD [] = [] && config.httpsProxy = [] && config.httpsSocks = []))

/-! ### `ADR` -/

/-- `bsy_add`: the disk with the flag, or `none` where the address is busy. -/
def bsyAdd (config : BinkdConfig) (env : Env) (fa : FtnAddr) (disk : Disk) : Option Disk :=
  let buf := ftnaddressToFilename fa config.pDomains
  if buf = [] then none else disk.createEmptySemFile env ((buf ++ str ".bsy").take maxPathLen)

/-- The local variables of `ADR`. -/
structure AdrLocals where
  mainAkaOk : Bool := false
  ipVerified : Int := 0
  secureNr : Bool := false
  unsecureNr : Bool := false
  secureNd : Bool := false
  unsecureNd : Bool := false

/-- What a round of the loop over the addresses ends with. -/
inductive AdrStep
  | stop (s : State)
  | next (s : State) (l : AdrLocals)

/-- The result of the comparison of passwords for one address. -/
inductive PwdStep
  | accept (l : Login)
  | drop (l : Login)

/-- The password part of a round: the address is dropped where it does not fit. -/
def adrPwd (toNode : Option FtnNode) (remoteFa : Option FtnAddr) (fa : FtnAddr) (pn : FtnNode)
    (l : Login) : PwdStep :=
  if l.expectedPwd = [] then .accept l
  else match (if toNode.isSome then pn.outPwd else some pn.pwd) with
    | none => .accept l
    | some pwd =>
      if pwd = str "-" then .accept l
      else if pwd = str "!" ∧ ftnaddressCmpOpt remoteFa fa ≠ 0 then .drop { l with expectedPwd := [] }
      else if l.expectedPwd = str "-" ∨ l.expectedPwd = str "!" then
        .accept { l with expectedPwd := pwd.take maxPwdLen, mdFlag := l.mdFlag ||| pn.mdFlag.val }
      else if l.expectedPwd = pwd ∨ pwd = str "!" then
        .accept { l with mdFlag := l.mdFlag ||| pn.mdFlag.val }
      else if toNode.isSome then .drop l
      else .drop { l with expectedPwd := [] }

/-- The last part of a round: the flags that the nodes ask for. -/
def adrFlags (toNode : Option FtnNode) (pn : Option FtnNode) (l : AdrLocals) : AdrLocals :=
  match toNode, pn with
  | none, some pn =>
    if pn.ndFlag then
      if pn.pwd ≠ str "-" then { l with secureNd := true, secureNr := true }
      else { l with unsecureNd := true, unsecureNr := true }
    else if pn.nrFlag then
      if pn.pwd ≠ str "-" then { l with secureNr := true } else { l with unsecureNr := true }
    else l
  | _, _ => l

/-- A round that has come as far as `bsy_add`. -/
def adrBusy (config : BinkdConfig) (env : Env) (fa : FtnAddr) (pn : Option FtnNode) (s : State)
    (l : AdrLocals) : AdrStep :=
  match bsyAdd config env fa s.disk with
  | some disk =>
    let s := { s with disk := disk, login := { s.login with
      fa := s.login.fa.take s.login.nfa ++ fa :: s.login.fa.drop s.login.nfa, nfa := s.login.nfa + 1 } }
    let l := match s.toNode with
      | some n => if ftnaddressCmp fa n.fa = 0 then { l with mainAkaOk := true } else l
      | none => l
    .next s (adrFlags s.toNode pn l)
  | none =>
    if pn.any (fun pn => pn.pwd ≠ str "-") ∧ s.toNode.isNone then
      .stop (msgSendf M_BSY (str "Secure AKA " ++ ftnaddressToStr fa ++ str " busy") s)
    else
      .next { s with login := { s.login with fa := s.login.fa ++ [fa] } } (adrFlags s.toNode pn l)

/-- The password part and what follows it. -/
def adrLogin (config : BinkdConfig) (env : Env) (fa : FtnAddr) (pn : Option FtnNode) (s : State)
    (l : AdrLocals) : AdrStep :=
  match pn with
  | none => adrBusy config env fa none s l
  | some n =>
    let login := { s.login with listedFlag := s.login.listedFlag ||| n.listed }
    match adrPwd s.toNode s.remoteFa fa n login with
    | .drop login => .next { s with login := login } l
    | .accept login => adrBusy config env fa (some n) { s with login := login } l

/-- One round of the loop over the addresses of the remote. -/
def adrStep (config : BinkdConfig) (env : Env) (w : Str) (s : State) (l : AdrLocals) : AdrStep :=
  match (parseFtnaddress w config.pDomains).filter (·.is4D) with
  | none => .stop (msgSend2 M_ERR (str "Bad address") [] s)
  | some fa =>
    let fa := if fa.domain = [] then
      { fa with domain := getMatchedDomain fa.z config.pAddr config.pDomains } else fa
    let pn := getNodeInfo env.now fa config
    match pn with
    | none => adrLogin config env fa none s l
    | some n =>
      if ipRestricted config s n then
        let ipok := ipCheck config env n
        if ipok = 1 then adrLogin config env fa pn s { l with ipVerified := 2 }
        else if ipok < 0 ∨ n.restrictIP = .sip then
          if n.pwd ≠ str "-" ∧ s.toNode.isNone then
            .stop (msgSend2 M_ERR (str "Bad source IP") [] s)
          else .next s { l with ipVerified := if l.ipVerified = 0 then -1 else l.ipVerified }
        else adrLogin config env fa pn s l
      else adrLogin config env fa pn s { l with ipVerified := 1 }

/-- The loop over the addresses. -/
def adrLoop (config : BinkdConfig) (env : Env) : List Str → State → AdrLocals → AdrStep
  | [], s, l => .next s l
  | w :: ws, s, l =>
    match adrStep config env w s l with
    | .stop s => .stop s
    | .next s l => adrLoop config env ws s l

/-- `OK_SEND_FILES`. -/
def okSendFiles (config : BinkdConfig) (s : State) : Bool :=
  (!config.sendIfPwd || s.login.state = .secure || s.toNode.isSome) && !s.tx.rSkippedFlag

/-- The active addresses, `fa[0..nfa)`. -/
def Login.active (l : Login) : List FtnAddr := l.fa.take l.nfa

/-- `do_prescan`. -/
def doPrescan (config : BinkdConfig) (env : Env) (s : State) : State :=
  if okSendFiles config s && config.prescan then
    let (q, disk) := qScanAddrs config env s.login.active s.toNode.isSome ([], s.disk)
    let (q, netsize, filessize) := qGetSizes env disk q
    let s := { s with disk := disk, tx := { s.tx with q := q } }
    let s := msgSend2 M_NUL (str "TRF ")
      (decimal (toUnsigned64 netsize) ++ [32] ++ decimal (toUnsigned64 filessize)) s
    if s.login.major * 100 + s.login.minor ≤ 100 then
      (msgSend2 M_NUL (str "FREQ") [])^[qFreqNum q] s
    else s
  else s

/-- The part of `ADR` behind the loop for an answering side. -/
def adrAnswer (config : BinkdConfig) (l : AdrLocals) (s : State) : State :=
  let s := if s.login.delayAdr then sendADR config s else s
  let secure := s.login.expectedPwd ≠ [] ∧ s.login.expectedPwd ≠ str "-"
  { s with login := { s.login with
      ndFlag := { s.login.ndFlag with
        they := s.login.ndFlag.they || (if secure then l.secureNd else l.unsecureNd) }
      nrFlag := { s.login.nrFlag with
        want := s.login.nrFlag.want || (if secure then l.secureNr else l.unsecureNr) } } }

/-- The part of `ADR` behind the loop for a calling side: it sends the password. -/
def adrCall (config : BinkdConfig) (env : Env) (n : FtnNode) (s : State) : State × Bool :=
  let s := doPrescan config env s
  match s.login.mdChallenge with
  | some challenge =>
    let s := msgSend2 M_PWD (mdBuildDigest n.outPwdText challenge) [] s
    ({ s with login := { s.login with mdFlag := 1 } }, true)
  | none =>
    if n.mdFlag = .on ∧ !config.noMD5 then (s, false)
    else (msgSend2 M_PWD n.outPwdText [] s, true)

/-- The part of `ADR` behind the loop. -/
def adrEnd (config : BinkdConfig) (env : Env) (s : State) (l : AdrLocals) : State × Bool :=
  if s.login.nfa = 0 then
    (msgSend2 M_BSY (str "No AKAs in common domains or all AKAs are busy") [] s, false)
  else if s.toNode.isSome ∧ !l.mainAkaOk then (s, false)
  else if l.ipVerified < 0 then (msgSend2 M_ERR (str "Bad remote IP") [] s, false)
  else match s.toNode with
    | none => (adrAnswer config l s, true)
    | some n => adrCall config env n s

/-- The words of an `M_ADR` that the loop goes through. -/
def adrWords (config : BinkdConfig) (env : Env) (buf : List Byte) : List Str :=
  let s := cstr buf
  let s := if config.shares = [] then s
    else
      let (s, ad) := addSharedAkas config env.tail (2 * s.length + 2) 1 s none
      s ++ ad.getD []
  getwords (s ++ 0 :: env.tail) {}

/-- On the calling side the password of the called node is expected of every address. -/
def adrExpect (s : State) : State :=
  match s.toNode with
  | some n => { s with login := { s.login with expectedPwd := n.outPwdText.take maxPwdLen } }
  | none => s

/-- `ADR`. -/
def ADR (config : BinkdConfig) (env : Env) (buf : List Byte) (s : State) : State × Bool :=
  match adrWords config env buf with
  | [] => (s, false)
  | ws =>
    match adrLoop config env ws (adrExpect s) {} with
    | .stop s => (s, false)
    | .next s l => adrEnd config env s l

/-! ### `complete_login` -/

/-- `select_inbound`. -/
def selectInbound (config : BinkdConfig) (env : Env) (s : State) : Str :=
  let plain := if s.login.state = .secure then config.inbound else config.inboundNonsecure
  match s.login.fa.head? with
  | none => plain
  | some fa => ((getNodeInfo env.now fa config).bind (·.ibox)).getD plain

/-- The queue that a login starts with. -/
def loginQueue (config : BinkdConfig) (env : Env) (s : State) : State :=
  if okSendFiles config s then
    let (q, disk) := if s.tx.q = [] then
        qScanAddrs config env s.login.active s.toNode.isSome ([], s.disk)
      else (s.tx.q, s.disk)
    { s with disk := disk, tx := { s.tx with q := qSort s.login.active q } }
  else s

/-- `crypt_flag` after a login. -/
def loginCrypt (l : Login) : CryptFlag :=
  if l.state ≠ .secure then .no
  else if l.cryptFlag = .both ∧ l.mdFlag = 0 then .no
  else if l.cryptFlag = .both ∧ l.expectedPwd = str "!" then .no
  else if l.cryptFlag = .both then .on
  else if l.cryptFlag = .on then .on
  else .no

/-- Are the keys set by this login? -/
def loginSetsKeys (l : Login) : Bool :=
  l.state = .secure ∧ l.cryptFlag = .both ∧ l.mdFlag ≠ 0 ∧ l.expectedPwd ≠ str "!"

/-- The keys that start from `-` go on with the password. -/
def keysFrom (pwd : Str) : Keys 64 := pwd.foldl updateKeys (initKeys (str "-"))

/-- The keys of a login, out and in. -/
def loginKeys (toNode : Option FtnNode) (expectedPwd : Str) : Keys 64 × Keys 64 :=
  match toNode with
  | some n => (initKeys n.outPwdText, keysFrom n.outPwdText)
  | none => (keysFrom expectedPwd, initKeys expectedPwd)

/-- `complete_login`. -/
def completeLogin (config : BinkdConfig) (env : Env) (s : State) : State × Bool :=
  let s := { s with rx := { s.rx with inbound := selectInbound config env s } }
  let s := loginQueue config env s
  let keys := if loginSetsKeys s.login then loginKeys s.toNode s.login.expectedPwd
    else (s.link.keysOut, s.link.keysIn)
  ({ s with
      link := { s.link with msgsInBatch := 0, keysOut := keys.1, keysIn := keys.2 }
      login := { s.login with
        nrFlag := { s.login.nrFlag with we := s.login.nrFlag.we || s.login.ndFlag.we }
        cryptFlag := loginCrypt s.login } }, true)

/-! ### `PWD` -/

/-- The outcome of the check of a password. -/
inductive PwdCheck
  /-- a login without password, with the digest of one or with none -/
  | nonsecure (mdFlag : BitVec 32) (digest : Bool) (early : Bool)
  | secure (mdFlag : BitVec 32)
  | mustMd5
  | bad (mdFlag : BitVec 32)
deriving DecidableEq

/-- Does the remote present a digest? -/
def isCram (pwd : Str) : Bool := strnicmp 5 pwd (str "CRAM-") = 0

/-- Is the password checked as a digest? -/
def pwdByDigest (l : Login) (pwd : Str) : Bool :=
  l.mdFlag = 1 || (isCram pwd && l.mdChallenge.isSome)

/-- The digest branch of `PWD`: does the password fail? -/
def badDigest (l : Login) (pwd : Str) : Bool :=
  if l.expectedPwd = str "!" then false
  else match l.mdChallenge with
    | some challenge => stricmp (mdBuildDigest l.expectedPwd challenge) pwd ≠ 0
    | none => true

/-- The plain branch of `PWD`: does the password fail? -/
def badPlain (l : Login) (pwd : Str) : Bool :=
  if l.expectedPwd = str "!" then false else l.expectedPwd = [] || l.expectedPwd ≠ pwd

/-- The decision of `PWD`. -/
def pwdCheck (l : Login) (pwd : Str) : PwdCheck :=
  let noPassword := l.expectedPwd = str "-"
  if noPassword ∧ !isCram pwd then .nonsecure l.mdFlag false true
  else if pwdByDigest l pwd then
    if !isCram pwd ∧ l.mdFlag ≠ 0 then .mustMd5
    else if noPassword then .nonsecure 1 (badDigest l pwd) false
    else if badDigest l pwd then .bad 1
    else .secure 1
  else
    if noPassword then .nonsecure l.mdFlag (badPlain l pwd) false
    else if badPlain l pwd then .bad l.mdFlag
    else .secure l.mdFlag

/-- The modes that `PWD` settles once the state is known. -/
def pwdModes (l : Login) : Login :=
  let crypt := if l.state ≠ .secure then .no
    else if l.cryptFlag = .both ∧ l.mdFlag = 0 then .no
    else if l.cryptFlag = .both ∧ l.expectedPwd = str "!" then .no
    else l.cryptFlag
  let they := if l.ndFlag.canNda then l.ndFlag.they else l.ndFlag.we
  let we := l.nrFlag.we || (l.buggyNr && l.nrFlag.want)
  { l with
    cryptFlag := crypt, ndFlag := { l.ndFlag with they := they }, nrFlag := { l.nrFlag with we := we } }

/-- The options of the answering side. -/
def answerOpt (l : Login) : Str :=
  str " EXTCMD" ++ (if l.nrFlag.want then str " NR" else []) ++
    (if l.ndFlag.they then str " ND" else []) ++
    (if l.ndFlag.we ≠ l.ndFlag.they then str " NDA" else []) ++
    (if l.cryptFlag = .both then str " CRYPT" else []) ++ zOpts l

/-- The end of `PWD` after a login was granted. -/
def pwdGrant (config : BinkdConfig) (env : Env) (s : State) : State × Bool :=
  let s := { s with login := pwdModes s.login }
  let s := autoNr config env (selectInbound config env s) s
  let s := msgSend2 M_NUL (str "OPT") (answerOpt s.login) s
  let s := msgSend2 M_OK (if s.login.state = .secure then str "secure" else str "non-secure") [] s
  completeLogin config env s

/-- `PWD`. -/
def PWD (config : BinkdConfig) (env : Env) (buf : List Byte) (s : State) : State × Bool :=
  let pwd := cstr buf
  if s.toNode.isSome then (s, true)
  else if s.login.state ≠ .null then
    (msgSend2 M_NUL (str "MSG Warning: double of password is received (M_PWD more one)!") [] s, false)
  else match pwdCheck s.login pwd with
    | .nonsecure mdFlag digest early =>
      let s := { s with login := { s.login with mdFlag := mdFlag } }
      let s := if early then
          let s := doPrescan config env s
          { s with login := { s.login with state := .nonsecure } }
        else doPrescan config env { s with login := { s.login with state := .nonsecure } }
      pwdGrant config env { s with login := { s.login with
        stateExt := if digest then .weNonsecure else s.login.stateExt } }
    | .secure mdFlag =>
      pwdGrant config env
        (doPrescan config env { s with login := { s.login with mdFlag := mdFlag, state := .secure } })
    | .mustMd5 => (msgSend2 M_ERR (str "You must support MD5") [] s, false)
    | .bad mdFlag =>
      (msgSend2 M_ERR (str "Bad password") [] { s with login := { s.login with mdFlag := mdFlag } }, false)

/-! ### `OK` -/

/-- Does the remote say that the session is not secure? -/
def okNonsecure (tail buf : List Byte) : Bool :=
    (getwords (cstr buf ++ 0 :: tail) {}).contains (str "non-secure")

/-- What `OK` changes before it completes the login. -/
def okLogin (n : FtnNode) (tail buf : List Byte) (l : Login) : Login :=
  let secure := n.outPwdText ≠ str "-"
  let l := { l with state := if secure then .secure else .nonsecure }
  let l := if secure ∧ okNonsecure tail buf then
      { l with cryptFlag := .no, stateExt := .remoteNonsecure } else l
  if l.ndFlag = { we := true } ∨ l.ndFlag = { they := true } then { l with ndFlag := {} } else l

/-- `OK`. -/
def OK (config : BinkdConfig) (env : Env) (buf : List Byte) (s : State) : State × Bool :=
  match s.toNode with
  | none => (s, false)
  | some n => completeLogin config env { s with login := okLogin n env.tail buf s.login }

end Binkd

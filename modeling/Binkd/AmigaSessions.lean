import Binkd.Names
import Mathlib.Data.List.Basic

/-!
# The session table of the event loop (`amiga/session.c`, `amiga/evloop.c`)

One process serves all sessions from a table of slots.  `doAccept`, `tryOutbound`,
`checkConnect` and `doSessionStep` fill, move on and free the slots and change the counters
of the sessions; `handleConfigReload` allocates the table anew.  Every event but a reload
changes one slot (`SlotChange`), which keeps `SessInv`.  The resolver, the queue, the system
and the protocol answer as they like; a session's own state is left out.
-/

namespace Binkd

/-! ### The table -/

/-- `sess_phase_t`. -/
inductive SessPhase
  | free | connecting | running
deriving DecidableEq

/-- `sess_t`: `aiCur` counts the addresses of `ai_cur` that are still to be tried, the current one
included, and `ibuf` is the buffer of the protocol's state. -/
structure Slot where
  phase : SessPhase := .free
  fd : Option ℕ := none
  inbound : Bool := false
  node : Bool := false
  aiCur : ℕ := 0
  connStart : Int := 0
  lastIo : Int := 0
  ibuf : Bool := false
deriving DecidableEq

/-- What the event loop reads of the configuration. -/
structure EvConfig where
  maxServers : Int32 := 100
  maxClients : Int32 := 100
  connectTimeout : Int := 0
  nettimeout : Int := 300
deriving DecidableEq

/-- The session table with its counters; `sockets` are the session sockets that are open. -/
structure EvState where
  sessions : List Slot
  nServers : Int := 0
  nClients : Int := 0
  sockets : List ℕ := []
  binkdExit : Bool := false
  config : EvConfig := {}
  serverFlag : Bool := true
  clientFlag : Bool := true
  pollFlag : Bool := false
deriving DecidableEq

/-- `calc_max_sessions`. -/
def calcMaxSessions (config : EvConfig) (srvFlag cliFlag : Bool) : ℕ :=
  if config.maxServers = 0 ∧ config.maxClients = 0 then 2
  else
    let servers := if srvFlag ∧ config.maxServers < 1 then 1 else config.maxServers
    let clients := if cliFlag ∧ config.maxClients < 1 then 1 else config.maxClients
    let total := servers + clients
    if total < 2 then 2 else total.toInt.toNat

/-- `init_session_table`. -/
def initSessionTable (slots : ℕ) : List Slot := List.replicate slots {}

/-- A socket that the system has opened, and `soclose`. -/
def EvState.opened (fd : ℕ) (s : EvState) : EvState := { s with sockets := fd :: s.sockets }

def EvState.soclose (fd : Option ℕ) (s : EvState) : EvState :=
  match fd with
  | some fd => { s with sockets := s.sockets.erase fd }
  | none => s

def EvState.setSlot (idx : ℕ) (sl : Slot) (s : EvState) : EvState :=
  { s with sessions := s.sessions.set idx sl }

/-- `sess_alloc`. -/
def sessAlloc (s : EvState) : Option ℕ := s.sessions.findIdx? fun sl => sl.phase = .free

/-- `sess_free` of a slot as it stands. -/
def sessFree (idx : ℕ) (sl : Slot) (s : EvState) : EvState :=
  (s.soclose sl.fd).setSlot idx { sl with phase := .free, fd := none, aiCur := 0, ibuf := false }

/-- One session less. -/
def lessClients (s : EvState) : EvState := { s with nClients := s.nClients - 1 }

def lessSessions (sl : Slot) (s : EvState) : EvState :=
  if sl.inbound then { s with nServers := s.nServers - 1 } else { s with nClients := s.nClients - 1 }

/-! ### Incoming connections and outgoing calls -/

/-- `amiga_proto_open`; `ok` tells whether the protocol and its banner come about. -/
def amigaProtoOpen (ok outgoing : Bool) (s : EvState) : Bool :=
  ok && !(!outgoing && s.nServers > s.config.maxServers.toInt)

/-- `do_accept`; `accepted` is the new socket. -/
def doAccept (now : Int) (accepted : Option ℕ) (protoOk : Bool) (s : EvState) : EvState :=
  match accepted with
  | none => s
  | some fd =>
    let s := s.opened fd
    if s.binkdExit then s.soclose (some fd)
    else match sessAlloc s with
      | none => s.soclose (some fd)
      | some idx =>
        let sl : Slot := { fd := some fd, inbound := true, lastIo := now }
        if amigaProtoOpen protoOk false s then
          { s.setSlot idx { sl with phase := .running, ibuf := true } with nServers := s.nServers + 1 }
        else sessFree idx sl s

/-- What the system answers to `socket` and to `connect`. -/
structure Connect where
  sock : Option ℕ := none
  ok : Bool := false
deriving DecidableEq

/-- `start_connect`: the slot with the new socket, or none. -/
def startConnect (now : Int) (c : Connect) (sl : Slot) (s : EvState) : Option Slot × EvState :=
  match c.sock with
  | none => (none, s)
  | some fd =>
    if c.ok then (some { sl with fd := some fd, connStart := now }, s.opened fd)
    else (none, (s.opened fd).soclose (some fd))

/-- What the queue and the resolver answer to a call: is there a node to call that is not busy, are
its hosts good, and how many addresses has it? -/
structure Calling where
  node : Bool := false
  hosts : Bool := false
  ai : Option ℕ := none
deriving DecidableEq

/-- `try_outbound`. -/
def tryOutbound (now : Int) (q : Calling) (c : Connect) (s : EvState) : EvState :=
  if !s.clientFlag || s.nClients ≥ s.config.maxClients.toInt || !q.node then s
  else match sessAlloc s with
    | none => s
    | some idx =>
      let sl : Slot := { node := true }
      if !q.hosts then sessFree idx sl s
      else match q.ai with
        | none => sessFree idx sl s
        | some n =>
          match startConnect now c { sl with aiCur := n } s with
          | (none, s) => sessFree idx { sl with aiCur := n } s
          | (some sl, s) => { s.setSlot idx { sl with phase := .connecting } with nClients := s.nClients + 1 }

/-- `check_connect` of a slot that connects; `err` is the error of the socket. -/
def checkConnect (now : Int) (err : Bool) (c : Connect) (protoOk : Bool) (idx : ℕ) (sl : Slot) (s : EvState) :
    EvState :=
  let tmo := if s.config.connectTimeout ≠ 0 then s.config.connectTimeout else 30
  if now - sl.connStart ≥ tmo then sessFree idx sl (lessClients s)
  else if err then
    let s := s.soclose sl.fd
    let sl := { sl with fd := none, aiCur := sl.aiCur - 1 }
    if sl.aiCur ≠ 0 then
      match startConnect now c sl s with
      | (some sl, s) => s.setSlot idx sl
      | (none, s) => sessFree idx sl (lessClients s)
    else sessFree idx sl (lessClients s)
  else if amigaProtoOpen protoOk true s then s.setSlot idx { sl with phase := .running, lastIo := now, ibuf := true }
  else sessFree idx sl (lessClients s)

/-- What `amiga_proto_step` returns. -/
inductive AprotoRc
  | running | doneOk | doneErr
deriving DecidableEq

/-- `do_session_step`. -/
def doSessionStep (now : Int) (io : Bool) (rc : AprotoRc) (idx : ℕ) (sl : Slot) (s : EvState) : EvState :=
  let tmo := if s.config.nettimeout ≠ 0 then s.config.nettimeout else 300
  if now - sl.lastIo ≥ tmo then sessFree idx sl (lessSessions sl s)
  else if sl.fd = none then sessFree idx sl (lessSessions sl s)
  else
    let sl := if io then { sl with lastIo := now } else sl
    if rc = .running then s.setSlot idx sl
    else
      let s := sessFree idx sl (lessSessions sl s)
      if s.pollFlag ∧ s.nClients = 0 ∧ s.nServers = 0 then { s with binkdExit := true } else s

/-- One slot of `advance_sessions`. -/
def advanceSession (now : Int) (io err protoOk : Bool) (c : Connect) (rc : AprotoRc) (idx : ℕ) (s : EvState) :
    EvState :=
  match s.sessions[idx]? with
  | none => s
  | some sl => match sl.phase with
    | .free => s
    | .connecting => if io then checkConnect now err c protoOk idx sl s else s
    | .running => doSessionStep now io rc idx sl s

/-! ### Reloading and the end -/

/-- The table of `new_max` slots that `realloc` makes. -/
def resizeTable (newMax : ℕ) (sessions : List Slot) : List Slot :=
  sessions.take newMax ++ List.replicate (newMax - sessions.length) ({} : Slot)

/-- `handle_config_reload`; the listen sockets are opened again behind it. -/
def handleConfigReload (nc : EvConfig) (reallocOk : Bool) (s : EvState) : EvState :=
  let newMax := calcMaxSessions nc s.serverFlag s.clientFlag
  { s with
    sessions := if newMax ≠ s.sessions.length ∧ reallocOk then resizeTable newMax s.sessions else s.sessions
    config := nc }

/-- One slot of `evloop_cleanup`. -/
def cleanupSlot (idx : ℕ) (s : EvState) : EvState :=
  match s.sessions[idx]? with
  | none => s
  | some sl =>
    let s := if sl.phase = .running ∧ sl.ibuf then lessSessions sl s
      else if sl.phase = .connecting then lessClients s else s
    sessFree idx sl s

/-- `evloop_cleanup`, up to the free of the table. -/
def evloopCleanup (s : EvState) : EvState :=
  (List.range s.sessions.length).foldl (fun s idx => cleanupSlot idx s) s

/-- The events of the loop. -/
inductive EvOp
  | accept (now : Int) (accepted : Option ℕ) (protoOk : Bool)
  | call (now : Int) (q : Calling) (c : Connect)
  | advance (now : Int) (io err protoOk : Bool) (c : Connect) (rc : AprotoRc) (idx : ℕ)
  | reload (nc : EvConfig) (reallocOk : Bool)

def evStep (s : EvState) : EvOp → EvState
  | .accept now accepted protoOk => doAccept now accepted protoOk s
  | .call now q c => tryOutbound now q c s
  | .advance now io err protoOk c rc idx => advanceSession now io err protoOk c rc idx s
  | .reload nc reallocOk => handleConfigReload nc reallocOk s

/-- The system opens no socket under the number of one that is open; that of the slot is closed
before the next one is opened. -/
def EvOp.Fresh (s : EvState) : EvOp → Prop
  | .accept _ accepted _ => ∀ fd ∈ accepted, fd ∉ s.sockets
  | .call _ _ c => ∀ fd ∈ c.sock, fd ∉ s.sockets
  | .advance _ _ _ _ c _ idx => ∀ fd ∈ c.sock, fd ∈ s.sockets → (s.sessions[idx]?.bind (·.fd)) = some fd
  | .reload _ _ => True

/-- No active session stands at or behind the end of the new table. -/
def ReloadFits (nc : EvConfig) (reallocOk : Bool) (s : EvState) : Prop :=
  reallocOk = true → ∀ sl ∈ s.sessions.drop (calcMaxSessions nc s.serverFlag s.clientFlag),
    sl.phase = .free

def EvOp.Fits (s : EvState) : EvOp → Prop
  | .reload nc reallocOk => ReloadFits nc reallocOk s
  | _ => True

instance (s : EvState) (op : EvOp) : Decidable (op.Fresh s) :=
  match op with
  | .accept _ accepted _ => inferInstanceAs (Decidable (∀ fd ∈ accepted, fd ∉ s.sockets))
  | .call _ _ c => inferInstanceAs (Decidable (∀ fd ∈ c.sock, fd ∉ s.sockets))
  | .advance _ _ _ _ c _ idx =>
    inferInstanceAs (Decidable (∀ fd ∈ c.sock, fd ∈ s.sockets → (s.sessions[idx]?.bind (·.fd)) = some fd))
  | .reload _ _ => .isTrue trivial

instance (nc : EvConfig) (reallocOk : Bool) (s : EvState) : Decidable (ReloadFits nc reallocOk s) :=
  inferInstanceAs (Decidable (reallocOk = true →
    ∀ sl ∈ s.sessions.drop (calcMaxSessions nc s.serverFlag s.clientFlag), sl.phase = .free))

instance EvOp.decidableFits (s : EvState) (op : EvOp) : Decidable (op.Fits s) :=
  match op with
  | .reload nc reallocOk => inferInstanceAs (Decidable (ReloadFits nc reallocOk s))
  | .accept _ _ _ => .isTrue trivial
  | .call _ _ _ => .isTrue trivial
  | .advance _ _ _ _ _ _ _ => .isTrue trivial

/-! ### One slot -/

def Slot.isServer (sl : Slot) : Bool := sl.phase ≠ .free && sl.inbound

def Slot.isClient (sl : Slot) : Bool := sl.phase ≠ .free && !sl.inbound

/-- A free slot has no socket, a call is connecting, and a session that runs has its buffer. -/
structure Slot.Ok (sl : Slot) : Prop where
  free : sl.phase = .free → sl.fd = none
  connecting : sl.phase = .connecting → sl.inbound = false
  running : sl.phase = .running → sl.ibuf = true

/-- The counters are the numbers of the active slots, and the open sockets are those of the slots,
each in one slot only. -/
structure SessInv (s : EvState) : Prop where
  servers : s.nServers = (s.sessions.countP Slot.isServer : ℕ)
  clients : s.nClients = (s.sessions.countP Slot.isClient : ℕ)
  owned : (s.sessions.filterMap (·.fd)).Perm s.sockets
  nodup : s.sockets.Nodup
  slots : ∀ sl ∈ s.sessions, sl.Ok

/-- One slot is changed, and with it the counters and the sockets. -/
structure SlotChange (s s' : EvState) (idx : ℕ) (old new : Slot) : Prop where
  get : s.sessions[idx]? = some old
  set : s'.sessions = s.sessions.set idx new
  servers : s'.nServers + (if old.isServer then 1 else 0) = s.nServers + if new.isServer then 1 else 0
  clients : s'.nClients + (if old.isClient then 1 else 0) = s.nClients + if new.isClient then 1 else 0
  sockets : ∀ fd, s'.sockets.count fd + old.fd.toList.count fd = s.sockets.count fd + new.fd.toList.count fd
  nodup : s'.sockets.Nodup
  ok : new.Ok

variable {s s' : EvState} {idx : ℕ} {old new sl : Slot} {now : Int}

theorem split_at {α : Type} {l : List α} {i : ℕ} {x : α} (h : l[i]? = some x) (y : α) :
    ∃ l₁ l₂, l = l₁ ++ x :: l₂ ∧ l.set i y = l₁ ++ y :: l₂ := by
  obtain ⟨hi, rfl⟩ := List.getElem?_eq_some_iff.mp h
  refine ⟨l.take i, l.drop (i + 1), ?_, List.set_eq_take_append_cons_drop.trans (if_pos hi)⟩
  rw [← List.drop_eq_getElem_cons hi, List.take_append_drop]

/-- A changed slot keeps the invariant. -/
theorem SlotChange.inv (hc : SlotChange s s' idx old new) (h : SessInv s) : SessInv s' := by
  obtain ⟨l₁, l₂, hold, hnew⟩ := split_at hc.get new
  have hset := hc.set.trans hnew
  refine ⟨?_, ?_, ?_, hc.nodup, fun sl hsl => ?_⟩
  · have hs := h.servers
    have hcs := hc.servers
    rw [hold, List.countP_append, List.countP_cons] at hs
    rw [hset, List.countP_append, List.countP_cons]
    cases hold' : old.isServer <;> cases hnew' :
      new.isServer <;> simp [hold', hnew'] at hs hcs ⊢ <;> omega
  · have hs := h.clients
    have hcs := hc.clients
    rw [hold, List.countP_append, List.countP_cons] at hs
    rw [hset, List.countP_append, List.countP_cons]
    cases hold' : old.isClient <;> cases hnew' :
      new.isClient <;> simp [hold', hnew'] at hs hcs ⊢ <;> omega
  · apply List.perm_iff_count.mpr
    intro fd
    have howned := List.perm_iff_count.mp h.owned fd
    have hsock := hc.sockets fd
    have hcons : ∀ sl : Slot, (l₁ ++ sl :: l₂).filterMap (·.fd) =
        l₁.filterMap (·.fd) ++ (sl.fd.toList ++ l₂.filterMap (·.fd)) := by
      intro sl
      rw [List.filterMap_append, List.filterMap_cons]
      cases sl.fd <;> rfl
    rw [hold, hcons, List.count_append, List.count_append] at howned
    rw [hset, hcons, List.count_append, List.count_append]
    omega
  · rw [hset] at hsl
    rcases List.mem_append.mp hsl with hsl | hsl
    · exact h.slots sl (hold ▸ List.mem_append_left _ hsl)
    · rcases List.mem_cons.mp hsl with rfl | hsl
      · exact hc.ok
      · exact h.slots sl (hold ▸ List.mem_append_right _ (List.mem_cons_of_mem old hsl))

/-- The table, the counters and the sockets are the same. -/
structure SameTable (s s' : EvState) : Prop where
  sessions : s'.sessions = s.sessions
  nServers : s'.nServers = s.nServers
  nClients : s'.nClients = s.nClients
  sockets : s'.sockets = s.sockets

theorem SameTable.refl (s : EvState) : SameTable s s := ⟨rfl, rfl, rfl, rfl⟩

theorem SameTable.inv (hs : SameTable s s') (h : SessInv s) : SessInv s' := by
  refine ⟨?_, ?_, ?_, ?_, ?_⟩
  · rw [hs.nServers, hs.sessions]
    exact h.servers
  · rw [hs.nClients, hs.sessions]
    exact h.clients
  · rw [hs.sessions, hs.sockets]
    exact h.owned
  · rw [hs.sockets]
    exact h.nodup
  · rw [hs.sessions]
    exact h.slots

/-- The socket of a slot is open. -/
theorem SessInv.open (h : SessInv s) (hget : s.sessions[idx]? = some sl) {fd : ℕ} (hfd : sl.fd = some fd) :
    fd ∈ s.sockets :=
  h.owned.subset (List.mem_filterMap.mpr ⟨sl, List.mem_of_getElem? hget, hfd⟩)

theorem sessAlloc_some (h : sessAlloc s = some idx) : ∃ sl, s.sessions[idx]? = some sl ∧
    sl.phase = .free := by
  obtain ⟨hi, heq, -⟩ := List.findIdx?_eq_some_iff_getElem.mp h
  exact ⟨_, List.getElem?_eq_getElem hi, of_decide_eq_true heq⟩

theorem isServer_free (h : sl.phase = .free) : sl.isServer = false := by simp [Slot.isServer, h]

theorem isClient_free (h : sl.phase = .free) : sl.isClient = false := by simp [Slot.isClient, h]

/-- What a slot is after `sess_free`. -/
def Slot.freed (sl : Slot) : Slot := { sl with phase := .free, fd := none, aiCur := 0, ibuf := false }

theorem freed_ok (sl : Slot) : sl.freed.Ok := ⟨fun _ => rfl, (fun h => nomatch h), (fun h => nomatch h)⟩

/-- The sockets without that of the slot. -/
def closeFd (fd : Option ℕ) (sockets : List ℕ) : List ℕ :=
  match fd with
  | some fd => sockets.erase fd
  | none => sockets

theorem soclose_eq (fd : Option ℕ) (s : EvState) :
    s.soclose fd = { s with sockets := closeFd fd s.sockets } := by
  cases fd <;> rfl

theorem sessFree_eq (idx : ℕ) (sl : Slot) (s : EvState) :
    sessFree idx sl s = { s with sessions := s.sessions.set idx sl.freed, sockets := closeFd sl.fd s.sockets } := by
  rw [sessFree, soclose_eq]
  rfl

theorem closeFd_nodup {sockets : List ℕ} (h : sockets.Nodup) (fd : Option ℕ) :
    (closeFd fd sockets).Nodup := by
  cases fd with
  | none => exact h
  | some fd => exact h.erase fd

theorem closeFd_count {sockets : List ℕ} {fd : Option ℕ} (h : ∀ f ∈ fd, f ∈ sockets) (f : ℕ) :
    (closeFd fd sockets).count f + fd.toList.count f = sockets.count f := by
  cases fd with
  | none => rfl
  | some g =>
    have hmem := h g rfl
    have hpos := List.count_pos_iff.mpr hmem
    rw [closeFd, Option.toList_some]
    by_cases hfg : f = g
    · subst hfg
      rw [List.count_erase_self, List.count_singleton_self]
      omega
    · rw [List.count_erase_of_ne hfg, List.count_eq_zero.mpr (fun hm => hfg (List.mem_singleton.mp hm))]
      rfl

/-- A session that ends: its slot is freed, its counter goes down and its socket is closed. -/
theorem change_free (h : SessInv s) (hget : s.sessions[idx]? = some old) (hactive : old.phase ≠ .free) (sl : Slot)
    (hset : s'.sessions = s.sessions.set idx sl.freed) (hservers : s'.nServers = (lessSessions old s).nServers)
    (hclients : s'.nClients = (lessSessions old s).nClients) (hsock : s'.sockets = closeFd old.fd s.sockets) :
    SlotChange s s' idx old sl.freed := by
  have hfree : sl.freed.phase = .free := rfl
  have hopen : ∀ f ∈ old.fd, f ∈ s.sockets := fun f hf => h.open hget hf
  have hphase : decide (old.phase ≠ .free) = true := decide_eq_true hactive
  refine ⟨hget, hset, ?_, ?_, fun f => ?_, ?_, freed_ok sl⟩
  · rw [isServer_free hfree, Slot.isServer, hphase, hservers]
    unfold lessSessions
    cases hin : old.inbound with
    | true => simp
    | false => simp
  · rw [isClient_free hfree, Slot.isClient, hphase, hclients]
    unfold lessSessions
    cases hin : old.inbound with
    | true => simp
    | false => simp
  · rw [hsock, closeFd_count hopen f]
    rfl
  · rw [hsock]
    exact closeFd_nodup h.nodup old.fd

theorem lessSessions_kept (sl : Slot) (s : EvState) :
    (lessSessions sl s).sessions = s.sessions ∧ (lessSessions sl s).sockets = s.sockets := by
  unfold lessSessions
  split_ifs
  · exact ⟨rfl, rfl⟩
  · exact ⟨rfl, rfl⟩

/-- The end of a session: its slot is free, and no longer counted. -/
theorem sessFree_change (h : SessInv s) (hget : s.sessions[idx]? = some old) (hactive : old.phase ≠ .free) (sl : Slot)
    (hfd : sl.fd = old.fd) : SlotChange s (sessFree idx sl (lessSessions old s)) idx old sl.freed := by
  obtain ⟨hsessions, hsockets⟩ := lessSessions_kept old s
  rw [sessFree_eq]
  refine change_free h hget hactive sl ?_ rfl rfl ?_
  · rw [hsessions]
  · rw [hsockets, hfd]

/-- A free slot that stays free. -/
theorem change_none (h : SessInv s) (hget : s.sessions[idx]? = some old) (hfree : old.phase = .free) (sl : Slot)
    (hset : s'.sessions = s.sessions.set idx sl.freed) (hservers : s'.nServers = s.nServers)
    (hclients : s'.nClients = s.nClients) (hsock : s'.sockets = s.sockets) :
    SlotChange s s' idx old sl.freed := by
  have hfree' : sl.freed.phase = .free := rfl
  have hfd := (h.slots old (List.mem_of_getElem? hget)).free hfree
  refine ⟨hget, hset, ?_, ?_, fun f => ?_, hsock ▸ h.nodup, freed_ok sl⟩
  · rw [isServer_free hfree, isServer_free hfree', hservers]
  · rw [isClient_free hfree, isClient_free hfree', hclients]
  · rw [hsock, hfd]
    rfl

/-- A slot keeps its side and takes a socket, its own or one that was opened when its own was closed. -/
theorem change_kept (h : SessInv s) (hget : s.sessions[idx]? = some old) (hactive : old.phase ≠ .free) {new : Slot}
    (hset : s'.sessions = s.sessions.set idx new) (hphase : new.phase ≠ .free) (hin : new.inbound = old.inbound)
    (hservers : s'.nServers = s.nServers) (hclients : s'.nClients = s.nClients)
    (hsock : new.fd = old.fd ∧ s'.sockets = s.sockets ∨
      ∃ fd, new.fd = some fd ∧ s'.sockets = fd :: closeFd old.fd s.sockets ∧
      fd ∉ closeFd old.fd s.sockets)
    (hok : new.Ok) : SlotChange s s' idx old new := by
  have hopen : ∀ f ∈ old.fd, f ∈ s.sockets := fun f hf => h.open hget hf
  refine ⟨hget, hset, ?_, ?_, fun f => ?_, ?_, hok⟩
  · simp [Slot.isServer, hphase, hactive, hin, hservers]
  · simp [Slot.isClient, hphase, hactive, hin, hclients]
  · rcases hsock with ⟨hfd, hsame⟩ | ⟨fd, hfd, hsame, -⟩
    · rw [hfd, hsame]
    · have hcount := closeFd_count hopen f
      rw [hfd, hsame, Option.toList_some, List.count_cons, List.count_cons]
      simp only [List.count_nil]
      omega
  · rcases hsock with ⟨-, hsame⟩ | ⟨fd, -, hsame, hnew⟩
    · rw [hsame]
      exact h.nodup
    · rw [hsame]
      exact List.nodup_cons.mpr ⟨hnew, closeFd_nodup h.nodup old.fd⟩

/-- A new session in a free slot. -/
theorem change_new (h : SessInv s) (hget : s.sessions[idx]? = some old) (hfree : old.phase = .free) {new : Slot}
    (hset : s'.sessions = s.sessions.set idx new) (hphase : new.phase ≠ .free)
    (hservers : s'.nServers = s.nServers + if new.inbound then 1 else 0)
    (hclients : s'.nClients = s.nClients + if new.inbound then 0 else 1) {fd : ℕ} (hfd : new.fd = some fd)
    (hsock : s'.sockets = fd :: s.sockets) (hnew : fd ∉ s.sockets) (hok : new.Ok) :
    SlotChange s s' idx old new := by
  have hfd' := (h.slots old (List.mem_of_getElem? hget)).free hfree
  refine ⟨hget, hset, ?_, ?_, fun f => ?_, ?_, hok⟩
  · rw [isServer_free hfree, hservers]
    cases hin : new.inbound <;> simp [Slot.isServer, hphase, hin]
  · rw [isClient_free hfree, hclients]
    cases hin : new.inbound <;> simp [Slot.isClient, hphase, hin]
  · rw [hfd, hfd', hsock, Option.toList_some, List.count_cons, List.count_cons]
    simp
  · rw [hsock]
    exact List.nodup_cons.mpr ⟨hnew, h.nodup⟩

/-- What an event does to the table: nothing, or a change of one slot. -/
def EvChange (s s' : EvState) : Prop := SameTable s s' ∨ ∃ idx old new, SlotChange s s' idx old new

theorem EvChange.inv (hc : EvChange s s') (h : SessInv s) : SessInv s' := by
  rcases hc with hsame | ⟨idx, old, new, hchange⟩
  · exact hsame.inv h
  · exact hchange.inv h

/-! ### The events -/

theorem doAccept_change (h : SessInv s) {accepted : Option ℕ} (hfresh : ∀ fd ∈ accepted, fd ∉ s.sockets)
    (now : Int) (protoOk : Bool) : EvChange s (doAccept now accepted protoOk s) := by
  cases accepted with
  | none => exact .inl (SameTable.refl s)
  | some fd =>
    have hnew := hfresh fd rfl
    have hclosed : (fd :: s.sockets).erase fd = s.sockets := List.erase_cons_head _ _
    unfold doAccept
    dsimp only
    by_cases hexit : (s.opened fd).binkdExit = true
    · rw [if_pos hexit]
      exact .inl ⟨rfl, rfl, rfl, hclosed⟩
    · rw [if_neg hexit]
      cases halloc : sessAlloc (s.opened fd) with
      | none => exact .inl ⟨rfl, rfl, rfl, hclosed⟩
      | some idx =>
        obtain ⟨old, hget, hfree⟩ := sessAlloc_some halloc
        dsimp only
        by_cases hopen : amigaProtoOpen protoOk false (s.opened fd) = true
        · rw [if_pos hopen]
          refine .inr ⟨idx, old, _, change_new h hget hfree rfl (fun h => nomatch h) rfl ?_ rfl rfl hnew
            ⟨(fun h => nomatch h), (fun h => nomatch h), fun _ => rfl⟩⟩
          simp [EvState.setSlot, EvState.opened]
        · rw [if_neg hopen, sessFree_eq]
          exact .inr ⟨idx, old, _, change_none h hget hfree _ rfl rfl rfl hclosed⟩

theorem startConnect_none {c : Connect} (hc : (startConnect now c sl s).1 = none) :
    (startConnect now c sl s).2 = s := by
  unfold startConnect at hc ⊢
  cases hsock : c.sock with
  | none => rfl
  | some fd =>
    rw [hsock] at hc
    dsimp only at hc ⊢
    split_ifs at hc ⊢
    show { s with sockets := (fd :: s.sockets).erase fd } = s
    rw [List.erase_cons_head]

theorem startConnect_some {c : Connect} (hc : (startConnect now c sl s).1 = some new) :
    ∃ fd, c.sock = some fd ∧ new = { sl with fd := some fd, connStart := now } ∧
      (startConnect now c sl s).2 = s.opened fd := by
  unfold startConnect at hc ⊢
  cases hsock : c.sock with
  | none =>
    rw [hsock] at hc
    cases hc
  | some fd =>
    rw [hsock] at hc
    dsimp only at hc ⊢
    split_ifs at hc ⊢
    cases hc
    exact ⟨fd, rfl, rfl, rfl⟩

theorem tryOutbound_change (h : SessInv s) {c : Connect} (hfresh : ∀ fd ∈ c.sock, fd ∉ s.sockets) (now : Int)
    (q : Calling) : EvChange s (tryOutbound now q c s) := by
  unfold tryOutbound
  by_cases hidle : (!s.clientFlag || s.nClients ≥ s.config.maxClients.toInt || !q.node) = true
  · rw [if_pos hidle]
    exact .inl (SameTable.refl s)
  · rw [if_neg hidle]
    cases halloc : sessAlloc s with
    | none => exact .inl (SameTable.refl s)
    | some idx =>
      obtain ⟨old, hget, hfree⟩ := sessAlloc_some halloc
      dsimp only
      by_cases hhosts : (!q.hosts) = true
      · rw [if_pos hhosts, sessFree_eq]
        exact .inr ⟨idx, old, _, change_none h hget hfree _ rfl rfl rfl rfl⟩
      · rw [if_neg hhosts]
        cases q.ai with
        | none =>
          dsimp only
          rw [sessFree_eq]
          exact .inr ⟨idx, old, _, change_none h hget hfree _ rfl rfl rfl rfl⟩
        | some n =>
          dsimp only
          cases hcon : startConnect now c { node := true, aiCur := n } s with
          | mk r s₁ =>
            cases r with
            | none =>
              have hs := startConnect_none (congrArg Prod.fst hcon)
              rw [hcon] at hs
              obtain rfl : s₁ = s := hs
              dsimp only
              rw [sessFree_eq]
              exact .inr ⟨idx, old, _, change_none h hget hfree _ rfl rfl rfl rfl⟩
            | some sl =>
              obtain ⟨fd, hsock, hsl, hs⟩ := startConnect_some (congrArg Prod.fst hcon)
              rw [hcon] at hs
              obtain rfl : s₁ = s.opened fd := hs
              subst hsl
              refine .inr ⟨idx, old, _, change_new h hget hfree rfl (fun h => nomatch h) ?_ rfl rfl rfl (hfresh fd hsock)
                ⟨(fun h => nomatch h), fun _ => rfl, (fun h => nomatch h)⟩⟩
              simp [EvState.setSlot, EvState.opened]

theorem lessSessions_client (h : sl.inbound = false) (s : EvState) :
    lessSessions sl s = lessClients s := by
  rw [lessSessions, h]
  rfl

/-- A socket that is new, or that of the session, is not among the others. -/
theorem closeFd_fresh {sockets : List ℕ} (hnodup : sockets.Nodup) {old : Option ℕ} {fd : ℕ}
    (hfresh : fd ∈ sockets → old = some fd) : fd ∉ closeFd old sockets := by
  intro hmem
  cases old with
  | none => cases hfresh hmem
  | some g =>
    cases hfresh (List.mem_of_mem_erase hmem)
    exact hnodup.not_mem_erase hmem

theorem checkConnect_change (h : SessInv s) (hget : s.sessions[idx]? = some sl) (hphase : sl.phase = .connecting)
    {c : Connect} (hfresh : ∀ fd ∈ c.sock, fd ∈ s.sockets → sl.fd = some fd) (now : Int) (err protoOk : Bool) :
    EvChange s (checkConnect now err c protoOk idx sl s) := by
  have hactive : sl.phase ≠ .free := by
    rw [hphase]
    exact fun h => nomatch h
  have hin := (h.slots sl (List.mem_of_getElem? hget)).connecting hphase
  have hless : lessSessions sl s = lessClients s := lessSessions_client hin s
  have hend : EvChange s (sessFree idx sl (lessClients s)) := by
    rw [← hless]
    exact .inr ⟨idx, sl, _, sessFree_change h hget hactive sl rfl⟩
  unfold checkConnect
  dsimp only
  by_cases htmo : now - sl.connStart ≥ if s.config.connectTimeout ≠ 0 then s.config.connectTimeout else 30
  · rw [if_pos htmo]
    exact hend
  · rw [if_neg htmo]
    by_cases herr : err = true
    · rw [if_pos herr, soclose_eq]
      -- the socket is closed already
      have hshut : ∀ n, EvChange s (sessFree idx { sl with fd := none, aiCur := n }
          (lessClients { s with sockets := closeFd sl.fd s.sockets })) := by
        intro n
        rw [sessFree_eq]
        refine .inr ⟨idx, sl, _, change_free h hget hactive { sl with fd := none, aiCur := n } rfl ?_ ?_ rfl⟩
        · rw [hless]
          rfl
        · rw [hless]
          rfl
      by_cases hai : sl.aiCur - 1 ≠ 0
      · rw [if_pos hai]
        cases hcon : startConnect now c { sl with fd := none, aiCur := sl.aiCur - 1 }
            { s with sockets := closeFd sl.fd s.sockets } with
        | mk r s₁ =>
          cases r with
          | none =>
            have hs := startConnect_none (congrArg Prod.fst hcon)
            rw [hcon] at hs
            obtain rfl := hs
            exact hshut _
          | some sl' =>
            obtain ⟨fd, hsock, hsl, hs⟩ := startConnect_some (congrArg Prod.fst hcon)
            rw [hcon] at hs
            obtain rfl := hs
            subst hsl
            refine .inr ⟨idx, sl, _, change_kept h hget hactive rfl hactive rfl rfl rfl (.inr ⟨fd, rfl, rfl, ?_⟩)
              ⟨fun hfree => absurd hfree hactive, fun _ => hin, fun hrun => ?_⟩⟩
            · exact closeFd_fresh h.nodup (hfresh fd hsock)
            · rw [hphase] at hrun
              cases hrun
      · rw [if_neg hai]
        exact hshut _
    · rw [if_neg herr]
      by_cases hproto : amigaProtoOpen protoOk true s = true
      · rw [if_pos hproto]
        exact .inr ⟨idx, sl, _, change_kept h hget hactive rfl (fun h => nomatch h) rfl rfl rfl (.inl ⟨rfl, rfl⟩)
          ⟨(fun h => nomatch h), (fun h => nomatch h), fun _ => rfl⟩⟩
      · rw [if_neg hproto]
        exact hend

theorem doSessionStep_change (h : SessInv s) (hget : s.sessions[idx]? = some sl) (hphase : sl.phase = .running)
    (now : Int) (io : Bool) (rc : AprotoRc) : EvChange s (doSessionStep now io rc idx sl s) := by
  have hactive : sl.phase ≠ .free := by
    rw [hphase]
    exact fun h => nomatch h
  have hok := h.slots sl (List.mem_of_getElem? hget)
  have hkeep : ∀ t, lessSessions { sl with lastIo := t } s = lessSessions sl s := fun _ => rfl
  have hend : ∀ t, ∃ old new, SlotChange s (sessFree idx { sl with lastIo := t } (lessSessions { sl with lastIo := t } s))
      idx old new := by
    intro t
    rw [hkeep]
    exact ⟨sl, _, sessFree_change h hget hactive { sl with lastIo := t } rfl⟩
  unfold doSessionStep
  dsimp only
  by_cases htmo : now - sl.lastIo ≥ if s.config.nettimeout ≠ 0 then s.config.nettimeout else 300
  · rw [if_pos htmo]
    exact .inr ⟨idx, hend sl.lastIo⟩
  · rw [if_neg htmo]
    by_cases hfd : sl.fd = none
    · rw [if_pos hfd]
      exact .inr ⟨idx, hend sl.lastIo⟩
    · rw [if_neg hfd]
      obtain ⟨t, ht⟩ : ∃ t, (if io = true then { sl with lastIo := now } else sl) = { sl with lastIo := t } := by
        cases io with
        | true => exact ⟨now, rfl⟩
        | false => exact ⟨sl.lastIo, rfl⟩
      rw [ht]
      by_cases hrc : rc = .running
      · rw [if_pos hrc]
        exact .inr ⟨idx, sl, _, change_kept h hget hactive rfl hactive rfl rfl rfl (.inl ⟨rfl, rfl⟩)
          ⟨hok.free, hok.connecting, hok.running⟩⟩
      · rw [if_neg hrc]
        obtain ⟨old, new, hchange⟩ := hend t
        split_ifs
        · exact .inr ⟨idx, old, new, ⟨hchange.get, hchange.set, hchange.servers, hchange.clients, hchange.sockets,
            hchange.nodup, hchange.ok⟩⟩
        · exact .inr ⟨idx, old, new, hchange⟩

theorem advanceSession_change (h : SessInv s) {c : Connect}
    (hfresh : ∀ fd ∈ c.sock, fd ∈ s.sockets → (s.sessions[idx]?.bind (·.fd)) = some fd) (now : Int)
    (io err protoOk : Bool) (rc : AprotoRc) : EvChange s (advanceSession now io err protoOk c rc idx s) := by
  unfold advanceSession
  cases hget : s.sessions[idx]? with
  | none => exact .inl (SameTable.refl s)
  | some sl =>
    dsimp only
    cases hphase : sl.phase with
    | free => exact .inl (SameTable.refl s)
    | connecting =>
      dsimp only
      cases io with
      | false => exact .inl (SameTable.refl s)
      | true =>
        refine checkConnect_change h hget hphase (fun fd hfd hmem => ?_) now err protoOk
        have hsl := hfresh fd hfd hmem
        rw [hget] at hsl
        exact hsl
    | running => exact doSessionStep_change h hget hphase now io rc

/-! ### Reloading -/

/-- The active sessions of the table stay where they are. -/
def KeepsActive (s s' : EvState) : Prop :=
  ∀ (i : ℕ) (sl : Slot), s.sessions[i]? = some sl → sl.phase ≠ .free → s'.sessions[i]? = some sl

/-- Slots that are free count for nothing and have no socket. -/
theorem free_slots {l : List Slot} (h : ∀ sl ∈ l, sl.phase = .free ∧ sl.Ok) :
    l.countP Slot.isServer = 0 ∧ l.countP Slot.isClient = 0 ∧ l.filterMap (·.fd) = [] := by
  refine ⟨List.countP_eq_zero.mpr fun sl hsl => ?_, List.countP_eq_zero.mpr fun sl hsl => ?_,
    List.filterMap_eq_nil_iff.mpr fun sl hsl => (h sl hsl).2.free (h sl hsl).1⟩
  · rw [isServer_free (h sl hsl).1]
    exact Bool.false_ne_true
  · rw [isClient_free (h sl hsl).1]
    exact Bool.false_ne_true

theorem active_of_counts (h : sl.isServer = false) (h' : sl.isClient = false) : sl.phase = .free := by
  by_contra hactive
  cases hin : sl.inbound <;> simp [Slot.isServer, Slot.isClient, hactive, hin] at h h'

/-- The slots that a new table has behind the old ones are free. -/
theorem replicate_free (n : ℕ) : ∀ sl ∈ List.replicate n ({} : Slot), sl.phase = .free ∧ sl.Ok := by
  intro sl hsl
  rw [List.eq_of_mem_replicate hsl]
  exact ⟨rfl, fun _ => rfl, (fun h => nomatch h), (fun h => nomatch h)⟩

theorem reload_sessions (nc : EvConfig) (reallocOk : Bool) (s : EvState) :
    (handleConfigReload nc reallocOk s).sessions = s.sessions ∧ (ReloadFits nc reallocOk s) ∨
    reallocOk = true ∧ (handleConfigReload nc reallocOk s).sessions =
      resizeTable (calcMaxSessions nc s.serverFlag s.clientFlag) s.sessions := by
  unfold handleConfigReload
  dsimp only
  by_cases hresize : calcMaxSessions nc s.serverFlag s.clientFlag ≠ s.sessions.length ∧ reallocOk = true
  · rw [if_pos hresize]
    exact .inr ⟨hresize.2, rfl⟩
  · rw [if_neg hresize]
    refine .inl ⟨rfl, fun hok sl hsl => ?_⟩
    have hlen : calcMaxSessions nc s.serverFlag s.clientFlag = s.sessions.length := by
      by_contra hne
      exact hresize ⟨hne, hok⟩
    rw [hlen, List.drop_length] at hsl
    cases hsl

/-- A slot behind the end of the new table. -/
theorem mem_drop_of_le {l : List Slot} {n i : ℕ} (hi : n ≤ i) (hget : l[i]? = some sl) :
    sl ∈ l.drop n := by
  apply List.mem_of_getElem? (i := i - n)
  rw [List.getElem?_drop, show n + (i - n) = i by omega]
  exact hget

theorem resizeTable_get (n : ℕ) (l : List Slot) {i : ℕ} (hi : i < l.length) :
    (resizeTable n l)[i]? = if i < n then l[i]? else none := by
  unfold resizeTable
  by_cases hin : i < n
  · rw [if_pos hin, List.getElem?_append_left (by rw [List.length_take]; omega),
      List.getElem?_take_of_lt hin]
  · rw [if_neg hin]
    apply List.getElem?_eq_none
    rw [List.length_append, List.length_take, List.length_replicate]
    omega

/-- A reload keeps the active sessions exactly where the new table has a place for each. -/
theorem reload_keeps (nc : EvConfig) (reallocOk : Bool) (s : EvState) :
    KeepsActive s (handleConfigReload nc reallocOk s) ↔ ReloadFits nc reallocOk s := by
  rcases reload_sessions nc reallocOk s with ⟨hsame, hfits⟩ | ⟨hok, hresize⟩
  · refine ⟨fun _ => hfits, fun _ i sl hget _ => ?_⟩
    rw [hsame]
    exact hget
  · constructor
    · intro hkeeps _ sl hsl
      by_contra hactive
      obtain ⟨i, hget⟩ := List.mem_iff_getElem?.mp hsl
      rw [List.getElem?_drop] at hget
      have hnew := hkeeps _ sl hget hactive
      rw [hresize, resizeTable_get _ _ (List.getElem?_eq_some_iff.mp hget).1, if_neg (by omega)] at hnew
      cases hnew
    · intro hfits i sl hget hactive
      have hlt : i < calcMaxSessions nc s.serverFlag s.clientFlag := by
        by_contra hge
        exact hactive (hfits hok sl (mem_drop_of_le (by omega) hget))
      rw [hresize, resizeTable_get _ _ (List.getElem?_eq_some_iff.mp hget).1, if_pos hlt]
      exact hget

theorem resizeTable_counts (s : EvState) (n : ℕ) :
    (resizeTable n s.sessions).countP Slot.isServer = (s.sessions.take n).countP Slot.isServer ∧
    (resizeTable n s.sessions).countP Slot.isClient = (s.sessions.take n).countP Slot.isClient ∧
    (resizeTable n s.sessions).filterMap (·.fd) = (s.sessions.take n).filterMap (·.fd) := by
  obtain ⟨h1, h2, h3⟩ := free_slots (replicate_free (n - s.sessions.length))
  unfold resizeTable
  rw [List.countP_append, List.countP_append, List.filterMap_append, h1, h2, h3]
  exact ⟨rfl, rfl, List.append_nil _⟩

/-- A reload keeps the invariant exactly where the new table has a place for each active session. -/
theorem reload_inv (h : SessInv s) (nc : EvConfig) (reallocOk : Bool) :
    SessInv (handleConfigReload nc reallocOk s) ↔ ReloadFits nc reallocOk s := by
  rcases reload_sessions nc reallocOk s with ⟨hsame, hfits⟩ | ⟨hok, hresize⟩
  · exact ⟨fun _ => hfits, fun _ => SameTable.inv ⟨hsame, rfl, rfl, rfl⟩ h⟩
  · have hn : ∃ n, n = calcMaxSessions nc s.serverFlag s.clientFlag := ⟨_, rfl⟩
    obtain ⟨n, hn⟩ := hn
    rw [← hn] at hresize
    obtain ⟨hcs, hcc, hfm⟩ := resizeTable_counts s n
    have hservers := h.servers
    have hclients := h.clients
    rw [← List.take_append_drop n s.sessions, List.countP_append] at hservers hclients
    push_cast at hservers hclients
    constructor
    · intro hinv _ sl hmem
      have hs := hinv.servers
      have hc := hinv.clients
      rw [hresize, hcs] at hs
      rw [hresize, hcc] at hc
      have hs' : s.nServers = ((s.sessions.take n).countP Slot.isServer : ℕ) := hs
      have hc' : s.nClients = ((s.sessions.take n).countP Slot.isClient : ℕ) := hc
      rw [← hn] at hmem
      have hzero : (s.sessions.drop n).countP Slot.isServer = 0 := by omega
      have hzero' : (s.sessions.drop n).countP Slot.isClient = 0 := by omega
      exact active_of_counts (Bool.eq_false_iff.mpr (List.countP_eq_zero.mp hzero sl hmem))
        (Bool.eq_false_iff.mpr (List.countP_eq_zero.mp hzero' sl hmem))
    · intro hfits
      have hdrop : ∀ sl ∈ s.sessions.drop n, sl.phase = .free ∧ sl.Ok := fun sl hsl =>
        ⟨hfits hok sl (hn ▸ hsl), h.slots sl (List.mem_of_mem_drop hsl)⟩
      obtain ⟨h1, h2, h3⟩ := free_slots hdrop
      rw [h1] at hservers
      rw [h2] at hclients
      refine ⟨?_, ?_, ?_, h.nodup, fun sl hsl => ?_⟩
      · rw [hresize, hcs]
        show s.nServers = _
        omega
      · rw [hresize, hcc]
        show s.nClients = _
        omega
      · rw [hresize, hfm]
        have howned := h.owned
        rw [← List.take_append_drop n s.sessions, List.filterMap_append, h3, List.append_nil] at howned
        exact howned
      · rw [hresize] at hsl
        rcases List.mem_append.mp hsl with hsl | hsl
        · exact h.slots sl (List.mem_of_mem_take hsl)
        · exact (replicate_free _ sl hsl).2

/-! ### A run of events -/

/-- One event keeps the invariant, a reload where the new table has the places. -/
theorem evStep_inv (h : SessInv s) {op : EvOp} (hfresh : op.Fresh s) (hfits : op.Fits s) :
    SessInv (evStep s op) := by
  cases op with
  | accept now accepted protoOk => exact (doAccept_change h hfresh now protoOk).inv h
  | call now q c => exact (tryOutbound_change h hfresh now q).inv h
  | advance now io err protoOk c rc idx => exact (advanceSession_change h hfresh now io err protoOk rc).inv h
  | reload nc reallocOk => exact (reload_inv h nc reallocOk).mpr hfits

/-- A run in which every new socket is new and every reload has a place for each active session. -/
def FittingRun : List EvOp → EvState → Prop
  | [], _ => True
  | op :: ops, s => op.Fresh s ∧ op.Fits s ∧ FittingRun ops (evStep s op)

instance decidableFittingRun : (ops : List EvOp) → (s : EvState) → Decidable (FittingRun ops s)
  | [], _ => .isTrue trivial
  | op :: ops, s =>
    have := decidableFittingRun ops
    inferInstanceAs (Decidable (op.Fresh s ∧ op.Fits s ∧ FittingRun ops (evStep s op)))

theorem fittingRun_inv {ops : List EvOp} (h : SessInv s) (hrun : FittingRun ops s) :
    SessInv (ops.foldl evStep s) := by
  induction ops generalizing s with
  | nil => exact h
  | cons op ops ih => exact ih (evStep_inv h hrun.1 hrun.2.1) hrun.2.2

/-- The table at the start of the loop. -/
def evInit (config : EvConfig) (serverFlag clientFlag pollFlag : Bool) : EvState where
  sessions := initSessionTable (calcMaxSessions config serverFlag clientFlag)
  config := config
  serverFlag := serverFlag
  clientFlag := clientFlag
  pollFlag := pollFlag

theorem evInit_inv (config : EvConfig) (serverFlag clientFlag pollFlag : Bool) :
    SessInv (evInit config serverFlag clientFlag pollFlag) := by
  have hfree := replicate_free (calcMaxSessions config serverFlag clientFlag)
  obtain ⟨h1, h2, h3⟩ := free_slots hfree
  refine ⟨?_, ?_, ?_, List.nodup_nil, fun sl hsl => (hfree sl hsl).2⟩
  · show (0 : Int) = ((List.replicate _ _).countP Slot.isServer : ℕ)
    rw [h1]
    rfl
  · show (0 : Int) = ((List.replicate _ _).countP Slot.isClient : ℕ)
    rw [h2]
    rfl
  · show ((List.replicate _ _).filterMap _).Perm []
    rw [h3]

/-! ### The end of the loop -/

theorem cleanupSlot_change (h : SessInv s) (hget : s.sessions[idx]? = some sl) :
    SlotChange s (cleanupSlot idx s) idx sl sl.freed := by
  have hok := h.slots sl (List.mem_of_getElem? hget)
  unfold cleanupSlot
  rw [hget]
  dsimp only
  cases hphase : sl.phase with
  | free =>
    rw [if_neg (fun hh => nomatch hh.1), if_neg (fun hh => nomatch hh), sessFree_eq]
    refine change_none h hget hphase sl rfl rfl rfl ?_
    rw [hok.free hphase]
    rfl
  | connecting =>
    have hactive : sl.phase ≠ .free := by
      rw [hphase]
      exact fun h => nomatch h
    rw [if_neg (fun hh => nomatch hh.1), if_pos rfl, ← lessSessions_client (hok.connecting hphase)]
    exact sessFree_change h hget hactive sl rfl
  | running =>
    have hactive : sl.phase ≠ .free := by
      rw [hphase]
      exact fun h => nomatch h
    rw [if_pos ⟨rfl, hok.running hphase⟩]
    exact sessFree_change h hget hactive sl rfl

/-- The slots that `evloop_cleanup` has passed are free. -/
theorem cleanup_prefix (h : SessInv s) (n : ℕ) (hn : n ≤ s.sessions.length) :
    SessInv ((List.range n).foldl (fun s idx => cleanupSlot idx s) s) ∧
      ((List.range n).foldl (fun s idx => cleanupSlot idx s) s).sessions.length = s.sessions.length ∧
      ∀ i < n, ∀ sl, ((List.range n).foldl (fun s idx => cleanupSlot idx s) s).sessions[i]? = some sl →
        sl.phase = .free := by
  induction n with
  | zero => exact ⟨h, rfl, fun i hi => absurd hi (Nat.not_lt_zero i)⟩
  | succ n ih =>
    obtain ⟨hinv, hlen, hfree⟩ := ih (by omega)
    rw [List.range_succ, List.foldl_append, List.foldl_cons, List.foldl_nil]
    generalize (List.range n).foldl (fun s idx => cleanupSlot idx s) s = t at hinv hlen hfree
    obtain ⟨sl, hget⟩ : ∃ sl, t.sessions[n]? = some sl := ⟨_, List.getElem?_eq_getElem (by omega)⟩
    have hchange := cleanupSlot_change hinv hget
    refine ⟨hchange.inv hinv, ?_, fun i hi sl' hsl' => ?_⟩
    · rw [hchange.set, List.length_set, hlen]
    · rw [hchange.set] at hsl'
      by_cases hin : i = n
      · subst hin
        rw [List.getElem?_set_self (by omega)] at hsl'
        rw [← Option.some.inj hsl']
        rfl
      · rw [List.getElem?_set_ne (Ne.symm hin)] at hsl'
        exact hfree i (by omega) sl' hsl'

/-- `evloop_cleanup` leaves no session, and no socket open. -/
theorem evloopCleanup_clean (h : SessInv s) :
    (evloopCleanup s).nServers = 0 ∧ (evloopCleanup s).nClients = 0 ∧
    (evloopCleanup s).sockets = [] := by
  obtain ⟨hinv, hlen, hfree⟩ := cleanup_prefix h s.sessions.length (Nat.le_refl _)
  change SessInv (evloopCleanup s) at hinv
  change (evloopCleanup s).sessions.length = _ at hlen
  have hall : ∀ sl ∈ (evloopCleanup s).sessions, sl.phase = .free ∧ sl.Ok := by
    intro sl hsl
    obtain ⟨i, hi, rfl⟩ := List.mem_iff_getElem.mp hsl
    exact ⟨hfree i (by omega) _ (List.getElem?_eq_getElem hi), hinv.slots _ hsl⟩
  obtain ⟨h1, h2, h3⟩ := free_slots hall
  have hservers := hinv.servers
  have hclients := hinv.clients
  have howned := hinv.owned
  rw [h1] at hservers
  rw [h2] at hclients
  rw [h3] at howned
  exact ⟨hservers, hclients, howned.nil_eq.symm⟩

/-- The session table.  In a run in which the system gives every new socket a number that is free
and every reload has a place for each active session, the counters are the numbers of the active
slots, inbound and outbound, the open sockets are those of the slots, each of one slot, and the end
of the loop closes them all.  A further reload keeps the active slots, and all this, exactly where
it has a place for each of them. -/
theorem session_table {config : EvConfig} {serverFlag clientFlag pollFlag : Bool} {ops : List EvOp}
    (hrun : FittingRun ops (evInit config serverFlag clientFlag pollFlag)) {s : EvState}
    (hs : s = ops.foldl evStep (evInit config serverFlag clientFlag pollFlag)) :
    s.nServers = (s.sessions.countP Slot.isServer : ℕ) ∧
    s.nClients = (s.sessions.countP Slot.isClient : ℕ) ∧
      (s.sessions.filterMap (·.fd)).Perm s.sockets ∧ s.sockets.Nodup ∧
      (evloopCleanup s).nServers = 0 ∧ (evloopCleanup s).nClients = 0 ∧ (evloopCleanup s).sockets = [] ∧
      ∀ nc reallocOk,
        (KeepsActive s (handleConfigReload nc reallocOk s) ∧ SessInv (handleConfigReload nc reallocOk s) ↔
          ReloadFits nc reallocOk s) := by
  have h : SessInv s := by
    rw [hs]
    exact fittingRun_inv (evInit_inv config serverFlag clientFlag pollFlag) hrun
  obtain ⟨hservers, hclients, hsockets⟩ := evloopCleanup_clean h
  refine ⟨h.servers, h.clients, h.owned, h.nodup, hservers, hclients, hsockets, fun nc reallocOk => ?_⟩
  rw [reload_keeps, reload_inv h]
  exact and_self_iff

/-- Three sessions come in, and the first two of them end. -/
def lastSlotRun : List EvOp :=
  [.accept 0 (some 5) true, .accept 0 (some 6) true, .accept 0 (some 7) true,
    .advance 1 true false true {} .doneOk 0, .advance 1 true false true {} .doneErr 1]

def threeServers : EvConfig := { maxServers := 3, maxClients := 1 }

/-- The counters are right in front of the reload. -/
theorem lastSlot_counted :
    FittingRun lastSlotRun (evInit threeServers true true false) ∧
      (lastSlotRun.foldl evStep (evInit threeServers true true false)).nServers =
        ((lastSlotRun.foldl evStep (evInit threeServers true true false)).sessions.countP Slot.isServer : ℕ) := by
  have hrun : FittingRun lastSlotRun (evInit threeServers true true false) := by decide +kernel
  exact ⟨hrun, (session_table hrun rfl).1⟩

/-- The loop after a reload that leaves two slots. -/
def lastSlotReload : EvState :=
  handleConfigReload { maxServers := 1, maxClients := 1 } true
    (lastSlotRun.foldl evStep (evInit threeServers true true false))

/-- The session in the third slot is dropped, but still counted, and its socket stays open. -/
theorem lastSlot_dropped :
    lastSlotReload.nServers = 1 ∧ lastSlotReload.sessions.countP Slot.isServer = 0 ∧
      lastSlotReload.sockets = [7] ∧ lastSlotReload.sessions.filterMap (·.fd) = [] := by
  decide +kernel

end Binkd

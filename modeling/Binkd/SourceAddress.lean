import Binkd.Aka

/-!
# The source address of a caller

`ADR` compares the address of the caller with the addresses of the node's hosts.
`ipCheck_eq` says what the two loops over hosts and addresses come to, and
`adrStep_checked` what a round of `ADR` does then.  Where the address of the caller
is not known, the comparison is with what the stack holds at `sin`, so a node with
`-sip` is let in if that happens to be one of its addresses (`StackMatches`).
-/

namespace Binkd

open Lib

variable {config : BinkdConfig} {env : Env}

/-! ### The addresses of a node -/

/-- What the resolver gives for an entry of a host list. -/
def addressesOf (config : BinkdConfig) (env : Env) (fa : FtnAddr) (h : Str) : List SockAddr :=
  match hostOf config env fa h with
  | none => []
  | some host => if host = str "-" then [] else (env.getaddrinfo host).getD []

/-- The addresses of a node. -/
def nodeAddresses (config : BinkdConfig) (env : Env) (n : FtnNode) : List SockAddr :=
  (hostList (n.hosts.getD []) env.tail).flatMap (addressesOf config env n.fa)

/-- The caller has an address of the node. -/
def FromHost (config : BinkdConfig) (env : Env) (n : FtnNode) : Prop :=
  ∃ a ∈ env.peer, a ∈ nodeAddresses config env n

/-- The address of the caller is not known, and the stack holds one of the node's in its place. -/
def StackMatches (config : BinkdConfig) (env : Env) (n : FtnNode) : Prop :=
  env.peer = none ∧ ∃ a ∈ env.sin, a ∈ nodeAddresses config env n

instance (n : FtnNode) : Decidable (FromHost config env n) :=
  inferInstanceAs (Decidable (∃ a ∈ env.peer, a ∈ nodeAddresses config env n))

instance (n : FtnNode) : Decidable (StackMatches config env n) :=
  inferInstanceAs (Decidable (env.peer = none ∧ ∃ a ∈ env.sin, a ∈ nodeAddresses config env n))

/-- May the caller present the address of this node? -/
def SourceAllowed (config : BinkdConfig) (env : Env) (n : FtnNode) : Prop :=
  match n.restrictIP with
  | .off => True
  | .on => FromHost config env n ∨ nodeAddresses config env n = [] ∨ env.peer = none
  | .sip => FromHost config env n

/-! ### The loops -/

theorem ipLoop_cons (fa : FtnAddr) (h : Str) (hosts : List Str) (ipok : Int) :
    ipLoop config env fa (h :: hosts) ipok =
      if ∃ a ∈ addressesOf config env fa h, some a = env.source then 1
      else ipLoop config env fa hosts (if ipok = 0 ∧ addressesOf config env fa h ≠ [] then -1 else ipok) := by
  rw [ipLoop, addressesOf]
  cases hostOf config env fa h with
  | none => simp
  | some host =>
    dsimp only
    by_cases hdash : host = str "-"
    · simp [hdash]
    · simp only [if_neg hdash]
      cases env.getaddrinfo host with
      | none => simp
      | some addrs => simp

/-- A match anywhere in the list decides; the first address that does not match is remembered. -/
theorem ipLoop_eq (fa : FtnAddr) (hosts : List Str) (ipok : Int) :
    ipLoop config env fa hosts ipok =
      if ∃ a ∈ hosts.flatMap (addressesOf config env fa), some a = env.source then 1
      else if ipok = 0 ∧ hosts.flatMap (addressesOf config env fa) ≠ [] then -1 else ipok := by
  induction hosts generalizing ipok with
  | nil => simp [ipLoop]
  | cons h hosts ih =>
    rw [ipLoop_cons, ih, List.flatMap_cons]
    by_cases hmatch : ∃ a ∈ addressesOf config env fa h, some a = env.source
    · obtain ⟨a, ha, heq⟩ := hmatch
      rw [if_pos ⟨a, ha, heq⟩, if_pos ⟨a, List.mem_append_left _ ha, heq⟩]
    · rw [if_neg hmatch]
      have hrest : (∃ a ∈ addressesOf config env fa h ++ hosts.flatMap (addressesOf config env fa),
          some a = env.source) ↔ ∃ a ∈ hosts.flatMap (addressesOf config env fa), some a = env.source := by
        constructor
        · rintro ⟨a, ha, heq⟩
          rcases List.mem_append.mp ha with ha | ha
          · exact absurd ⟨a, ha, heq⟩ hmatch
          · exact ⟨a, ha, heq⟩
        · rintro ⟨a, ha, heq⟩
          exact ⟨a, List.mem_append_right _ ha, heq⟩
      rw [if_congr hrest rfl rfl]
      congr 1
      by_cases hzero : ipok = 0
      · by_cases hnil : addressesOf config env fa h = []
        · simp [hzero, hnil]
        · simp [hzero, hnil]
      · simp [hzero]

theorem ipCheck_eq (n : FtnNode) :
    ipCheck config env n =
      if FromHost config env n ∨ StackMatches config env n then 1
      else if env.peer = none then 2
      else if nodeAddresses config env n = [] then 0 else -1 := by
  rw [ipCheck, ipLoop_eq]
  change (if ∃ a ∈ nodeAddresses config env n, some a = env.source then 1 else _) = _
  have hsource : (∃ a ∈ nodeAddresses config env n, some a = env.source) ↔
      FromHost config env n ∨ StackMatches config env n := by
    unfold FromHost StackMatches Env.source
    cases hp : env.peer with
    | some p => simp [eq_comm]
    | none =>
      simp only [Option.none_or, Option.mem_def, reduceCtorEq, false_and, exists_false,
        true_and, false_or]
      constructor
      · rintro ⟨a, ha, heq⟩
        exact ⟨a, heq.symm, ha⟩
      · rintro ⟨a, heq, ha⟩
        exact ⟨a, ha, heq.symm⟩
  rw [if_congr hsource rfl rfl]
  congr 1
  cases hp : env.peer with
  | none => simp
  | some p =>
    have hlist : (hostList (n.hosts.getD []) env.tail).flatMap (addressesOf config env n.fa) =
      nodeAddresses config env n := rfl
    rw [hlist]
    by_cases hnil : nodeAddresses config env n = []
    · simp [hnil]
    · simp [hnil]

/-- The test lets a node go on: its source address is right, or is taken for one. -/
def NodeGoes (config : BinkdConfig) (env : Env) (n : FtnNode) : Prop :=
  SourceAllowed config env n ∨ n.restrictIP = .sip ∧ StackMatches config env n

variable (config env) in
theorem ipCheck_goes (n : FtnNode) :
    (ipCheck config env n = 1 ∨ ¬ (ipCheck config env n < 0 ∨ n.restrictIP = .sip) ∨ n.restrictIP = .off) ↔
      NodeGoes config env n := by
  rw [ipCheck_eq, NodeGoes, SourceAllowed]
  by_cases hfrom : FromHost config env n
  · cases n.restrictIP <;> simp [hfrom]
  · by_cases hstack : StackMatches config env n
    · cases n.restrictIP <;> simp [hfrom, hstack, hstack.1]
    · by_cases hpeer : env.peer = none
      · cases n.restrictIP <;> simp [hfrom, hstack, hpeer]
      · by_cases hnil : nodeAddresses config env n = []
        · cases n.restrictIP <;> simp [hfrom, hstack, hpeer, hnil]
        · cases n.restrictIP <;> simp [hfrom, hstack, hpeer, hnil]

/-! ### One round -/

/-- The answer to an address with a password that comes from elsewhere. -/
def badSource (s : State) : State := msgSend2 M_ERR (str "Bad source IP") [] s

/-- What the source address does to a round of a session that answers. -/
inductive SourceStep (config : BinkdConfig) (env : Env) (a : FtnAddr) (n : FtnNode) (s : State) :
    AdrStep → Prop
  | goes (h : NodeGoes config env n) (l : AdrLocals) :
  SourceStep config env a n s (adrLogin config env a (some n) s l)
  | ends (h : ¬ NodeGoes config env n) (hpwd : n.pwd ≠ str "-") :
  SourceStep config env a n s (.stop (badSource s))
  | drops (h : ¬ NodeGoes config env n) (hpwd : n.pwd = str "-") (l : AdrLocals) :
      SourceStep config env a n s (.next s l)

theorem adrStep_node {w : Str} {a : FtnAddr} (hw : akaOf config w = some a) (s : State) (l : AdrLocals) :
    adrStep config env w s l =
      match getNodeInfo env.now a config with
      | none => adrLogin config env a none s l
      | some n =>
        if ipRestricted config s n then
          if ipCheck config env n = 1 then adrLogin config env a (some n) s { l with ipVerified := 2 }
          else if ipCheck config env n < 0 ∨ n.restrictIP = .sip then
            if n.pwd ≠ str "-" ∧ s.toNode.isNone then .stop (badSource s)
            else .next s { l with ipVerified := if l.ipVerified = 0 then -1 else l.ipVerified }
          else adrLogin config env a (some n) s l
        else adrLogin config env a (some n) s { l with ipVerified := 1 } := by
  obtain ⟨fa, hfa, rfl⟩ := Option.map_eq_some_iff.mp hw
  rw [adrStep, hfa]
  dsimp only
  split <;> simp_all [badSource]

theorem adrStep_source {w : Str} {a : FtnAddr} {n : FtnNode} {s : State} (hto : s.toNode = none)
    (hw : akaOf config w = some a) (hn : getNodeInfo env.now a config = some n) (l : AdrLocals) :
    SourceStep config env a n s (adrStep config env w s l) := by
  have hgoes := ipCheck_goes config env n
  rw [adrStep_node hw, hn]
  dsimp only
  have hrestricted : ipRestricted config s n = decide (n.restrictIP ≠ .off) := by
    simp [ipRestricted, hto]
  rw [hrestricted]
  by_cases hoff : n.restrictIP = .off
  · rw [if_neg (by simp [hoff])]
    exact .goes (hgoes.mp (.inr (.inr hoff))) _
  · rw [if_pos (by simp [hoff])]
    have hno : ipCheck config env n ≠ 1 → ipCheck config env n < 0 ∨ n.restrictIP = .sip →
        ¬ NodeGoes config env n := by
      intro hone hbad hall
      rcases hgoes.mpr hall with h | h | h
      · exact hone h
      · exact h hbad
      · exact hoff h
    by_cases hone : ipCheck config env n = 1
    · rw [if_pos hone]
      exact .goes (hgoes.mp (.inl hone)) _
    · rw [if_neg hone]
      by_cases hbad : ipCheck config env n < 0 ∨ n.restrictIP = .sip
      · rw [if_pos hbad]
        by_cases hpwd : n.pwd = str "-"
        · rw [if_neg (by simp [hpwd])]
          exact .drops (hno hone hbad) hpwd _
        · rw [if_pos ⟨hpwd, by simp [hto]⟩]
          exact .ends (hno hone hbad) hpwd
      · rw [if_neg hbad]
        exact .goes (hgoes.mp (.inr (.inl hbad))) _

theorem adrStep_allowed {w : Str} {a : FtnAddr} {n : FtnNode} {s : State} (hto : s.toNode = none)
    (hw : akaOf config w = some a) (hn : getNodeInfo env.now a config = some n) (l : AdrLocals)
    (hgoes : NodeGoes config env n) : ∃ l', adrStep config env w s l = adrLogin config env a (some n) s l' := by
  have hstep := adrStep_source hto hw hn l
  generalize adrStep config env w s l = r at hstep
  cases hstep with
  | goes _ l' => exact ⟨l', rfl⟩
  | ends h => exact absurd hgoes h
  | drops h => exact absurd hgoes h

theorem adrStep_refused {w : Str} {a : FtnAddr} {n : FtnNode} {s : State} (hto : s.toNode = none)
    (hw : akaOf config w = some a) (hn : getNodeInfo env.now a config = some n) (l : AdrLocals)
    (hpwd : n.pwd ≠ str "-") (hgoes : ¬ NodeGoes config env n) :
    adrStep config env w s l = .stop (badSource s) := by
  have hstep := adrStep_source hto hw hn l
  generalize adrStep config env w s l = r at hstep
  cases hstep with
  | goes h => exact absurd h hgoes
  | ends => rfl
  | drops _ h => exact absurd h hpwd

/-- A round that gets past the test does not end with its answer. -/
theorem adrLogin_ne_badSource (a : FtnAddr) (pn : Option FtnNode) (s s' : State) (l : AdrLocals) :
    adrLogin config env a pn s l ≠ .stop (badSource s') := by
  have hbusy : ∀ (pn : Option FtnNode) (s : State),
      adrBusy config env a pn s l ≠ .stop (badSource s') := by
    intro pn s
    unfold adrBusy
    split
    · exact AdrStep.noConfusion
    · split
      · intro h
        have hlog := congrArg (fun s : State => s.link.log.head?) (AdrStep.stop.inj h)
        simp only [msgSendf, msgSend2, badSource, Link.queue, List.head?_cons, Option.some.injEq,
          Item.msg.injEq] at hlog
        exact absurd hlog.1 (by decide)
      · exact AdrStep.noConfusion
  unfold adrLogin
  split
  · exact hbusy none s
  · dsimp only
    split
    · exact AdrStep.noConfusion
    · exact hbusy _ _

theorem AkaAdded.perm {a : FtnAddr} {fa fa' : List FtnAddr} {nfa nfa' : ℕ} (h : AkaAdded a fa nfa fa' nfa') :
    fa'.Perm (fa ++ [a]) := by
  cases h with
  | busy => exact .refl _
  | active =>
    have hmid : (fa.take nfa ++ a :: fa.drop nfa).Perm (a :: (fa.take nfa ++ fa.drop nfa)) :=
      List.perm_middle
    rw [List.take_append_drop] at hmid
    exact hmid.trans (List.perm_append_singleton a fa).symm

variable (config env) in
/-- The address of a node without a password gets onto the list when the test lets it. -/
theorem adrLogin_open (a : FtnAddr) {n : FtnNode} {s : State} (hto : s.toNode = none) (hpwd : n.pwd = str "-")
    (l : AdrLocals) : ∃ s' l', adrLogin config env a (some n) s l = .next s' l' ∧
      s'.login.fa.Perm (s.login.fa ++ [a]) := by
  have hacc : ∀ login : Login, adrPwd s.toNode s.remoteFa a n login = .accept login := by
    intro login
    simp [adrPwd, hto, hpwd]
  rw [adrLogin]
  dsimp only
  rw [hacc]
  dsimp only
  unfold adrBusy
  split
  · exact ⟨_, _, rfl, (AkaAdded.active).perm⟩
  · rw [if_neg (by simp [hpwd])]
    exact ⟨_, _, rfl, .refl _⟩

variable (config env) in
theorem adrLogin_fa (a : FtnAddr) (pn : Option FtnNode) (s : State) (l : AdrLocals) :
    ∃ added, (adrLogin config env a pn s l).state.login.fa.Perm (s.login.fa ++ added) ∧
    ∀ x ∈ added, x = a := by
  have hbusy : ∀ (pn : Option FtnNode) (s : State), ∃ added,
      (adrBusy config env a pn s l).state.login.fa.Perm (s.login.fa ++ added) ∧ ∀ x ∈ added, x = a := by
    intro pn s
    obtain ⟨fas, nfa, hl, hadd⟩ := adrBusy_added config env a pn s l
    rw [hl]
    rcases hadd with ⟨rfl, -⟩ | hadd
    · exact ⟨[], by simp, by simp⟩
    · exact ⟨[a], hadd.perm, by simp⟩
  unfold adrLogin
  split
  · exact hbusy none s
  · next n =>
    dsimp only
    obtain ⟨e, m, hl⟩ := adrPwd_login s.toNode s.remoteFa a n
      { s.login with listedFlag := s.login.listedFlag ||| n.listed }
    split
    · next login hdrop =>
      rw [hdrop] at hl
      obtain rfl : login = _ := hl
      exact ⟨[], by simp [AdrStep.state], by simp⟩
    · next login hacc =>
      rw [hacc] at hl
      obtain rfl : login = _ := hl
      exact hbusy _ _

/-- The test lets an address go on. -/
def Goes (config : BinkdConfig) (env : Env) (a : FtnAddr) : Prop :=
  ∀ n ∈ getNodeInfo env.now a config, NodeGoes config env n

variable (config env) in
theorem adrStep_fa (w : Str) {s : State} (hto : s.toNode = none) (l : AdrLocals) :
    ∃ added, (adrStep config env w s l).state.login.fa.Perm (s.login.fa ++ added) ∧
      ∀ x ∈ added, akaOf config w = some x ∧ Goes config env x := by
  cases hw : akaOf config w with
  | none =>
    have hparse : (parseFtnaddress w config.pDomains).filter (·.is4D) = none :=
      Option.map_eq_none_iff.mp hw
    rw [adrStep, hparse]
    exact ⟨[], by simp [AdrStep.state], by simp⟩
  | some a =>
    cases hn : getNodeInfo env.now a config with
    | none =>
      rw [adrStep_node hw, hn]
      obtain ⟨added, hperm, hadded⟩ := adrLogin_fa config env a none s l
      refine ⟨added, hperm, fun x hx => ?_⟩
      obtain rfl := hadded x hx
      exact ⟨rfl, fun n hn' => by simp [hn] at hn'⟩
    | some n =>
      have hstep := adrStep_source hto hw hn l
      generalize adrStep config env w s l = r at hstep
      cases hstep with
      | goes hgoes l =>
        obtain ⟨added, hperm, hadded⟩ := adrLogin_fa config env a (some n) s l
        refine ⟨added, hperm, fun x hx => ?_⟩
        obtain rfl := hadded x hx
        refine ⟨rfl, fun n' hn' => ?_⟩
        rw [hn] at hn'
        obtain rfl := Option.some.inj hn'
        exact hgoes
      | ends => exact ⟨[], by simp [AdrStep.state, badSource], by simp⟩
      | drops => exact ⟨[], by simp [AdrStep.state], by simp⟩

/-! ### The loop -/

/-- The loop over the words comes to a word in this state. -/
def Reached (config : BinkdConfig) (env : Env) (ws : List Str) (s : State) (l : AdrLocals) (w : Str) (s1 : State)
    (l1 : AdrLocals) : Prop :=
  ∃ done rest, ws = done ++ w :: rest ∧ adrLoop config env done s l = .next s1 l1

variable {ws : List Str} {w w' : Str} {s s1 s2 : State} {l l1 l2 : AdrLocals}

theorem reached_head : Reached config env (w :: ws) s l w s l := ⟨[], ws, rfl, rfl⟩

theorem Reached.tail (h : Reached config env ws s1 l1 w' s2 l2) (hstep : adrStep config env w s l = .next s1 l1) :
    Reached config env (w :: ws) s l w' s2 l2 := by
  obtain ⟨done, rest, rfl, hloop⟩ := h
  exact ⟨w :: done, rest, rfl, by rw [adrLoop, hstep]; exact hloop⟩

theorem adrLoop_append (xs ys : List Str) (s : State) (l : AdrLocals) :
    adrLoop config env (xs ++ ys) s l =
      match adrLoop config env xs s l with
      | .stop s => .stop s
      | .next s l => adrLoop config env ys s l := by
  induction xs generalizing s l with
  | nil => rfl
  | cons x xs ih =>
    rw [List.cons_append, adrLoop, adrLoop]
    cases adrStep config env x s l with
    | stop => rfl
    | next s l => exact ih s l

theorem Reached.toNode (h : Reached config env ws s l w s1 l1) : s1.toNode = s.toNode := by
  obtain ⟨done, rest, rfl, hloop⟩ := h
  have hframe := adrLoop_frame config env done s l
  rw [hloop] at hframe
  exact hframe.toNode

/-- The loop comes to every word, or it stops. -/
theorem reached_or_stop (hw : w ∈ ws) (s : State) (l : AdrLocals) :
    (∃ s1 l1, Reached config env ws s l w s1 l1) ∨ ∃ s1, adrLoop config env ws s l = .stop s1 := by
  obtain ⟨done, rest, rfl⟩ := List.append_of_mem hw
  cases hdone : adrLoop config env done s l with
  | stop s1 => exact .inr ⟨s1, by rw [adrLoop_append, hdone]⟩
  | next s1 l1 => exact .inl ⟨s1, l1, done, rest, rfl, hdone⟩

variable (config env) in
/-- The list of addresses only grows in the loop, by addresses that the test lets go on. -/
theorem adrLoop_fa (ws : List Str) {s : State} (hto : s.toNode = none) (l : AdrLocals) :
    ∃ added, (adrLoop config env ws s l).state.login.fa.Perm (s.login.fa ++ added) ∧
      ∀ x ∈ added, Goes config env x ∧ ∃ w s1 l1, Reached config env ws s l w s1 l1 ∧
      akaOf config w = some x := by
  induction ws generalizing s l with
  | nil => exact ⟨[], by simp [adrLoop, AdrStep.state], by simp⟩
  | cons w ws ih =>
    obtain ⟨added, hperm, hadded⟩ := adrStep_fa config env w hto l
    have hframe := adrStep_frame config env w s l
    rw [adrLoop]
    cases hstep : adrStep config env w s l with
    | stop s1 =>
      rw [hstep] at hperm
      exact ⟨added, hperm, fun x hx => ⟨(hadded x hx).2, w, s, l, reached_head, (hadded x hx).1⟩⟩
    | next s1 l1 =>
      rw [hstep] at hperm hframe
      obtain ⟨later, hlater, hall⟩ := ih (hframe.toNode.trans hto) l1
      refine ⟨added ++ later, ?_, fun x hx => ?_⟩
      · rw [← List.append_assoc]
        exact hlater.trans (hperm.append_right later)
      · rcases List.mem_append.mp hx with hx | hx
        · exact ⟨(hadded x hx).2, w, s, l, reached_head, (hadded x hx).1⟩
        · obtain ⟨hgoes, w', s2, l2, hreached, hw'⟩ := hall x hx
          exact ⟨hgoes, w', s2, l2, hreached.tail hstep, hw'⟩

/-! ### A whole message -/

variable {buf : List Byte}

/-- What follows the loop leaves the list of addresses as it is. -/
theorem adrEnd_fa (s : State) (l : AdrLocals) (hto : s.toNode = none) :
    (adrEnd config env s l).1.login.fa = s.login.fa := by
  unfold adrEnd
  split
  · rfl
  · split
    · rfl
    · split
      · rfl
      · rw [hto]
        dsimp only [adrAnswer]
        split
        · rfl
        · rfl

theorem ADR_eq (hto : s.toNode = none) (hws : adrWords config env buf ≠ []) :
    ADR config env buf s =
      match adrLoop config env (adrWords config env buf) s {} with
      | .stop s => (s, false)
      | .next s l => adrEnd config env s l := by
  have hexp : adrExpect s = s := by simp [adrExpect, hto]
  rw [ADR, hexp]
  cases hcases : adrWords config env buf with
  | nil => exact absurd hcases hws
  | cons => rfl

variable (config env) in
theorem ADR_fa (buf : List Byte) (hto : s.toNode = none) :
    (ADR config env buf s).1.login.fa = (adrLoop config env (adrWords config env buf) s {}).state.login.fa := by
  by_cases hws : adrWords config env buf = []
  · simp [ADR, hws, adrLoop, AdrStep.state]
  · have hframe := adrLoop_frame config env (adrWords config env buf) s {}
    rw [ADR_eq hto hws]
    cases hloop : adrLoop config env (adrWords config env buf) s {} with
    | stop s1 => rfl
    | next s1 l1 =>
      rw [hloop] at hframe
      exact adrEnd_fa s1 l1 (hframe.toNode.trans hto)

/-- The message ends where a round of it stops. -/
theorem Reached.stop (h : Reached config env (adrWords config env buf) s {} w s1 l1) (hto : s.toNode = none)
    (hstop : adrStep config env w s1 l1 = .stop s2) : ADR config env buf s = (s2, false) := by
  obtain ⟨done, rest, heq, hdone⟩ := h
  rw [ADR_eq hto (by simp [heq]), heq, adrLoop_append, hdone]
  dsimp only
  rw [adrLoop, hstop]

/-- What a round puts into the list is in it behind the message. -/
theorem Reached.listed {a : FtnAddr} (h : Reached config env (adrWords config env buf) s {} w s1 l1)
    (hto : s.toNode = none) (hstep : adrStep config env w s1 l1 = .next s2 l2)
    (hfa : s2.login.fa.Perm (s1.login.fa ++ [a])) :
    ∃ added, (ADR config env buf s).1.login.fa.Perm (s.login.fa ++ added) ∧ a ∈ added := by
  obtain ⟨done, rest, heq, hdone⟩ := h
  obtain ⟨before, hbefore, -⟩ := adrLoop_fa config env done hto {}
  have hframe := adrLoop_frame config env (done ++ [w]) s {}
  have hsofar : adrLoop config env (done ++ [w]) s {} = .next s2 l2 := by
    rw [adrLoop_append, hdone]
    dsimp only
    rw [adrLoop, hstep]
    rfl
  rw [hsofar] at hframe
  obtain ⟨later, hlater, -⟩ := adrLoop_fa config env rest (hframe.toNode.trans hto) l2
  refine ⟨before ++ [a] ++ later, ?_, by simp⟩
  rw [ADR_fa config env buf hto, heq, List.append_cons, adrLoop_append, hsofar]
  rw [hdone] at hbefore
  dsimp only
  rw [← List.append_assoc, ← List.append_assoc]
  exact hlater.trans ((hfa.trans (hbefore.append_right [a])).append_right later)

/-- The restriction of the source address, for an `M_ADR` of a caller. -/
structure SourceChecked (config : BinkdConfig) (env : Env) (buf : List Byte) (s : State) : Prop where
  /-- the addresses that are put into the list may be presented from where they come -/
  added : ∃ added, (ADR config env buf s).1.login.fa.Perm (s.login.fa ++ added) ∧
    ∀ a ∈ added, ∀ n ∈ getNodeInfo env.now a config, SourceAllowed config env n
  /-- an address with a password that may not ends the session -/
  ended : ∀ w ∈ adrWords config env buf, ∀ a ∈ akaOf config w, ∀ n ∈ getNodeInfo env.now a config,
    n.pwd ≠ str "-" → ¬ SourceAllowed config env n → (ADR config env buf s).2 = false
  /-- and the message of the session's end is about it, if no earlier address ends the session -/
  error : ∀ w s1 l1, Reached config env (adrWords config env buf) s {} w s1 l1 → ∀ a ∈ akaOf config w,
    ∀ n ∈ getNodeInfo env.now a config, n.pwd ≠ str "-" → ¬ SourceAllowed config env n →
    adrStep config env w s1 l1 = .stop (badSource s1) ∧ ADR config env buf s = (badSource s1, false)

/-- **The restriction holds unless the stack holds an address of a node with `-sip` when the caller's is
not known.** -/
theorem source_checked (hto : s.toNode = none) :
    SourceChecked config env buf s ↔
      ∀ w s1 l1, Reached config env (adrWords config env buf) s {} w s1 l1 → ∀ a ∈ akaOf config w,
        ∀ n ∈ getNodeInfo env.now a config, n.restrictIP = .sip → ¬ StackMatches config env n := by
  have hloopfa := ADR_fa config env buf hto
  constructor
  · rintro ⟨⟨added, hperm, hadded⟩, -, herror⟩ w s1 l1 hreached a hw n hn hsip hstack
    have hno : ¬ SourceAllowed config env n := by
      rw [SourceAllowed, hsip]
      rintro ⟨p, hp, -⟩
      rw [hstack.1] at hp
      contradiction
    obtain ⟨l', hstep⟩ := adrStep_allowed (hreached.toNode.trans hto) hw hn l1 (.inr ⟨hsip, hstack⟩)
    by_cases hpwd : n.pwd = str "-"
    · -- without a password the address gets onto the list
      refine hno (hadded a ?_ n hn)
      obtain ⟨s2, l2, hlogin, hfa⟩ := adrLogin_open config env a
        (hreached.toNode.trans hto) hpwd l'
      obtain ⟨more, hmore, ha⟩ := hreached.listed hto (hstep.trans hlogin) hfa
      exact ((List.perm_append_left_iff _).mp (hmore.symm.trans hperm)).mem_iff.mp ha
    · rw [(herror w s1 l1 hreached a hw n hn hpwd hno).1] at hstep
      exact adrLogin_ne_badSource a (some n) s1 s1 l' hstep.symm
  · intro hcond
    have hgoes : ∀ w s1 l1, Reached config env (adrWords config env buf) s {} w s1 l1 →
      ∀ a ∈ akaOf config w,
        ∀ n ∈ getNodeInfo env.now a config, NodeGoes config env n → SourceAllowed config env n :=
      fun w s1 l1 hreached a hw n hn hg =>
        hg.resolve_right fun h => hcond w s1 l1 hreached a hw n hn h.1 h.2
    have herror : ∀ w s1 l1, Reached config env (adrWords config env buf) s {} w s1 l1 →
      ∀ a ∈ akaOf config w,
        ∀ n ∈ getNodeInfo env.now a config, n.pwd ≠ str "-" → ¬ SourceAllowed config env n →
        adrStep config env w s1 l1 = .stop (badSource s1) ∧
            ADR config env buf s = (badSource s1, false) := by
      intro w s1 l1 hreached a hw n hn hpwd hno
      have hstop := adrStep_refused (hreached.toNode.trans hto) hw hn l1 hpwd fun h =>
        hno (hgoes w s1 l1 hreached a hw n hn h)
      exact ⟨hstop, hreached.stop hto hstop⟩
    refine ⟨?_, ?_, herror⟩
    · obtain ⟨added, hperm, hadded⟩ := adrLoop_fa config env (adrWords config env buf) hto {}
      refine ⟨added, hloopfa ▸ hperm, fun a ha n hn => ?_⟩
      obtain ⟨hgo, w, s1, l1, hreached, hw⟩ := hadded a ha
      exact hgoes w s1 l1 hreached a hw n hn (hgo n hn)
    · intro w hmem a hw n hn hpwd hno
      rcases reached_or_stop hmem s {} with ⟨s1, l1, hreached⟩ | ⟨s1, hstop⟩
      · rw [(herror w s1 l1 hreached a hw n hn hpwd hno).2]
      · rw [ADR_eq hto (List.ne_nil_of_mem hmem), hstop]

/-- A node that may call from its host only. -/
def sipConfig : BinkdConfig := fidoConfig [{ fa := aka 1, hosts := some (str "host"), restrictIP := .sip }]

/-- The host has one address, which is the caller's or stands on the stack. -/
def hostEnv (peer sin : Option SockAddr) : Env :=
  { getaddrinfo := fun _ => some [⟨2, [10, 0, 0, 1]⟩], peer := peer, sin := sin }

/-- A caller from nowhere presents the address of the node. -/
theorem stack_admits : (start sipConfig {} ∅ [] [] none none).toNode = none ∧
    (start sipConfig {} ∅ [] [] none none).login.fa = [] ∧
    (ADR sipConfig (hostEnv none (some ⟨2, [10, 0, 0, 1]⟩)) (str "2:5020/1")
      (start sipConfig {} ∅ [] [] none none)).1.login.fa = [aka 1] ∧
    ∃ n, getNodeInfo 0 (aka 1) sipConfig = some n ∧ n.restrictIP = .sip ∧
      ¬ FromHost sipConfig (hostEnv none (some ⟨2, [10, 0, 0, 1]⟩)) n := by
  refine ⟨rfl, rfl, by decide +kernel, { fa := aka 1, hosts := some (str "host"), restrictIP := .sip }, by decide +kernel,
    rfl, ?_⟩
  rintro ⟨a, ha, -⟩
  contradiction

/-- A caller whose address is known is checked. -/
theorem source_checked_known : SourceChecked sipConfig (hostEnv (some ⟨2, [10, 0, 0, 2]⟩) none) (str "2:5020/1")
    (start sipConfig {} ∅ [] [] none none) :=
  (source_checked rfl).mpr fun _ _ _ _ _ _ _ _ _ hstack => by simp [StackMatches, hostEnv] at hstack

end Binkd

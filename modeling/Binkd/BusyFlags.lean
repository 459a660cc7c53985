import Binkd.Frame.Adr
import Binkd.Opening

/-!
# The busy flags of a session

`ADR` creates the `.bsy` file of every address that it can, and `deinit_protocol` removes
those of the active addresses.  `adrPresented` reads off the states what the rounds of an
`M_ADR` have done with the addresses presented: whether the list of addresses grew, and
whether the flag came to be.  The addresses whose flag did are the active ones, the others
that were accepted are behind them, both in the order in which they were presented
(`busy_flags`), so that the flags removed at the end are the flags created.
-/

namespace Binkd

open Lib

variable {config : BinkdConfig} {env : Env} {s s' : State}

/-- The flag of an address. -/
def bsyPath (config : BinkdConfig) (fa : FtnAddr) : Str :=
  (ftnaddressToFilename fa config.pDomains ++ str ".bsy").take maxPathLen

/-- Does the flag of the address come to be from the one state to the other? -/
def flagCreated (config : BinkdConfig) (fa : FtnAddr) (s s' : State) : Bool :=
  (s.disk.lookup (bsyPath config fa)).isNone && (s'.disk.lookup (bsyPath config fa)).isSome

/-- An address that the remote has presented, and what the session has done with it. -/
structure Presented where
  fa : FtnAddr
  accepted : Bool
  created : Bool

/-- What a round for the word has made of its address. -/
def presented (config : BinkdConfig) (w : Str) (s s' : State) : List Presented :=
  ((akaOf config w).map fun fa =>
    ⟨fa, decide (s'.login.fa.length ≠ s.login.fa.length), flagCreated config fa s s'⟩).toList

/-- The addresses that the loop of an `M_ADR` comes to. -/
def adrPresented (config : BinkdConfig) (env : Env) : List Str → State → AdrLocals → List Presented
  | [], _, _ => []
  | w :: ws, s, l =>
    match adrStep config env w s l with
    | .stop s' => presented config w s s'
    | .next s' l' => presented config w s s' ++ adrPresented config env ws s' l'

/-- The addresses that an `M_ADR` of the round presents. -/
def roundPresented (config : BinkdConfig) (i : Input) (s : State) : List Presented :=
  match arrives config i s with
  | some (a, t, buf) =>
    if t = M_ADR then adrPresented config i.env (adrWords config i.env buf) (adrExpect a) {} else []
  | none => []

/-- The addresses whose flag was created, and the others that were accepted. -/
def withFlag (acc : List Presented) : List FtnAddr := (acc.filter (·.created)).map (·.fa)
def withoutFlag (acc : List Presented) : List FtnAddr :=
  (acc.filter fun p => p.accepted && !p.created).map (·.fa)

/-- The lists of a session are those of the addresses presented so far. -/
structure FlagInv (config : BinkdConfig) (s : State) (acc : List Presented) : Prop where
  length : s.login.nfa ≤ s.login.fa.length
  active : s.login.fa.take s.login.nfa = withFlag acc
  others : s.login.fa.drop s.login.nfa = withoutFlag acc
  named : ∀ a ∈ withFlag acc, ftnaddressToFilename a config.pDomains ≠ []

theorem withFlag_append (xs ys : List Presented) : withFlag (xs ++ ys) = withFlag xs ++ withFlag ys := by
  simp [withFlag]

theorem withoutFlag_append (xs ys : List Presented) :
    withoutFlag (xs ++ ys) = withoutFlag xs ++ withoutFlag ys := by
  simp [withoutFlag]

theorem FlagInv.same {acc : List Presented} (h : FlagInv config s acc) (hfa : s'.login.fa = s.login.fa)
    (hnfa : s'.login.nfa = s.login.nfa) : FlagInv config s' acc := by
  refine ⟨?_, ?_, ?_, h.named⟩
  · rw [hfa, hnfa]
    exact h.length
  · rw [hfa, hnfa]
    exact h.active
  · rw [hfa, hnfa]
    exact h.others

/-! ### `bsy_add` -/

/-- A flag that is created was not there. -/
theorem bsyAdd_created {fa : FtnAddr} {disk : Disk} (h : bsyAdd config env fa s.disk = some disk)
    (hdisk : s'.disk = disk) :
    flagCreated config fa s s' = true ∧ ftnaddressToFilename fa config.pDomains ≠ [] := by
  unfold bsyAdd Disk.createEmptySemFile at h
  dsimp only at h
  split_ifs at h with hname hfree
  obtain rfl := Option.some.inj h
  obtain ⟨-, hfree⟩ := not_or.mp hfree
  have hnone : s.disk.lookup (bsyPath config fa) = none := by simpa [bsyPath] using hfree
  have hsome : s'.disk.lookup (bsyPath config fa) = some { mtime := env.now } := by
    rw [hdisk]
    exact AList.lookup_insert s.disk
  refine ⟨?_, hname⟩
  rw [flagCreated, hnone, hsome]
  rfl

theorem flagCreated_same (fa : FtnAddr) (h : s'.disk = s.disk) : flagCreated config fa s s' = false := by
  unfold flagCreated
  rw [h]
  cases s.disk.lookup (bsyPath config fa) <;> rfl

/-! ### `ADR` -/

/-- A round that leaves the lists and the disk alone has accepted nothing. -/
theorem FlagInv.still {w : Str} {acc : List Presented} (h : FlagInv config s acc) (hfa : s'.login.fa = s.login.fa)
    (hnfa : s'.login.nfa = s.login.nfa) (hdisk : s'.disk = s.disk) :
    FlagInv config s' (acc ++ presented config w s s') := by
  have hnone : withFlag (presented config w s s') = [] ∧ withoutFlag (presented config w s s') = [] := by
    unfold presented
    cases akaOf config w with
    | none => exact ⟨rfl, rfl⟩
    | some a =>
      have hsame := @flagCreated_same config _ _ a hdisk
      refine ⟨?_, ?_⟩
      · simp [withFlag, hsame]
      · simp [withoutFlag, hfa]
  refine ⟨(h.same hfa hnfa).length, ?_, ?_, ?_⟩
  · rw [withFlag_append, hnone.1, List.append_nil]
    exact (h.same hfa hnfa).active
  · rw [withoutFlag_append, hnone.2, List.append_nil]
    exact (h.same hfa hnfa).others
  · rw [withFlag_append, hnone.1, List.append_nil]
    exact h.named

/-- What one round adds to the lists is what it has accepted. -/
theorem AdrMove.flags {w : Str} {l l' : AdrLocals} {acc : List Presented}
    (hmove : AdrMove config env w s l s' l') (h : FlagInv config s acc) :
    FlagInv config s' (acc ++ presented config w s s') := by
  cases hmove with
  | dropped hfa hnfa hdisk => exact h.still hfa hnfa hdisk
  | busy a hw _ hfa hnfa hdisk =>
    have hsame := @flagCreated_same config _ _ a hdisk
    have hone : presented config w s s' = [⟨a, true, false⟩] := by
      simp [presented, hw, hsame, hfa]
    rw [hone]
    refine ⟨?_, ?_, ?_, ?_⟩
    · rw [hfa, hnfa, List.length_append]
      exact Nat.le_add_right_of_le h.length
    · rw [hfa, hnfa, List.take_append_of_le_length h.length, h.active, withFlag_append]
      exact (List.append_nil _).symm
    · rw [hfa, hnfa, List.drop_append_of_le_length h.length, h.others, withoutFlag_append]
      rfl
    · rw [withFlag_append]
      exact fun b hb => h.named b (by simpa [withFlag] using hb)
  | active a disk hw hbsy hfa hnfa hdisk =>
    obtain ⟨htake, hdrop, hlen⟩ := insert_lists h.length a
    obtain ⟨hcreated, hname⟩ := bsyAdd_created hbsy hdisk
    have hne : s'.login.fa.length ≠ s.login.fa.length := by
      rw [hfa]
      simp only [List.length_append, List.length_cons, List.length_take, List.length_drop]
      have := h.length
      omega
    have hone : presented config w s s' = [⟨a, true, true⟩] := by
      simp [presented, hw, hcreated, hne]
    rw [hone]
    refine ⟨?_, ?_, ?_, fun b hb => ?_⟩
    · rw [hfa, hnfa]
      exact hlen
    · rw [hfa, hnfa, htake, h.active, withFlag_append]
      rfl
    · rw [hfa, hnfa, hdrop, h.others, withoutFlag_append]
      exact (List.append_nil _).symm
    · rw [withFlag_append] at hb
      rcases List.mem_append.mp hb with hb | hb
      · exact h.named b hb
      · obtain rfl : b = a := by simpa [withFlag] using hb
        exact hname

theorem adrLoop_flags (ws : List Str) {l : AdrLocals} {acc : List Presented} (h : FlagInv config s acc) :
    FlagInv config (adrLoop config env ws s l).state (acc ++ adrPresented config env ws s l) := by
  induction ws generalizing s l acc with
  | nil =>
    rw [adrPresented, List.append_nil]
    exact h
  | cons w ws ih =>
    have hmoves := adrStep_moves config env w s l
    rw [adrLoop, adrPresented]
    generalize adrStep config env w s l = r at hmoves
    cases r with
    | stop s1 => exact h.still hmoves.fa hmoves.nfa hmoves.disk
    | next s1 l1 =>
      have hnext := ih (l := l1) (AdrMove.flags hmoves h)
      rw [List.append_assoc] at hnext
      exact hnext

theorem ADR_flags {buf : List Byte} {acc : List Presented} (h : FlagInv config s acc) :
    FlagInv config (ADR config env buf s).1
      (acc ++ adrPresented config env (adrWords config env buf) (adrExpect s) {}) := by
  have hexp : FlagInv config (adrExpect s) acc := by
    refine h.same ?_ ?_
    · unfold adrExpect
      split <;> rfl
    · unfold adrExpect
      split <;> rfl
  have hloop := @adrLoop_flags config env (adrExpect s) (adrWords config env buf) {} acc hexp
  unfold ADR
  split
  · next hws =>
    rw [hws, adrPresented, List.append_nil]
    exact h
  · split
    · next s1 heq =>
      rw [heq] at hloop
      exact hloop
    · next s1 l1 heq =>
      rw [heq] at hloop
      obtain ⟨hfa, hnfa⟩ := adrEnd_lists config env s1 l1
      exact FlagInv.same hloop hfa hnfa

/-! ### Runs -/

theorem FlagInv.acts {acc : List Presented} (h : FlagInv config s acc) (hacts : Acts config env s s') :
    FlagInv config s' acc := by
  obtain ⟨_, _, hl⟩ := hacts.frame.login
  exact h.same (by rw [hl]) (by rw [hl])

theorem FlagInv.iterate {acc : List Presented} (h : FlagInv config s acc) (i : Input) :
    FlagInv config (iterate config i s).1 (acc ++ roundPresented config i s) := by
  unfold roundPresented
  cases iterate_acts config i s with
  | quiet hnone acts =>
    rw [hnone, List.append_nil]
    exact h.acts acts
  | message a t buf harr before behind _ =>
    rw [harr]
    dsimp only
    refine FlagInv.acts ?_ behind
    by_cases ht : t = M_ADR
    · subst ht
      rw [if_pos rfl]
      exact ADR_flags (h.acts before)
    · rw [if_neg ht, List.append_nil]
      obtain ⟨hfa, hnfa⟩ := @handle_lists config i.env t buf a ht
      exact (h.acts before).same hfa hnfa

/-! ### `deinit_protocol` -/

/-- The end of a session: what is open is closed, and the flags are removed. -/
def deinitProtocol (config : BinkdConfig) (env : Env) (s : State) : State :=
  bsyRemove config env (closePartial config env s)

/-- `bsy_remove`. -/
def removeFlag (config : BinkdConfig) (env : Env) (disk : Disk) (fa : FtnAddr) : Disk :=
  if ftnaddressToFilename fa config.pDomains = [] then disk
  else (disk.delete env (bsyPath config fa)).1

/-- `bsy_remove` for the addresses of a list. -/
theorem removeFlags_lookup (config : BinkdConfig) (env : Env) (l : List FtnAddr) (disk : Disk) :
    (∀ p, (∀ fa ∈ l, p ≠ bsyPath config fa) → (l.foldl (removeFlag config env) disk).lookup p = disk.lookup p) ∧
    (∀ p, disk.lookup p = none → (l.foldl (removeFlag config env) disk).lookup p = none) ∧
    ∀ fa ∈ l, ftnaddressToFilename fa config.pDomains ≠ [] →
      (l.foldl (removeFlag config env) disk).lookup (bsyPath config fa) = none ∨
      (env.fault (.unlink (bsyPath config fa))).isSome := by
  induction l generalizing disk with
  | nil => exact ⟨fun _ _ => rfl, fun _ h => h, fun _ h => absurd h List.not_mem_nil⟩
  | cons fa l ih =>
    rw [List.foldl_cons]
    obtain ⟨hother, hnone, hgone⟩ := ih (removeFlag config env disk fa)
    have hstep : ∀ p, (removeFlag config env disk fa).lookup p = disk.lookup p ∨
        p = bsyPath config fa ∧ (removeFlag config env disk fa).lookup p = none := by
      intro p
      unfold removeFlag
      split
      · exact .inl rfl
      · exact (Disk.delete_lookup env disk (bsyPath config fa) p).1
    refine ⟨fun p hp => ?_, fun p hp => hnone p ?_, fun x hx hne => ?_⟩
    · rw [hother p fun x hx => hp x (List.mem_cons_of_mem fa hx)]
      exact (hstep p).resolve_right fun h => hp fa List.mem_cons_self h.1
    · rcases hstep p with h | ⟨-, h⟩
      · rw [h, hp]
      · exact h
    · rcases List.mem_cons.mp hx with rfl | hx
      · have hdel := (Disk.delete_lookup env disk (bsyPath config x) (bsyPath config x)).2
        rw [removeFlag, if_neg hne] at hnone ⊢
        exact hdel.imp_left (hnone _)
      · exact hgone x hx hne

theorem bsyRemove_disk (config : BinkdConfig) (env : Env) (s : State) :
    (bsyRemove config env s).disk = s.login.active.foldl (removeFlag config env) s.disk := rfl

/-! ### What `close_partial` removes -/

/-- A step that only takes away temporary files: any other file stays. -/
def KeepsOthers (s s' : State) : Prop :=
  ∀ p f, (str ".bsy") <:+ p → s.disk.lookup p = some f → s'.disk.lookup p = some f

theorem KeepsOthers.refl (s : State) : KeepsOthers s s := fun _ _ _ h => h

theorem KeepsOthers.trans {a b c : State} (h : KeepsOthers a b) (h' : KeepsOthers b c) :
    KeepsOthers a c :=
  fun p f hp hf => h' p f hp (h p f hp hf)

/-- Neither file of a pair has the extension of a flag. -/
theorem setExt_ne {p : Str} (hp : str ".bsy" <:+ p) (path : Str) :
    p ≠ setExt path (str ".dt") ∧ p ≠ setExt path (str ".hr") := by
  have hlast : p.getLast? = some 121 := by
    obtain ⟨t, rfl⟩ := hp
    rw [List.getLast?_append]
    rfl
  have hext : ∀ ext : Str, ext.getLast? ≠ some 121 → ext.getLast?.isSome → p ≠ setExt path ext := by
    rintro ext hne hsome rfl
    rw [setExt, List.getLast?_append, Option.or_of_isSome hsome] at hlast
    exact hne hlast
  exact ⟨hext _ (by decide) (by decide), hext _ (by decide) (by decide)⟩

theorem removeHr_keepsOthers (env : Env) (path : Str) (s : State) :
    KeepsOthers s (removeHr env path s) := by
  intro p f hp hf
  obtain ⟨hdt, hhr⟩ := setExt_ne hp path
  show ((s.disk.delete env (setExt path (str ".dt"))).1.delete env (setExt path (str ".hr"))).1.lookup p = some f
  rw [(Disk.delete_lookup env _ _ p).1.resolve_right fun h => hhr h.1,
    (Disk.delete_lookup env _ _ p).1.resolve_right fun h => hdt h.1, hf]

theorem creatTmpName_keepsOthers {file : TFile} {dir : Str} {fuel k : Nat} {r : Str × State}
    (h : creatTmpName env file dir fuel k s = some r) : KeepsOthers s r.2 := by
  intro p f _ hf
  rw [creatTmpName_lookup h (by rw [hf]; rfl), hf]

theorem findTmpLoop_keepsOthers (config : BinkdConfig) (env : Env) (file : Option TFile) (dir : Str)
    (names : List Str) (s : State) : KeepsOthers s (findTmpLoop config env file dir names s).2 := by
  induction names generalizing s with
  | nil => exact .refl s
  | cons name names ih =>
    rw [findTmpLoop]
    split_ifs
    · have h1 : KeepsOthers s
          (findTmp1 config env file ((withSeparator dir ++ name).take (maxPathLen - 1)) s).2 := by
        rcases findTmp1_state config env file ((withSeparator dir ++ name).take (maxPathLen - 1)) s with h | h
        · rw [h]
          exact .refl s
        · rw [h]
          exact removeHr_keepsOthers env _ s
      split
      · next r s' heq =>
        rw [heq] at h1
        exact h1
      · next s' heq =>
        rw [heq] at h1
        exact h1.trans (ih s')
    · exact ih s

theorem findTmpName_keepsOthers (config : BinkdConfig) (env : Env) (file : Option TFile) (s : State) :
    KeepsOthers s (findTmpName config env file s).2 := by
  unfold findTmpName
  dsimp only
  split
  · exact .refl s
  · next names _ =>
    have h1 := findTmpLoop_keepsOthers config env file (tmpDir config s) names s
    split
    · next r s' heq =>
      rw [heq] at h1
      exact h1
    · next s' heq =>
      rw [heq] at h1
      split
      · exact h1
      · next file =>
        split
        · next path s'' hc => exact h1.trans (creatTmpName_keepsOthers hc)
        · exact h1

theorem inbReject_keepsOthers (config : BinkdConfig) (env : Env) (s : State) :
    KeepsOthers s (inbReject config env s) := by
  have h1 := findTmpName_keepsOthers config env (some s.rx.inf) s
  unfold inbReject
  split
  · next heq =>
    rw [heq] at h1
    exact h1.trans (removeHr_keepsOthers env _ _)
  · next heq =>
    rw [heq] at h1
    exact h1

theorem closePartial_keepsOthers (config : BinkdConfig) (env : Env) (s : State) :
    KeepsOthers s (closePartial config env s) ∧ (closePartial config env s).login = s.login := by
  unfold closePartial
  split
  · exact ⟨fun _ _ _ h => h, rfl⟩
  · dsimp only
    split
    · have hkeeps := inbReject_keepsOthers config env { s with rx := { s.rx with inf := { s.rx.inf with f := none } } }
      exact ⟨fun p f hp hf => hkeeps p f hp hf, (inbReject_frame config env _).login⟩
    · exact ⟨fun _ _ _ h => h, rfl⟩

/-- **The busy flags**: at any point of a session the active addresses are those whose flag
the session has created, the others are the other addresses accepted, each in the order in
which they were presented; and at its end the flags that were created are removed, unless
the system refuses, and no other flag. -/
theorem busy_flags (config : BinkdConfig) (env : Env) (disk : Disk) (peerName ipaddr : Str)
    (to_ : Option FtnNode) (fa : Option FtnAddr) (s : State) (live : Bool) (acc : List Presented)
    (run : Traced (iterate config) (roundPresented config) (fun _ _ => True)
      (start config env disk peerName ipaddr to_ fa) s live acc) :
    s.login.fa.take s.login.nfa = withFlag acc ∧ s.login.fa.drop s.login.nfa = withoutFlag acc ∧
    ∀ env', (∀ a ∈ withFlag acc, (deinitProtocol config env' s).disk.lookup (bsyPath config a) = none ∨
        (env'.fault (.unlink (bsyPath config a))).isSome) ∧
      ∀ p f, str ".bsy" <:+ p → (∀ a ∈ withFlag acc, p ≠ bsyPath config a) → s.disk.lookup p = some f →
        (deinitProtocol config env' s).disk.lookup p = some f := by
  have hinv : FlagInv config s acc := by
    refine run.invariant (fun s _ acc => FlagInv config s acc) ?_ fun i a trace h _ => h.iterate i
    obtain ⟨p, c, w, hl, -⟩ := (start_opening config env disk peerName ipaddr to_ fa).login
    refine ⟨?_, ?_, ?_, fun _ h => absurd h List.not_mem_nil⟩
    · rw [hl]
      exact Nat.zero_le _
    · rw [hl]
      rfl
    · rw [hl]
      rfl
  refine ⟨hinv.active, hinv.others, fun env' => ?_⟩
  obtain ⟨hkeeps, hlogin⟩ := closePartial_keepsOthers config env' s
  have hdisk : (deinitProtocol config env' s).disk =
      (withFlag acc).foldl (removeFlag config env') (closePartial config env' s).disk := by
    rw [deinitProtocol, bsyRemove_disk, Login.active, hlogin, hinv.active]
  obtain ⟨hother, -, hgone⟩ := removeFlags_lookup config env' (withFlag acc) (closePartial config env' s).disk
  rw [hdisk]
  refine ⟨fun a ha => hgone a ha (hinv.named a ha), fun p f hp hne hf => ?_⟩
  rw [hother p hne]
  exact hkeeps p f hp hf

/-- Two addresses of which the second is busy. -/
def flaggedDisk : Disk := (∅ : Disk).insert (bsyPath (fidoConfig []) (aka 2)) {}

/-- The session keeps the flag of the first and leaves the other. -/
theorem busy_flags_two : ∃ (s : State) (acc : List Presented), s.login.fa = [aka 1, aka 2] ∧
    withFlag acc = [aka 1] ∧
    s.login.fa.take s.login.nfa = withFlag acc :=
  ⟨after (iterate (fidoConfig [])) (Input.message {} M_ADR (str "2:5020/2 2:5020/1"))
      (start (fidoConfig []) {} flaggedDisk [] [] none none),
    traceOf (iterate (fidoConfig [])) (roundPresented (fidoConfig []))
      (Input.message {} M_ADR (str "2:5020/2 2:5020/1")) (start (fidoConfig []) {} flaggedDisk [] [] none none),
    by decide +kernel, by decide +kernel,
    (busy_flags (fidoConfig []) {} flaggedDisk [] [] none none _ true _
      (Traced.start.inputs (by decide +kernel))).1⟩

end Binkd

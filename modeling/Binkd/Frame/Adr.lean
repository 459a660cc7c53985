import Binkd.Aka

/-!
# The lists of addresses and the busy flags

For either side of a session a round of the loop of `ADR` leaves the lists of addresses
alone, or puts an address whose busy flag it has created behind the active ones, or puts
one that is busy behind them all (`AdrMove`).  A round that stops the session has done
none of this.
-/

namespace Binkd

open Lib

variable (config : BinkdConfig) (env : Env)

/-- A round of the loop of `ADR` that goes on. -/
inductive AdrMove (w : Str) (s : State) (l : AdrLocals) (s' : State) (l' : AdrLocals) : Prop
  | dropped (hfa : s'.login.fa = s.login.fa) (hnfa : s'.login.nfa = s.login.nfa)
      (hdisk : s'.disk = s.disk) (hmain : l'.mainAkaOk = l.mainAkaOk)
  | busy (a : FtnAddr) (hw : akaOf config w = some a) (hbsy : bsyAdd config env a s.disk = none)
      (hfa : s'.login.fa = s.login.fa ++ [a]) (hnfa : s'.login.nfa = s.login.nfa)
      (hdisk : s'.disk = s.disk) (hmain : l'.mainAkaOk = l.mainAkaOk)
  | active (a : FtnAddr) (disk : Disk) (hw : akaOf config w = some a)
      (hbsy : bsyAdd config env a s.disk = some disk)
      (hfa : s'.login.fa = s.login.fa.take s.login.nfa ++ a :: s.login.fa.drop s.login.nfa)
      (hnfa : s'.login.nfa = s.login.nfa + 1) (hdisk : s'.disk = disk)
      (hmain : l'.mainAkaOk = true → l.mainAkaOk = true ∨ ∃ n ∈ s.toNode, ftnaddressCmp a n.fa = 0)

/-- What comes after an insertion behind the first `n`. -/
theorem insert_lists {n : ℕ} {l : List FtnAddr} (h : n ≤ l.length) (a : FtnAddr) :
    (l.take n ++ a :: l.drop n).take (n + 1) = l.take n ++ [a] ∧
    (l.take n ++ a :: l.drop n).drop (n + 1) = l.drop n ∧
    n + 1 ≤ (l.take n ++ a :: l.drop n).length := by
  have hlen : (l.take n).length = n := List.length_take_of_le h
  refine ⟨?_, ?_, by simp; omega⟩
  · rw [List.take_append, hlen, List.take_of_length_le (by omega), Nat.add_sub_cancel_left]
    rfl
  · rw [List.drop_append, hlen, List.drop_of_length_le (by omega), Nat.add_sub_cancel_left]
    rfl

/-- The lists of addresses and the disk are as before. -/
structure AdrStill (s s' : State) : Prop where
  fa : s'.login.fa = s.login.fa
  nfa : s'.login.nfa = s.login.nfa
  disk : s'.disk = s.disk

/-- What a round does to the lists, whichever way it ends. -/
def AdrMoves (w : Str) (s : State) (l : AdrLocals) : AdrStep → Prop
  | .stop s' => AdrStill s s'
  | .next s' l' => AdrMove config env w s l s' l'

theorem adrFlags_main (toNode : Option FtnNode) (pn : Option FtnNode) (l : AdrLocals) :
    (adrFlags toNode pn l).mainAkaOk = l.mainAkaOk := by
  unfold adrFlags
  split
  · split_ifs <;> rfl
  · rfl

theorem adrBusy_moves {w : Str} {fa : FtnAddr} (hw : akaOf config w = some fa) (pn : Option FtnNode)
    (s : State) (l : AdrLocals) : AdrMoves config env w s l (adrBusy config env fa pn s l) := by
  unfold adrBusy
  split
  · next disk hbsy =>
    refine .active fa disk hw hbsy rfl rfl rfl fun hmain => ?_
    rw [adrFlags_main] at hmain
    dsimp only at hmain
    split at hmain
    · next n hto =>
      split at hmain
      · next hcmp => exact .inr ⟨n, hto, hcmp⟩
      · exact .inl hmain
    · exact .inl hmain
  · next hbsy =>
    split
    · exact ⟨rfl, rfl, rfl⟩
    · exact .busy fa hw hbsy rfl rfl rfl (adrFlags_main s.toNode pn l)

theorem adrLogin_moves {w : Str} {fa : FtnAddr} (hw : akaOf config w = some fa) (pn : Option FtnNode)
    (s : State) (l : AdrLocals) : AdrMoves config env w s l (adrLogin config env fa pn s l) := by
  unfold adrLogin
  split
  · exact adrBusy_moves config env hw none s l
  · next n =>
    dsimp only
    have h := adrPwd_login s.toNode s.remoteFa fa n
      { s.login with listedFlag := s.login.listedFlag ||| n.listed }
    split
    · next login heq =>
      rw [heq] at h
      obtain ⟨e, m, rfl⟩ := h
      exact .dropped rfl rfl rfl rfl
    · next login heq =>
      rw [heq] at h
      obtain ⟨e, m, rfl⟩ := h
      have hmoves := adrBusy_moves config env hw (some n) { s with login := { s.login with
        listedFlag := s.login.listedFlag ||| n.listed, expectedPwd := e, mdFlag := m } } l
      generalize adrBusy config env fa (some n) _ l = r at hmoves
      cases r with
      | stop s1 => exact ⟨hmoves.fa, hmoves.nfa, hmoves.disk⟩
      | next s1 l1 =>
        cases hmoves with
        | dropped hfa hnfa hdisk hmain => exact .dropped hfa hnfa hdisk hmain
        | busy a hw hbsy hfa hnfa hdisk hmain => exact .busy a hw hbsy hfa hnfa hdisk hmain
        | active a disk hw hbsy hfa hnfa hdisk hmain => exact .active a disk hw hbsy hfa hnfa hdisk hmain

theorem adrStep_moves (w : Str) (s : State) (l : AdrLocals) :
    AdrMoves config env w s l (adrStep config env w s l) := by
  unfold adrStep
  split
  · exact ⟨rfl, rfl, rfl⟩
  · next fa hfa =>
    dsimp only
    have hw : akaOf config w = some (if fa.domain = [] then
        { fa with domain := getMatchedDomain fa.z config.pAddr config.pDomains } else fa) := by
      simp [akaOf, hfa]
    generalize (if fa.domain = [] then
        { fa with domain := getMatchedDomain fa.z config.pAddr config.pDomains } else fa) = a at hw
    -- the check of the source address has no part in the lists
    have hip : ∀ pn v, AdrMoves config env w s l (adrLogin config env a pn s { l with ipVerified := v }) := by
      intro pn v
      have hmoves := adrLogin_moves config env hw pn s { l with ipVerified := v }
      generalize adrLogin config env a pn s { l with ipVerified := v } = r at hmoves
      cases r with
      | stop s1 => exact hmoves
      | next s1 l1 =>
        cases hmoves with
        | dropped hfa hnfa hdisk hmain => exact .dropped hfa hnfa hdisk hmain
        | busy a hw hbsy hfa hnfa hdisk hmain => exact .busy a hw hbsy hfa hnfa hdisk hmain
        | active a disk hw hbsy hfa hnfa hdisk hmain => exact .active a disk hw hbsy hfa hnfa hdisk hmain
    split
    · exact adrLogin_moves config env hw none s l
    · next n hn =>
      split
      · split
        · exact hip _ 2
        · split
          · split
            · exact ⟨rfl, rfl, rfl⟩
            · exact .dropped rfl rfl rfl rfl
          · exact adrLogin_moves config env hw _ s l
      · exact hip _ 1

variable {config env}

/-- **The rule for the loop of `ADR`**: what every round keeps holds at its end, and a round
that stops the session leaves it as it was. -/
theorem adrLoop_moves {P : List Str → State → AdrLocals → Prop} {ws : List Str} {s : State}
    {l : AdrLocals} (h0 : P [] s l)
    (step : ∀ done w a la b lb, a.toNode = s.toNode → AdrFrame a b → AdrMove config env w a la b lb →
      P done a la → P (done ++ [w]) b lb)
    (still : ∀ done a la b, AdrFrame a b → AdrStill a b → P done a la → P done b la) :
    (∀ s' l', adrLoop config env ws s l = .next s' l' → P ws s' l') ∧
    (∀ s', adrLoop config env ws s l = .stop s' → ∃ done rest la, ws = done ++ rest ∧ P done s' la) := by
  have key : ∀ (ws done : List Str) (s1 : State) (l1 : AdrLocals), s1.toNode = s.toNode → P done s1 l1 →
      (∀ s' l', adrLoop config env ws s1 l1 = .next s' l' → P (done ++ ws) s' l') ∧
      (∀ s', adrLoop config env ws s1 l1 = .stop s' →
        ∃ done' rest la, done ++ ws = done' ++ rest ∧ P done' s' la) := by
    intro ws
    induction ws with
    | nil =>
      intro done s1 l1 _ hP
      refine ⟨fun s' l' h => ?_, fun s' h => ?_⟩
      · simp only [adrLoop, AdrStep.next.injEq] at h
        rw [List.append_nil, ← h.1, ← h.2]
        exact hP
      · simp [adrLoop] at h
    | cons w ws ih =>
      intro done s1 l1 hto hP
      have hmoves := adrStep_moves config env w s1 l1
      have hframe := adrStep_frame config env w s1 l1
      rw [adrLoop]
      generalize adrStep config env w s1 l1 = r at hmoves hframe
      cases r with
      | stop s2 =>
        refine ⟨fun s' l' h => by simp at h, fun s' h => ?_⟩
        obtain rfl : s2 = s' := by simpa using h
        exact ⟨done, w :: ws, l1, rfl, still done s1 l1 s2 hframe hmoves hP⟩
      | next s2 l2 =>
        have hnext := ih (done ++ [w]) s2 l2 (hframe.toNode.trans hto)
          (step done w s1 l1 s2 l2 hto hframe hmoves hP)
        rw [List.append_assoc] at hnext
        exact hnext
  exact key ws [] s l rfl h0

/-- Behind the loop the lists stay as they are. -/
theorem adrEnd_lists (config : BinkdConfig) (env : Env) (s : State) (l : AdrLocals) :
    (adrEnd config env s l).1.login.fa = s.login.fa ∧
    (adrEnd config env s l).1.login.nfa = s.login.nfa := by
  unfold adrEnd
  split
  · exact ⟨rfl, rfl⟩
  · split
    · exact ⟨rfl, rfl⟩
    · split
      · exact ⟨rfl, rfl⟩
      · split
        · unfold adrAnswer
          dsimp only
          split <;> exact ⟨rfl, rfl⟩
        · next n _ =>
          obtain ⟨_, _, _, heq, -, -⟩ := doPrescan_spec config env s
          unfold adrCall
          dsimp only
          rw [heq]
          split
          · exact ⟨rfl, rfl⟩
          · split <;> exact ⟨rfl, rfl⟩

/-- No other message has a part in the lists. -/
theorem handle_lists {t : Byte} {buf : List Byte} {s : State} (ht : t ≠ M_ADR) :
    (handle config env t buf s).1.login.fa = s.login.fa ∧
    (handle config env t buf s).1.login.nfa = s.login.nfa := by
  have hs := handshake config env t buf s
  generalize (handle config env t buf s).1 = s' at hs
  cases hs with
  | nul =>
    have hk := nulLogin_keeps config s.toNode env.tail buf s.login
    exact ⟨hk.fa, hk.nfa⟩
  | adr h => exact absurd h ht
  | pwd =>
    by_cases hto : s.toNode = none
    · have hout := PWD_outcome config env buf s hto
      generalize PWD config env buf s = r at hout
      cases hout with
      | double _ s' hs hl => exact ⟨by rw [hl], by rw [hl]⟩
      | refused m s' _ hs hl => exact ⟨by rw [hl], by rw [hl]⟩
      | nonsecure m digest early ext want s' _ _ hs =>
        rw [hs.login]
        exact ⟨rfl, rfl⟩
      | secure m want s' _ _ hs =>
        rw [hs.login]
        exact ⟨rfl, rfl⟩
    · unfold PWD
      rw [if_pos (Option.isSome_iff_ne_none.mpr hto)]
      exact ⟨rfl, rfl⟩
  | ok =>
    unfold OK
    split
    · exact ⟨rfl, rfl⟩
    · next n _ =>
      obtain ⟨_, _, _, heq, -⟩ := completeLogin_spec config env
        { s with login := okLogin n env.tail buf s.login }
      rw [heq]
      unfold completed okLogin
      dsimp only
      split_ifs <;> exact ⟨rfl, rfl⟩
  | other _ hf =>
    obtain ⟨_, _, hl⟩ := hf.login
    rw [hl]
    exact ⟨rfl, rfl⟩

end Binkd

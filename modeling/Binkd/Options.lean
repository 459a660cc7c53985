import Binkd.Frame.Login

/-!
# The options of an `M_NUL`

`nulLogin` goes through the words of an `OPT` line (`optWords`), and each word sets the
flag of its option.  A flag that one option sets is thus set exactly by a line that has
the option, or was set before (`nulLogin_flag`).
-/

namespace Binkd

variable (config : BinkdConfig)

/-- The words of an `OPT` line. -/
def optWords (tail buf : List Byte) : List Str :=
  let s := strquote true false (cstr buf)
  if (str "OPT ").isPrefixOf s then getwords (s.drop 4 ++ 0 :: tail) {} else []

/-- A flag that one option sets is set by an `M_NUL` that has the option. -/
theorem nulLogin_flag (p : Login → Bool) (w : Str) (toNode : Option FtnNode)
    (hoption : ∀ x l, p (nulOption config toNode x l) = (p l || x = w))
    (hline : ∀ l major minor b sysop d, p { l with major := major, minor := minor, buggyNr := b } = p l ∧
      p { l with sysop := sysop } = p l ∧ p { l with delayEob := d } = p l)
    (tail buf : List Byte) (l : Login) :
    p (nulLogin config toNode tail buf l) = (p l || (optWords tail buf).contains w) := by
  have hfold : ∀ (ws : List Str) (l : Login),
      p (ws.foldl (fun l w => nulOption config toNode w l) l) = (p l || ws.contains w) := by
    intro ws
    induction ws with
    | nil => simp
    | cons x ws ih =>
      intro l
      rw [List.foldl_cons, ih, hoption, List.contains_cons, Bool.or_assoc]
      have hcomm : decide (x = w) = (w == x) := by
        rw [Bool.eq_iff_iff, decide_eq_true_iff, beq_iff_eq, eq_comm]
      rw [hcomm]
  unfold nulLogin optWords
  dsimp only
  generalize strquote true false (cstr buf) = s
  split
  · next major minor heq =>
    have hver : (str "VER ").isPrefixOf s = true := by
      by_contra hne
      simp [hne] at heq
    have hopt : (str "OPT ").isPrefixOf s = false := by
      match s, hver with
      | c :: s, hver =>
        simp only [str] at hver ⊢
        have hc : (86 : Byte) = c := by
          have h := (Bool.and_eq_true _ _).mp hver
          exact beq_iff_eq.mp h.1
        rw [← hc]
        rfl
    rw [hopt]
    simp [(hline l major minor (isBuggyNr s || l.buggyNr) [] 0).1]
  · split_ifs
    · exact hfold _ _
    · simp [(hline l 0 0 false ((s.drop 4).take 120) 0).2.1]
    · simp [(hline l 0 0 false [] (l.delayEob + 1)).2.2]
    · simp

/-- An option changes no flag but its own. -/
theorem nulOption_other (p : Login → Bool) (w : Str) (toNode : Option FtnNode) (x : Str) (l : Login)
    (hx : x ≠ w)
    (hnr : w ≠ str "NR" → p { l with nrFlag := { l.nrFlag with we := true } } = p l)
    (hnd : w ≠ str "ND" → p { l with ndFlag := { l.ndFlag with we := true } } = p l)
    (hcrypt : w ≠ str "CRYPT" → p { l with cryptFlag := { l.cryptFlag with they := true } } = p l)
    (hrest : ∀ c z e, p { l with ndFlag := { l.ndFlag with canNda := true } } = p l ∧
      p { l with mdChallenge := c } = p l ∧ p { l with zCansend := z } = p l ∧
      p { l with extcmd := e } = p l) :
    p (nulOption config toNode x l) = p l := by
  obtain ⟨hnda, -, -, hext⟩ := hrest none l.zCansend true
  unfold nulOption
  split_ifs with h1 h2 h3 h4 h5 h6 h7 h8 h9 h10
  · exact hnr fun hw => hx (h1.trans hw.symm)
  · exact hnd fun hw => hx (h2.trans hw.symm)
  · exact hnda
  · exact hcrypt fun hw => hx (h4.trans hw.symm)
  · split
    · split_ifs
      · exact (hrest _ l.zCansend true).2.1
      · rfl
    · rfl
  · exact (hrest none _ true).2.2.1
  · rfl
  · exact (hrest none _ true).2.2.1
  · rfl
  · exact hext
  · rfl

theorem nulLogin_nd (toNode : Option FtnNode) (tail buf : List Byte) (l : Login) :
    (nulLogin config toNode tail buf l).ndFlag.we =
      (l.ndFlag.we || (optWords tail buf).contains (str "ND")) := by
  refine nulLogin_flag config (fun l => l.ndFlag.we) (str "ND") toNode (fun x l => ?_)
    (fun _ _ _ _ _ _ => ⟨rfl, rfl, rfl⟩) tail buf l
  by_cases hx : x = str "ND"
  · subst hx
    unfold nulOption
    rw [if_neg (by decide), if_pos rfl]
    simp
  · simp only [hx, decide_false, Bool.or_false]
    exact nulOption_other config (fun l => l.ndFlag.we) (str "ND") toNode x l hx (fun _ => rfl)
      (fun h => absurd rfl h) (fun _ => rfl) fun _ _ _ => ⟨rfl, rfl, rfl, rfl⟩

theorem nulLogin_nr (toNode : Option FtnNode) (tail buf : List Byte) (l : Login) :
    (nulLogin config toNode tail buf l).nrFlag.we =
      (l.nrFlag.we || (optWords tail buf).contains (str "NR")) := by
  refine nulLogin_flag config (fun l => l.nrFlag.we) (str "NR") toNode (fun x l => ?_)
    (fun _ _ _ _ _ _ => ⟨rfl, rfl, rfl⟩) tail buf l
  by_cases hx : x = str "NR"
  · subst hx
    unfold nulOption
    rw [if_pos rfl]
    simp
  · simp only [hx, decide_false, Bool.or_false]
    exact nulOption_other config (fun l => l.nrFlag.we) (str "NR") toNode x l hx
      (fun h => absurd rfl h) (fun _ => rfl) (fun _ => rfl) fun _ _ _ => ⟨rfl, rfl, rfl, rfl⟩

theorem nulLogin_crypt (toNode : Option FtnNode) (tail buf : List Byte) (l : Login) :
    (nulLogin config toNode tail buf l).cryptFlag.they =
      (l.cryptFlag.they || (optWords tail buf).contains (str "CRYPT")) := by
  refine nulLogin_flag config (fun l => l.cryptFlag.they) (str "CRYPT") toNode (fun x l => ?_)
    (fun _ _ _ _ _ _ => ⟨rfl, rfl, rfl⟩) tail buf l
  by_cases hx : x = str "CRYPT"
  · subst hx
    unfold nulOption
    rw [if_neg (by decide), if_neg (by decide), if_neg (by decide), if_pos rfl]
    simp
  · simp only [hx, decide_false, Bool.or_false]
    exact nulOption_other config (fun l => l.cryptFlag.they) (str "CRYPT") toNode x l hx
      (fun _ => rfl) (fun _ => rfl) (fun h => absurd rfl h) fun _ _ _ => ⟨rfl, rfl, rfl, rfl⟩

/-- A line without a challenge leaves the challenge alone. -/
theorem nulLogin_challenge (toNode : Option FtnNode) {tail buf : List Byte} (l : Login)
    (h : ∀ w ∈ optWords tail buf, (str "CRAM-").isPrefixOf w = false) :
    (nulLogin config toNode tail buf l).mdChallenge = l.mdChallenge := by
  have hoption : ∀ (w : Str) (l : Login), (str "CRAM-").isPrefixOf w = false →
      (nulOption config toNode w l).mdChallenge = l.mdChallenge := by
    intro w l hw
    unfold nulOption
    rw [hw]
    split_ifs <;> first | rfl | contradiction
  have hfold : ∀ (ws : List Str) (l : Login), (∀ w ∈ ws, (str "CRAM-").isPrefixOf w = false) →
      (ws.foldl (fun l w => nulOption config toNode w l) l).mdChallenge = l.mdChallenge := by
    intro ws
    induction ws with
    | nil => exact fun _ _ => rfl
    | cons w ws ih =>
      intro l hws
      rw [List.foldl_cons, ih _ fun x hx => hws x (List.mem_cons_of_mem w hx)]
      exact hoption w l (hws w List.mem_cons_self)
  unfold optWords at h
  dsimp only at h
  unfold nulLogin
  dsimp only
  generalize strquote true false (cstr buf) = s at h ⊢
  split
  · rfl
  · split_ifs with hopt
    · rw [if_pos hopt] at h
      exact hfold _ l h
    all_goals rfl

end Binkd

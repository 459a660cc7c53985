import Binkd.Banner
import Binkd.Lib.Edits
import Binkd.QSort
import Binkd.Session

/-!
# The addresses that are presented (`send_ADR`)

Each hide-aka or present-aka rule whose mask fits the remote edits the list of our addresses, in the
order of the configuration; so the last such rule for an address decides (`sendADR_edits`).  The text of
the `M_ADR` is put together in a buffer for the addresses that are left.  For none the buffer
has no room for the NUL (`presented_akas`).
-/

namespace Binkd

open Lib

variable {config : BinkdConfig} {s : State} {a b : FtnAddr}

/-- The domain of an address is a C string in a field of `MAX_DOMAIN + 1` bytes. -/
structure FtnAddr.Fits (a : FtnAddr) : Prop where
  length : a.domain.length ≤ maxDomain
  nul : 0 ∉ a.domain

instance (a : FtnAddr) : Decidable a.Fits :=
  decidable_of_iff (a.domain.length ≤ maxDomain ∧
    0 ∉ a.domain) ⟨fun h => ⟨h.1, h.2⟩, fun h => ⟨h.1, h.2⟩⟩

/-- What `ftnaddress_cmp` compares. -/
def FtnAddr.key (a : FtnAddr) : Str × Int32 × Int32 × Int32 × Int32 :=
  (a.domain.map tolower, a.z, a.net, a.node, a.p)

theorem ftnaddressCmp_key (ha : a.Fits) (hb : b.Fits) : ftnaddressCmp a b = 0 ↔ a.key = b.key := by
  rw [ftnaddressCmp_eq_zero, stricmp_eq_zero ha.nul hb.nul]
  simp only [FtnAddr.key, Prod.mk.injEq]

/-! ### The rules -/

/-- Does the condition of a rule hold for the remote? -/
def ruleHolds (s : State) (ps : AkaChain) : Bool :=
  (match s.toNode with
    | some n => ftnamaskCmpm ps.mask [n.fa]
    | none => ftnamaskCmpm ps.mask s.login.active) = if ps.negate then -1 else 0

/-- The addresses of this side before the rules. -/
def ownAkas (config : BinkdConfig) (s : State) : List FtnAddr := s.login.pAddr.getD config.pAddr

/-- The addresses that `send_ADR` presents. -/
def sentAkas (config : BinkdConfig) (s : State) : List FtnAddr :=
  config.akamask.foldl (fun p ps => applyAka s ps p) (ownAkas config s)

/-- The last rule for an address whose condition holds for the remote. -/
def lastRule (config : BinkdConfig) (s : State) (a : FtnAddr) : Option AkaChain :=
  config.akamask.reverse.find? fun ps => ruleHolds s ps && ftnaddressCmp ps.fa a = 0

/-- The address is presented: by the last rule for it, or as one of ours that no rule is about. -/
def AkaPresented (config : BinkdConfig) (s : State) (a : FtnAddr) : Prop :=
  match lastRule config s a with
  | some ps => ps.present = true
  | none => ∃ b ∈ ownAkas config s, ftnaddressCmp b a = 0

/-- The addresses of the configuration fit their fields. -/
def AkasFit (config : BinkdConfig) (s : State) : Prop :=
  (∀ a ∈ ownAkas config s, a.Fits) ∧ ∀ ps ∈ config.akamask, ps.fa.Fits

/-- The rules that hold for the remote, as edits. -/
def akaEdits (config : BinkdConfig) (s : State) : List (Edit FtnAddr) :=
  (config.akamask.filter (ruleHolds s)).map fun ps => ⟨ps.present, ps.fa⟩

theorem mem_applyAka {ps : AkaChain} {p : List FtnAddr} (h : a ∈ applyAka s ps p) :
    a ∈ p ∨ a = ps.fa := by
  unfold applyAka at h
  dsimp only at h
  generalize (match s.toNode with
    | some n => ftnamaskCmpm ps.mask [n.fa]
    | none => ftnamaskCmpm ps.mask (s.login.fa.take s.login.nfa)) = cmp at h
  split_ifs at h
  all_goals first | exact .inl h | skip
  · exact (List.mem_append.mp h).imp_right List.mem_singleton.mp
  · exact .inl (List.mem_of_mem_filter h)
  · exact (List.mem_append.mp h).imp_right List.mem_singleton.mp
  · exact .inl (List.mem_of_mem_filter h)

/-- A rule is an edit if it holds for the remote. -/
theorem applyAka_eq (ps : AkaChain) {p : List FtnAddr} (hp : ∀ a ∈ p, a.Fits) (hps : ps.fa.Fits) :
    applyAka s ps p = if ruleHolds s ps then Edit.apply FtnAddr.key ⟨ps.present, ps.fa⟩ p else p := by
  have hsame : ∀ a ∈ p, (ftnaddressCmp a ps.fa = 0 ↔ a.key = ps.fa.key) :=
    fun a ha => ftnaddressCmp_key (hp a ha) hps
  have hany : (p.any fun a => ftnaddressCmp a ps.fa = 0) = p.any fun a => a.key = ps.fa.key := by
    rw [Bool.eq_iff_iff, List.any_eq_true, List.any_eq_true]
    simp only [decide_eq_true_eq]
    exact exists_congr fun a => and_congr_right fun ha => hsame a ha
  have hfilter : (p.filter fun a => ftnaddressCmp a ps.fa ≠ 0) = p.filter fun a => a.key ≠ ps.fa.key :=
    List.filter_congr fun a ha => by simp only [ne_eq, hsame a ha]
  unfold applyAka ruleHolds Edit.apply
  dsimp only
  rw [hany, hfilter]
  simp only [decide_eq_true_eq]
  rfl

/-- The chain of rules is a chain of edits. -/
theorem sendADR_edits (hfit : AkasFit config s) : (∀ a ∈ sentAkas config s, a.Fits) ∧
    sentAkas config s = edits FtnAddr.key (akaEdits config s) (ownAkas config s) := by
  obtain ⟨hown, hrules⟩ := hfit
  unfold sentAkas akaEdits edits
  generalize ownAkas config s = p at hown
  generalize config.akamask = chain at hrules
  induction chain generalizing p with
  | nil => exact ⟨hown, rfl⟩
  | cons ps chain ih =>
    have hps := hrules ps List.mem_cons_self
    have hfits : ∀ a ∈ applyAka s ps p, a.Fits := by
      intro a ha
      rcases mem_applyAka ha with ha | rfl
      · exact hown a ha
      · exact hps
    obtain ⟨hall, hedits⟩ := ih _ hfits fun ps' h => hrules ps' (List.mem_cons_of_mem ps h)
    refine ⟨hall, hedits.trans ?_⟩
    rw [applyAka_eq ps hown hps]
    by_cases hholds : ruleHolds s ps = true
    · rw [if_pos hholds, List.filter_cons_of_pos hholds, List.map_cons, List.foldl_cons]
    · rw [if_neg hholds, List.filter_cons_of_neg hholds]

/-- The last rule for an address is the last edit for its key. -/
theorem lastRule_edit (hfit : AkasFit config s) (ha : a.Fits) :
    (akaEdits config s).reverse.find? (fun e => e.elem.key = a.key) =
      (lastRule config s a).map fun ps => ⟨ps.present, ps.fa⟩ := by
  have hrules := hfit.2
  unfold akaEdits lastRule
  rw [← List.map_reverse, List.find?_map, ← List.filter_reverse]
  rw [List.find?_filter]
  congr 1
  have hall : ∀ ps ∈ config.akamask.reverse, ps.fa.Fits := fun ps h => hrules ps (List.mem_reverse.mp h)
  generalize config.akamask.reverse = chain at hall
  simp only [Function.comp_def, Bool.decide_and, Bool.decide_eq_true]
  induction chain with
  | nil => rfl
  | cons ps chain ih =>
    have hiff := ftnaddressCmp_key (hall ps List.mem_cons_self) ha
    have ih := ih fun ps' h => hall ps' (List.mem_cons_of_mem ps h)
    simp only [List.find?_cons, hiff]
    rw [ih]

/-! ### The text -/

/-- `FTN_ADDR_SZ`. -/
def ftnAddrSz : ℕ := 80 + maxDomain

/-- The size of the buffer for the text of the `M_ADR`. -/
def akasSize (pAddr : List FtnAddr) : ℕ := pAddr.length * (ftnAddrSz + 1)

/-- The text. -/
def akasText (pAddr : List FtnAddr) : Str := pAddr.flatMap fun a => [32] ++ ftnaddressToStr a

theorem decimalInt_length (n : Int32) : (decimalInt n.toInt).length ≤ 11 := by
  have hrange := n.toInt_lt
  have hlow := n.le_toInt
  have hdigits : (decimal n.toInt.natAbs).length ≤ 10 := by
    simp only [decimal, List.length_map]
    exact (Nat.length_toDigits_le_iff (by decide) (by decide)).mpr (by omega)
  have hminus : (str "-").length = 1 := rfl
  unfold decimalInt
  split_ifs
  · rw [List.length_append, hminus]
    omega
  · omega

theorem ftnaddressToStr_length (ha : a.Fits) : (ftnaddressToStr a).length < ftnAddrSz := by
  have hz := decimalInt_length a.z
  have hnet := decimalInt_length a.net
  have hnode := decimalInt_length a.node
  have hp := decimalInt_length a.p
  have hd := ha.length
  have h1 : (str ":").length = 1 := rfl
  have h2 : (str "/").length = 1 := rfl
  have h3 : (str ".").length = 1 := rfl
  have h4 : (str "@").length = 1 := rfl
  have hif : ∀ (c : Prop) [Decidable c] (x : Str) (k : ℕ), x.length ≤ k →
      (if c then x else []).length ≤ k := by
    intro c _ x k hx
    split_ifs
    · exact hx
    · exact Nat.zero_le k
  have hz' := hif (a.z ≠ -1) (decimalInt a.z.toInt ++ str ":") 12 (by rw [List.length_append]; omega)
  have hnet' := hif (a.net ≠ -1) (decimalInt a.net.toInt) 11 hnet
  have hnode' := hif (a.node ≠ -1) (str "/" ++ decimalInt a.node.toInt) 12 (by rw [List.length_append]; omega)
  have hp' := hif (a.p ≠ 0 ∨ a.node = -1 ∨ false = true) (str "." ++ decimalInt a.p.toInt) 12
    (by rw [List.length_append]; omega)
  have hd' := hif (a.domain ≠ []) (str "@" ++ a.domain) (maxDomain + 1) (by rw [List.length_append]; omega)
  unfold ftnaddressToStr xftnaddressToStr ftnAddrSz
  rw [List.length_append, List.length_append, List.length_append, List.length_append]
  omega

theorem akasText_length {pAddr : List FtnAddr} (h : ∀ a ∈ pAddr, a.Fits) :
    (akasText pAddr).length ≤ pAddr.length * ftnAddrSz := by
  induction pAddr with
  | nil => exact Nat.zero_le _
  | cons a l ih =>
    have ha := ftnaddressToStr_length (h a List.mem_cons_self)
    have hl := ih fun b hb => h b (List.mem_cons_of_mem a hb)
    have hcons : akasText (a :: l) = 32 :: ftnaddressToStr a ++ akasText l := rfl
    rw [hcons, List.length_append, List.length_cons, List.length_cons, Nat.succ_mul]
    omega

/-- What one call of `send_ADR` is to send. -/
structure PresentsAkas (config : BinkdConfig) (s : State) : Prop where
  sends : ∃ t, sendADR config s = msgSend2 M_ADR (akasText (sentAkas config s)) [] t
  distinct : (sentAkas config s).Pairwise fun a b => ftnaddressCmp a b ≠ 0
  presented : ∀ a : FtnAddr, a.Fits → ((∃ b ∈ sentAkas config s, ftnaddressCmp b a = 0) ↔
    AkaPresented config s a)
  /-- the text fits its buffer, with the NUL -/
  room : (akasText (sentAkas config s)).length + 1 ≤ akasSize (sentAkas config s)

/-- **The addresses that are presented**: they are distinct and the last rule for each decides, and the
text fits the buffer if and only if an address is left. -/
theorem presented_akas (config : BinkdConfig) (s : State) (hfit : AkasFit config s)
    (hdistinct : (ownAkas config s).Pairwise fun a b => ftnaddressCmp a b ≠ 0) :
    PresentsAkas config s ↔ ∃ a : FtnAddr, a.Fits ∧ AkaPresented config s a := by
  obtain ⟨hfits, hedits⟩ := sendADR_edits hfit
  have hkeys : ∀ {l : List FtnAddr}, (∀ a ∈ l, a.Fits) →
      (l.Pairwise (fun a b => ftnaddressCmp a b ≠ 0) ↔ (l.map FtnAddr.key).Nodup) := by
    intro l hl
    rw [List.Nodup, List.pairwise_map]
    exact List.Pairwise.iff_of_mem fun ha hb => not_congr (ftnaddressCmp_key (hl _ ha) (hl _ hb))
  have hmem : ∀ {l : List FtnAddr}, (∀ a ∈ l, a.Fits) → ∀ {a : FtnAddr}, a.Fits →
      ((∃ b ∈ l, ftnaddressCmp b a = 0) ↔ a.key ∈ l.map FtnAddr.key) := by
    intro l hl a ha
    rw [List.mem_map]
    exact exists_congr fun b => and_congr_right fun hb => ftnaddressCmp_key (hl b hb) ha
  have hpresented : ∀ a : FtnAddr, a.Fits →
      ((∃ b ∈ sentAkas config s, ftnaddressCmp b a = 0) ↔ AkaPresented config s a) := by
    intro a ha
    rw [hmem hfits ha, hedits, mem_edits, lastRule_edit hfit ha, AkaPresented]
    cases lastRule config s a with
    | some ps => rfl
    | none => exact (hmem hfit.1 ha).symm
  constructor
  · intro h
    have hroom := h.room
    cases hl : sentAkas config s with
    | nil =>
      rw [hl] at hroom
      exact absurd hroom (by decide)
    | cons a l =>
      have ha := hfits a (by rw [hl]; exact List.mem_cons_self)
      refine ⟨a, ha, (hpresented a ha).mp ⟨a, by rw [hl]; exact List.mem_cons_self, ftnaddressCmp_self a⟩⟩
  · rintro ⟨a, ha, hp⟩
    obtain ⟨b, hb, -⟩ := (hpresented a ha).mpr hp
    refine ⟨⟨_, rfl⟩, (hkeys hfits).mpr ?_, hpresented, ?_⟩
    · rw [hedits]
      exact edits_nodup ((hkeys hfit.1).mp hdistinct) _
    · have hlen := akasText_length hfits
      have hpos : 0 < (sentAkas config s).length := List.length_pos_of_mem hb
      rw [akasSize, Nat.mul_succ]
      omega

/-- A network of one address, which is hidden from everybody. -/
def hiddenConfig : BinkdConfig :=
  { fidoConfig [] with akamask := [{ present := false, negate := false, mask := str "*", fa := aka 9 }] }

/-- A session with the address 1. -/
def metState : State := { initProtocol hiddenConfig none none with login := { fa := [aka 1], nfa := 1 } }

/-- The NUL of the text is written behind the end of a buffer of size 0. -/
theorem hidden_overrun : sentAkas hiddenConfig metState = [] ∧
    akasSize (sentAkas hiddenConfig metState) = 0 ∧
    ¬ PresentsAkas hiddenConfig metState := by
  have h : sentAkas hiddenConfig metState = [] := by decide +kernel
  refine ⟨h, by rw [h]; rfl, fun hp => ?_⟩
  have hroom := hp.room
  rw [h] at hroom
  exact absurd hroom (by decide)

/-- Without the rule the address is presented. -/
theorem presented_akas_nine : PresentsAkas (fidoConfig []) metState :=
  (presented_akas (fidoConfig []) metState
    ⟨by decide +kernel, by decide +kernel⟩ (by decide +kernel)).mpr ⟨aka 9, by decide +kernel,
      aka 9, by decide +kernel⟩

end Binkd

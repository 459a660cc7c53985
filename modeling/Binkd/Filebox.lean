import Binkd.Ftnq
import Binkd.Session

/-!
# The names of the fileboxes (`to32`, `q_scan_boxes`)

The T-Mail name of a filebox writes an address in digits of base 32: three for the net and for the
node, but two for the zone and for the point, and `to32` gives the same letter to every value that is no
digit.  So a name belongs to one address exactly if its zone and its point are below 1024
(`filebox_names`).
-/

namespace Binkd

variable {a b : FtnAddr} {m n : ℕ}

/-! ### Digits -/

theorem to32_inj : ∀ m : ℕ, m < 32 → ∀ n : ℕ, n < 33 → to32 (m : ℤ) = to32 (n : ℤ) →
    m = n := by decide +kernel

/-- Everything from 32 on is written as 32 is. -/
theorem to32_big (h : 32 ≤ n) : to32 (n : ℤ) = to32 ((32 : ℕ) : ℤ) := by
  have hn : ¬ (0 ≤ (n : ℤ) ∧ (n : ℤ) ≤ 9) ∧ ¬ (9 < (n : ℤ) ∧ (n : ℤ) < 32) := by omega
  unfold to32
  rw [if_neg hn.1, if_neg hn.2]
  rfl

/-- A digit is written as no other number is. -/
theorem to32_eq (h : to32 (m : ℤ) = to32 (n : ℤ)) (hm : m < 32) : m = n := by
  by_cases hn : n < 33
  · exact to32_inj m hm n hn h
  · rw [to32_big (by omega : 32 ≤ n)] at h
    have := to32_inj m hm 32 (by omega) h
    omega

/-- Two digits. -/
def digits2 (n : ℕ) : Byte × Byte := (to32 ((n / 32 : ℕ) : ℤ), to32 ((n % 32 : ℕ) : ℤ))

/-- Three digits. -/
def digits3 (n : ℕ) : Byte × Byte × Byte :=
  (to32 ((n / 1024 : ℕ) : ℤ), to32 ((n / 32 % 32 : ℕ) : ℤ), to32 ((n % 32 : ℕ) : ℤ))

theorem digits3_inj (hm : m < 32768) (h : digits3 m = digits3 n) : m = n := by
  simp only [digits3, Prod.mk.injEq] at h
  obtain ⟨h1, h2, h3⟩ := h
  have e1 := to32_eq h1 (by omega)
  have e2 := to32_eq h2 (by omega)
  have e3 := to32_eq h3 (by omega)
  omega

theorem digits2_inj (hm : m < 1024) (h : digits2 m = digits2 n) : m = n := by
  simp only [digits2, Prod.mk.injEq] at h
  have e1 := to32_eq h.1 (by omega)
  have e2 := to32_eq h.2 (by omega)
  omega

/-- A number with more than two digits has the name of another one. -/
theorem digits2_other (h : 1024 ≤ n) (hn : n < 32768) : ∃ m < 32768, m ≠ n ∧ digits2 m = digits2 n := by
  have hsame : ∀ k, 1024 ≤ k → k % 32 = n % 32 → digits2 k = digits2 n := by
    intro k hk hmod
    unfold digits2
    rw [to32_big (by omega : 32 ≤ k / 32), to32_big (by omega : 32 ≤ n / 32), hmod]
  by_cases hlow : n < 1056
  · exact ⟨n + 32, by omega, by omega, hsame _ (by omega) (by omega)⟩
  · exact ⟨n - 32, by omega, by omega, hsame _ (by omega) (by omega)⟩

/-! ### Names -/

/-- The four numbers are between 0 and 32767. -/
structure FtnAddr.Ranged (a : FtnAddr) : Prop where
  z : 0 ≤ a.z.toInt ∧ a.z.toInt ≤ 32767
  net : 0 ≤ a.net.toInt ∧ a.net.toInt ≤ 32767
  node : 0 ≤ a.node.toInt ∧ a.node.toInt ≤ 32767
  p : 0 ≤ a.p.toInt ∧ a.p.toInt ≤ 32767

instance (a : FtnAddr) : Decidable a.Ranged :=
  decidable_of_iff ((0 ≤ a.z.toInt ∧ a.z.toInt ≤ 32767) ∧ (0 ≤ a.net.toInt ∧ a.net.toInt ≤ 32767) ∧
      (0 ≤ a.node.toInt ∧ a.node.toInt ≤ 32767) ∧ 0 ≤ a.p.toInt ∧ a.p.toInt ≤ 32767)
    ⟨fun h => ⟨h.1, h.2.1, h.2.2.1, h.2.2.2⟩, fun h => ⟨h.z, h.net, h.node, h.p⟩⟩

/-- The same four numbers. -/
def SameNumbers (a b : FtnAddr) : Prop := a.z = b.z ∧ a.net = b.net ∧ a.node = b.node ∧ a.p = b.p

/-- The filebox of an address with the T-Mail name, of the flavour `f` or `h`. -/
def tmailBox (config : BinkdConfig) (env : Env) (disk : Disk) (hold : Bool) (fa : FtnAddr) : Str :=
  let short := config.tfilebox ++ str "/" ++ tmailName fa
  if hold then holdBox env disk short else short

/-- `q_scan_boxes` scans both. -/
theorem tmailBox_scanned {config : BinkdConfig} (h : config.tfilebox ≠ []) (env : Env) (disk : Disk) (fa : FtnAddr)
    (node : Option FtnNode) (hold : Bool) :
    (tmailBox config env disk hold fa, if hold then 104 else 102, config.deleteablebox) ∈
      fileboxes config env disk fa node := by
  unfold fileboxes tmailBox
  rw [if_pos h]
  cases hold <;> simp

/-- The name in digits. -/
theorem tmailName_digits (ha : a.Ranged) (hb : b.Ranged) : tmailName a = tmailName b ↔
    digits2 a.z.toInt.toNat = digits2 b.z.toInt.toNat ∧
    digits3 a.net.toInt.toNat = digits3 b.net.toInt.toNat ∧
    digits3 a.node.toInt.toNat = digits3 b.node.toInt.toNat ∧
    digits2 a.p.toInt.toNat = digits2 b.p.toInt.toNat := by
  have hnat : ∀ {i : ℤ}, 0 ≤ i → i = (i.toNat : ℤ) := fun h => (Int.toNat_of_nonneg h).symm
  unfold tmailName
  dsimp only
  rw [hnat ha.z.1, hnat ha.net.1, hnat ha.node.1, hnat ha.p.1, hnat hb.z.1, hnat hb.net.1,
    hnat hb.node.1, hnat hb.p.1]
  simp only [digits2, digits3, Prod.mk.injEq, List.cons.injEq, and_true, true_and]
  simp only [Int.toNat_natCast]
  norm_cast
  tauto

theorem toInt_of_toNat {x y : Int32} (hx : 0 ≤ x.toInt) (hy : 0 ≤ y.toInt) (h : x.toInt.toNat = y.toInt.toNat) : x = y :=
  Int32.toInt_inj.mp (by omega)

/-- The boxes of one flavour have the same name exactly if the addresses have. -/
theorem tmailBox_inj {config : BinkdConfig} {env : Env} {disk : Disk} {hold : Bool}
    (h : tmailBox config env disk hold a = tmailBox config env disk hold b) :
    tmailName a = tmailName b := by
  have hbase : ∀ u v : Str, u.length = v.length → config.tfilebox ++ str "/" ++ tmailName a ++ u =
      config.tfilebox ++ str "/" ++ tmailName b ++ v → tmailName a = tmailName b := by
    intro u v huv heq
    exact List.append_cancel_left (List.append_inj_left' heq huv)
  have hhold : ∀ base : Str, ∃ u : Str, u.length = 1 ∧ holdBox env disk base = base ++ u := by
    intro base
    unfold holdBox
    split
    · exact ⟨_, rfl, rfl⟩
    · exact ⟨_, rfl, rfl⟩
  unfold tmailBox at h
  dsimp only at h
  cases hold with
  | false => exact List.append_cancel_left h
  | true =>
    obtain ⟨u, hu, hua⟩ := hhold (config.tfilebox ++ str "/" ++ tmailName a)
    obtain ⟨v, hv, hvb⟩ := hhold (config.tfilebox ++ str "/" ++ tmailName b)
    rw [if_pos rfl, if_pos rfl, hua, hvb] at h
    exact hbase u v (hu.trans hv.symm) h

/-- **The names of the fileboxes**: a filebox belongs to one address only if and only if the zone and the
point of the address are below 1024. -/
theorem filebox_names (config : BinkdConfig) (env : Env) (disk : Disk) (hold : Bool) (a : FtnAddr) (ha : a.Ranged) :
    (∀ b : FtnAddr, b.Ranged → tmailBox config env disk hold b = tmailBox config env disk hold a → SameNumbers b a) ↔
      a.z.toInt < 1024 ∧ a.p.toInt < 1024 := by
  have hsame : ∀ b : FtnAddr, tmailName b = tmailName a →
      tmailBox config env disk hold b = tmailBox config env disk hold a := by
    intro b hb
    unfold tmailBox
    rw [hb]
  have hother : ∀ {x : Int32}, 0 ≤ x.toInt → x.toInt ≤ 32767 → ¬ x.toInt < 1024 → ∃ y : Int32, y ≠ x ∧
      0 ≤ y.toInt ∧ y.toInt ≤ 32767 ∧ digits2 y.toInt.toNat = digits2 x.toInt.toNat := by
    intro x h0 hle h
    obtain ⟨m, hm, hne, hdigits⟩ := digits2_other (n := x.toInt.toNat) (by omega) (by omega)
    have hy : (Int32.ofInt (m : ℤ)).toInt = m := Int32.toInt_ofInt_of_le (by omega) (by omega)
    refine ⟨Int32.ofInt m, fun heq => hne ?_, by omega, by omega, ?_⟩
    · rw [heq] at hy
      omega
    · rw [hy, Int.toNat_natCast]
      exact hdigits
  constructor
  · intro h
    constructor
    · by_contra hz
      obtain ⟨y, hne, h0, hle, hdigits⟩ := hother ha.z.1 ha.z.2 hz
      have hb : ({ a with z := y } : FtnAddr).Ranged := ⟨⟨h0, hle⟩, ha.net, ha.node, ha.p⟩
      exact hne (h _ hb (hsame _ ((tmailName_digits hb ha).mpr ⟨hdigits, rfl, rfl, rfl⟩))).1
    · by_contra hp
      obtain ⟨y, hne, h0, hle, hdigits⟩ := hother ha.p.1 ha.p.2 hp
      have hb : ({ a with p := y } : FtnAddr).Ranged := ⟨ha.z, ha.net, ha.node, ⟨h0, hle⟩⟩
      exact hne (h _ hb (hsame _ ((tmailName_digits hb ha).mpr ⟨rfl, rfl, rfl, hdigits⟩))).2.2.2
  · rintro ⟨hz, hp⟩ b hb hbox
    obtain ⟨h1, h2, h3, h4⟩ := (tmailName_digits hb ha).mp (tmailBox_inj hbox)
    have hlow : ∀ {i : ℤ} {k : ℕ}, i < k → 0 ≤ i → i.toNat < k := fun h h0 => by omega
    have hnet := hlow (k := 32768) (Int.lt_of_le_of_lt ha.net.2 (by decide)) ha.net.1
    have hnode := hlow (k := 32768) (Int.lt_of_le_of_lt ha.node.2 (by decide)) ha.node.1
    refine ⟨toInt_of_toNat hb.z.1 ha.z.1 ?_, toInt_of_toNat hb.net.1 ha.net.1 ?_,
      toInt_of_toNat hb.node.1 ha.node.1 ?_, toInt_of_toNat hb.p.1 ha.p.1 ?_⟩
    · exact (digits2_inj (hlow (k := 1024) hz ha.z.1) h1.symm).symm
    · exact (digits3_inj hnet h2.symm).symm
    · exact (digits3_inj hnode h3.symm).symm
    · exact (digits2_inj (hlow (k := 1024) hp ha.p.1) h4.symm).symm

/-- The points 1024 and 1056 of a node share a filebox. -/
theorem filebox_shared : tmailName { aka 1 with p := 1024 } = tmailName { aka 1 with p := 1056 } ∧
    ∃ a b : FtnAddr, a.Ranged ∧ b.Ranged ∧ (∀ config env disk hold,
      tmailBox config env disk hold a = tmailBox config env disk hold b) ∧ ¬ SameNumbers a b := by
  have h : tmailName { aka 1 with p := 1024 } = tmailName { aka 1 with p := 1056 } := by decide +kernel
  refine ⟨h, { aka 1 with p := 1024 }, { aka 1 with p := 1056 }, by decide +kernel, by decide +kernel,
    fun config env disk hold => ?_, fun hsame => absurd hsame.2.2.2 (by decide)⟩
  unfold tmailBox
  rw [h]

/-- The filebox of 2:5020/1 is its own. -/
theorem filebox_names_one : (∀ b : FtnAddr, b.Ranged →
    tmailBox (fidoConfig []) {} ∅ false b = tmailBox (fidoConfig []) {} ∅ false (aka 1) → SameNumbers b (aka 1)) ∧
    (aka 1).z.toInt < 1024 ∧ (aka 1).p.toInt < 1024 :=
  ⟨(filebox_names (fidoConfig []) {} ∅ false (aka 1) (by decide +kernel)).mpr (by decide +kernel), by decide +kernel⟩

end Binkd

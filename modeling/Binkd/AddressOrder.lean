import Binkd.AddressFormat
import Binkd.Lib.Lexicographic
import Binkd.Presentation

/-!
# The order of addresses (`ftnaddress_cmp`)

`ftnaddress_cmp` orders by the domain and then by zone, net, node and point, each time
by the difference of two `int`s.  `orderCmp` is the comparison with the differences of
integers, which is a total order; the program's one agrees with it as long as no
difference leaves the range of an `int`.  Numbers that are read from a text are -1 or not
negative (`parseFtnaddress_plain`), and on these the order is lost exactly if the largest
`int` meets a number that is absent.
-/

namespace Binkd

open Lib

variable {S : FtnAddr → Prop} {a b : FtnAddr}

/-! ### Domains -/

/-- The byte by which a string is compared first; the end counts as a zero byte. -/
def firstByte (s : Str) : Int := schar (tolower (s.headD 0))

theorem schar_tolower_ne {c : Byte} (hc : c ≠ 0) : schar (tolower c) ≠ 0 :=
  forall_byte (p := fun c => c ≠ 0 → schar (tolower c) ≠ 0) (by decide +kernel) c hc

/-- One step of the comparison.  No string has a zero byte in it, so the end is before all others. -/
theorem stricmp_step {s t : Str} (hs : 0 ∉ s) (ht : 0 ∉ t) : stricmp s t =
    thenCmp (fun s t => firstByte s - firstByte t) (fun s t => stricmp s.tail t.tail) s t := by
  have hend : firstByte [] = 0 := by decide
  have hfirst {c : Byte} {r : Str} (h : 0 ∉ c :: r) : firstByte (c :: r) ≠ 0 :=
    schar_tolower_ne fun hc => h (hc ▸ List.mem_cons_self)
  cases s with
  | nil =>
    cases t with
    | nil => rfl
    | cons b t =>
      have hb := hfirst ht
      rw [thenCmp_of_ne (by omega), hend, Int.zero_sub]
      rfl
  | cons a s =>
    have ha := hfirst hs
    cases t with
    | nil =>
      rw [thenCmp_of_ne (by omega), hend, Int.sub_zero]
      rfl
    | cons b t =>
      by_cases hab : tolower a = tolower b
      · have htie : firstByte (a :: s) - firstByte (b :: t) = 0 := Int.sub_eq_zero.mpr (congrArg schar hab)
        rw [thenCmp_of_eq (f := fun s t => firstByte s - firstByte t) htie, stricmp, if_neg (not_not_intro hab)]
        rfl
      · have hne : firstByte (a :: s) - firstByte (b :: t) ≠ 0 :=
          fun h => hab (schar_inj.mp (Int.sub_eq_zero.mp h))
        rw [thenCmp_of_ne (f := fun s t => firstByte s - firstByte t) hne, stricmp, if_pos hab]
        rfl

theorem stricmp_total_le (n : ℕ) : CmpTotal stricmp (fun s : Str => 0 ∉ s ∧ s.length ≤ n) := by
  induction n with
  | zero =>
    have hnil {s : Str} (h : 0 ∉ s ∧ s.length ≤ 0) : s = [] :=
      List.eq_nil_of_length_eq_zero (Nat.le_zero.mp h.2)
    refine ⟨fun s t hs ht => ?_, fun s t u hs _ hu _ _ => ?_⟩
    · rw [hnil hs, hnil ht]
      decide
    · rw [hnil hs, hnil hu]
      decide
  | succ n ih =>
    have htail : CmpTotal (fun s t : Str => stricmp s.tail t.tail) (fun s => 0 ∉ s ∧ s.length ≤ n + 1) := by
      refine ih.comap List.tail fun s hs => ⟨fun h => hs.1 (List.mem_of_mem_tail h), ?_⟩
      rw [List.length_tail]
      omega
    exact ((cmpTotal_sub firstByte).thenCmp htail).congr fun s t hs ht => stricmp_step hs.1 ht.1

theorem stricmp_total : CmpTotal stricmp (fun s : Str => 0 ∉ s) where
  antisymm s t hs ht := by
    have htotal := stricmp_total_le (max s.length t.length)
    exact htotal.antisymm s t ⟨hs, le_max_left _ _⟩ ⟨ht, le_max_right _ _⟩
  trans s t u hs ht hu := by
    have htotal := stricmp_total_le (max s.length (max t.length u.length))
    exact htotal.trans s t u ⟨hs, le_max_left _ _⟩ ⟨ht, by omega⟩ ⟨hu, by omega⟩

/-! ### The numbers -/

/-- The first numbers in which two addresses differ, or their points. -/
def firstDiff (a b : FtnAddr) : Int32 × Int32 :=
  if a.z ≠ b.z then (a.z, b.z)
  else if a.net ≠ b.net then (a.net, b.net)
  else if a.node ≠ b.node then (a.node, b.node)
  else (a.p, b.p)

/-- The difference that decides between two addresses leaves the range of an `int`. -/
def Overflows (a b : FtnAddr) : Prop :=
  stricmp a.domain b.domain = 0 ∧ ¬ (-2 ^ 31 ≤ (firstDiff a b).1.toInt - (firstDiff a b).2.toInt ∧
    (firstDiff a b).1.toInt - (firstDiff a b).2.toInt < 2 ^ 31)

instance decidableOverflows (a b : FtnAddr) : Decidable (Overflows a b) := inferInstanceAs (Decidable (_ ∧ _))

theorem ftnaddressCmp_firstDiff (a b : FtnAddr) : ftnaddressCmp a b =
    if stricmp a.domain b.domain ≠ 0 then stricmp a.domain b.domain
    else ((firstDiff a b).1 - (firstDiff a b).2).toInt := by
  unfold ftnaddressCmp firstDiff
  split_ifs with hdom hz hnet hnode hp
  · rfl
  · rfl
  · rfl
  · rfl
  · rfl
  · rw [not_not.mp hp, Int32.sub_self]
    rfl

/-- The order of addresses, with the differences of integers. -/
def orderCmp : FtnAddr → FtnAddr → Int :=
  thenCmp (fun a b => stricmp a.domain b.domain) (thenCmp (fun a b => a.z.toInt - b.z.toInt)
    (thenCmp (fun a b => a.net.toInt - b.net.toInt) (thenCmp (fun a b => a.node.toInt - b.node.toInt)
      fun a b => a.p.toInt - b.p.toInt)))

theorem orderCmp_total (hnul : ∀ a, S a → 0 ∉ a.domain) : CmpTotal orderCmp S := by
  have hdom : CmpTotal (fun a b : FtnAddr => stricmp a.domain b.domain) S :=
    stricmp_total.comap FtnAddr.domain hnul
  have hnum (num : FtnAddr → Int32) : CmpTotal (fun a b => (num a).toInt - (num b).toInt) S :=
    cmpTotal_sub fun a => (num a).toInt
  exact hdom.thenCmp ((hnum FtnAddr.z).thenCmp ((hnum FtnAddr.net).thenCmp
    ((hnum FtnAddr.node).thenCmp (hnum FtnAddr.p))))

theorem orderCmp_firstDiff (a b : FtnAddr) : orderCmp a b =
    if stricmp a.domain b.domain ≠ 0 then stricmp a.domain b.domain
    else (firstDiff a b).1.toInt - (firstDiff a b).2.toInt := by
  have hsub (x y : Int32) : x.toInt - y.toInt ≠ 0 ↔ x ≠ y := by
    rw [ne_eq, Int.sub_eq_zero, Int32.toInt_inj]
  unfold orderCmp firstDiff thenCmp
  simp only [hsub]
  split_ifs <;> rfl

/-- A difference that stays in the range is that of the integers. -/
theorem sub_toInt {x y : Int32} (hlow : -2 ^ 31 ≤ x.toInt - y.toInt) (hhigh : x.toInt - y.toInt < 2 ^ 31) :
    (x - y).toInt = x.toInt - y.toInt := by
  rw [Int32.toInt_sub]
  exact Int.bmod_eq_of_le (by omega) (by omega)

theorem ftnaddressCmp_order (h : ¬ Overflows a b) : ftnaddressCmp a b = orderCmp a b := by
  rw [ftnaddressCmp_firstDiff, orderCmp_firstDiff]
  split_ifs with hdom
  · rfl
  · have hrange := not_not.mp fun hno => h ⟨not_not.mp hdom, hno⟩
    exact sub_toInt hrange.1 hrange.2

/-! ### A total order -/

/-- The comparison is a total order on these addresses, and finds those equal that differ at most in
the case of the domain. -/
structure Orders (S : FtnAddr → Prop) : Prop where
  total : CmpTotal ftnaddressCmp S
  zero : ∀ a b, S a → S b → (ftnaddressCmp a b = 0 ↔ a.key = b.key)

theorem orders_of_fits (hnul : ∀ a, S a → 0 ∉ a.domain) (hfits : ∀ a b, S a → S b → ¬ Overflows a b) :
    Orders S where
  total := (orderCmp_total hnul).congr fun a b ha hb => ftnaddressCmp_order (hfits a b ha hb)
  zero a b ha hb := by
    rw [ftnaddressCmp_eq_zero, stricmp_eq_zero (hnul a ha) (hnul b hb)]
    simp only [FtnAddr.key, Prod.mk.injEq]

/-- Numbers from -1 on overflow only if they are the largest `int` and -1. -/
theorem plain_overflow {x y : Int32} (hx : Plain x) (hy : Plain y)
    (h : ¬ (-2 ^ 31 ≤ x.toInt - y.toInt ∧ x.toInt - y.toInt < 2 ^ 31)) : x = Int32.maxValue ∧ y = -1 := by
  have hlow {n : Int32} (hn : Plain n) : -1 ≤ n.toInt := by
    rcases hn with rfl | hn
    · decide
    · omega
  have hxlow := hlow hx
  have hylow := hlow hy
  have hxhigh := x.toInt_lt
  have hyhigh := y.toInt_lt
  have hmax : Int32.maxValue.toInt = 2 ^ 31 - 1 := by decide
  have hmin : (-1 : Int32).toInt = -1 := by decide
  exact ⟨Int32.toInt_inj.mp (by omega), Int32.toInt_inj.mp (by omega)⟩

theorem firstDiff_plain (ha : a.Plain) (hb : b.Plain) : Plain (firstDiff a b).1 ∧
    Plain (firstDiff a b).2 := by
  unfold firstDiff
  split_ifs
  · exact ⟨ha.z, hb.z⟩
  · exact ⟨ha.net, hb.net⟩
  · exact ⟨ha.node, hb.node⟩
  · exact ⟨ha.p, hb.p⟩

theorem firstDiff_swap (a b : FtnAddr) : firstDiff b a = (firstDiff a b).swap := by
  unfold firstDiff
  simp only [ne_comm (a := b.z), ne_comm (a := b.net), ne_comm (a := b.node)]
  split_ifs <;> rfl

/-- Where the difference overflows, each of the addresses is before the other. -/
theorem overflow_both (hnul : 0 ∉ a.domain ∧ 0 ∉ b.domain) (ha : a.Plain) (hb : b.Plain) (h : Overflows a b) :
    ftnaddressCmp a b < 0 ∧ ftnaddressCmp b a < 0 := by
  obtain ⟨hdom, hrange⟩ := h
  have hplain := firstDiff_plain ha hb
  obtain ⟨hmax, habsent⟩ := plain_overflow hplain.1 hplain.2 hrange
  have hdom' := stricmp_total.eq_symm hnul.1 hnul.2 hdom
  rw [ftnaddressCmp_firstDiff, ftnaddressCmp_firstDiff, if_neg (not_not_intro hdom),
    if_neg (not_not_intro hdom'),
    firstDiff_swap a b, Prod.fst_swap, Prod.snd_swap, hmax, habsent]
  decide

/-- **`ftnaddress_cmp` is a total order** on every set of addresses in which no difference that
decides leaves the range of an `int`; and where the numbers are -1 or not negative, on no others. -/
theorem address_order (hnul : ∀ a, S a → 0 ∉ a.domain) :
    ((∀ a b, S a → S b → ¬ Overflows a b) → Orders S) ∧
    ((∀ a, S a → a.Plain) → (Orders S ↔ ∀ a b, S a → S b → ¬ Overflows a b)) := by
  refine ⟨orders_of_fits hnul, fun hplain => ⟨fun horders a b ha hb hover => ?_, orders_of_fits hnul⟩⟩
  obtain ⟨hab, hba⟩ := overflow_both ⟨hnul a ha, hnul b hb⟩ (hplain a ha) (hplain b hb) hover
  have hpos := (horders.total.antisymm b a hb ha).mpr hab
  omega

/-- Nodes of a network and a point of one of them. -/
def networkAddrs : List FtnAddr :=
  [⟨str "fidonet", 2, 5047, 13, 0⟩, ⟨str "FidoNet", 2, 5047, 13, 1⟩, ⟨str "fidonet", 2, -1, 14, 0⟩]

theorem network_order : Orders fun a => a ∈ networkAddrs := by
  refine (address_order ?_).1 ?_
  · decide +kernel
  · have h : ∀ a ∈ networkAddrs, ∀ b ∈ networkAddrs, ¬ Overflows a b := by decide +kernel
    exact fun a b ha hb => h a ha b hb

/-- The largest zone, and an address without a zone: each of the two is before the other. -/
theorem largest_zone_unordered :
    ∃ a b, parseFtnaddress (str "2147483647:1/1") [] = some a ∧ parseFtnaddress (str "1/1") [] = some b ∧
      a.Plain ∧ b.Plain ∧ ftnaddressCmp a b < 0 ∧ ftnaddressCmp b a < 0 ∧
      ¬ Orders fun c => c = a ∨ c = b := by
  refine ⟨⟨[], 2147483647, 1, 1, 0⟩, ⟨[], -1, 1, 1, 0⟩, by decide +kernel, by decide +kernel,
    ?_, ?_, by decide,
    by decide, fun horders => ?_⟩
  · exact ⟨.inr (by decide), .inr (by decide), .inr (by decide), .inr (by decide)⟩
  · exact ⟨.inl rfl, .inr (by decide), .inr (by decide), .inr (by decide)⟩
  · have hpos := (horders.total.antisymm _ _ (.inr rfl) (.inl rfl)).mpr (by decide :
      ftnaddressCmp ⟨[], 2147483647, 1, 1, 0⟩ ⟨[], -1, 1, 1, 0⟩ < 0)
    exact absurd hpos (by decide)

end Binkd

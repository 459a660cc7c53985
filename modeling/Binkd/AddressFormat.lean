import Binkd.Aka
import Binkd.Outbound

/-!
# The widths of an address

`gettoken` reads the numbers of an address from the remote without a bound, and
`ftnaddress_to_filename` prints them with formats that give the least width only, the zone
and the point into buffers of five and of fourteen bytes.  A point always fits; zone, net
and node fit exactly if they are below `16 ^ 3` and `16 ^ 4` (`address_formats`).
-/

namespace Binkd

/-! ### The numbers of a text -/

/-- The numerals among the first tokens of a text. -/
def numerals : ℕ → Str → List Str
  | 0, _ => []
  | n + 1, s => match gettoken s with
    | none => []
    | some (_, r) => (if isdigit (s.headD 0) then [s.takeWhile isdigit] else []) ++ numerals n r

/-- Every step `n * 10 + c - '0'` of the conversion stays within an `int`. -/
def Converts (digits : Str) : Prop :=
  ∀ p d r, digits = p ++ d :: r → digitsValue p * 10 + d.toNat ≤ 2 ^ 31 - 1

theorem digitsValue_snoc {p : Str} {d : Byte} (hp : ∀ c ∈ p, isdigit c = true) (hd : isdigit d = true) :
    digitsValue (p ++ [d]) = digitsValue p * 10 + (d.toNat - 48) := by
  have hall : ∀ c ∈ p ++ [d], isdigit c = true := by
    intro c hc
    rcases List.mem_append.mp hc with hc | hc
    · exact hp c hc
    · rw [List.mem_singleton.mp hc, hd]
  unfold digitsValue
  rw [List.takeWhile_eq_self_iff.mpr hall, List.takeWhile_eq_self_iff.mpr hp, List.foldl_append]
  simp only [List.foldl_cons, List.foldl_nil]
  omega

theorem isdigit_range {d : Byte} (h : isdigit d = true) : 48 ≤ d.toNat ∧ d.toNat ≤ 57 := by
  simpa [isdigit, UInt8.le_iff_toNat_le] using h

/-- More digits make no smaller number. -/
theorem digitsValue_prefix {p q : Str} (h : ∀ c ∈ p ++ q, isdigit c = true) :
    digitsValue p ≤ digitsValue (p ++ q) := by
  induction q using List.reverseRecOn with
  | nil => rw [List.append_nil]
  | append_singleton q d ih =>
    rw [← List.append_assoc] at h ⊢
    have hpq : ∀ c ∈ p ++ q, isdigit c = true := fun c hc => h c (List.mem_append_left _ hc)
    rw [digitsValue_snoc hpq (h d (List.mem_append_right _ (List.mem_singleton_self d)))]
    have := ih hpq
    omega

/-- A numeral converts if its value leaves room for the last digit. -/
theorem converts_iff {digits : Str} (hne : digits ≠ []) (h : ∀ c ∈ digits, isdigit c = true) :
    Converts digits ↔ digitsValue digits + 48 ≤ 2 ^ 31 - 1 := by
  constructor
  · intro hconv
    obtain ⟨p, d, rfl⟩ : ∃ p d, digits = p ++ [d] := ⟨_, _, (List.dropLast_append_getLast hne).symm⟩
    have hd := isdigit_range (h d (List.mem_append_right _ (List.mem_singleton_self d)))
    have hstep := hconv p d [] rfl
    rw [digitsValue_snoc (fun c hc => h c (List.mem_append_left _ hc))
      (h d (List.mem_append_right _ (List.mem_singleton_self d)))]
    omega
  · rintro hle p d r rfl
    rw [← List.singleton_append, ← List.append_assoc] at h hle
    have hp : ∀ c ∈ p, isdigit c = true := fun c hc =>
      h c (List.mem_append_left _ (List.mem_append_left _ hc))
    have hd : isdigit d = true :=
      h d (List.mem_append_left _ (List.mem_append_right _ (List.mem_singleton_self d)))
    have hstep := digitsValue_prefix h
    rw [digitsValue_snoc hp hd] at hstep
    have := isdigit_range hd
    omega

/-- What `gettoken` makes of a numeral. -/
theorem numeral_value {digits : Str} (h : ∀ c ∈ digits, isdigit c = true) :
    digits.foldl (fun (n : Int32) d => n * 10 + d.toUInt32.toInt32 - 48) 0 =
      Int32.ofNat (digitsValue digits) := by
  induction digits using List.reverseRecOn with
  | nil => rfl
  | append_singleton p d ih =>
    have hp : ∀ c ∈ p, isdigit c = true := fun c hc => h c (List.mem_append_left _ hc)
    have hd : isdigit d = true := h d (List.mem_append_right _ (List.mem_singleton_self d))
    obtain ⟨hlow, -⟩ := isdigit_range hd
    rw [List.foldl_append, ih hp, digitsValue_snoc hp hd]
    simp only [List.foldl_cons, List.foldl_nil]
    have hdigit : d.toUInt32.toInt32 = Int32.ofNat (d.toNat - 48 + 48) := by
      rw [Nat.sub_add_cancel hlow, ← UInt32.toInt32_ofNat']
      congr 1
      exact UInt32.toNat_inj.mp (by simp)
    rw [hdigit, Int32.ofNat_add, Int32.ofNat_add, Int32.ofNat_mul, ← Int32.add_assoc]
    exact Int32.add_sub_cancel _ _

/-! ### The numbers of an address -/

/-- A number that is absent, or not negative. -/
def Plain (n : Int32) : Prop := n = -1 ∨ 0 ≤ n.toInt

theorem plain_zero : Plain 0 := .inr (by decide)

/-- Numerals below `2 ^ 31` make numbers that are not negative. -/
theorem gettokens_plain {n : ℕ} {s : Str} {ts : List Token} (h : gettokens n s = some ts)
    (hconv : ∀ ds ∈ numerals n s, digitsValue ds < 2 ^ 31) : ∀ t ∈ ts, Plain t.n := by
  induction n generalizing s ts with
  | zero =>
    obtain rfl := Option.some.inj h
    exact fun t ht => absurd ht List.not_mem_nil
  | succ n ih =>
    rw [gettokens] at h
    rw [numerals] at hconv
    cases hget : gettoken s with
    | none => simp [hget] at h
    | some tr =>
      obtain ⟨t, r⟩ := tr
      rw [hget] at h hconv
      obtain ⟨ts', hts', rfl⟩ := Option.map_eq_some_iff.mp h
      intro u hu
      rcases List.mem_cons.mp hu with rfl | hu
      · unfold gettoken at hget
        split at hget
        · obtain ⟨rfl, -⟩ := Prod.mk.inj (Option.some.inj hget)
          exact .inl rfl
        · next c rest =>
          split_ifs at hget with hsep hdigit halpha
          · obtain ⟨rfl, -⟩ := Prod.mk.inj (Option.some.inj hget)
            exact plain_zero
          · obtain ⟨rfl, -⟩ := Prod.mk.inj (Option.some.inj hget)
            have hall : ∀ x ∈ (c :: rest).takeWhile isdigit, isdigit x = true := fun x hx =>
              List.mem_takeWhile_imp hx
            have hlt := hconv _ (List.mem_append_left _ (by
              rw [List.headD_cons, if_pos hdigit]
              exact List.mem_singleton_self _))
            right
            show 0 ≤ (((c :: rest).takeWhile isdigit).foldl
              (fun (n : Int32) d => n * 10 + d.toUInt32.toInt32 - 48) 0).toInt
            rw [numeral_value hall, Int32.toInt_ofNat_of_lt (by omega)]
            omega
          · obtain ⟨rfl, -⟩ := Prod.mk.inj (Option.some.inj hget)
            exact plain_zero
      · exact ih hts' (fun ds hds => hconv ds (List.mem_append_right _ hds)) u hu

/-- The numbers of an address. -/
structure FtnAddr.Plain (fa : FtnAddr) : Prop where
  z : Binkd.Plain fa.z
  net : Binkd.Plain fa.net
  node : Binkd.Plain fa.node
  p : Binkd.Plain fa.p

theorem parseEnd_plain {fa a : FtnAddr} {ts : List Token} (h : parseEnd fa ts = some a) (hfa : fa.Plain) :
    a.Plain := by
  unfold parseEnd at h
  split_ifs at h
  · obtain rfl := Option.some.inj h
    exact ⟨hfa.z, hfa.net, hfa.node, plain_zero⟩
  · obtain rfl := Option.some.inj h
    exact hfa

theorem parseDomain_plain {pDomains : List FtnDomain} {fa a : FtnAddr} {ts : List Token}
    (h : parseDomain pDomains fa ts = some a) (hfa : fa.Plain) : a.Plain := by
  unfold parseDomain at h
  split at h
  · split_ifs at h
    · exact parseEnd_plain h ⟨hfa.z, hfa.net, hfa.node, hfa.p⟩
    · exact parseEnd_plain h hfa
  · exact parseEnd_plain h hfa

theorem parsePoint_plain {pDomains : List FtnDomain} {fa a : FtnAddr} {ts : List Token}
    (h : parsePoint pDomains fa ts = some a) (hfa : fa.Plain) (hts : ∀ t ∈ ts, Plain t.n) : a.Plain := by
  unfold parsePoint at h
  split at h
  · next t u rest =>
    split_ifs at h
    · exact parseDomain_plain h ⟨hfa.z, hfa.net, hfa.node, hts u (by simp)⟩
    · exact parseDomain_plain h hfa
  · exact parseDomain_plain h hfa

theorem parseNode_plain {pDomains : List FtnDomain} {fa a : FtnAddr} {ts : List Token}
    (h : parseNode pDomains fa ts = some a) (hfa : fa.Plain) (hts : ∀ t ∈ ts, Plain t.n) : a.Plain := by
  unfold parseNode at h
  have hdrop : ∀ t ∈ (if (ts.headD {}).c = 47 then ts.drop 1 else ts), Plain t.n := by
    intro t ht
    split_ifs at ht
    · exact hts t (List.mem_of_mem_drop ht)
    · exact hts t ht
  generalize (if (ts.headD {}).c = 47 then ts.drop 1 else ts) = ts' at h hdrop
  dsimp only at h
  split at h
  · next t rest =>
    split_ifs at h
    · exact parsePoint_plain h ⟨hfa.z, hfa.net, hdrop t List.mem_cons_self, hfa.p⟩ fun x hx =>
        hdrop x (List.mem_cons_of_mem t hx)
    · exact parsePoint_plain h hfa hdrop
  · contradiction

theorem parseNet_plain {pDomains : List FtnDomain} {fa a : FtnAddr} {ts : List Token}
    (h : parseNet pDomains fa ts = some a) (hfa : fa.Plain) (hts : ∀ t ∈ ts, Plain t.n) : a.Plain := by
  unfold parseNet at h
  split at h
  · next t u rest =>
    split_ifs at h
    · exact parseNode_plain h ⟨hfa.z, hts t List.mem_cons_self, hfa.node, hfa.p⟩ fun x hx =>
        hts x (List.mem_cons_of_mem t hx)
    · exact parseNode_plain h hfa hts
  · exact parseNode_plain h hfa hts

/-- **The numbers of an address that is read** are not negative if the numerals are below `2 ^ 31`. -/
theorem parseFtnaddress_plain {s : Str} {pDomains : List FtnDomain} {a : FtnAddr}
    (h : parseFtnaddress s pDomains = some a) (hconv : ∀ ds ∈ numerals 10 s, digitsValue ds < 2 ^ 31) : a.Plain := by
  have hnone : FtnAddr.Plain {} := ⟨.inl rfl, .inl rfl, .inl rfl, .inl rfl⟩
  unfold parseFtnaddress at h
  split at h
  · next t u rest heq =>
    have hts := gettokens_plain heq hconv
    split_ifs at h
    · exact parseNet_plain h ⟨hts t List.mem_cons_self, .inl rfl, .inl rfl, .inl rfl⟩ fun x hx =>
        hts x (List.mem_cons_of_mem t (List.mem_cons_of_mem u hx))
    · exact parseNet_plain h hnone hts
  · contradiction

/-! ### The formats -/

/-- The buffers of `ftnaddress_to_filename` have room, and net and node take four digits. -/
structure Formats (a : FtnAddr) (d : FtnDomain) : Prop where
  ext : a.z ≠ d.z → (str "." ++ hexInt 3 a.z).length + 1 ≤ 5
  pnt : a.p ≠ 0 → (str ".pnt/" ++ hexInt 8 a.p).length + 1 ≤ 14
  net : (hexInt 4 a.net).length = 4
  node : (hexInt 4 a.node).length = 4

/-- The format has its least width exactly if the number is below that power of sixteen. -/
theorem hexPad_width {w n : ℕ} (hw : 0 < w) : (hexPad w n).length ≤ w ↔ n < 16 ^ w := by
  rw [← Nat.length_toDigits_le_iff (by decide) hw, hexPad, List.length_append, List.length_replicate,
    List.length_map]
  omega

theorem hexPad_le (w n : ℕ) : w ≤ (hexPad w n).length := by
  rw [hexPad, List.length_append, List.length_replicate, List.length_map]
  omega

theorem hexInt_length {w : ℕ} {n : Int32} (hw : 0 < w) (hn : 0 ≤ n.toInt) :
    (hexInt w n).length ≤ w ↔ n.toInt < 16 ^ w := by
  rw [hexInt, hexPad_width hw, ← Int.ofNat_lt, toNat_toUInt32 hn, Int.natCast_pow]
  rfl

theorem numerals_digits {n : ℕ} {s ds : Str} (h : ds ∈ numerals n s) :
    ds ≠ [] ∧ ∀ c ∈ ds, isdigit c = true := by
  induction n generalizing s with
  | zero => exact absurd h List.not_mem_nil
  | succ n ih =>
    rw [numerals] at h
    split at h
    · exact absurd h List.not_mem_nil
    · rcases List.mem_append.mp h with h | h
      · split_ifs at h with hdigit
        · obtain rfl := List.mem_singleton.mp h
          refine ⟨?_, fun c hc => List.mem_takeWhile_imp hc⟩
          cases s with
          | nil => exact absurd hdigit (by decide)
          | cons c s =>
            rw [List.headD_cons] at hdigit
            rw [List.takeWhile_cons_of_pos hdigit]
            exact List.cons_ne_nil _ _
        · exact absurd h List.not_mem_nil
      · exact ih h

/-- **The widths of an address**: what `ADR` accepts is converted and printed within its bounds
exactly if the numerals are small enough, and so are net, node and a zone that is printed. -/
theorem address_formats (config : BinkdConfig) (w : Str) (a : FtnAddr) (h : akaOf config w = some a) :
    ((∀ ds ∈ numerals 10 w, Converts ds) ∧
      ∀ d, getDomainInfo a.domain config.pDomains = some d → Formats a d) ↔
    ((∀ ds ∈ numerals 10 w, digitsValue ds ≤ 2147483599) ∧
      ∀ d, getDomainInfo a.domain config.pDomains = some d →
        (a.z = d.z ∨ a.z.toInt < 4096) ∧ a.net.toInt < 65536 ∧ a.node.toInt < 65536) := by
  have hconverts : (∀ ds ∈ numerals 10 w, Converts ds) ↔ ∀ ds ∈ numerals 10 w,
      digitsValue ds ≤ 2147483599 := by
    refine forall₂_congr fun ds hds => ?_
    obtain ⟨hne, hdigits⟩ := numerals_digits hds
    rw [converts_iff hne hdigits]
    omega
  rw [← hconverts]
  refine and_congr_right fun hconv => forall₂_congr fun d _ => ?_
  -- the numbers are there, and not negative
  obtain ⟨fa, hfa, hdom⟩ := Option.map_eq_some_iff.mp h
  have hplain := parseFtnaddress_plain (Option.filter_eq_some_iff.mp hfa).1 fun ds hds =>
    ((hconverts.mp hconv) ds hds).trans_lt (by decide)
  have h4 := (Option.filter_eq_some_iff.mp hfa).2
  simp only [FtnAddr.is4D, decide_eq_true_eq] at h4
  have hsame : a.z = fa.z ∧ a.net = fa.net ∧ a.node = fa.node ∧ a.p = fa.p := by
    rw [← hdom]
    split_ifs <;> exact ⟨rfl, rfl, rfl, rfl⟩
  have hz : 0 ≤ a.z.toInt := hsame.1 ▸ hplain.z.resolve_left h4.1
  have hnode : 0 ≤ a.node.toInt := hsame.2.2.1 ▸ hplain.node.resolve_left h4.2.1
  have hnet : 0 ≤ a.net.toInt := hsame.2.1 ▸ hplain.net.resolve_left h4.2.2.1
  have hext : (str "." ++ hexInt 3 a.z).length + 1 ≤ 5 ↔ a.z.toInt < 4096 := by
    have hiff := @hexInt_length 3 a.z (by decide) hz
    have hdot : (str ".").length = 1 := rfl
    rw [List.length_append, hdot]
    omega
  have hpoint : (str ".pnt/" ++ hexInt 8 a.p).length + 1 ≤ 14 := by
    have hle : (hexInt 8 a.p).length ≤ 8 := (hexPad_width (by decide)).mpr a.p.toUInt32.toNat_lt
    have hpnt : (str ".pnt/").length = 5 := rfl
    rw [List.length_append, hpnt]
    omega
  have hfour : ∀ {n : Int32}, 0 ≤ n.toInt → ((hexInt 4 n).length = 4 ↔ n.toInt < 65536) := by
    intro n hn
    have hiff := @hexInt_length 4 n (by decide) hn
    have hge := hexPad_le 4 n.toUInt32.toNat
    rw [← hexInt] at hge
    omega
  constructor
  · intro hformats
    refine ⟨?_, (hfour hnet).mp hformats.net, (hfour hnode).mp hformats.node⟩
    by_cases hdef : a.z = d.z
    · exact .inl hdef
    · exact .inr (hext.mp (hformats.ext hdef))
  · rintro ⟨hzone, hnet', hnode'⟩
    exact ⟨fun hne => hext.mpr (hzone.resolve_left hne), fun _ => hpoint, (hfour hnet).mpr hnet',
      (hfour hnode).mpr hnode'⟩

/-- The zone of this address needs four digits, and its buffer has room for three. -/
theorem zone_overflows : akaOf (fidoConfig []) (str "4096:1/1@fidonet") = some ⟨str "fidonet", 4096, 1, 1, 0⟩ ∧
    getDomainInfo (str "fidonet") (fidoConfig []).pDomains = some fidonet ∧
    ¬ Formats ⟨str "fidonet", 4096, 1, 1, 0⟩ fidonet :=
  ⟨by decide +kernel, rfl, fun h => absurd (h.ext (by decide)) (by decide +kernel)⟩

theorem address_formats_point : Formats ⟨str "fidonet", 2, 5020, 1, 7⟩ fidonet := by
  have haka : akaOf (fidoConfig []) (str "2:5020/1.7@fidonet") = some ⟨str "fidonet", 2, 5020, 1, 7⟩ := by
    decide +kernel
  refine ((address_formats (fidoConfig []) _ _ haka).mpr ⟨by decide +kernel, fun d hd => ?_⟩).2 fidonet rfl
  obtain rfl : fidonet = d := Option.some.inj hd
  decide +kernel

end Binkd

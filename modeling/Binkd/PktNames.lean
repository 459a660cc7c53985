import Binkd.FailedStore
import Binkd.Identity
import Binkd.NextName
import Mathlib.Data.List.Infix

/-!
# Which files are stored as packets (`inb_done` of `inbound.c`)

`inb_done` asks the netname whether a file is a packet, with its escapes, and stores
the file under the real name or a name that `next_inb_filename` makes from it.  The
names that are tried are those of `NextName.lean`; here it is which of them end in
`.pkt`.
-/

namespace Binkd

open Lib

/-! ### Names of packets -/

theorem toupper_eq_dot : ∀ d : Byte, toupper d = 46 ↔ d = 46 := forall_byte (by decide +kernel)

theorem xpmatch_plain (c : Byte) (p q : Str) (fuel : ℕ) (hc : c ≠ 92 ∧ c ≠ 63 ∧ c ≠ 42 ∧ c ≠ 91) :
    xpmatchFuel true (fuel + 1) (c :: p) q = true ↔
      ∃ d r, q = d :: r ∧ toupper d = toupper c ∧ xpmatchFuel true fuel p r = true := by
  rw [xpmatchFuel.eq_def]
  dsimp only
  rw [if_neg hc.1, if_neg hc.2.1, if_neg hc.2.2.1, if_neg hc.2.2.2]
  cases q with
  | nil => simp
  | cons d r => simp

/-- A name of a packet: `.pkt` in any case behind anything. -/
theorem ispkt_iff (s : Str) : ispkt s = true ↔
    ∃ pre a b c, s = pre ++ [46, a, b, c] ∧ toupper a = 80 ∧ toupper b = 75 ∧ toupper c = 84 := by
  have hstar : ispkt s = s.tails.any fun q => xpmatchFuel true 5 (str ".pkt") q := rfl
  have hdot : toupper 46 = 46 ∧ toupper 112 = 80 ∧ toupper 107 = 75 ∧ toupper 116 = 84 := by decide
  have hpat : str ".pkt" = [46, 112, 107, 116] := by decide
  rw [hstar, List.any_eq_true, hpat]
  constructor
  · rintro ⟨q, hq, hmatch⟩
    obtain ⟨pre, rfl⟩ := (List.mem_tails _ _).mp hq
    obtain ⟨d, q, rfl, hd, hmatch⟩ := (xpmatch_plain _ _ _ 4 (by decide)).mp hmatch
    obtain ⟨a, q, rfl, ha, hmatch⟩ := (xpmatch_plain _ _ _ 3 (by decide)).mp hmatch
    obtain ⟨b, q, rfl, hb, hmatch⟩ := (xpmatch_plain _ _ _ 2 (by decide)).mp hmatch
    obtain ⟨c, q, rfl, hc, hmatch⟩ := (xpmatch_plain _ _ _ 1 (by decide)).mp hmatch
    obtain rfl : q = [] := of_decide_eq_true hmatch
    obtain rfl := (toupper_eq_dot d).mp (hd.trans hdot.1)
    exact ⟨pre, a, b, c, rfl, ha.trans hdot.2.1, hb.trans hdot.2.2.1, hc.trans hdot.2.2.2⟩
  · rintro ⟨pre, a, b, c, rfl, ha, hb, hc⟩
    refine ⟨[46, a, b, c], (List.mem_tails _ _).mpr ⟨pre, rfl⟩, ?_⟩
    exact (xpmatch_plain _ _ _ 4 (by decide)).mpr ⟨46, _, rfl, rfl,
      (xpmatch_plain _ _ _ 3 (by decide)).mpr
      ⟨a, _, rfl, ha.trans hdot.2.1.symm, (xpmatch_plain _ _ _ 2 (by decide)).mpr
        ⟨b, _, rfl, hb.trans hdot.2.2.1.symm, (xpmatch_plain _ _ _ 1 (by decide)).mpr
          ⟨c, _, rfl, hc.trans hdot.2.2.2.symm, rfl⟩⟩⟩⟩

/-- The bytes that make a name that of a packet, by their places. -/
theorem ispkt_getD {s : Str} (h : ispkt s = true) : 4 ≤ s.length ∧ s.getD (s.length - 4) 0 = 46 ∧
    toupper (s.getD (s.length - 3) 0) = 80 ∧ toupper (s.getD (s.length - 2) 0) = 75 := by
  obtain ⟨pre, a, b, c, rfl, ha, hb, hc⟩ := (ispkt_iff s).mp h
  have hlen : (pre ++ [46, a, b, c]).length = pre.length + 4 := by rw [List.length_append]; rfl
  have hget : ∀ i, (pre ++ [46, a, b, c]).getD (pre.length + i) 0 = ([46, a, b, c] : Str).getD i 0 := by
    intro i
    rw [List.getD_eq_getElem?_getD, List.getElem?_append_right (by omega), Nat.add_sub_cancel_left,
      List.getD_eq_getElem?_getD]
  rw [hlen]
  refine ⟨by omega, hget 0, ?_, ?_⟩
  · rw [show pre.length + 4 - 3 = pre.length + 1 by omega, hget 1]
    exact ha
  · rw [show pre.length + 4 - 2 = pre.length + 2 by omega, hget 2]
    exact hb

/-- Names of one length with the same last four bytes are both names of packets, or none is. -/
theorem ispkt_of_tail {s t : Str} (hlen : s.length = t.length)
    (htail : ∀ i, s.length - 4 ≤ i → s.getD i 0 = t.getD i 0) (h : ispkt s = true) : ispkt t = true := by
  obtain ⟨pre, a, b, c, rfl, ha, hb, hc⟩ := (ispkt_iff s).mp h
  rw [ispkt_iff]
  refine ⟨t.take pre.length, a, b, c, ?_, ha, hb, hc⟩
  rw [List.length_append, List.length_cons, List.length_cons, List.length_cons, List.length_cons,
    List.length_nil] at hlen htail
  have hlen' : (t.drop pre.length).length = 4 := by
    rw [List.length_drop]
    omega
  have hdrop : t.drop pre.length = [46, a, b, c] := by
    refine List.ext_getElem (by rw [hlen']; rfl) fun i hi hi' => ?_
    have hget := htail (pre.length + i) (by omega)
    rw [List.getD_eq_getElem?_getD, List.getD_eq_getElem?_getD, List.getElem?_append_right (by omega),
      Nat.add_sub_cancel_left, List.getElem?_eq_getElem hi', List.getElem?_eq_getElem (by omega)] at hget
    rw [List.getElem_drop]
    exact hget.symm
  rw [← hdrop, List.take_append_drop]

/-! ### The names that a renaming tries -/

/-- `renameLoop` stops at one of the names in the sequence. -/
theorem renameLoop_tried {env : Env} {tmpName first real : Str} {fuel : ℕ} {t : Place} {disk disk' : Disk}
    (h : renameLoop env tmpName first fuel t.1 t.2.1 t.2.2 disk = (disk', some real)) :
    ∃ n t', callSeq (inbNext (some first)) t n = some t' ∧ t'.2.1 = real := by
  induction fuel generalizing t disk with
  | zero =>
    rw [renameLoop] at h
    cases h
  | succ fuel ih =>
    rw [renameLoop_next] at h
    cases hren : disk.rename env tmpName t.2.1 with
    | mk disk1 e =>
      rw [hren] at h
      cases e with
      | none =>
        cases h
        exact ⟨0, t, rfl, rfl⟩
      | some e =>
        dsimp only at h
        split_ifs at h with hstop
        · cases h
        · cases hnext : inbNext (some first) t with
          | none =>
            rw [hnext] at h
            cases h
          | some t1 =>
            rw [hnext] at h
            obtain ⟨n, t', hseq, hreal⟩ := ih h
            refine ⟨1 + n, t', ?_, hreal⟩
            rw [callSeq_add]
            have hone : callSeq (inbNext (some first)) t 1 = some t1 := hnext
            rw [hone]
            exact hseq

/-- Something that the first place has and that every call keeps is kept by the sequence. -/
theorem callSeq_keeps {next : Place → Option Place} {P : Place → Prop} {t t' : Place} {n : ℕ}
    (hstep : ∀ t t', P t → next t = some t' → P t') (h : P t) (hseq : callSeq next t n = some t') : P t' := by
  induction n generalizing t' with
  | zero =>
    obtain rfl := Option.some.inj hseq
    exact h
  | succ n ih =>
    obtain ⟨t1, h1, hnext⟩ := Option.bind_eq_some_iff.mp hseq
    exact hstep t1 t' (ih h1) hnext

/-- Behind a name for a packet nothing else is tried, where all other names are taken. -/
theorem renameLoop_packet {env : Env} {tmpName first : Str} {f : FileInfo} {disk : Disk}
    (hfault : ∀ r, env.fault (.rename tmpName r) = if ispkt r = true then none else some .exist)
    (htmp : disk.lookup tmpName = some f) (hfree : ∀ p, ispkt p = true → disk.lookup p = none)
    {n fuel : ℕ} {t t' : Place} (hseq : callSeq (inbNext (some first)) t n = some t') (hpkt : ispkt t'.2.1 = true)
    (hfuel : n < fuel) :
    ∃ disk' real, renameLoop env tmpName first fuel t.1 t.2.1 t.2.2 disk = (disk', some real) ∧
      ispkt real = true := by
  induction n generalizing t fuel with
  | zero =>
    obtain rfl := Option.some.inj hseq
    obtain ⟨fuel, rfl⟩ : ∃ k, fuel = k + 1 := ⟨fuel - 1, by omega⟩
    rw [renameLoop_next, Disk.rename, hfault, if_pos hpkt, htmp, hfree _ hpkt]
    exact ⟨_, _, rfl, hpkt⟩
  | succ n ih =>
    obtain ⟨fuel, rfl⟩ : ∃ k, fuel = k + 1 := ⟨fuel - 1, by omega⟩
    rw [Nat.add_comm, callSeq_add] at hseq
    obtain ⟨t1, hone, hrest⟩ := Option.bind_eq_some_iff.mp hseq
    have hnext : inbNext (some first) t = some t1 := hone
    rw [renameLoop_next, Disk.rename, hfault]
    by_cases hp : ispkt t.2.1 = true
    · rw [if_pos hp, htmp, hfree _ hp]
      exact ⟨_, _, rfl, hp⟩
    · rw [if_neg hp, htmp]
      dsimp only
      rw [if_neg (by decide), hnext]
      exact ih hrest (by omega)

/-! ### Names with a postfix -/

theorem postName_not_packet {x : Str} {k : ℕ} (hk : 0 < k) : ispkt (postName x k) = false := by
  rw [Bool.eq_false_iff]
  intro h
  obtain ⟨pre, a, b, c, heq, -, -, hc⟩ := (ispkt_iff _).mp h
  rw [postName, if_neg (by omega)] at heq
  have hne : decimal k ≠ [] := decimal_ne_nil k
  have hlast := congrArg List.getLast? heq
  rw [List.getLast?_append, List.getLast?_append, List.getLast?_eq_some_getLast hne] at hlast
  have hdigit := decimal_isdigit k _ (List.getLast_mem hne)
  have hceq : (decimal k).getLast hne = c := by simpa using hlast
  rw [hceq] at hdigit
  have hdigits : ∀ c : Byte, isdigit c = true → toupper c ≠ 84 := forall_byte (by decide +kernel)
  exact hdigits c hdigit hc

/-! ### Names with another body -/

/-- What `next_inb_filename` changes: one byte, and those behind it up to the byte it began with
become 0. -/
theorem nextBody_changes {style : RenameStyle} {fuel p pos : ℕ} {fname : Str} {r : Str × ℕ}
    (h : nextBody style fuel p fname pos = some r) :
    r.1.length = fname.length ∧ r.2 ≤ pos ∧ ∃ q ≤ p,
    (∀ i, i < q ∨ p < i → r.1.getD i 0 = fname.getD i 0) ∧
      ∀ i, q < i → i ≤ p → i < fname.length → r.1.getD i 0 = 48 := by
  have hset : ∀ (s : Str) (i j : ℕ) (c : Byte), i ≠ j → (s.set i c).getD j 0 = s.getD j 0 := by
    intro s i j c hne
    rw [List.getD_eq_getElem?_getD, List.getElem?_set_ne hne, ← List.getD_eq_getElem?_getD]
  induction fuel generalizing p fname with
  | zero =>
    rw [nextBody] at h
    cases h
  | succ fuel ih =>
    rw [nextBody] at h
    dsimp only at h
    split_ifs at h with h9 hlast hp hstop hpos
    · cases h
      exact ⟨List.length_set, Nat.le_refl _, p, Nat.le_refl _, fun i hi => hset _ _ _ _ (by omega),
        fun i h1 h2 => by omega⟩
    · obtain ⟨hlen, hle, q, hq, hsame, hzero⟩ := ih h
      rw [List.length_set] at hlen hzero
      refine ⟨hlen, hle, q, by omega, fun i hi => ?_, fun i h1 h2 h3 => ?_⟩
      · rw [hsame i (by omega), hset _ _ _ _ (by omega)]
      · by_cases hi : i ≤ p - 1
        · exact hzero i h1 hi h3
        · obtain rfl : i = p := by omega
          rw [hsame i (by omega), List.getD_eq_getElem?_getD, List.getElem?_set_self h3]
          rfl
    · cases h
      refine ⟨by rw [List.length_set, List.length_set], by omega, p - 1, by omega, fun i hi => ?_,
        fun i h1 h2 h3 => ?_⟩
      · rw [hset _ _ _ _ (by omega), hset _ _ _ _ (by omega)]
      · obtain rfl : i = p := by omega
        rw [hset _ _ _ _ (by omega), List.getD_eq_getElem?_getD, List.getElem?_set_self h3]
        rfl
    · cases h
      exact ⟨List.length_set, Nat.le_refl _, p, Nat.le_refl _, fun i hi => hset _ _ _ _ (by omega),
        fun i h1 h2 => by omega⟩

theorem getD_takeWhile {P : Byte → Bool} {l : Str} {j : ℕ} (h : j < (l.takeWhile P).length) :
    P (l.getD j 0) = true := by
  have hlt := h.trans_le (List.takeWhile_prefix P).length_le
  have heq := (List.takeWhile_prefix P (l := l)).getElem h
  rw [List.getD_eq_getElem?_getD, List.getElem?_eq_getElem hlt, Option.getD_some, ← heq]
  exact List.mem_takeWhile_imp (List.getElem_mem h)

theorem getD_behind_takeWhile {P : Byte → Bool} (h0 : P 0 = false) (l : Str) :
    P (l.getD (l.takeWhile P).length 0) = false := by
  induction l with
  | nil => exact h0
  | cons c l ih =>
    cases hc : P c with
    | false => rwa [List.takeWhile_cons_of_neg (by rw [hc]; exact Bool.false_ne_true)]
    | true =>
      rw [List.takeWhile_cons_of_pos hc]
      exact ih

/-- A change in the body, from the place of the extension on to the left, makes no name of a packet. -/
theorem body_unpacked {fname : Str} {pos : ℕ} {r : Str × ℕ}
    (h : nextInbFilename .renameBody fname pos = some r) (hpos : pos ≤ fname.length - 4)
    (hpkt : ispkt fname = false) : r.1.length = fname.length ∧ r.2 ≤ fname.length - 4 ∧
    ispkt r.1 = false := by
  unfold nextInbFilename at h
  rw [if_neg (by decide)] at h
  dsimp only at h
  by_cases hdot : (RenameStyle.renameBody = .renameExtension ∧ pos = fname.length) ∨
      (RenameStyle.renameBody = .renameBody ∧ fname.getD pos 0 = 46)
  · rw [if_pos hdot] at h
    cases h
    refine ⟨List.length_set, by omega, ?_⟩
    rw [Bool.eq_false_iff]
    intro hp
    obtain ⟨hfour, hget, -, -⟩ := ispkt_getD hp
    rw [List.length_set] at hfour hget
    by_cases hlt : pos - 1 < fname.length - 4
    · refine Bool.eq_false_iff.mp hpkt (ispkt_of_tail List.length_set (fun i hi => ?_) hp)
      rw [List.length_set] at hi
      rw [List.getD_eq_getElem?_getD, List.getElem?_set_ne (by omega), ← List.getD_eq_getElem?_getD]
    · rw [show pos - 1 = fname.length - 4 by omega, List.getD_eq_getElem?_getD,
        List.getElem?_set_self (by omega)] at hget
      exact absurd hget (by decide)
  · rw [if_neg hdot] at h
    obtain ⟨hlen, hle, q, hq, hsame, hzero⟩ := nextBody_changes h
    refine ⟨hlen, by omega, ?_⟩
    rw [Bool.eq_false_iff]
    intro hp
    obtain ⟨hfour, hget, hgetp, -⟩ := ispkt_getD hp
    rw [hlen] at hfour hget hgetp
    -- the run of letters and digits behind the place
    have hrun : ∀ i, pos < i → i ≤ pos + ((fname.drop (pos + 1)).takeWhile isalnum).length →
        isalnum (fname.getD i 0) = true := by
      intro i h1 h2
      have hin := @getD_takeWhile isalnum (fname.drop (pos + 1)) (i - (pos + 1)) (by omega)
      rwa [List.getD_eq_getElem?_getD, List.getElem?_drop, show pos + 1 + (i - (pos + 1)) = i by omega,
        ← List.getD_eq_getElem?_getD] at hin
    have hbehind : isalnum (fname.getD (pos + ((fname.drop (pos + 1)).takeWhile isalnum).length + 1) 0) = false := by
      have hend := getD_behind_takeWhile (show isalnum 0 = false by decide) (fname.drop (pos + 1))
      rwa [List.getD_eq_getElem?_getD, List.getElem?_drop,
        show pos + 1 + ((fname.drop (pos + 1)).takeWhile isalnum).length =
          pos + ((fname.drop (pos + 1)).takeWhile isalnum).length + 1 by omega,
        ← List.getD_eq_getElem?_getD] at hend
    generalize hrunlen : ((fname.drop (pos + 1)).takeWhile isalnum).length = run at *
    have hletter : ∀ c : Byte, toupper c = 80 → isalnum c = true ∧ c ≠ 48 :=
      forall_byte (by decide +kernel)
    obtain hbefore | hat | hpast := Nat.lt_trichotomy (pos + run) (fname.length - 4)
    · refine Bool.eq_false_iff.mp hpkt (ispkt_of_tail hlen (fun i hi => ?_) hp)
      rw [hlen] at hi
      exact hsame i (by omega)
    · -- the dot has been counted up to: no letter stands behind it
      have hlet := hletter _ hgetp
      rw [hsame (fname.length - 3) (by omega), show fname.length - 3 = pos + run + 1 by omega,
        hbehind] at hlet
      exact absurd hlet.1 Bool.false_ne_true
    · obtain hlt | heq | hgt := Nat.lt_trichotomy q (fname.length - 4)
      · rw [hzero (fname.length - 4) hlt (by omega) (by omega)] at hget
        exact absurd hget (by decide)
      · exact (hletter _ hgetp).2 (hzero (fname.length - 3) (by omega) (by omega) (by omega))
      · rw [hsame (fname.length - 4) (by omega)] at hget
        by_cases hfirst : pos = fname.length - 4
        · rw [← hfirst] at hget
          exact hdot (.inr ⟨rfl, hget⟩)
        · have halnum := hrun (fname.length - 4) (by omega) (by omega)
          rw [hget] at halnum
          exact absurd halnum (by decide)

/-! ### Names with another extension -/

/-- The extension has three bytes, and the counter can pass the first two. -/
structure ThreeExt (x : Str) : Prop where
  four : 4 ≤ x.length
  dot : x.getD (x.length - 4) 0 = 46
  first : Passable (x.getD (x.length - 3) 0)
  second : Passable (x.getD (x.length - 2) 0)

/-- A name of the counter is one of a packet only where the first name has such an extension. -/
theorem Counter.threeExt {x fname : Str} {pos : ℕ} {D : Str}
    (h : Counter .renameExtension x x.length fname pos D)
    (hpass : ∀ i, pos ≤ i → i + 1 < x.length → Passable (x.getD i 0)) (hpkt : ispkt fname = true) :
    ThreeExt x := by
  obtain ⟨hfour, hdot, hp, hk⟩ := ispkt_getD hpkt
  rw [h.length] at hfour hdot hp hk
  have hbefore : ∀ i, i < pos → fname.getD i 0 = x.getD i 0 := by
    intro i hi
    have hplace := h.place
    rw [h.name, List.append_assoc, List.getD_eq_getElem?_getD,
      List.getElem?_append_left (by rw [List.length_take]; omega), List.getElem?_take_of_lt hi,
      ← List.getD_eq_getElem?_getD]
  have hdigit : ∀ i, pos ≤ i → i < x.length → Digit .renameExtension (fname.getD i 0) := by
    intro i h1 h2
    have hplace := h.place
    have hlen : (x.take pos).length = pos := List.length_take_of_le (by omega)
    rw [h.name, List.append_assoc, List.getD_eq_getElem?_getD,
      List.getElem?_append_right (by omega), hlen,
      List.getElem?_append_left (by omega), List.getElem?_eq_getElem (by omega)]
    exact h.digits _ (List.getElem_mem _)
  have hlt : x.length - 4 < pos := by
    by_contra hge
    exact (hdigit (x.length - 4) (by omega) (by omega)).ne.1 hdot
  have hletter : ∀ c : Byte, toupper c = 80 ∨ toupper c = 75 → Passable c :=
    forall_byte (p := fun c => toupper c = 80 ∨ toupper c = 75 →
      Passable c) (by unfold Passable; decide +kernel)
  have hpassable : ∀ i, i + 1 < x.length → toupper (fname.getD i 0) = 80 ∨
    toupper (fname.getD i 0) = 75 →
      Passable (x.getD i 0) := by
    intro i hi hc
    by_cases hin : i < pos
    · rw [← hbefore i hin]
      exact hletter _ hc
    · exact hpass i (by omega) hi
  exact ⟨hfour, (hbefore _ hlt).symm.trans hdot, hpassable _ (by omega) (.inl hp),
    hpassable _ (by omega) (.inr hk)⟩

theorem Digit.val_inj {style : RenameStyle} {c d : Byte} (hc : Digit style c) (hd : Digit style d)
    (h : digitVal c = digitVal d) : c = d := by
  rw [digitVal_eq, digitVal_eq] at h
  have hc' := hc.toNat
  have hd' := hd.toNat
  refine UInt8.toNat_inj.mp ?_
  split_ifs at h <;> omega

/-- Digits as many that stand for one number are the same. -/
theorem count_inj {style : RenameStyle} {D T : Str} (hD : ∀ d ∈ D, Digit style d) (hT : ∀ d ∈ T, Digit style d)
    (hlen : D.length = T.length) (h : count style D = count style T) : D = T := by
  have hlt : ∀ {D : Str}, (∀ d ∈ D, Digit style d) → ∀ n ∈ D.reverse.map digitVal, n < radix style := by
    intro D hD n hn
    obtain ⟨d, hd, rfl⟩ := List.mem_map.mp hn
    exact (hD d (List.mem_reverse.mp hd)).val_lt
  have hmap := Nat.ofDigits_inj_of_len_eq radix_pos (by simpa using hlen) (hlt hD) (hlt hT) h
  have hinj : ∀ {D T : Str}, (∀ d ∈ D, Digit style d) → (∀ d ∈ T, Digit style d) →
      D.map digitVal = T.map digitVal → D = T := by
    intro D
    induction D with
    | nil =>
      intro T _ _ h
      exact (List.map_eq_nil_iff.mp h.symm).symm
    | cons d D ih =>
      intro T hD hT h
      cases T with
      | nil => cases h
      | cons e T =>
        rw [List.map_cons, List.map_cons, List.cons.injEq] at h
        rw [(hD d List.mem_cons_self).val_inj (hT e List.mem_cons_self) h.1,
          ih (fun c hc => hD c (List.mem_cons_of_mem d hc)) (fun c hc => hT c (List.mem_cons_of_mem e hc)) h.2]
  refine List.reverse_injective (hinj ?_ ?_ hmap)
  · exact fun d hd => hD d (List.mem_reverse.mp hd)
  · exact fun d hd => hT d (List.mem_reverse.mp hd)

/-- The counter at the end of a name goes on by one, or it runs over. -/
theorem nextInbFilename_counts {A D : Str} (hD : ∀ d ∈ D, Digit .renameExtension d) (hne : D ≠ []) :
    (∃ D', D'.length = D.length ∧ (∀ d ∈ D', Digit .renameExtension d) ∧
      count .renameExtension D' = count .renameExtension D + 1 ∧
      nextInbFilename .renameExtension (A ++ D) A.length = some (A ++ D', A.length)) ∨
    count .renameExtension D + 1 = radix .renameExtension ^ D.length ∧
      nextInbFilename .renameExtension (A ++ D) A.length = carryOut A D.length [] := by
  have hlen : 0 < D.length := List.length_pos_iff.mpr hne
  have hcounter : Counter .renameExtension (A ++ D) (A ++ D).length (A ++ D) A.length D :=
    ⟨by simp, by simp, hD, hne, Nat.le_refl _⟩
  have hrun := hcounter.takeWhile (.inl ⟨rfl, rfl⟩)
  obtain ⟨D0, c, rfl⟩ : ∃ D0 c, D = D0 ++ [c] := ⟨_, _, (List.dropLast_append_getLast hne).symm⟩
  rw [nextInbFilename, if_neg (by decide), if_neg (by
    rintro (⟨-, h⟩ | ⟨h, -⟩)
    · rw [List.length_append] at h
      omega
    · cases h)]
  dsimp only
  rw [hrun, show A.length + (D0 ++ [c]).length - 1 = (A ++ D0).length by simp,
    show A ++ (D0 ++ [c]) = A ++ D0 ++ c :: [] by simp]
  have hbody := @nextBody_counts .renameExtension c A D0 [] ((A ++ D0 ++ [c]).length + 1) (by decide)
    (fun d hd => hD d (by simp [hd])) (hD c (by simp)) (by simp; omega)
  rcases hbody with ⟨D', hlen', hdigits, hcount, heq⟩ | ⟨hcount, heq⟩
  · refine .inl ⟨D', by simpa using hlen', hdigits, hcount, ?_⟩
    rw [heq, List.append_nil]
  · refine .inr ⟨by simpa using hcount, ?_⟩
    rw [heq]
    simp

section

variable {fallback : Option Str} {A D T : Str}

/-- Every number with as many digits is come to. -/
theorem counter_reaches (hD : ∀ d ∈ D, Digit .renameExtension d) (hne : D ≠ [])
    (hT : ∀ d ∈ T, Digit .renameExtension d) (hlen : D.length = T.length) {m : ℕ}
    (hm : count .renameExtension D + m = count .renameExtension T) :
    callSeq (inbNext fallback) (.renameExtension, A ++ D, A.length) m = some
    (.renameExtension, A ++ T, A.length) := by
  induction m generalizing D with
  | zero =>
    rw [count_inj hD hT hlen hm]
    rfl
  | succ m ih =>
    have hlt := count_lt hT
    rcases @nextInbFilename_counts A D hD hne with ⟨D', hlen', hdigits, hcount, heq⟩ | ⟨hcount, -⟩
    · have hone : callSeq (inbNext fallback) (.renameExtension, A ++ D, A.length) 1 =
          some (.renameExtension, A ++ D', A.length) := by
        change inbNext fallback (.renameExtension, A ++ D, A.length) = _
        rw [inbNext, made]
        dsimp only
        rw [heq]
        rfl
      rw [Nat.add_comm, callSeq_add, hone]
      refine ih hdigits ?_ (hlen'.trans hlen) (by omega)
      rw [← List.length_pos_iff, hlen']
      exact List.length_pos_iff.mpr hne
    · rw [hlen] at hcount
      omega

/-- The counter takes the byte before it as a digit when it has run over. -/
theorem counter_carries {e : Byte} {n m : ℕ} (hn : 0 < n) (he : Passable e) (hT : ∀ d ∈ T, Digit .renameExtension d)
    (hlen : T.length = n) (hm : count .renameExtension T = m) (hfull : m + 1 = radix .renameExtension ^ n) :
    callSeq (inbNext fallback) (.renameExtension, A ++ [e] ++ List.replicate n 48, A.length + 1) (m + 1) =
      some (.renameExtension, A ++ List.replicate (n + 1) 48, A.length) := by
  have hzeros : ∀ d ∈ List.replicate n (48 : Byte), Digit .renameExtension d := by
    intro d hd
    rw [List.eq_of_mem_replicate hd]
    exact .inl (by decide)
  have hreach := @counter_reaches fallback (A ++ [e]) (List.replicate n 48) T hzeros
    (by rw [← List.length_pos_iff, List.length_replicate]; exact hn) hT (by rw [List.length_replicate, hlen]) m
    (by rw [count_zeros, hm, Nat.zero_add])
  rw [List.length_append, List.length_singleton] at hreach
  rw [callSeq_add, hreach, Option.bind_some]
  have hne : T ≠ [] := by
    rw [← List.length_pos_iff, hlen]
    exact hn
  rcases @nextInbFilename_counts (A ++ [e]) T hT hne with ⟨D', hlen', hdigits, hcount, -⟩ | ⟨-, heq⟩
  · have hlt := count_lt hdigits
    rw [hlen', hlen] at hlt
    omega
  · change inbNext fallback (.renameExtension, A ++ [e] ++ T, A.length + 1) = _
    rw [List.length_append, List.length_singleton] at heq
    rw [inbNext, made]
    dsimp only
    rw [heq, carryOut, List.getLast?_concat]
    dsimp only
    rw [if_neg (fun h => by
      rcases h with h | h | h
      · exact he.1 h
      · exact he.2.1 h
      · exact he.2.2 h), hlen, List.dropLast_concat, List.length_append, List.length_singleton]
    simp

/-- From an extension of three bytes the counter comes to `pkt`. -/
theorem packet_tried {x : Str} (h : ThreeExt x) : ∃ n t, n < inbNames ∧
    callSeq (inbNext fallback) (.renameExtension, x, x.length) n = some t ∧ ispkt t.2.1 = true := by
  have hfour := h.four
  obtain ⟨a, b, c, hdrop, ha, hb⟩ : ∃ a b c, x.drop (x.length - 4) = [46, a, b, c] ∧
      Passable a ∧ Passable b := by
    have hget : ∀ i, (x.drop (x.length - 4)).getD i 0 = x.getD (x.length - 4 + i) 0 := by
      intro i
      rw [List.getD_eq_getElem?_getD, List.getElem?_drop, ← List.getD_eq_getElem?_getD]
    have hlen : (x.drop (x.length - 4)).length = 4 := by
      rw [List.length_drop]
      omega
    match x.drop (x.length - 4), hlen, hget with
    | [d, a, b, c], _, hget =>
      have hd : d = x.getD (x.length - 4) 0 := hget 0
      have ha : a = x.getD (x.length - 4 + 1) 0 := hget 1
      have hb : b = x.getD (x.length - 4 + 2) 0 := hget 2
      rw [show x.length - 4 + 1 = x.length - 3 by omega] at ha
      rw [show x.length - 4 + 2 = x.length - 2 by omega] at hb
      exact ⟨a, b, c, by rw [hd, h.dot], ha ▸ h.first, hb ▸ h.second⟩
  obtain ⟨pre, rfl⟩ : ∃ pre, x = pre ++ [46, a, b, c] :=
    ⟨x.take (x.length - 4), by rw [← hdrop, List.take_append_drop]⟩
  have hdigits : ∀ l : Str, (l.all fun d => (48 ≤ d && d ≤ 57) || (97 ≤ d && d ≤ 122)) = true →
      ∀ d ∈ l, Digit .renameExtension d := by
    intro l hl d hd
    simpa [Digit, lastDigit] using List.all_eq_true.mp hl d hd
  have hz := hdigits [122, 122] rfl
  have hpkt := hdigits [112, 107, 116] rfl
  have hzeros := hdigits (List.replicate 3 48) rfl
  have hfirst : callSeq (inbNext fallback) (.renameExtension, pre ++ [46, a, b, c], (pre ++ [46, a, b, c]).length) 1 =
      some (.renameExtension, pre ++ [46, a] ++ [b] ++ [48], (pre ++ [46, a]).length + 1) := by
    change inbNext fallback (.renameExtension, pre ++ [46, a, b, c], (pre ++ [46, a, b, c]).length) = _
    rw [inbNext, made]
    dsimp only
    rw [nextInbFilename, if_neg (by decide), if_pos (.inl ⟨rfl, rfl⟩)]
    simp [List.set_append_right]
  have hone := @counter_carries fallback (pre ++ [46, a]) [122] b 1 35 (by omega) hb
    (fun d hd => hz d (List.mem_cons_of_mem _ hd)) rfl (by decide) (by decide)
  have htwo := @counter_carries fallback (pre ++ [46]) [122, 122] a 2 1295 (by omega) ha hz rfl (by decide) (by decide)
  have hthree := @counter_reaches fallback (pre ++ [46]) (List.replicate 3 48) [112, 107, 116] hzeros (by decide)
    hpkt rfl 33149 (by decide)
  have hbound : 1 + (35 + 1) + (1295 + 1) + 33149 < inbNames := by
    have hpow : 37 ^ 3 ≤ 37 ^ 256 := Nat.pow_le_pow_right (by omega) (by omega)
    unfold inbNames
    omega
  refine ⟨1 + (35 + 1) + (1295 + 1) + 33149,
    (.renameExtension, pre ++ [46] ++ [112, 107, 116], (pre ++ [46]).length), hbound, ?_,
    (ispkt_iff _).mpr ⟨pre, 112, 107, 116, ?_, by decide⟩⟩
  · rw [callSeq_add, callSeq_add, callSeq_add, hfirst, Option.bind_some]
    have hone' : callSeq (inbNext fallback) (.renameExtension, pre ++ [46, a] ++ [b] ++ [48],
        (pre ++ [46, a]).length + 1) (35 + 1) = some (.renameExtension,
          pre ++ [46] ++ [a] ++ List.replicate 2 48,
          (pre ++ [46]).length + 1) := by
      rw [List.append_assoc pre [46] [a]]
      simpa using hone
    rw [hone', Option.bind_some, htwo, Option.bind_some]
    exact hthree
  · simp

end

/-! ### The name that is stored -/

/-- The file was stored after `check_pkthdr`, and not by the overwriting path. -/
def PacketChecked (config : BinkdConfig) (file : TFile) : Prop :=
  ispkt file.netname = true ∧ overwrites config file = false

theorem inbStyle_place (config : BinkdConfig) (netname : Str) :
    inbStyle config netname = (.renameBody, 4) ∨ inbStyle config netname = (config.renamestyle, 0) := by
  unfold inbStyle
  split_ifs
  · exact .inl rfl
  · exact .inr rfl

/-- Changing the body of a name of no packet makes another name of no packet. -/
theorem inbNext_unpacked {x : Str} {t t' : Place} (h : t.1 = .renameBody ∧ t.2.1.length = x.length ∧
      t.2.2 ≤ x.length - 4 ∧ ispkt t.2.1 = false) (hnext : inbNext (some x) t = some t') :
    t'.1 = .renameBody ∧ t'.2.1.length = x.length ∧ t'.2.2 ≤ x.length - 4 ∧ ispkt t'.2.1 = false := by
  obtain ⟨style, fname, pos⟩ := t
  obtain ⟨rfl, hlen, hpos, hunp⟩ := h
  dsimp only at hlen hpos hunp
  unfold inbNext made at hnext
  dsimp only at hnext
  cases hr : nextInbFilename .renameBody fname pos with
  | none =>
    rw [hr] at hnext
    cases hnext
  | some r =>
    rw [hr] at hnext
    cases hnext
    obtain ⟨hlen', hpos', hunp'⟩ := body_unpacked hr (by omega) hunp
    exact ⟨rfl, hlen'.trans hlen, hlen ▸ hpos', hunp'⟩

/-- At the end of the name nothing is changed. -/
theorem nextInbFilename_end (x : Str) : nextInbFilename .renameBody x x.length = some (x, x.length) := by
  have hget : x.getD x.length 0 = 0 := by simp
  have hset : ∀ c, x.set x.length c = x := fun c => List.set_eq_of_length_le (Nat.le_refl _)
  rw [nextInbFilename, if_neg (by decide), if_neg (by
    rintro (⟨h, -⟩ | ⟨-, h⟩)
    · cases h
    · rw [hget] at h
      exact absurd h (by decide)), List.drop_eq_nil_of_le (by omega)]
  dsimp only [List.takeWhile, List.length]
  rw [nextBody, Nat.add_zero, hget]
  dsimp only
  rw [if_neg (by decide), if_neg (by decide), hset]

/-- From a name that is not one of a packet, and has not such an extension where the extension is
changed, no name of a packet is tried. -/
theorem tried_unpacked {config : BinkdConfig} {netname x : Str} (hpkt : ispkt x = false)
    (hext : (inbStyle config netname).1 ≠ .renameExtension ∨ ¬ ThreeExt x) {n : ℕ} {t : Place}
    (hseq : callSeq (inbNext (some x)) ((inbStyle config netname).1, x, x.length - (inbStyle config netname).2) n =
      some t) : ispkt t.2.1 = false := by
  have hpost : ∀ k, ispkt (postName x k) = false := by
    intro k
    rcases Nat.eq_zero_or_pos k with rfl | hk
    · exact hpkt
    · exact postName_not_packet hk
  have hstate : ∀ {style : RenameStyle} {K : ℕ}, style ≠ .renameBody →
      (style = .renameExtension → ¬ ThreeExt x ∧ K = x.length) → ∀ {t r}, NameState style x K t r →
      ispkt t.2.1 = false := by
    intro style K hbody hthree t r ht
    cases ht with
    | first => exact hpkt
    | again => exact hpkt
    | made h =>
      cases h with
      | suffixed k h0 hk => exact hpost k
      | counter hend fname pos D h hpass =>
        rcases hend with ⟨rfl, rfl⟩ | ⟨rfl, -⟩
        · rw [Bool.eq_false_iff]
          exact fun hp => (hthree rfl).1 (h.threeExt hpass hp)
        · exact absurd rfl hbody
  rcases inbStyle_place config netname with hst | hst
  · rw [hst] at hseq
    have hkeep := fun t t' => @inbNext_unpacked x t t'
    exact (callSeq_keeps hkeep ⟨rfl, rfl, Nat.le_refl _, hpkt⟩ hseq).2.2.2
  · rw [hst] at hseq hext
    dsimp only at hseq hext
    rw [Nat.sub_zero] at hseq
    cases hstyle : config.renamestyle with
    | renamePostfix =>
      rw [hstyle] at hseq
      obtain ⟨r, ht, -⟩ := (@nameState_lowers .renamePostfix x 0 (some x) (fun h => by cases h)).seq .again hseq
      exact hstate (by decide) (fun h => by cases h) ht
    | renameExtension =>
      rw [hstyle] at hseq hext
      have hthree : ¬ ThreeExt x := hext.resolve_left fun h => h rfl
      rcases List.eq_nil_or_concat x with rfl | ⟨x0, c, hx⟩
      · have hkeep : ∀ t t' : Place, t = (.renameExtension, [], 0) → inbNext (some []) t = some t' →
            t' = (.renameExtension, [], 0) := by
          rintro t t' rfl hnext
          exact (Option.some.inj hnext).symm
        obtain rfl := callSeq_keeps hkeep rfl hseq
        exact hpkt
      · have hpos : 0 < x.length := by
          rw [hx, List.length_concat]
          omega
        obtain ⟨r, ht, -⟩ := (nameState_lowers fun _ first h => (Option.some.inj h).symm).seq
          (.first (.inl ⟨rfl, rfl⟩) hpos) hseq
        exact hstate (by decide) (fun _ => ⟨hthree, rfl⟩) ht
    | renameBody =>
      rw [hstyle] at hseq
      -- the place is at the end of the name, where nothing is changed
      have hkeep : ∀ t t' : Place, t = (.renameBody, x, x.length) → inbNext (some x) t = some t' →
          t' = (.renameBody, x, x.length) := by
        rintro t t' rfl hnext
        rw [inbNext, made] at hnext
        dsimp only at hnext
        rw [nextInbFilename_end] at hnext
        exact (Option.some.inj hnext).symm
      obtain rfl := callSeq_keeps hkeep rfl hseq
      exact hpkt

/-- An inbound in which every name is taken that is not one of a packet. -/
def takenEnv : Env where
  fault := fun op => match op with
    | .rename _ r => if ispkt r = true then none else some .exist
    | _ => none

/-- A session with a received file in that inbound. -/
def receivedIn (config : BinkdConfig) (inbound : Str) : State :=
  { initProtocol config none none with rx := { inbound := inbound }, disk := (∅ : Disk).insert [] {} }

theorem receivedIn_free (config : BinkdConfig) (inbound : Str) {p : Str} (hp : ispkt p = true) :
    (receivedIn config inbound).disk.lookup p = none := by
  have hne : p ≠ [] := by
    rintro rfl
    exact absurd hp (by decide)
  rw [receivedIn, AList.lookup_insert_ne hne]
  rfl

/-- From any other name, a name of a packet is tried in time. -/
theorem tried_packet {config : BinkdConfig} {netname x : Str}
    (h : ispkt x = true ∨ (inbStyle config netname).1 = .renameExtension ∧ ThreeExt x) :
    ∃ n t, n < inbNames ∧
      callSeq (inbNext (some x)) ((inbStyle config netname).1, x, x.length - (inbStyle config netname).2) n = some t ∧
      ispkt t.2.1 = true := by
  rcases h with hpkt | ⟨hstyle, hthree⟩
  · exact ⟨0, _, by unfold inbNames; omega, rfl, hpkt⟩
  · have hback : (inbStyle config netname).2 = 0 := by
      rcases inbStyle_place config netname with hst | hst
      · rw [hst] at hstyle
        cases hstyle
      · rw [hst]
    rw [hstyle, hback]
    exact packet_tried hthree

/-- A file that is overwritten is stored under a name of a packet. -/
theorem overwriteLoop_packet (config : BinkdConfig) (inbound : Str) {real : Str} (hreal : ispkt real = true) :
    ∃ disk, overwriteLoop takenEnv [] real 11 (receivedIn config inbound).disk = (disk, true) := by
  rw [overwriteLoop, Disk.delete, if_pos (.inr (by rw [receivedIn_free config inbound hreal]; rfl)),
    Disk.rename, receivedIn_free config inbound hreal, takenEnv]
  dsimp only
  rw [if_pos hreal]
  exact ⟨_, rfl⟩

end Binkd

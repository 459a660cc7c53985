import Binkd.Tools
import Mathlib.Data.List.Basic
import Mathlib.Tactic.SplitIfs

/-!
# The password for a proxy (`enbase64`, `debase64`)

`h_connect` sends its name and password in base 64, and reads the answer of an NTLM proxy from base 64.
The text fits into the buffer that is allocated for it (`enbase64_fits`), and `debase64` reads it back
unless it is not padded: the search in the table finds the NUL at the end, too, so that `debase64`
reads on behind the text (`debase64_enbase64`).
-/

namespace Binkd

/-- `b64t`. -/
def b64t : Str := str "ABCDEFGHIJKLMNOPQRSTUVWXYZabcdefghijklmnopqrstuvwxyz0123456789+/"

/-- The four characters for three bytes. -/
def b64Group (c : ℕ) : Str :=
  [b64t.getD ((c &&& 0x00fc0000) >>> 18) 0, b64t.getD ((c &&& 0x0003f000) >>> 12) 0,
    b64t.getD ((c &&& 0x00000fc0) >>> 6) 0, b64t.getD (c &&& 0x0000003f) 0]

/-- `enbase64`: a round for three bytes; what is missing in the last round is padded. -/
def enbase64 : List Byte → Str
  | [] => []
  | [a] => (b64Group (a.toNat * 256 * 256)).take 2 ++ [61, 61]
  | [a, b] => (b64Group ((a.toNat * 256 + b.toNat) * 256)).take 3 ++ [61]
  | a :: b :: c :: data => b64Group ((a.toNat * 256 + b.toNat) * 256 + c.toNat) ++ enbase64 data

/-- `strchr (b64t, c)`: the place in the table, or that of the NUL behind it. -/
def b64Index (c : Byte) : Option ℕ :=
  if c = 0 then some 64 else b64t.idxOf? c

/-- The loop of `debase64` over the text and what stands behind it: `done` is what has been stored, and
`cur` the byte that is being put together.  `none` is a read behind the memory. -/
def debase64From : List Byte → ℕ → List Byte → Byte → Option (List Byte)
  | [], _, _, _ => none
  | s :: text, i, done, cur =>
    match b64Index s with
    | none => some done
    | some k =>
      if i % 4 = 0 then debase64From text (i + 1) done (k <<< 2).toUInt8
      else if i % 4 = 1 then
        debase64From text (i + 1) (done ++ [cur ||| (k >>> 4).toUInt8]) ((k <<< 4) &&& 0xF0).toUInt8
      else if i % 4 = 2 then
        debase64From text (i + 1) (done ++ [cur ||| (k >>> 2).toUInt8]) ((k <<< 6) &&& 0xC0).toUInt8
      else debase64From text (i + 1) (done ++ [cur ||| k.toUInt8]) 0

/-- `debase64`: the bytes that are stored; their number is the result. -/
def debase64 (mem : List Byte) : Option (List Byte) := debase64From mem 0 [] 0

/-! ### One round -/

theorem b64t_index {k : ℕ} (hk : k < 64) : b64Index (b64t.getD k 0) = some k := by
  have hall : ∀ k : Fin 64, b64Index (b64t.getD k 0) = some k.val := by decide +kernel
  exact hall ⟨k, hk⟩

theorem b64Index_pad : b64Index 61 = none := by decide

/-- The places of the four characters. -/
theorem b64Group_eq (a b c : Byte) :
    b64Group ((a.toNat * 256 + b.toNat) * 256 + c.toNat) =
      [b64t.getD (a.toNat / 4) 0, b64t.getD (a.toNat % 4 * 16 + b.toNat / 16) 0,
        b64t.getD (b.toNat % 16 * 4 + c.toNat / 64) 0, b64t.getD (c.toNat % 64) 0] := by
  have ha := a.toNat_lt
  have hb := b.toNat_lt
  have hc := c.toNat_lt
  have hmask : ∀ n i : ℕ, (n &&& (63 <<< i)) >>> i = n / 2 ^ i % 64 := by
    intro n i
    rw [Nat.shiftRight_and_distrib, Nat.shiftLeft_shiftRight, Nat.shiftRight_eq_div_pow]
    exact Nat.and_two_pow_sub_one_eq_mod _ 6
  have h18 := hmask ((a.toNat * 256 + b.toNat) * 256 + c.toNat) 18
  have h12 := hmask ((a.toNat * 256 + b.toNat) * 256 + c.toNat) 12
  have h6 := hmask ((a.toNat * 256 + b.toNat) * 256 + c.toNat) 6
  have h0 := hmask ((a.toNat * 256 + b.toNat) * 256 + c.toNat) 0
  unfold b64Group
  simp only [Nat.reduceShiftLeft, Nat.shiftRight_zero, Nat.reducePow, Nat.div_one] at h18 h12 h6 h0
  have e18 : ((a.toNat * 256 + b.toNat) * 256 + c.toNat) / 262144 % 64 = a.toNat / 4 := by omega
  have e12 : ((a.toNat * 256 + b.toNat) * 256 + c.toNat) / 4096 % 64 = a.toNat % 4 * 16 + b.toNat / 16 := by omega
  have e6 : ((a.toNat * 256 + b.toNat) * 256 + c.toNat) / 64 % 64 = b.toNat % 16 * 4 + c.toNat / 64 := by omega
  have e0 : ((a.toNat * 256 + b.toNat) * 256 + c.toNat) % 64 = c.toNat % 64 := by omega
  rw [h18, h12, h6, h0, e18, e12, e6, e0]

/-- Two parts of a byte are put together. -/
theorem byte_or {i hi lo : ℕ} {a : Byte} (hlo : lo < 2 ^ i) (ha : hi * 2 ^ i + lo = a.toNat) :
    (hi * 2 ^ i).toUInt8 ||| lo.toUInt8 = a := by
  have hlt := a.toNat_lt
  refine UInt8.toNat_inj.mp ?_
  rw [UInt8.toNat_or, UInt8.toNat_ofNat', UInt8.toNat_ofNat', Nat.mod_eq_of_lt (by omega),
    Nat.mod_eq_of_lt (by omega), Nat.mul_comm, ← Nat.two_pow_add_eq_or_of_lt hlo, Nat.mul_comm, ha]

/-- The four stores of a round. -/
theorem stores_eq (a b c : Byte) :
    ((a.toNat / 4) <<< 2).toUInt8 ||| ((a.toNat % 4 * 16 + b.toNat / 16) >>> 4).toUInt8 = a ∧
    (((a.toNat % 4 * 16 + b.toNat / 16) <<< 4) &&& 0xF0).toUInt8 |||
      ((b.toNat % 16 * 4 + c.toNat / 64) >>> 2).toUInt8 = b ∧
    (((b.toNat % 16 * 4 + c.toNat / 64) <<< 6) &&& 0xC0).toUInt8 ||| (c.toNat % 64).toUInt8 = c := by
  have ha := a.toNat_lt
  have hb := b.toNat_lt
  have hc := c.toNat_lt
  have hlow : ∀ n i j : ℕ, (n <<< i) &&& ((2 ^ j - 1) <<< i) = n % 2 ^ j * 2 ^ i := by
    intro n i j
    rw [← Nat.shiftLeft_and_distrib, Nat.and_two_pow_sub_one_eq_mod, Nat.shiftLeft_eq]
  have h2 := hlow (a.toNat % 4 * 16 + b.toNat / 16) 4 4
  have h3 := hlow (b.toNat % 16 * 4 + c.toNat / 64) 6 2
  simp only [Nat.reducePow, Nat.reduceSub, Nat.reduceShiftLeft] at h2 h3
  rw [h2, h3]
  simp only [Nat.shiftLeft_eq, Nat.shiftRight_eq_div_pow]
  refine ⟨?_, ?_, ?_⟩
  · exact byte_or (i := 2) (by omega) (by omega)
  · exact byte_or (i := 4) (by omega) (by omega)
  · exact byte_or (i := 6) (by omega) (by omega)

variable {text done : List Byte} {i : ℕ} {cur : Byte}

/-- A character of the table is read, by its place in the round. -/
theorem debase64From_index {k : ℕ} (hk : k < 64) :
    debase64From (b64t.getD k 0 :: text) i done cur =
      if i % 4 = 0 then debase64From text (i + 1) done (k <<< 2).toUInt8
      else if i % 4 = 1 then
        debase64From text (i + 1) (done ++ [cur ||| (k >>> 4).toUInt8]) ((k <<< 4) &&& 0xF0).toUInt8
      else if i % 4 = 2 then
        debase64From text (i + 1) (done ++ [cur ||| (k >>> 2).toUInt8]) ((k <<< 6) &&& 0xC0).toUInt8
      else debase64From text (i + 1) (done ++ [cur ||| k.toUInt8]) 0 := by
  rw [debase64From, b64t_index hk]

/-- The first two characters of a round give its first byte. -/
theorem debase64_two (a b : Byte) (hi : i % 4 = 0) :
    debase64From (b64t.getD (a.toNat / 4) 0 :: b64t.getD (a.toNat % 4 * 16 + b.toNat / 16) 0 :: text) i done cur =
      debase64From text (i + 2) (done ++ [a]) (((a.toNat % 4 * 16 + b.toNat / 16) <<< 4) &&& 0xF0).toUInt8 := by
  have ha := a.toNat_lt
  have hb := b.toNat_lt
  rw [debase64From_index (by omega), if_pos hi, debase64From_index (by omega), if_neg (by omega),
    if_pos (by omega),
    (stores_eq a b 0).1]

/-- The third one gives the second byte. -/
theorem debase64_third (a b c : Byte) (hi : i % 4 = 2) :
    debase64From (b64t.getD (b.toNat % 16 * 4 + c.toNat / 64) 0 :: text) i done
        (((a.toNat % 4 * 16 + b.toNat / 16) <<< 4) &&& 0xF0).toUInt8 =
      debase64From text (i + 1) (done ++ [b]) (((b.toNat % 16 * 4 + c.toNat / 64) <<< 6) &&& 0xC0).toUInt8 := by
  have hb := b.toNat_lt
  have hc := c.toNat_lt
  rw [debase64From_index (by omega), if_neg (by omega), if_neg (by omega), if_pos hi, (stores_eq a b c).2.1]

/-- A round is read. -/
theorem debase64_round (a b c : Byte) (hi : i % 4 = 0) :
    debase64From (b64Group ((a.toNat * 256 + b.toNat) * 256 + c.toNat) ++ text) i done cur =
      debase64From text (i + 4) (done ++ [a, b, c]) 0 := by
  have hc := c.toNat_lt
  rw [b64Group_eq, List.cons_append, List.cons_append, debase64_two a b hi, List.cons_append,
    debase64_third a b c (by omega), List.cons_append, List.nil_append, debase64From_index (by omega),
    if_neg (by omega), if_neg (by omega), if_neg (by omega), (stores_eq a b c).2.2]
  simp

/-- A character that is not in the table ends the text. -/
theorem debase64From_end {s : Byte} (hs : b64Index s = none) :
    debase64From (s :: text) i done cur = some done := by
  rw [debase64From, hs]

/-- What is stored stays. -/
theorem debase64From_keeps {r : List Byte} (h : debase64From text i done cur = some r) : done <+: r := by
  induction text generalizing i done cur with
  | nil => simp [debase64From] at h
  | cons s text ih =>
    rw [debase64From] at h
    split at h
    · obtain rfl := Option.some.inj h
      exact List.prefix_rfl
    · split_ifs at h
      · exact ih h
      · exact (List.prefix_append _ _).trans (ih h)
      · exact (List.prefix_append _ _).trans (ih h)
      · exact (List.prefix_append _ _).trans (ih h)

/-- Where the text is not padded, reading goes on behind the NUL. -/
theorem debase64_unpadded (hi : i % 4 = 0) (tail : List Byte) :
    debase64From (0 :: tail) i done cur = some done ↔ ∃ c ∈ tail.head?, b64Index c = none := by
  have hnul : b64Index 0 = some 64 := rfl
  rw [debase64From, hnul]
  dsimp only
  rw [if_pos hi]
  cases tail with
  | nil => simp [debase64From]
  | cons c tail =>
    rw [debase64From]
    cases hc : b64Index c with
    | none => simp [hc]
    | some k =>
      dsimp only
      rw [if_neg (by omega), if_pos (by omega)]
      constructor
      · intro h
        have hlonger := (debase64From_keeps h).length_le
        rw [List.length_append, List.length_singleton] at hlonger
        omega
      · simp [hc]

/-- Only a text that is not padded leads to the NUL. -/
theorem debase64From_enbase64 (data tail : List Byte) (hi : i % 4 = 0) :
    (data.length % 3 ≠ 0 → debase64From (enbase64 data ++ 0 :: tail) i done cur = some (done ++ data)) ∧
    (data.length % 3 = 0 → ∃ j cur', j % 4 = 0 ∧
      debase64From (enbase64 data ++ 0 :: tail) i done cur = debase64From (0 :: tail) j
      (done ++ data) cur') := by
  have hzero : (0 : Byte).toNat = 0 := rfl
  induction data using enbase64.induct generalizing i done cur with
  | case1 =>
    refine ⟨fun h => absurd rfl h, fun _ => ⟨i, cur, hi, ?_⟩⟩
    rw [enbase64, List.nil_append, List.append_nil]
  | case2 a =>
    have hgroup := b64Group_eq a 0 0
    rw [hzero, Nat.add_zero, Nat.add_zero] at hgroup
    refine ⟨fun _ => ?_, fun h => absurd h (by simp)⟩
    rw [enbase64, hgroup, List.take_succ_cons, List.take_succ_cons, List.take_zero]
    exact (debase64_two a 0 hi).trans (debase64From_end b64Index_pad)
  | case3 a b =>
    have hgroup := b64Group_eq a b 0
    rw [hzero, Nat.add_zero] at hgroup
    refine ⟨fun _ => ?_, fun h => absurd h (by simp)⟩
    rw [enbase64, hgroup, List.take_succ_cons, List.take_succ_cons, List.take_succ_cons, List.take_zero]
    refine (debase64_two a b hi).trans ((debase64_third a b 0 (by omega)).trans ?_)
    refine (debase64From_end b64Index_pad).trans ?_
    rw [List.append_assoc]
    rfl
  | case4 a b c data ih =>
    have hlength : (a :: b :: c :: data).length % 3 = data.length % 3 := by
      simp only [List.length_cons]
      omega
    have hround := @ih (done ++ [a, b, c]) (i + 4) 0 (by omega)
    rw [List.append_assoc] at hround
    rw [enbase64, List.append_assoc, debase64_round a b c hi, hlength]
    exact hround

/-- **Reading back what was written**: `debase64` gives the bytes that `enbase64` was given exactly where
their number is no multiple of three, or what stands behind the NUL of the text is no NUL and not in
the table; and whatever it gives begins with the bytes. -/
theorem debase64_enbase64 (data tail : List Byte) :
    (debase64 (enbase64 data ++ 0 :: tail) = some data ↔
      data.length % 3 ≠ 0 ∨ ∃ c ∈ tail.head?, b64Index c = none) ∧
    ∀ r, debase64 (enbase64 data ++ 0 :: tail) = some r → data <+: r := by
  obtain ⟨hpadded, hunpadded⟩ := @debase64From_enbase64 [] 0 0 data tail rfl
  unfold debase64
  by_cases hlength : data.length % 3 = 0
  · obtain ⟨j, cur, hj, hrest⟩ := hunpadded hlength
    rw [hrest, List.nil_append]
    refine ⟨?_, fun r hr => debase64From_keeps hr⟩
    rw [debase64_unpadded hj, or_iff_right (not_not.mpr hlength)]
  · rw [hpadded hlength, List.nil_append]
    refine ⟨iff_of_true rfl (.inl hlength), fun r hr => ?_⟩
    obtain rfl := Option.some.inj hr
    exact List.prefix_rfl

/-- Four characters for each round. -/
theorem enbase64_length (data : List Byte) : (enbase64 data).length = 4 * ((data.length + 2) / 3) := by
  induction data using enbase64.induct with
  | case1 => rfl
  | case2 a => simp [enbase64, b64Group]
  | case3 a b => simp [enbase64, b64Group]
  | case4 a b c data ih =>
    rw [enbase64, List.length_append, ih]
    simp only [b64Group, List.length_cons, List.length_nil]
    omega

theorem b64Group_table (a b c : Byte) : ∀ x ∈ b64Group ((a.toNat * 256 + b.toNat) * 256 + c.toNat), x ∈ b64t := by
  have ha := a.toNat_lt
  have hb := b.toNat_lt
  have hc := c.toNat_lt
  have hmem : ∀ {k : ℕ}, k < 64 → b64t.getD k 0 ∈ b64t := by
    intro k hk
    have hall : ∀ k : Fin 64, b64t.getD k 0 ∈ b64t := by decide +kernel
    exact hall ⟨k, hk⟩
  rw [b64Group_eq]
  simp only [List.forall_mem_cons]
  exact ⟨hmem (by omega), hmem (by omega), hmem (by omega), hmem (by omega),
    fun x hx => absurd hx List.not_mem_nil⟩

/-- **The text fits** with its NUL into the buffer that `h_connect` allocates for it, and the characters are
those of the table and the pads. -/
theorem enbase64_fits (data : List Byte) :
    (enbase64 data).length + 1 ≤ data.length * 4 / 3 + 4 ∧
    ∀ x ∈ enbase64 data, x ∈ b64t ∨ x = 61 := by
  refine ⟨by rw [enbase64_length]; omega, ?_⟩
  have hzero : (0 : Byte).toNat = 0 := rfl
  induction data using enbase64.induct with
  | case1 => exact fun x hx => absurd hx List.not_mem_nil
  | case2 a =>
    have htable := b64Group_table a 0 0
    rw [hzero, Nat.add_zero, Nat.add_zero] at htable
    intro x hx
    rw [enbase64] at hx
    rcases List.mem_append.mp hx with hx | hx
    · exact .inl (htable x (List.mem_of_mem_take hx))
    · exact .inr (by simpa using hx)
  | case3 a b =>
    have htable := b64Group_table a b 0
    rw [hzero, Nat.add_zero] at htable
    intro x hx
    rw [enbase64] at hx
    rcases List.mem_append.mp hx with hx | hx
    · exact .inl (htable x (List.mem_of_mem_take hx))
    · exact .inr (List.mem_singleton.mp hx)
  | case4 a b c data ih =>
    intro x hx
    rw [enbase64] at hx
    rcases List.mem_append.mp hx with hx | hx
    · exact .inl (b64Group_table a b c x hx)
    · exact ih x hx

end Binkd

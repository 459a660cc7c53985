import Binkd.Md5
import Mathlib.Data.List.TakeWhile

/-!
# The buffer of `MD_getChallenge` (`md5b.c`)

`MD_getChallenge` counts the digits of a challenge, allocates half as many bytes and
converts the digits in a second loop.  `mdGetChallengeBuf` is the function with its
buffer; `mdGetChallengeBuf_eq` says when the two loops agree.
-/

namespace Binkd

/-! ### The buffer of `MD_getChallenge` -/

/-- `xalloc`: `n` bytes with anything in them. -/
def xalloc (junk : ℕ → Byte) (n : ℕ) : List Byte := (List.range n).map junk

/-- A write to allocated memory, `none` outside it. -/
def writeByte (res : List Byte) (i : ℕ) (c : Byte) : Option (List Byte) :=
  if i < res.length then some (res.set i c) else none

/-- `MD_getChallenge (str, NULL)`: `sp`, the text behind the first `-` that follows `MD5`. -/
def mdDigits (s : Str) : Option Str :=
  ((strstr (str "CRAM") s).bind (strstr (str "MD5"))).bind fun sp =>
    match (sp.dropWhile (· != 45)).drop 1 with
    | [] => none
    | sp => some sp

/-- The loop that counts the digits. -/
def mdCount : ℕ → Str → ℕ
  | i, [] => i
  | i, c :: sp => if isxdigit c then if i ≥ 128 then i else mdCount (i + 1) sp else i

/-- The loop that converts them. -/
def mdStore : List Byte → ℕ → Str → Option (List Byte)
  | res, _, [] => some res
  | res, i, c :: sp =>
    if isxdigit c ∧ i < 128 then
      (writeByte res (i / 2 + 1)
        (if i % 2 = 0 then mdDigit c <<< 4 else res.getD (i / 2 + 1) 0 ||| mdDigit c)).bind
        fun res => mdStore res (i + 1) sp
    else some res

/-- `MD_getChallenge (str, NULL)` with its buffer: the length and the bytes of the challenge, or
`NULL`; `none` when it writes outside the buffer. -/
def mdGetChallengeBuf (junk : ℕ → Byte) (s : Str) : Option (Option (List Byte)) :=
  match mdDigits s with
  | none => some none
  | some sp =>
    let i := mdCount 0 sp / 2
    (mdStore ((xalloc junk (i + 1)).set 0 i.toUInt8) 0 sp).map some

theorem mdGetChallenge_eq (s : Str) :
    mdGetChallenge s = (mdDigits s).map fun sp => mdBytes ((sp.takeWhile isxdigit).take 128) := by
  unfold mdGetChallenge mdDigits
  cases strstr (str "CRAM") s with
  | none => rfl
  | some sp =>
    rw [Option.bind_some]
    dsimp only
    cases strstr (str "MD5") sp with
    | none => rfl
    | some sp =>
      rw [Option.bind_some]
      dsimp only
      cases (sp.dropWhile (· != 45)).drop 1 with
      | nil => rfl
      | cons c sp => rfl

/-- The number of digits that are read: at most 128. -/
theorem mdCount_eq (sp : Str) (i : ℕ) (hi : i ≤ 128) :
    mdCount i sp = min 128 (i + (sp.takeWhile isxdigit).length) := by
  induction sp generalizing i with
  | nil => rw [mdCount, List.takeWhile_nil, List.length_nil]; omega
  | cons c sp ih =>
    rw [mdCount, List.takeWhile_cons]
    cases hc : isxdigit c with
    | false =>
      rw [if_neg Bool.false_ne_true, if_neg Bool.false_ne_true, List.length_nil]
      omega
    | true =>
      rw [if_pos rfl, if_pos rfl, List.length_cons]
      by_cases h : i ≥ 128
      · rw [if_pos h]
        omega
      · rw [if_neg h, ih (i + 1) (by omega)]
        omega

theorem mdBytes_length : ∀ ds : Str, (mdBytes ds).length = ds.length / 2
  | [] => rfl
  | [_] => by simp [mdBytes]
  | a :: b :: ds => by
    rw [mdBytes, List.length_cons, mdBytes_length ds, List.length_cons, List.length_cons]
    omega

/-- Two digits at an even place write one byte. -/
theorem mdStore_pair {pre tail : List Byte} {a b c : Byte} {k : ℕ} {sp : Str} (ha : isxdigit a = true)
    (hb : isxdigit b = true) (hpre : pre.length = k + 1) (hk : k < 64) :
    mdStore (pre ++ c :: tail) (2 * k) (a :: b :: sp) =
      mdStore (pre ++ [mdDigit a <<< 4 ||| mdDigit b] ++ tail) (2 * (k + 1)) sp := by
  have hset : ∀ c d : Byte, writeByte (pre ++ c :: tail) (k + 1) d = some (pre ++ d :: tail) := by
    intro c d
    rw [writeByte, if_pos (by rw [List.length_append, List.length_cons]; omega),
      List.set_append_right _ _ (by omega), hpre, Nat.sub_self]
    rfl
  have hget : ∀ d : Byte, (pre ++ d :: tail).getD (k + 1) 0 = d := by
    intro d
    rw [List.getD_eq_getElem?_getD, List.getElem?_append_right (by omega), hpre, Nat.sub_self]
    rfl
  rw [mdStore, if_pos ⟨ha, by omega⟩, show 2 * k / 2 = k by omega, if_pos (by omega), hset,
    Option.bind_some,
    mdStore, if_pos ⟨hb, by omega⟩, show (2 * k + 1) / 2 = k by omega, if_neg (by omega), hset, hget,
    Option.bind_some, List.append_assoc]
  rfl

/-- The two loops agree if and only if the digits come in pairs. -/
theorem mdStore_eq : ∀ (sp : Str) (pre tail : List Byte) (k n : ℕ), pre.length = k + 1 →
    2 * k + n = 128 →
    tail.length = ((sp.takeWhile isxdigit).take n).length / 2 →
    mdStore (pre ++ tail) (2 * k) sp =
      if ((sp.takeWhile isxdigit).take n).length % 2 = 0 then
        some (pre ++ mdBytes ((sp.takeWhile isxdigit).take n)) else none
  | [], pre, tail, k, n, _, _, htail => by
    have hnil : tail = [] := List.length_eq_zero_iff.mp (by simpa using htail)
    rw [mdStore, hnil, List.takeWhile_nil, List.take_nil]
    rfl
  | a :: sp, pre, tail, k, n, hpre, hn, htail => by
    cases ha : isxdigit a with
    | false =>
      rw [List.takeWhile_cons_of_neg (by rw [ha]; exact Bool.false_ne_true), List.take_nil] at htail ⊢
      have hnil : tail = [] := List.length_eq_zero_iff.mp (by simpa using htail)
      rw [mdStore, if_neg (fun h => by rw [ha] at h; exact absurd h.1 Bool.false_ne_true), hnil]
      rfl
    | true =>
      rw [List.takeWhile_cons_of_pos ha] at htail ⊢
      obtain rfl | ⟨n, rfl⟩ : n = 0 ∨ ∃ m, n = m + 2 := by
        rcases n with _ | _ | m
        · exact .inl rfl
        · omega
        · exact .inr ⟨m, rfl⟩
      · have hnil : tail = [] := List.length_eq_zero_iff.mp (by simpa using htail)
        rw [mdStore, if_neg (fun h => by omega), hnil]
        rfl
      · cases sp with
        | nil =>
          have hnil : tail = [] := List.length_eq_zero_iff.mp (by simpa using htail)
          rw [mdStore, if_pos ⟨ha, by omega⟩, writeByte,
            if_neg (by rw [hnil, List.append_nil]; omega)]
          rfl
        | cons b sp =>
          cases hb : isxdigit b with
          | false =>
            rw [List.takeWhile_cons_of_neg (by rw [hb]; exact Bool.false_ne_true)] at htail ⊢
            have hnil : tail = [] := List.length_eq_zero_iff.mp (by simpa using htail)
            rw [mdStore, if_pos ⟨ha, by omega⟩, writeByte,
              if_neg (by rw [hnil, List.append_nil]; omega)]
            rfl
          | true =>
            rw [List.takeWhile_cons_of_pos hb, List.take_succ_cons, List.take_succ_cons] at htail ⊢
            rw [List.length_cons, List.length_cons] at htail ⊢
            cases tail with
            | nil => rw [List.length_nil] at htail; omega
            | cons c tail =>
              rw [List.length_cons] at htail
              rw [mdStore_pair ha hb hpre (by omega),
                mdStore_eq sp (pre ++ [mdDigit a <<< 4 ||| mdDigit b]) tail (k + 1) n
                  (by rw [List.length_append, hpre]; rfl) (by omega) (by omega), mdBytes,
                    List.append_assoc]
              have hpar : ∀ m, (m + 1 + 1) % 2 = m % 2 := fun m => by omega
              rw [hpar]
              rfl

/-- `MD_getChallenge` returns the challenge, with its length before it, where the digits that are
read come in pairs, and else writes behind its buffer. -/
theorem mdGetChallengeBuf_eq (junk : ℕ → Byte) (s : Str) :
    mdGetChallengeBuf junk s =
      if ∀ sp, mdDigits s = some sp → ((sp.takeWhile isxdigit).take 128).length % 2 = 0 then
        some ((mdGetChallenge s).map fun res => res.length.toUInt8 :: res) else none := by
  unfold mdGetChallengeBuf
  rw [mdGetChallenge_eq]
  cases h : mdDigits s with
  | none =>
    rw [if_pos (fun sp hsp => by cases hsp)]
    rfl
  | some sp =>
    have hcount : mdCount 0 sp = ((sp.takeWhile isxdigit).take 128).length := by
      rw [mdCount_eq sp 0 (by omega), List.length_take, Nat.zero_add]
    obtain ⟨tail, htail, hbuf⟩ : ∃ tail : List Byte, tail.length = mdCount 0 sp / 2 ∧
        (xalloc junk (mdCount 0 sp / 2 + 1)).set 0 (mdCount 0 sp / 2).toUInt8 =
          [(mdCount 0 sp / 2).toUInt8] ++ tail := by
      refine ⟨(xalloc junk (mdCount 0 sp / 2 + 1)).tail, ?_, ?_⟩
      · rw [List.length_tail, xalloc, List.length_map, List.length_range, Nat.add_sub_cancel]
      · rw [xalloc, List.range_succ_eq_map]
        rfl
    dsimp only
    rw [hbuf, show (0 : ℕ) = 2 * 0 from rfl, mdStore_eq sp [_] tail 0 128 rfl rfl (by rw [htail, hcount]),
      hcount]
    by_cases heven : ((sp.takeWhile isxdigit).take 128).length % 2 = 0
    · rw [if_pos heven, if_pos (fun sp' hsp => by cases hsp; exact heven), ← mdBytes_length]
      rfl
    · rw [if_neg heven, if_neg (fun hall => heven (hall sp rfl))]
      rfl

/-! ### Round trip -/

theorem hexDigit_xdigit : ∀ k < 16, isxdigit (hexDigit k) = true ∧ mdDigit (hexDigit k) = k.toUInt8 := by
  decide +kernel

theorem hexDigit_pair : ((List.range 256).all fun c =>
    (mdDigit (hexDigit (c / 16)) <<< 4 ||| mdDigit (hexDigit (c % 16))) == c.toUInt8) = true := by
  decide +kernel

theorem mdBytes_hexByte (challenge : List Byte) : mdBytes (challenge.flatMap hexByte) = challenge := by
  induction challenge with
  | nil => rfl
  | cons c challenge ih =>
    have hc := List.all_eq_true.mp hexDigit_pair c.toNat (List.mem_range.mpr c.toNat_lt)
    have hpair : (mdDigit (hexDigit (c.toNat / 16)) <<< 4 ||| mdDigit (hexDigit (c.toNat % 16))) = c := by
      rw [eq_of_beq hc]
      simp
    rw [List.flatMap_cons, hexByte, List.cons_append, List.cons_append, List.nil_append,
      mdBytes, ih, hpair]

theorem hexText_xdigit (challenge : List Byte) : (challenge.flatMap hexByte).takeWhile isxdigit =
    challenge.flatMap hexByte := by
  rw [List.takeWhile_eq_self_iff]
  intro d hd
  obtain ⟨c, -, hd⟩ := List.mem_flatMap.mp hd
  have hlt := c.toNat_lt
  rcases List.mem_cons.mp hd with rfl | hd
  · exact (hexDigit_xdigit _ (by omega)).1
  · rcases List.mem_cons.mp hd with rfl | hd
    · exact (hexDigit_xdigit _ (by omega)).1
    · cases hd

theorem hexText_length (challenge : List Byte) :
    (challenge.flatMap hexByte).length = 2 * challenge.length := by
  induction challenge with
  | nil => rfl
  | cons c challenge ih =>
    rw [List.flatMap_cons, List.length_append, ih, List.length_cons]
    have hbyte : (hexByte c).length = 2 := rfl
    omega

theorem mdDigits_toString (challenge : List Byte) : mdDigits (mdToString challenge) =
    if challenge = [] then none else some (challenge.flatMap hexByte) := by
  have hcram : strstr (str "CRAM") (mdToString challenge) = some (mdToString challenge) := rfl
  have hmd5 : strstr (str "MD5") (mdToString challenge) = some (str "MD5-" ++ challenge.flatMap hexByte) := rfl
  have hdash : ((str "MD5-" ++ challenge.flatMap hexByte).dropWhile (· != 45)).drop 1 =
      challenge.flatMap hexByte := rfl
  rw [mdDigits, hcram, Option.bind_some, hmd5, Option.bind_some, hdash]
  cases challenge with
  | nil => rfl
  | cons c challenge => rfl

/-- **Challenge codec**: the text of a challenge of at most 64 bytes is read back, with its length,
if and only if it has a byte, and the decoder of an `OPT` word stays in its buffer if and only if
the digits that it reads are even in number. -/
theorem mdGetChallenge_codec (junk : ℕ → Byte) :
    (∀ challenge : List Byte, challenge.length ≤ 64 →
      (mdGetChallengeBuf junk (mdToString challenge) = some (some (challenge.length.toUInt8 :: challenge)) ↔
        challenge ≠ [])) ∧
    ∀ s, (mdGetChallengeBuf junk s).isSome ↔
      ∀ sp, mdDigits s = some sp → ((sp.takeWhile isxdigit).take 128).length % 2 = 0 := by
  refine ⟨fun challenge hlen => ?_, fun s => ?_⟩
  · rw [mdGetChallengeBuf_eq, mdGetChallenge_eq, mdDigits_toString]
    by_cases hnil : challenge = []
    · rw [if_pos hnil, if_pos (fun sp hsp => by cases hsp)]
      simp [hnil]
    · have htake : ((challenge.flatMap hexByte).takeWhile isxdigit).take 128 = challenge.flatMap hexByte := by
        rw [hexText_xdigit, List.take_of_length_le (by rw [hexText_length]; omega)]
      have heven : ∀ sp, some (challenge.flatMap hexByte) = some sp →
          ((sp.takeWhile isxdigit).take 128).length % 2 = 0 := by
        intro sp hsp
        cases hsp
        rw [htake, hexText_length, Nat.mul_mod_right]
      rw [if_neg hnil, if_pos heven, Option.map_some, Option.map_some, htake, mdBytes_hexByte]
      exact ⟨fun _ => hnil, fun _ => rfl⟩
  · rw [mdGetChallengeBuf_eq]
    split_ifs with heven
    · exact ⟨fun _ => heven, fun _ => rfl⟩
    · exact ⟨fun h => absurd h Bool.false_ne_true, fun h => absurd h heven⟩

/-- One digit: the buffer has only the length, and the digit is written behind it. -/
theorem oddDigit_leaves : ¬ ((∀ challenge : List Byte, challenge.length ≤ 64 →
      mdGetChallengeBuf (fun _ => 0) (mdToString challenge) = some
      (some (challenge.length.toUInt8 :: challenge))) ∧
    ∀ s, (mdGetChallengeBuf (fun _ => 0) s).isSome) := by
  intro ⟨_, h⟩
  have hodd := h (str "CRAM-MD5-a")
  revert hodd
  decide +kernel

end Binkd

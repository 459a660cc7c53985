import Binkd.Frame.Answers
import Mathlib.Data.List.TakeWhile

/-!
# The identity of a file on the wire

A file is known to both sides by its netname, size and time.  `netname` and
`FileMsg.text` write the three, `parseArgs` and the number readers take them apart,
and the receiver writes them again in its answers.  They come back unchanged
(`file_roundTrip`).  The comparison `tfileEq` is too weak in one place: it returns the
difference of the times as an `int`, so that times that differ by a multiple of
`2 ^ 32` pass for equal (`file_identity`).
-/

namespace Binkd

/-! ### Decimal numbers -/

/-- A property of all bytes is a property of 256 numbers. -/
theorem forall_byte {p : Byte → Prop} (h : ∀ n < 256, p n.toUInt8) (c : Byte) : p c := by
  have hc := h c.toNat c.toNat_lt
  rwa [Nat.toUInt8, UInt8.ofNat_toNat] at hc

theorem decimal_isdigit (n : Nat) : ∀ c ∈ decimal n, isdigit c = true := by
  intro c hc
  obtain ⟨d, hd, rfl⟩ := List.mem_map.mp hc
  have h := Nat.isDigit_of_mem_toDigits (by decide) (by decide) hd
  simp only [Char.isDigit, Bool.and_eq_true, decide_eq_true_eq] at h
  obtain ⟨h1, h2⟩ := h
  have h1' : 48 ≤ d.toNat := h1
  have h2' : d.toNat ≤ 57 := h2
  simp only [isdigit, Bool.and_eq_true, decide_eq_true_eq, UInt8.le_iff_toNat_le]
  have hmod : d.toNat.toUInt8.toNat = d.toNat := by
    simp only [Nat.toUInt8, UInt8.toNat_ofNat']
    omega
  rw [hmod]
  exact ⟨h1', h2'⟩

theorem decimal_ne_nil (n : Nat) : decimal n ≠ [] := by
  simp [decimal, Nat.toDigits_ne_nil]

theorem digitsValue_decimal (n : Nat) : digitsValue (decimal n) = n := by
  have hall : (decimal n).takeWhile isdigit = decimal n :=
    List.takeWhile_eq_self_iff.mpr (decimal_isdigit n)
  have hfold : ∀ (l : List Char) (v : Nat), (∀ c ∈ l, c ∈ Nat.toDigits 10 n) →
      (l.map fun c => c.toNat.toUInt8).foldl (fun v c => 10 * v + (c.toNat - 48)) v =
        Nat.ofDigitChars 10 l v := by
    intro l
    induction l with
    | nil => intro v _; rfl
    | cons c l ih =>
      intro v hl
      have hd := Nat.isDigit_of_mem_toDigits (by decide) (by decide) (hl c List.mem_cons_self)
      simp only [Char.isDigit, Bool.and_eq_true, decide_eq_true_eq] at hd
      have h2 : c.toNat ≤ 57 := hd.2
      have hmod : c.toNat.toUInt8.toNat = c.toNat := by
        simp only [Nat.toUInt8, UInt8.toNat_ofNat']
        omega
      rw [List.map_cons, List.foldl_cons, Nat.ofDigitChars_cons, hmod,
        ih _ fun x hx => hl x (List.mem_cons_of_mem c hx)]
      rfl
  unfold digitsValue
  rw [hall]
  unfold decimal
  rw [hfold _ 0 fun c hc => hc]
  exact Nat.ofDigitChars_toDigits (by decide) (by decide)

theorem digit_not_space {c : Byte} (h : isdigit c = true) :
    isspace c = false ∧ c ≠ 0 ∧ c ≠ 45 ∧ c ≠ 43 :=
  forall_byte (p := fun c => isdigit c = true → isspace c = false ∧ c ≠ 0 ∧ c ≠ 45 ∧ c ≠ 43)
    (by decide +kernel) c h

/-- The head of a number is a digit. -/
theorem decimal_cons (n : Nat) : ∃ c r, decimal n = c :: r ∧ isdigit c = true := by
  obtain ⟨c, r, h⟩ := List.exists_cons_of_ne_nil (decimal_ne_nil n)
  exact ⟨c, r, h, decimal_isdigit n c (h ▸ List.mem_cons_self)⟩

theorem strtoumax_decimal {n : Nat} (h : n < 2 ^ 64) : strtoumax (decimal n) = n := by
  obtain ⟨c, r, hc, hd⟩ := decimal_cons n
  obtain ⟨hs, -, h45, h43⟩ := digit_not_space hd
  have hv := digitsValue_decimal n
  unfold strtoumax
  rw [hc] at hv ⊢
  rw [List.dropWhile_cons_of_neg (by simp [hs])]
  dsimp only
  rw [if_neg h45, if_neg h43, hv]
  omega

theorem toSigned64_toUnsigned64 {n : Int} (h : -2 ^ 63 ≤ n) (h' : n < 2 ^ 63) :
    toSigned64 (toUnsigned64 n) = n := by
  unfold toSigned64 toUnsigned64
  split <;> omega

theorem toUnsigned64_lt (n : Int) : toUnsigned64 n < 2 ^ 64 := by
  unfold toUnsigned64
  omega

/-- A size comes back as it was printed. -/
theorem size_decimal {n : Int} (h : -2 ^ 63 ≤ n) (h' : n < 2 ^ 63) :
    toSigned64 (strtoumax (decimal (toUnsigned64 n))) = n := by
  rw [strtoumax_decimal (toUnsigned64_lt n), toSigned64_toUnsigned64 h h']

/-- A time comes back as it was printed. -/
theorem safeAtol_decimal {n : Int} (h : -2 ^ 63 ≤ n) (h' : n < 2 ^ 63) :
    safeAtol (decimal (toUnsigned64 n)) = n := by
  obtain ⟨c, r, hc, hd⟩ := decimal_cons (toUnsigned64 n)
  have hne := (digit_not_space hd).2.2.1
  have hsize := size_decimal h h'
  unfold safeAtol
  rw [hc] at hsize ⊢
  split
  · next heq => exact absurd (List.cons.inj heq).1 hne
  · exact hsize

/-! ### Words -/

/-- A word: no white space and no NUL in it. -/
structure Word (w : Str) : Prop where
  ne_nil : w ≠ []
  plain : ∀ c ∈ w, isspace c = false ∧ c ≠ 0

theorem Word.of_decimal (n : Nat) : Word (decimal n) :=
  ⟨decimal_ne_nil n, fun c hc => ⟨(digit_not_space (decimal_isdigit n c hc)).1,
    (digit_not_space (decimal_isdigit n c hc)).2.1⟩⟩

/-- The first word is taken off, with the space behind it. -/
theorem parseArgs_word {w : Str} (hw : Word w) (n : Nat) (rest : Str) :
    parseArgs (n + 1) (w ++ 32 :: rest) = (parseArgs n rest).map fun r => (w :: r.1, r.2) := by
  obtain ⟨c, r, rfl⟩ := List.exists_cons_of_ne_nil hw.ne_nil
  have hc := (hw.plain c List.mem_cons_self).1
  have hnil : (32 :: rest).takeWhile (!isspace ·) = [] := rfl
  have hsame : (32 :: rest).dropWhile (!isspace ·) = 32 :: rest := rfl
  have htake : ((c :: r) ++ 32 :: rest).takeWhile (!isspace ·) = c :: r := by
    rw [List.takeWhile_append_of_pos fun x hx => by simp [(hw.plain x hx).1], hnil,
      List.append_nil]
  have hdrop : ((c :: r) ++ 32 :: rest).dropWhile (!isspace ·) = 32 :: rest := by
    rw [List.dropWhile_append_of_pos fun x hx => by simp [(hw.plain x hx).1], hsame]
  have hstart : ((c :: r) ++ 32 :: rest).dropWhile isspace = (c :: r) ++ 32 :: rest :=
    List.dropWhile_cons_of_neg (by simp [hc])
  rw [parseArgs]
  simp only [hstart, htake, hdrop]
  rw [if_neg (by simp), List.drop_succ_cons, List.drop_zero]
  cases parseArgs n rest <;> rfl

/-- The last word is taken up to its end, whatever follows. -/
theorem parseArgs_last {c : Byte} (hc : isspace c = false) (r : Str) :
    ∃ w rest, parseArgs 1 (c :: r) = some ([c :: w], rest) := by
  rw [parseArgs]
  simp only [List.dropWhile_cons_of_neg (by simp [hc] : ¬ isspace c = true)]
  rw [List.takeWhile_cons_of_pos (by simp [hc])]
  exact ⟨_, _, rfl⟩

theorem parseArgs_end {w : Str} (hw : Word w) : parseArgs 1 w = some ([w], []) := by
  obtain ⟨c, r, rfl⟩ := List.exists_cons_of_ne_nil hw.ne_nil
  have hc := (hw.plain c List.mem_cons_self).1
  have htake : (c :: r).takeWhile (!isspace ·) = c :: r :=
    List.takeWhile_eq_self_iff.mpr fun x hx => by simp [(hw.plain x hx).1]
  have hdrop : (c :: r).dropWhile (!isspace ·) = [] :=
    List.dropWhile_eq_nil_iff.mpr fun x hx => by simp [(hw.plain x hx).1]
  rw [parseArgs]
  simp only [List.dropWhile_cons_of_neg (by simp [hc] : ¬ isspace c = true), htake, hdrop]
  rfl

/-! ### Netnames -/

/-- A quoted byte is printed without white space or NUL. -/
theorem strquote_plain (s : Str) : ∀ c ∈ strquote true true s, isspace c = false ∧ c ≠ 0 := by
  have hbyte : ∀ c : Byte, ((if (true && iscntrl c) || (true && isspace c) || c = 92 then
      92 :: 120 :: hexByte c else [c]).all fun x => !isspace x && x != 0) = true :=
    forall_byte (by decide +kernel)
  intro c hc
  obtain ⟨x, -, hx⟩ := List.mem_flatMap.mp hc
  simpa using List.all_eq_true.mp (hbyte x) c hx

theorem strquote_ne_nil {s : Str} (h : s ≠ []) : strquote true true s ≠ [] := by
  obtain ⟨c, r, rfl⟩ := List.exists_cons_of_ne_nil h
  unfold strquote
  rw [List.flatMap_cons]
  split <;> simp

theorem weekdayExt_ne_nil {s : Str} (h : s ≠ []) : weekdayExt s ≠ [] := by
  unfold weekdayExt
  split
  · split
    · simp
    · exact h
  · exact h

theorem hexPad_plain (width n : Nat) : ∀ c ∈ hexPad width n, isspace c = false ∧ c ≠ 0 := by
  have hdigit : ∀ k < 16, isspace (Nat.digitChar k).toNat.toUInt8 = false ∧
      (Nat.digitChar k).toNat.toUInt8 ≠ 0 := by decide +kernel
  have hall : ∀ n, ∀ c ∈ (Nat.toDigits 16 n).map (fun c => c.toNat.toUInt8),
      isspace c = false ∧ c ≠ 0 := by
    intro n
    induction n using Nat.strong_induction_on with
    | _ n ih =>
      rw [Nat.toDigits_eq_if (by decide)]
      split
      · next hlt =>
        intro c hc
        simp only [List.map_cons, List.map_nil, List.mem_singleton] at hc
        exact hc ▸ hdigit n hlt
      · next hge =>
        intro c hc
        rw [List.map_append, List.mem_append] at hc
        rcases hc with hc | hc
        · exact ih (n / 16) (Nat.div_lt_self (by omega) (by decide)) c hc
        · simp only [List.map_cons, List.map_nil, List.mem_singleton] at hc
          exact hc ▸ hdigit (n % 16) (Nat.mod_lt _ (by decide))
  intro c hc
  rcases List.mem_append.mp hc with hc | hc
  · obtain rfl := List.eq_of_mem_replicate hc
    decide
  · exact hall n c hc

theorem hexPad_length {n : Nat} (h : n < 2 ^ 64) : (hexPad 8 n).length ≤ 16 := by
  have hd : (Nat.toDigits 16 n).length ≤ 16 :=
    (Nat.length_toDigits_le_iff (by decide) (by decide)).mpr (by omega)
  simp only [hexPad, List.length_append, List.length_replicate, List.length_map]
  omega

/-- A netname is one word, and short enough for the receiver's buffer. -/
theorem netname_word (env : Env) (q : TFile) (h : extractFilename q.path ≠ [])
    (hrnd : env.rnd 0 < 2 ^ 64) : Word (netname env q) ∧ (netname env q).length ≤ maxNetname - 1 := by
  have hlen := hexPad_length hrnd
  have hrandom : ∀ ext : Str, ext.length = 4 → (∀ c ∈ ext, isspace c = false ∧ c ≠ 0) →
      Word (hexPad 8 (env.rnd 0) ++ ext) ∧ (hexPad 8 (env.rnd 0) ++ ext).length ≤ maxNetname - 1 := by
    intro ext hext hplain
    refine ⟨⟨fun hnil => ?_, fun c hc => ?_⟩, ?_⟩
    · simp [(List.append_eq_nil_iff.mp hnil).2] at hext
    · exact (List.mem_append.mp hc).elim (hexPad_plain _ _ c) (hplain c)
    · rw [List.length_append, hext, maxNetname]
      omega
  unfold netname
  split
  · exact hrandom _ (by decide) (by decide +kernel)
  · split
    · exact hrandom _ (by decide) (by decide +kernel)
    · have hbase : (extractFilename q.path).take (maxNetname - 1) ≠ [] := by
        simpa [maxNetname] using h
      have hquoted := strquote_ne_nil (weekdayExt_ne_nil hbase)
      refine ⟨⟨by simpa [maxNetname] using hquoted, fun c hc => ?_⟩, List.length_take_le _ _⟩
      exact strquote_plain _ c (List.mem_of_mem_take hc)

/-! ### The round trip -/

/-- The record that the receiver makes of an `M_FILE`. -/
def recordOf (env : Env) (buf : List Byte) (s : State) : Option TFile :=
  match parseArgs 4 (cstr buf) with
  | some ([name, size, time, _], _) => some (newIn env name size time s).rx.inf
  | _ => none

/-- The answer names the file. -/
def NamesFile (out : TFile) (argc : Nat) (text : Str) : Prop :=
  ∃ f, namedFile argc (text.take msgTextMax) = some f ∧ tfileEq out f.1 f.2.1 f.2.2 = true

/-- The `M_FILE` of a file is taken for a record whose answers name the file again. -/
def RoundTrip (env : Env) (m : FileMsg) (s : State) : Prop :=
  ∃ r, recordOf env (m.text.take msgTextMax) s = some r ∧ NamesFile m.file 3 r.args ∧
    ∀ pos, NamesFile m.file 4 (r.args ++ [32] ++ decimal pos)

theorem cstr_append {w : Str} (hw : ∀ c ∈ w, c ≠ 0) (rest : List Byte) :
    cstr (w ++ rest) = w ++ cstr rest :=
  List.takeWhile_append_of_pos fun c hc => by simp [hw c hc]

theorem decimal_length {n : Nat} (h : n < 2 ^ 64) : (decimal n).length ≤ 20 := by
  simp only [decimal, List.length_map]
  exact (Nat.length_toDigits_le_iff (by decide) (by decide)).mpr (by omega)

/-- The three words that stand at the start of a message about a file. -/
theorem args_parse {f : TFile} (hw : Word f.netname) (hlen : f.netname.length ≤ maxNetname - 1)
    (n : Nat) (rest : Str) :
    parseArgs (n + 3) (cstr ((f.args ++ 32 :: rest).take msgTextMax)) =
      (parseArgs n (cstr (rest.take (msgTextMax - f.args.length - 1)))).map fun r =>
        (f.netname :: decimal (toUnsigned64 f.size) :: decimal (toUnsigned64 f.time) :: r.1, r.2) := by
  have hs := Word.of_decimal (toUnsigned64 f.size)
  have ht := Word.of_decimal (toUnsigned64 f.time)
  have hl : f.args.length + 1 ≤ msgTextMax := by
    have h1 := decimal_length (toUnsigned64_lt f.size)
    have h2 := decimal_length (toUnsigned64_lt f.time)
    simp only [TFile.args, List.length_append, List.length_cons, List.length_nil, msgTextMax, maxPathLen]
    simp only [maxNetname] at hlen
    omega
  have htake : (f.args ++ 32 :: rest).take msgTextMax =
      f.args ++ 32 :: rest.take (msgTextMax - f.args.length - 1) := by
    obtain ⟨k, hk⟩ : ∃ k, msgTextMax - f.args.length = k + 1 :=
      ⟨_, (Nat.succ_pred_eq_of_pos (by omega)).symm⟩
    rw [List.take_append, List.take_of_length_le (by omega), hk, List.take_succ_cons]
    rfl
  have hplain : ∀ w, Word w → ∀ c ∈ w, c ≠ 0 := fun w hw c hc => (hw.plain c hc).2
  have hcstr : cstr (f.args ++ 32 :: rest.take (msgTextMax - f.args.length - 1)) = f.netname ++ 32 ::
      (decimal (toUnsigned64 f.size) ++ 32 :: (decimal (toUnsigned64 f.time) ++ 32 ::
        cstr (rest.take (msgTextMax - f.args.length - 1)))) := by
    have hspace : ∀ l : List Byte, cstr (32 :: l) = 32 :: cstr l := fun l => rfl
    simp only [TFile.args, List.append_assoc, List.cons_append, List.nil_append]
    rw [cstr_append (hplain _ hw), hspace, cstr_append (hplain _ hs), hspace,
      cstr_append (hplain _ ht), hspace]
  rw [htake, hcstr, parseArgs_word hw, parseArgs_word hs, parseArgs_word ht, Option.map_map,
    Option.map_map]
  rfl

/-- The same without anything behind the three words. -/
theorem args_parse_end {f : TFile} (hw : Word f.netname) (hlen : f.netname.length ≤ maxNetname - 1) :
    parseArgs 3 (cstr (f.args.take msgTextMax)) =
      some ([f.netname, decimal (toUnsigned64 f.size), decimal (toUnsigned64 f.time)], []) := by
  have hs := Word.of_decimal (toUnsigned64 f.size)
  have ht := Word.of_decimal (toUnsigned64 f.time)
  have hl : f.args.length ≤ msgTextMax := by
    have h1 := decimal_length (toUnsigned64_lt f.size)
    have h2 := decimal_length (toUnsigned64_lt f.time)
    simp only [TFile.args, List.length_append, List.length_cons, List.length_nil, msgTextMax, maxPathLen]
    simp only [maxNetname] at hlen
    omega
  have hplain : ∀ w, Word w → ∀ c ∈ w, c ≠ 0 := fun w hw c hc => (hw.plain c hc).2
  have hall : cstr f.args = f.netname ++ 32 ::
      (decimal (toUnsigned64 f.size) ++ 32 :: decimal (toUnsigned64 f.time)) := by
    have hspace : ∀ l : List Byte, cstr (32 :: l) = 32 :: cstr l := fun l => rfl
    simp only [TFile.args, List.append_assoc, List.cons_append, List.nil_append]
    rw [cstr_append (hplain _ hw), hspace, cstr_append (hplain _ hs), hspace]
    rw [cstr, List.takeWhile_eq_self_iff.mpr fun c hc => by simp [hplain _ ht c hc]]
  rw [List.take_of_length_le hl, hall, parseArgs_word hw, parseArgs_word hs, parseArgs_end ht]
  rfl

theorem tfileEq_self (f : TFile) : tfileEq f f.netname f.size f.time = true := by
  simp [tfileEq, toInt32]

/-- A record of the same name, size and time is answered for. -/
theorem answers_of_eq {out f : TFile} (hw : Word out.netname) (hlen : out.netname.length ≤ maxNetname - 1)
    (hsize : -2 ^ 63 ≤ out.size ∧ out.size < 2 ^ 63) (htime : -2 ^ 63 ≤ out.time ∧ out.time < 2 ^ 63)
    (hname : f.netname = out.netname) (hs : f.size = out.size) (ht : f.time = out.time) :
    NamesFile out 3 f.args ∧ ∀ pos, NamesFile out 4 (f.args ++ [32] ++ decimal pos) := by
  have hargs : f.args = out.args := by simp only [TFile.args, hname, hs, ht]
  have hsize' := size_decimal hsize.1 hsize.2
  have htime' := safeAtol_decimal htime.1 htime.2
  rw [hargs]
  refine ⟨⟨(out.netname, out.size, out.time), ?_, tfileEq_self out⟩,
    fun pos => ⟨(out.netname, out.size, out.time), ?_, tfileEq_self out⟩⟩
  · rw [namedFile, args_parse_end hw hlen]
    dsimp only
    rw [hsize', htime']
  · rw [namedFile, List.append_assoc, List.singleton_append, args_parse hw hlen 1]
    obtain ⟨c, r, hc, hd⟩ := decimal_cons pos
    obtain ⟨hspace, hzero, -⟩ := digit_not_space hd
    obtain ⟨k, hk⟩ : ∃ k, msgTextMax - out.args.length - 1 = k + 1 := by
      refine ⟨msgTextMax - out.args.length - 2, ?_⟩
      have h1 := decimal_length (toUnsigned64_lt out.size)
      have h2 := decimal_length (toUnsigned64_lt out.time)
      simp only [TFile.args, List.length_append, List.length_cons, List.length_nil,
        msgTextMax, maxPathLen]
      simp only [maxNetname] at hlen
      omega
    rw [hc, hk, List.take_succ_cons, cstr, List.takeWhile_cons_of_pos (by simpa using hzero)]
    obtain ⟨w, rest, hlast⟩ := parseArgs_last hspace ((r.take k).takeWhile (· != 0))
    rw [hlast]
    dsimp only [Option.map_some]
    rw [hsize', htime']

/-- **The identity of a file survives the wire**: what the receiver makes of the
`M_FILE` of a file names the same file in its answers. -/
theorem file_roundTrip (env env' : Env) (q : TFile) (hname : extractFilename q.path ≠ [])
    (hsize : 0 ≤ q.size ∧ q.size < 2 ^ 63) (htime : -2 ^ 63 ≤ q.time ∧ q.time < 2 ^ 63)
    (hrnd : env.rnd 0 < 2 ^ 64) (off : Option Nat) (extra : Str) (s : State) (hs : s.rx.inf.f = none) :
    RoundTrip env' ⟨{ q with netname := netname env q }, off, extra⟩ s := by
  obtain ⟨hw, hlen⟩ := netname_word env q hname hrnd
  generalize hout : ({ q with netname := netname env q } : TFile) = out
  have hnet : netname env q = out.netname := by rw [← hout]
  have hsz : q.size = out.size := by rw [← hout]
  have htm : q.time = out.time := by rw [← hout]
  rw [hnet] at hw hlen
  rw [hsz] at hsize
  rw [htm] at htime
  have hlow : -2 ^ 63 ≤ out.size := by omega
  obtain ⟨c, r, hc, hspace, hzero⟩ : ∃ c r,
      off.elim (str "-1") decimal ++ extra = c :: r ∧
        isspace c = false ∧ c ≠ 0 := by
    cases off with
    | none => exact ⟨45, 49 :: extra, rfl, rfl, by decide⟩
    | some n =>
      obtain ⟨c, r, hc, hd⟩ := decimal_cons n
      obtain ⟨hspace, hzero, -⟩ := digit_not_space hd
      exact ⟨c, r ++ extra, by simp [hc], hspace, hzero⟩
  have htext : FileMsg.text ⟨out, off, extra⟩ = out.args ++ 32 :: (c :: r) := by
    rw [← hc]
    simp only [FileMsg.text, TFile.args, List.append_assoc]
    cases off <;> rfl
  obtain ⟨k, hk⟩ : ∃ k, msgTextMax - out.args.length - 1 = k + 1 := by
    refine ⟨msgTextMax - out.args.length - 2, ?_⟩
    have h1 := decimal_length (toUnsigned64_lt out.size)
    have h2 := decimal_length (toUnsigned64_lt out.time)
    simp only [TFile.args, List.length_append, List.length_cons, List.length_nil, msgTextMax, maxPathLen]
    simp only [maxNetname] at hlen
    omega
  obtain ⟨w, rest, hlast⟩ := parseArgs_last hspace ((r.take k).takeWhile (· != 0))
  have hrec : recordOf env' (FileMsg.text ⟨out, off, extra⟩ |>.take msgTextMax) s =
      some (newIn env' out.netname (decimal (toUnsigned64 out.size)) (decimal (toUnsigned64 out.time)) s).rx.inf := by
    rw [recordOf, htext, args_parse hw hlen 1, hk, List.take_succ_cons, cstr,
      List.takeWhile_cons_of_pos (by simpa using hzero), hlast]
    rfl
  have hin : (newIn env' out.netname (decimal (toUnsigned64 out.size)) (decimal (toUnsigned64 out.time)) s).rx.inf =
      { s.rx.inf with
        start := env'.now, netname := out.netname, size := out.size, time := out.time } := by
    rw [newIn, if_neg (by simp [hs]), List.take_of_length_le hlen,
      size_decimal hlow hsize.2, safeAtol_decimal htime.1 htime.2]
  rw [hin] at hrec
  exact ⟨_, hrec, answers_of_eq hw hlen ⟨hlow, hsize.2⟩ htime rfl rfl rfl⟩

/-! ### The comparison -/

/-- The comparison takes only equal files for equal. -/
def OnlyEqual (a : TFile) (f : Str × Int × Int) : Prop :=
  tfileEq a f.1 f.2.1 f.2.2 = true →
    strdequote a.netname = strdequote f.1 ∧ a.size = f.2.1 ∧ a.time = f.2.2

/-- The times alone differ, and by a multiple of `2 ^ 32`. -/
def TimeWraps (a : TFile) (f : Str × Int × Int) : Prop :=
  strdequote a.netname = strdequote f.1 ∧ a.size = f.2.1 ∧ a.time ≠ f.2.2 ∧
    (2 ^ 32 : Int) ∣ a.time - f.2.2

theorem toInt32_eq_zero (n : Int) : toInt32 n = 0 ↔ (2 ^ 32 : Int) ∣ n := by
  have h := @Int.dvd_iff_bmod_eq_zero (2 ^ 32) n
  rw [toInt32, ← h]
  rfl

theorem onlyEqual_iff (a : TFile) (f : Str × Int × Int) : OnlyEqual a f ↔ ¬ TimeWraps a f := by
  simp only [OnlyEqual, TimeWraps, tfileEq, decide_eq_true_eq, toInt32_eq_zero]
  tauto

/-- **The identity of a file**: it survives the wire, and an answer is taken for a file
of another name, size or time exactly when the times alone differ, by a multiple of
`2 ^ 32`. -/
theorem file_identity (env env' : Env) (q : TFile) (hname : extractFilename q.path ≠ [])
    (hsize : 0 ≤ q.size ∧ q.size < 2 ^ 63) (htime : -2 ^ 63 ≤ q.time ∧ q.time < 2 ^ 63)
    (hrnd : env.rnd 0 < 2 ^ 64) (off : Option Nat) (extra : Str) (s : State) (hs : s.rx.inf.f = none)
    (argc : Nat) (buf : List Byte) :
    (RoundTrip env' ⟨{ q with netname := netname env q }, off, extra⟩ s ∧
      ∀ f ∈ namedFile argc buf, OnlyEqual { q with netname := netname env q } f) ↔
    ∀ f ∈ namedFile argc buf, ¬ TimeWraps { q with netname := netname env q } f := by
  have hround := file_roundTrip env env' q hname hsize htime hrnd off extra s hs
  constructor
  · rintro ⟨-, h⟩ f hf
    exact (onlyEqual_iff _ f).mp (h f hf)
  · intro h
    exact ⟨hround, fun f hf => (onlyEqual_iff _ f).mpr (h f hf)⟩

/-- A file `a` of 5 bytes and the time 7. -/
def fileA : TFile := { path := str "/o/a", size := 5, time := 7 }

/-- An `M_GOT` for the file with a time that is `2 ^ 32` later passes for its answer. -/
theorem timeWraps_accepted : ∃ f ∈ namedFile 3 (str "a 5 4294967303"),
    ¬ OnlyEqual { fileA with netname := netname {} fileA } f := by
  refine ⟨(str "a", 5, 4294967303), by decide +kernel, ?_⟩
  rw [onlyEqual_iff, not_not]
  exact ⟨by decide +kernel, rfl, by decide, by decide⟩

/-- An `M_GOT` for the file itself. -/
theorem file_identity_a : RoundTrip {} ⟨{ fileA with netname := netname {} fileA }, some 0, []⟩
    { toNode := none, remoteFa := none, rx := { inbound := [] } } ∧
    ∀ f ∈ namedFile 3 (str "a 5 7"), OnlyEqual { fileA with netname := netname {} fileA } f := by
  refine (file_identity {} {} fileA (by decide) (by decide) (by decide) (by decide) (some 0) [] _ rfl 3
    (str "a 5 7")).mpr fun f hf hwrap => ?_
  have hval : namedFile 3 (str "a 5 7") = some (str "a", 5, 7) := by decide +kernel
  rw [hval, Option.mem_some_iff] at hf
  subst hf
  exact hwrap.2.2.1 rfl

end Binkd

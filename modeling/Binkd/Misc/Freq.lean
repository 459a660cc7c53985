import Binkd.Identity
import Binkd.Misc.Portable

/-!
# File requests (`misc/freq.c`, `misc/srifreq.c`)

`freq` writes one line for each file that is requested, with a password, a time and the
update flag behind the name; `srifreq` reads such lines.  It reads back what was written,
unless a name begins as a URL does (`freq_roundtrip`).
-/

namespace Binkd

/-- A line of a request file. -/
structure Request where
  name : Str
  pass : Str
  newer : Int
  update : Bool
deriving DecidableEq

/-! ### The writer -/

/-- The line that `freq` writes for a request: an empty password is none. -/
def reqLine (r : Request) : Str :=
  r.name ++ (if r.pass ≠ [] then str " !" ++ r.pass else []) ++
    (if 0 < r.newer then str " +" ++ decimalInt r.newer else []) ++ (if r.update then str " U" else []) ++
    str "\r\n"

/-- What `freq` appends to the request file; `none` where it refuses a name and removes the file. -/
def freqAppend (password : Str) (newerThan : Int) (update : Bool) : List Str → Option (List Byte)
  | [] => some []
  | fname :: names =>
    if isSafeFilename fname then
      (freqAppend password newerThan update names).map
      (reqLine ⟨fname, password, newerThan, update⟩ ++ ·)
    else none

/-! ### The reader -/

/-- The loop of `srifreq` over the modifiers behind the name. -/
def modifiers (p : Str) (r : Request) : Request :=
  match h : p.dropWhile blank with
  | [] => r
  | c :: q =>
    have : q.length < p.length := by
      have := (List.dropWhile_suffix (l := p) blank).length_le
      rw [h, List.length_cons] at this
      omega
    if c = 33 then
      let pass := (q.takeWhile fun c => !blank c).take 63
      have : (q.drop pass.length).length < p.length := by
        rw [List.length_drop]
        omega
      modifiers (q.drop pass.length) { r with pass := pass }
    else if c = 43 then
      have : (q.dropWhile fun c => !blank c).length < p.length := by
        have := (List.dropWhile_suffix (l := q) fun c => !blank c).length_le
        omega
      modifiers (q.dropWhile fun c => !blank c) { r with newer := atol q }
    else if c = 85 ∧ (q.head?.all blank) then modifiers q { r with update := true }
    else modifiers q r
termination_by p.length

/-- `srifreq`'s reading of a line: `none` for a line that is skipped. -/
def parseRequest (line : Str) : Option Request :=
  let line := strTrim line
  if line = [] ∨ line.head? = some 59 ∨ line.head? = some 35 then none
  else
    let name := ((line.dropWhile isspace).takeWhile fun c => !isspace c).take 1023
    if name = [] then none
    else if (str "http").isPrefixOf name ∨ (str "ftp").isPrefixOf name then none
    else
      let p := match strstr name line with
        | some p => p.drop name.length
        | none => []
      some (modifiers p ⟨name, [], 0, false⟩)

/-- The requests of a request file. -/
def readRequests (bytes : List Byte) : List Request :=
  (readLines bytes.length bytes).filterMap parseRequest

/-! ### The modifiers -/

/-- What may stand behind a modifier: nothing, or a blank. -/
def AtBlank (p : Str) : Prop := p.head?.all blank = true

theorem AtBlank.takeWhile_nil {p : Str} (hp : AtBlank p) {f : Byte → Bool}
    (hf : ∀ c, blank c = true → f c = false) : p.takeWhile f = [] := by
  cases p with
  | nil => rfl
  | cons c p => exact List.takeWhile_cons_of_neg (by simp [hf c hp])

theorem blank_space {c : Byte} (h : isspace c = false) : blank c = false ∧ c ≠ 10 ∧ c ≠ 13 ∧ c ≠ 32 :=
  forall_byte (p := fun c => isspace c = false → blank c = false ∧ c ≠ 10 ∧ c ≠ 13 ∧ c ≠ 32)
    (by decide +kernel) c h

theorem blank_isdigit {c : Byte} (h : blank c = true) : isdigit c = false :=
  forall_byte (p := fun c => blank c = true → isdigit c = false) (by decide +kernel) c h

/-- A word is taken off up to the blank behind it. -/
theorem Word.takeWhile_blank {w : Str} (hw : Word w) {p : Str} (hp : AtBlank p) :
    (w ++ p).takeWhile (fun c => !blank c) = w := by
  rw [List.takeWhile_append_of_pos, hp.takeWhile_nil, List.append_nil]
  · intro c hc
    simp [hc]
  · intro c hc
    simp [(blank_space (hw.plain c hc).1).1]

theorem Word.dropWhile_blank {w : Str} (hw : Word w) {p : Str} (hp : AtBlank p) :
    (w ++ p).dropWhile (fun c => !blank c) = p := by
  have happend := List.takeWhile_append_dropWhile (p := fun c => !blank c) (l := w ++ p)
  rw [hw.takeWhile_blank hp] at happend
  exact List.append_cancel_left happend

theorem modifiers_nil (r : Request) : modifiers [] r = r := by
  rw [modifiers]
  rfl

/-- A token behind a space. -/
theorem modifiers_space {c : Byte} (hc : blank c = false) (q : Str) (r : Request) :
    modifiers (32 :: c :: q) r =
      if c = 33 then modifiers (q.drop ((q.takeWhile fun c => !blank c).take 63).length)
        { r with pass := (q.takeWhile fun c => !blank c).take 63 }
      else if c = 43 then modifiers (q.dropWhile fun c => !blank c) { r with newer := atol q }
      else if c = 85 ∧ (q.head?.all blank) then modifiers q { r with update := true }
      else modifiers q r := by
  have hdrop : (32 :: c :: q).dropWhile blank = c :: q := by
    rw [List.dropWhile_cons_of_pos (by rfl), List.dropWhile_cons_of_neg (by simp [hc])]
  rw [modifiers]
  split
  · next heq => rw [hdrop] at heq; contradiction
  · next c' q' heq =>
    rw [hdrop] at heq
    obtain ⟨rfl, rfl⟩ := List.cons.inj heq
    rfl

theorem modifiers_pass {pw : Str} (hpw : Word pw) (hlen : pw.length ≤ 63) {p : Str} (hp : AtBlank p)
    (r : Request) : modifiers (str " !" ++ pw ++ p) r = modifiers p { r with pass := pw } := by
  have htake : ((pw ++ p).takeWhile fun c => !blank c).take 63 = pw := by
    rw [hpw.takeWhile_blank hp, List.take_of_length_le hlen]
  have h := modifiers_space (c := 33) (by rfl) (pw ++ p) r
  rw [if_pos rfl, htake, List.drop_left] at h
  exact h

theorem atol_decimal {n : ℕ} (hn : n < 2 ^ 63) {p : Str} (hp : AtBlank p) :
    atol (decimal n ++ p) = n := by
  obtain ⟨c, q, hc, hd⟩ := decimal_cons n
  obtain ⟨hspace, -, h45, h43⟩ := digit_not_space hd
  have hdigits : digitsValue (decimal n ++ p) = n := by
    have htake : (decimal n ++ p).takeWhile isdigit = (decimal n).takeWhile isdigit := by
      rw [List.takeWhile_append_of_pos (decimal_isdigit n), hp.takeWhile_nil fun c => blank_isdigit,
        List.append_nil, List.takeWhile_eq_self_iff.mpr (decimal_isdigit n)]
    have hvalue := digitsValue_decimal n
    unfold digitsValue at hvalue ⊢
    rw [htake, hvalue]
  unfold atol
  rw [hc] at hdigits ⊢
  rw [List.cons_append] at hdigits ⊢
  rw [List.dropWhile_cons_of_neg (by simp [hspace])]
  split
  · next heq => exact absurd (List.cons.inj heq).1 h45
  · next heq => exact absurd (List.cons.inj heq).1 h43
  · rw [hdigits, min_eq_left (by omega)]

theorem modifiers_newer {n : Int} (hpos : 0 < n) (hn : n < 2 ^ 63) {p : Str} (hp : AtBlank p) (r : Request) :
    modifiers (str " +" ++ decimalInt n ++ p) r = modifiers p { r with newer := n } := by
  have hdec : decimalInt n = decimal n.natAbs := if_neg (by omega)
  have h := modifiers_space (c := 43) (by rfl) (decimal n.natAbs ++ p) r
  rw [if_neg (by decide), if_pos rfl, (Word.of_decimal _).dropWhile_blank hp,
    atol_decimal (by omega) hp, Int.natCast_natAbs, abs_of_pos hpos] at h
  rw [hdec]
  exact h

theorem modifiers_update {p : Str} (hp : AtBlank p) (r : Request) :
    modifiers (str " U" ++ p) r = modifiers p { r with update := true } := by
  have h := modifiers_space (c := 85) (by rfl) p r
  rw [if_neg (by decide), if_neg (by decide), if_pos ⟨rfl, hp⟩] at h
  exact h

/-! ### One line -/

/-- The parts of a line behind the name. -/
def passPart (r : Request) : Str := if r.pass ≠ [] then str " !" ++ r.pass else []
def newerPart (r : Request) : Str := if 0 < r.newer then str " +" ++ decimalInt r.newer else []
def updatePart (r : Request) : Str := if r.update then str " U" else []

theorem reqLine_parts (r : Request) :
    reqLine r = r.name ++ (passPart r ++ (newerPart r ++ updatePart r)) ++ [13, 10] := by
  unfold reqLine passPart newerPart updatePart
  simp only [List.append_assoc]
  rfl

/-- A request that `freq` can be asked for. -/
structure Request.Valid (r : Request) : Prop where
  safe : isSafeFilename r.name = true
  pass : r.pass = [] ∨ Word r.pass ∧ r.pass.length ≤ 63
  newer_nonneg : 0 ≤ r.newer
  newer_lt : r.newer < 2 ^ 63

theorem updatePart_atBlank (r : Request) : AtBlank (updatePart r) := by
  unfold updatePart
  split_ifs <;> rfl

theorem newerPart_atBlank (r : Request) {p : Str} (hp : AtBlank p) : AtBlank (newerPart r ++ p) := by
  unfold newerPart
  split_ifs
  · rfl
  · exact hp

theorem passPart_atBlank (r : Request) {p : Str} (hp : AtBlank p) : AtBlank (passPart r ++ p) := by
  unfold passPart
  split_ifs
  · rfl
  · exact hp

/-- The modifiers are read back. -/
theorem modifiers_parts {r : Request} (hr : r.Valid) :
    modifiers (passPart r ++ (newerPart r ++ updatePart r)) ⟨r.name, [], 0, false⟩ = r := by
  have hupdate := updatePart_atBlank r
  have hnewer := newerPart_atBlank r hupdate
  have h1 : modifiers (passPart r ++ (newerPart r ++ updatePart r)) ⟨r.name, [], 0, false⟩ =
      modifiers (newerPart r ++ updatePart r) ⟨r.name, r.pass, 0, false⟩ := by
    unfold passPart
    rcases hr.pass with hnone | ⟨hword, hlen⟩
    · rw [if_neg (not_not_intro hnone), hnone, List.nil_append]
    · rw [if_pos hword.ne_nil, modifiers_pass hword hlen hnewer]
  have h2 : modifiers (newerPart r ++ updatePart r) ⟨r.name, r.pass, 0, false⟩ =
      modifiers (updatePart r) ⟨r.name, r.pass, r.newer, false⟩ := by
    have hnonneg := hr.newer_nonneg
    unfold newerPart
    split_ifs with hpos
    · rw [modifiers_newer hpos hr.newer_lt hupdate]
    · rw [List.nil_append, show r.newer = 0 by omega]
  have h3 : modifiers (updatePart r) ⟨r.name, r.pass, r.newer, false⟩ = r := by
    unfold updatePart
    cases hu : r.update with
    | false =>
      rw [if_neg (by decide), modifiers_nil, ← hu]
    | true =>
      have h := modifiers_update (p := []) rfl ⟨r.name, r.pass, r.newer, false⟩
      rw [List.append_nil, modifiers_nil] at h
      rw [if_pos rfl, h, ← hu]
  rw [h1, h2, h3]

theorem safe_byte {c : Byte} (h : (isalnum c || c == 46 || c == 95 || c == 45) = true) :
    isspace c = false ∧ c ≠ 0 ∧ c ≠ 59 ∧ c ≠ 35 :=
  forall_byte (p := fun c => (isalnum c || c == 46 || c == 95 || c == 45) = true →
    isspace c = false ∧ c ≠ 0 ∧ c ≠ 59 ∧ c ≠ 35) (by decide +kernel) c h

/-- A safe name is a word of at most 255 bytes that does not begin a comment. -/
theorem safe_word {name : Str} (h : isSafeFilename name = true) :
    Word name ∧ name.length ≤ 255 ∧ ∀ c ∈ name, c ≠ 59 ∧ c ≠ 35 := by
  simp only [isSafeFilename, Bool.and_eq_true, decide_eq_true_eq, List.all_eq_true] at h
  obtain ⟨⟨⟨⟨⟨hne, hlen⟩, -⟩, -⟩, -⟩, hall⟩ := h
  refine ⟨⟨hne, fun c hc => ?_⟩, hlen, fun c hc => ?_⟩
  · obtain ⟨hspace, hzero, -, -⟩ := safe_byte (hall c hc)
    exact ⟨hspace, hzero⟩
  · exact (safe_byte (hall c hc)).2.2

/-- The last byte, if there is one, is no white space. -/
def Tight (s : Str) : Prop := ∀ c ∈ s.getLast?, isspace c = false

theorem Word.tight {w : Str} (hw : Word w) : Tight w :=
  fun c hc => (hw.plain c (List.mem_of_getLast? hc)).1

theorem Tight.append {a b : Str} (ha : Tight a) (hb : Tight b) : Tight (a ++ b) := by
  intro c hc
  rw [List.getLast?_append] at hc
  cases hlast : b.getLast? with
  | none =>
    rw [hlast] at hc
    exact ha c hc
  | some d =>
    rw [hlast] at hc
    obtain rfl := Option.some.inj hc
    exact hb d hlast

/-- `str_trim` takes the end of the line off. -/
theorem strTrim_tight {s : Str} (h : Tight s) : strTrim s = s := by
  unfold strTrim
  cases hrev : s.reverse with
  | nil =>
    rw [List.reverse_eq_nil_iff.mp hrev]
    rfl
  | cons c l =>
    have hlast : c ∈ s.getLast? := by
      rw [← List.head?_reverse, hrev]
      rfl
    obtain ⟨-, h10, h13, h32⟩ := blank_space (h c hlast)
    rw [List.dropWhile_cons_of_neg (by simp [h10, h13, h32]), ← hrev, List.reverse_reverse]

theorem strTrim_line {body : Str} (hbody : Tight body) : strTrim (body ++ [13, 10]) = body := by
  have hsplit : body ++ [13, 10] = body ++ [13] ++ [10] := by simp
  rw [hsplit, strTrim_snoc (.inr (.inl rfl)), strTrim_snoc (.inl rfl), strTrim_tight hbody]

theorem body_tight {r : Request} (hr : r.Valid) :
    Tight (r.name ++ (passPart r ++ (newerPart r ++ updatePart r))) := by
  have hnil : Tight [] := by simp [Tight]
  have hpass : Tight (passPart r) := by
    unfold passPart
    rcases hr.pass with hnone | ⟨hword, -⟩
    · rwa [if_neg (not_not_intro hnone)]
    · rw [if_pos hword.ne_nil]
      exact Tight.append (a := str " !") (by simp [Tight, str]; decide) hword.tight
  have hnewer : Tight (newerPart r) := by
    unfold newerPart
    split_ifs with hpos
    · have hdec : decimalInt r.newer = decimal r.newer.natAbs := if_neg (by omega)
      rw [hdec]
      exact Tight.append (a := str " +") (by simp [Tight, str]; decide) (Word.of_decimal _).tight
    · exact hnil
  have hupdate : Tight (updatePart r) := by
    unfold updatePart
    split_ifs
    · simp [Tight, str]
      decide
    · exact hnil
  exact (safe_word hr.safe).1.tight.append (hpass.append (hnewer.append hupdate))

theorem body_plain {r : Request} (hr : r.Valid) :
    ∀ c ∈ r.name ++ (passPart r ++ (newerPart r ++ updatePart r)), c ≠ 0 ∧ c ≠ 10 := by
  have hword : ∀ {w : Str}, Word w → ∀ c ∈ w, c ≠ 0 ∧ c ≠ 10 :=
    fun hw c hc => ⟨(hw.plain c hc).2, (blank_space (hw.plain c hc).1).2.1⟩
  have hpass : ∀ c ∈ passPart r, c ≠ 0 ∧ c ≠ 10 := by
    unfold passPart
    rcases hr.pass with hnone | ⟨hw, -⟩
    · simp [hnone]
    · rw [if_pos hw.ne_nil, List.forall_mem_append]
      exact ⟨by decide +kernel, hword hw⟩
  have hnewer : ∀ c ∈ newerPart r, c ≠ 0 ∧ c ≠ 10 := by
    unfold newerPart
    split_ifs with hpos
    · have hdec : decimalInt r.newer = decimal r.newer.natAbs := if_neg (by omega)
      rw [hdec, List.forall_mem_append]
      exact ⟨by decide +kernel, hword (Word.of_decimal _)⟩
    · simp
  have hupdate : ∀ c ∈ updatePart r, c ≠ 0 ∧ c ≠ 10 := by
    unfold updatePart
    split_ifs
    · decide +kernel
    · simp
  simp only [List.forall_mem_append]
  exact ⟨hword (safe_word hr.safe).1, hpass, hnewer, hupdate⟩

theorem body_length {r : Request} (hr : r.Valid) :
    (r.name ++ (passPart r ++ (newerPart r ++ updatePart r))).length < 1000 := by
  have hname := (safe_word hr.safe).2.1
  have hpass : (passPart r).length ≤ 65 := by
    unfold passPart
    rcases hr.pass with hnone | ⟨hw, hlen⟩
    · simp [hnone]
    · rw [if_pos hw.ne_nil, List.length_append]
      have : (str " !").length = 2 := by rfl
      omega
  have hnewer : (newerPart r).length ≤ 22 := by
    have hlt := hr.newer_lt
    unfold newerPart
    split_ifs with hpos
    · have hdec : decimalInt r.newer = decimal r.newer.natAbs := if_neg (by omega)
      have hdigits := decimal_length (n := r.newer.natAbs) (by omega)
      have : (str " +").length = 2 := by rfl
      rw [hdec, List.length_append]
      omega
    · simp
  have hupdate : (updatePart r).length ≤ 2 := by
    unfold updatePart
    split_ifs <;> decide
  simp only [List.length_append]
  omega

theorem strstr_self (pat r : Str) : strstr pat (pat ++ r) = some (pat ++ r) := by
  cases pat with
  | nil => cases r <;> simp [strstr]
  | cons c pat => simp [strstr]

/-- Does the name begin as the URLs that `srifreq` skips? -/
def LooksLikeUrl (name : Str) : Prop :=
  (str "http").isPrefixOf name = true ∨ (str "ftp").isPrefixOf name = true

instance (name : Str) : Decidable (LooksLikeUrl name) := by
  unfold LooksLikeUrl
  infer_instance

/-- A line is read back, unless the name looks like a URL: then it is skipped. -/
theorem parseRequest_reqLine {r : Request} (hr : r.Valid) :
    parseRequest (reqLine r) = if LooksLikeUrl r.name then none else some r := by
  obtain ⟨hword, hlen, hcomment⟩ := safe_word hr.safe
  obtain ⟨c, n, hname⟩ := List.exists_cons_of_ne_nil hword.ne_nil
  have hc := hword.plain c (by rw [hname]; exact List.mem_cons_self)
  have hc' := hcomment c (by rw [hname]; exact List.mem_cons_self)
  have htrim : strTrim (reqLine r) = r.name ++ (passPart r ++ (newerPart r ++ updatePart r)) := by
    rw [reqLine_parts, strTrim_line (body_tight hr)]
  have hblank : AtBlank (passPart r ++ (newerPart r ++ updatePart r)) :=
    passPart_atBlank r (newerPart_atBlank r (updatePart_atBlank r))
  have hscan : (((r.name ++ (passPart r ++ (newerPart r ++ updatePart r))).dropWhile isspace).takeWhile
      fun c => !isspace c).take 1023 = r.name := by
    have hstart : (r.name ++ (passPart r ++ (newerPart r ++ updatePart r))).dropWhile isspace =
        r.name ++ (passPart r ++ (newerPart r ++ updatePart r)) := by
      rw [hname, List.cons_append, List.dropWhile_cons_of_neg (by simp [hc.1])]
    rw [hstart, List.takeWhile_append_of_pos fun c hc => by simp [(hword.plain c hc).1],
      hblank.takeWhile_nil fun c hc => by
        rw [forall_byte (p := fun c => blank c = true → isspace c = true) (by decide +kernel) c hc]
        rfl,
      List.append_nil, List.take_of_length_le (by omega)]
  unfold parseRequest
  dsimp only
  rw [htrim, if_neg, hscan, if_neg hword.ne_nil, strstr_self]
  · dsimp only
    rw [List.drop_left, modifiers_parts hr]
    rfl
  · simp [hname, hc'.1, hc'.2]

/-! ### The file -/

/-- The line of a request is one that `fgets` reads. -/
theorem reqLine_textLine {r : Request} (hr : r.Valid) : ∃ w, TextLine w ∧ reqLine r = w ++ [10] := by
  have hlen := body_length hr
  have hplain := body_plain hr
  refine ⟨r.name ++ (passPart r ++ (newerPart r ++ updatePart r)) ++ [13], ⟨?_, ?_, ?_⟩, ?_⟩
  · intro h10
    rcases List.mem_append.mp h10 with h10 | h10
    · exact (hplain 10 h10).2 rfl
    · contradiction
  · intro h0
    rcases List.mem_append.mp h0 with h0 | h0
    · exact (hplain 0 h0).1 rfl
    · contradiction
  · rw [List.length_append, List.length_singleton]
    omega
  · rw [reqLine_parts]
    simp

/-- The requests of a call of `freq`. -/
def requests (password : Str) (newerThan : Int) (update : Bool) (names : List Str) : List Request :=
  names.map fun name => ⟨name, password, newerThan, update⟩

theorem freqAppend_safe {password : Str} {newerThan : Int} {update : Bool} {names : List Str}
    (hsafe : ∀ name ∈ names, isSafeFilename name = true) :
    freqAppend password newerThan update names =
      some ((requests password newerThan update names).flatMap reqLine) := by
  induction names with
  | nil => rfl
  | cons name names ih =>
    rw [freqAppend, if_pos (hsafe name List.mem_cons_self),
      ih fun n hn => hsafe n (List.mem_cons_of_mem _ hn)]
    rfl

/-- The lines of the file are read one by one. -/
theorem readLines_requests {rs : List Request} (hrs : ∀ r ∈ rs, r.Valid) {fuel : ℕ} (hfuel : rs.length ≤ fuel) :
    readLines fuel (rs.flatMap reqLine) = rs.map reqLine := by
  rw [List.flatMap_def]
  apply readLines_flatten
  · intro line hline
    obtain ⟨r, hr, rfl⟩ := List.mem_map.mp hline
    exact reqLine_textLine (hrs r hr)
  · rwa [List.length_map]

theorem length_flatMap_reqLine (rs : List Request) : rs.length ≤ (rs.flatMap reqLine).length := by
  induction rs with
  | nil => exact Nat.zero_le _
  | cons r rs ih =>
    rw [List.flatMap_cons, List.length_append, List.length_cons, reqLine_parts, List.length_append]
    simp only [List.length_cons, List.length_nil]
    omega

/-- What is read from the file: the requests whose names do not look like a URL. -/
theorem readRequests_freqAppend {rs : List Request} (hrs : ∀ r ∈ rs, r.Valid) :
    readRequests (rs.flatMap reqLine) = rs.filter fun r => !decide (LooksLikeUrl r.name) := by
  unfold readRequests
  rw [readLines_requests hrs (length_flatMap_reqLine rs)]
  induction rs with
  | nil => rfl
  | cons r rs ih =>
    rw [List.map_cons, List.filterMap_cons, parseRequest_reqLine (hrs r List.mem_cons_self),
      ih fun r hr => hrs r (List.mem_cons_of_mem _ hr)]
    by_cases hurl : LooksLikeUrl r.name
    · rw [if_pos hurl, List.filter_cons_of_neg (by simpa using hurl)]
    · rw [if_neg hurl, List.filter_cons_of_pos (by simpa using hurl)]

/-- **File requests** are read back as they were written, exactly if no name begins as a URL. -/
theorem freq_roundtrip (names : List Str) (password : Str) (newerThan : Int) (update : Bool)
    (hsafe : ∀ name ∈ names, isSafeFilename name = true)
    (hpassword : password = [] ∨ Word password ∧ password.length ≤ 63)
    (hnonneg : 0 ≤ newerThan) (hlong : newerThan < 2 ^ 63) :
    (∃ file, freqAppend password newerThan update names = some file ∧
      readRequests file = requests password newerThan update names) ↔
    ∀ name ∈ names, ¬ LooksLikeUrl name := by
  have hvalid : ∀ r ∈ requests password newerThan update names, r.Valid := by
    intro r hr
    obtain ⟨name, hname, rfl⟩ := List.mem_map.mp hr
    exact ⟨hsafe name hname, hpassword, hnonneg, hlong⟩
  have hread := readRequests_freqAppend hvalid
  have hkept : (requests password newerThan update names).filter (fun r => !decide (LooksLikeUrl r.name)) =
      requests password newerThan update names ↔ ∀ name ∈ names, ¬ LooksLikeUrl name := by
    rw [List.filter_eq_self]
    simp [requests]
  rw [freqAppend_safe hsafe, ← hkept, ← hread]
  constructor
  · rintro ⟨file, hfile, h⟩
    obtain rfl := Option.some.inj hfile
    exact h
  · intro h
    exact ⟨_, rfl, h⟩

/-- The request for a file with such a name is dropped. -/
theorem ftp_name_dropped : isSafeFilename (str "ftp.zip") = true ∧
    ∃ file, freqAppend [] 0 false [str "ftp.zip"] = some file ∧ file = str "ftp.zip\r\n" ∧
      readRequests file = [] ∧ requests [] 0 false [str "ftp.zip"] ≠ [] :=
  ⟨by decide +kernel, _, rfl, by decide +kernel, by decide +kernel, by decide +kernel⟩

/-- A request with all modifiers. -/
theorem freq_roundtrip_all : ∃ file,
    freqAppend (str "secret") 1700000000 true [str "FILES", str "a-1.zip"] = some file ∧
      readRequests file = requests (str "secret") 1700000000 true [str "FILES", str "a-1.zip"] :=
  (freq_roundtrip [str "FILES", str "a-1.zip"] (str "secret") 1700000000 true (by decide +kernel)
    (.inr ⟨⟨by decide +kernel, by decide +kernel⟩, by decide +kernel⟩) (by decide) (by decide)).mpr (by decide +kernel)

end Binkd

import Binkd.Binding
import Binkd.HeaderLine
import Binkd.Misc.Srifreq
import Binkd.Outbound
import Binkd.Presentation
import Binkd.Quoting
import Binkd.Srif

/-!
# The request file (`srif.c`, `misc/srifreq.c`)

The mailer hands a file request to a processor in a file of lines: who the remote is, whether it has
given a password, and where the requests and the answers are.  The processor reads the lines
one by one.

The name of the system operator and the addresses come from the remote, the paths from the name of its file.
Whatever it sends, the processor takes it for the node as which it has logged in (`srif_identity`).
-/

namespace Binkd

open Lib

/-! ### The reader -/

/-- What `parse_srif` gathers. -/
structure SrifData extends SRIF where
  sysop : Str := []
  requestList : Str := []
  responseList : Str := []
  ourAka : Str := []
  callerId : Str := []
  timeLimit : Int := -1
  listed : Bool := true
  gotRequestList : Bool := false
  gotResponseList : Bool := false

/-- What it starts with. -/
def srifDefaults : SrifData where
  aka := []
  password := []
  tranx := 0
  protectedSess := false

/-- `sscanf (s, "%lx", &v)` with `v` 0 before, as a `long` of 64 bits. -/
def scanLx (s : Str) : Int :=
  let s := s.dropWhile isspace
  let (minus, s) := match s with
    | 45 :: r => (true, r)
    | 43 :: r => (false, r)
    | _ => (false, s)
  let s := match s with
    | 48 :: x :: d :: r => if (x = 120 ∨ x = 88) ∧ isxdigit d then d :: r else s
    | _ => s
  let v := hexNat (s.takeWhile isxdigit)
  if 2 ^ 64 ≤ v then -1 else (if minus then -(v : Int) else v).bmod (2 ^ 64)

/-- `sscanf (line, "%1023s %1023[^\n]", token, value)`: where the line has no value, the array keeps
what it holds. -/
def scanSrif (line value : Str) : Option (Str × Str) :=
  match line.dropWhile isspace with
  | [] => none
  | c :: r =>
    let token := ((c :: r).takeWhile (!isspace ·)).take 1023
    let found := ((((c :: r).drop token.length).dropWhile isspace).takeWhile (· != 10)).take 1023
    some (token, if found = [] then value else found)

/-- The chain of comparisons for one line. -/
def srifField (token value : Str) (srif : SrifData) : SrifData :=
  let token := token.map toupper
  if token = str "SYSOP" then { srif with sysop := value.take 127 }
  else if token = str "AKA" ∧ srif.aka = [] then { srif with aka := value.take 255 }
  else if token = str "REQUESTLIST" then
    { srif with requestList := value.take (maxPathLen - 1), gotRequestList := true }
  else if token = str "RESPONSELIST" then
    { srif with responseList := value.take (maxPathLen - 1), gotResponseList := true }
  else if token = str "OURAKA" then { srif with ourAka := value.take 127 }
  else if token = str "PASSWORD" then { srif with password := value.take 63 }
  else if token = str "CALLERID" then { srif with callerId := value.take 63 }
  else if token = str "TIME" then { srif with timeLimit := atoi value }
  else if token = str "TRANX" then { srif with tranx := scanLx value }
  else if token = str "REMOTESTATUS" then
    { srif with protectedSess := (str "PROTECTED").isPrefixOf ((value.take 31).map toupper) }
  else if token = str "SYSTEMSTATUS" then
    { srif with listed := (str "LISTED").isPrefixOf ((value.take 31).map toupper) }
  else srif

/-- One round of the loop of `parse_srif`, with the array `value`. -/
def srifLine (r : Str × SrifData) (line : Str) : Str × SrifData :=
  match scanSrif ((line.takeWhile (· != 10)).takeWhile (· != 13)) r.1 with
  | none => r
  | some (token, value) => (value, srifField token value r.2)

/-- `parse_srif` of a file: `value` is what the array holds before. -/
def parseSrif (value : Str) (bytes : List Byte) : SrifData :=
  ((readLines bytes.length bytes).foldl srifLine (value, srifDefaults)).2

/-! ### Reading line by line -/

/-- `fgets` stops at the line feed at the latest. -/
theorem fgets_through (a : List Byte) : ∃ n, 0 < n ∧ n ≤ a.length + 1 ∧ ∀ rest,
    fgets maxLine (a ++ 10 :: rest) = some ((a ++ [10]).take n, (a ++ [10]).drop n ++ rest) := by
  obtain ⟨body, hbody, t, ha⟩ : ∃ body : List Byte, (∀ c ∈ body, (c != 10) = true) ∧ ∃ t,
      a ++ [10] = body ++ 10 :: t := by
    have hmem : (10 : Byte) ∈ a ++ [10] := by simp
    obtain ⟨body, t, ha, hno⟩ := List.eq_append_cons_of_mem hmem
    refine ⟨body, fun c hc => ?_, t, ha⟩
    have hne : c ≠ 10 := fun h => hno (h ▸ hc)
    simpa using hne
  have hlen := congrArg List.length ha
  simp only [List.length_append, List.length_cons, List.length_nil] at hlen
  refine ⟨min (body.length + 1) 1023, by omega, by omega, fun rest => ?_⟩
  have hbytes : a ++ 10 :: rest = body ++ 10 :: (t ++ rest) := by
    rw [← List.singleton_append, ← List.append_assoc, ha, List.append_assoc, List.cons_append]
  have hwhile : (body ++ 10 :: (t ++ rest)).takeWhile (· != 10) = body := by
    rw [List.takeWhile_append_of_pos hbody]
    simp
  have hhead : (body ++ 10 :: t).take (body.length + 1) = body ++ [10] := by
    rw [← List.singleton_append, ← List.append_assoc, List.take_left' (by simp)]
  have hline : (body ++ [10]).take 1023 = (body ++ 10 :: t).take (min (body.length + 1) 1023) := by
    rw [Nat.min_comm, ← List.take_take, hhead]
  have hsize : ((body ++ 10 :: t).take (min (body.length + 1) 1023)).length = min (body.length + 1) 1023 := by
    rw [List.length_take, List.length_append, List.length_cons]
    omega
  have hrest : (body ++ 10 :: t) ++ rest = body ++ 10 :: (t ++ rest) := by
    rw [List.append_assoc, List.cons_append]
  rw [hbytes, ha]
  unfold fgets
  split
  · next heq => exact absurd heq (by simp)
  · dsimp only
    rw [hwhile, if_pos (by simp), show maxLine - 1 = 1023 from rfl, hline, hsize, ← hrest,
      List.drop_append_of_le_length (by simp)]

/-- A text that ends with a line feed is read for itself. -/
theorem readLines_append (b : List Byte) (hb : b = [] ∨ b.getLast? = some 10) :
    ∃ lines, ∀ rest fuel, (b ++ rest).length ≤ fuel →
      ∃ k, rest.length ≤ k ∧ readLines fuel (b ++ rest) = lines ++ readLines k rest := by
  induction hn : b.length using Nat.strong_induction_on generalizing b with
  | _ n ih =>
    rcases List.eq_nil_or_concat' b with rfl | ⟨a, c, rfl⟩
    · exact ⟨[], fun rest fuel hfuel => ⟨fuel, hfuel, rfl⟩⟩
    · obtain rfl : c = 10 := by simpa using hb
      obtain ⟨m, hpos, hle, hread⟩ := fgets_through a
      have hlast : ((a ++ [10]).drop m) = [] ∨ ((a ++ [10]).drop m).getLast? = some 10 := by
        by_cases hm : m = a.length + 1
        · exact .inl (List.drop_eq_nil_of_le (by simp; omega))
        · rw [List.drop_append_of_le_length (by omega)]
          exact .inr (by simp)
      obtain ⟨lines, hlines⟩ := ih ((a ++ [10]).drop m).length
        (by rw [← hn]; simp; omega) ((a ++ [10]).drop m) hlast rfl
      refine ⟨cstr ((a ++ [10]).take m) :: lines, fun rest fuel hfuel => ?_⟩
      obtain ⟨fuel, rfl⟩ : ∃ k, fuel = k + 1 := ⟨fuel - 1, by simp at hfuel; omega⟩
      obtain ⟨k, hk, heq⟩ := hlines rest fuel (by simp at hfuel ⊢; omega)
      refine ⟨k, hk, ?_⟩
      rw [readLines, List.append_assoc, List.singleton_append, hread rest]
      dsimp only
      rw [heq, List.cons_append]

/-- The loop over the lines comes from one result to another with these bytes. -/
def Consumes {α : Type} (f : α → Str → α) (bytes : List Byte) (r r' : α) : Prop :=
  ∀ rest fuel, (bytes ++ rest).length ≤ fuel →
    ∃ k, rest.length ≤ k ∧ (readLines fuel (bytes ++ rest)).foldl f r = (readLines k rest).foldl f r'

variable {α : Type} {f : α → Str → α} {x y : List Byte} {r r1 r2 : α}

theorem Consumes.append (h : Consumes f x r r1) (h' : Consumes f y r1 r2) : Consumes f (x ++ y) r r2 := by
  intro rest fuel hfuel
  rw [List.append_assoc] at hfuel ⊢
  obtain ⟨k, hk, heq⟩ := h (y ++ rest) fuel hfuel
  obtain ⟨k', hk', heq'⟩ := h' rest k hk
  exact ⟨k', hk', heq.trans heq'⟩

theorem Consumes.line {w : Str} (hw : TextLine w) : Consumes f (w ++ [10]) r (f r (w ++ [10])) := by
  intro rest fuel hfuel
  obtain ⟨fuel, rfl⟩ : ∃ k, fuel = k + 1 := ⟨fuel - 1, by simp at hfuel; omega⟩
  refine ⟨fuel, by simp at hfuel; omega, ?_⟩
  rw [readLines, hw.fgets_eq]
  dsimp only
  rw [hw.cstr_eq, List.foldl_cons]

/-- Any lines at all. -/
theorem consumes_any (b : List Byte) : ∃ lines : List Str, ∀ (α : Type) (f : α → Str → α) (r : α),
    Consumes f (b ++ [10]) r (lines.foldl f r) := by
  obtain ⟨lines, hlines⟩ := readLines_append (b ++ [10]) (.inr (by simp))
  refine ⟨lines, fun α f r rest fuel hfuel => ?_⟩
  obtain ⟨k, hk, heq⟩ := hlines rest fuel hfuel
  exact ⟨k, hk, by rw [heq, List.foldl_append]⟩

/-- The result for the whole file. -/
theorem Consumes.result (h : Consumes f x r r1) : (readLines x.length x).foldl f r = r1 := by
  obtain ⟨k, -, heq⟩ := h [] x.length (by simp)
  rw [List.append_nil] at heq
  rw [heq]
  cases k <;> rfl

/-! ### Lines with a key -/

/-- A line of the file. -/
def keyLine (key value : Str) : List Byte := key ++ [32] ++ value ++ [10]

/-- A value that is read as it was written. -/
structure PlainValue (value : Str) : Prop where
  ne_nil : value ≠ []
  head : isspace (value.headD 0) = false
  newline : 10 ∉ value
  cr : 13 ∉ value
  nul : 0 ∉ value
  length : value.length ≤ 1000

theorem Unbroken.plainValue {w : Str} (h : Unbroken w) (hne : w ≠ []) (hlength : w.length ≤ 1000) :
    PlainValue w where
  ne_nil := hne
  head := by
    obtain ⟨c, v, rfl⟩ := List.exists_cons_of_ne_nil hne
    exact (h c List.mem_cons_self).1
  newline hc := absurd (h 10 hc).1 (by decide)
  cr hc := absurd (h 13 hc).1 (by decide)
  nul hc := (h 0 hc).2.1 rfl
  length := hlength

theorem Word.of_check {w : Str} (h : (!w.isEmpty && w.all fun c => !isspace c && c != 0) = true) : Word w := by
  obtain ⟨hne, hall⟩ := (Bool.and_eq_true _ _).mp h
  refine ⟨by simpa using hne, fun c hc => ?_⟩
  simpa using List.all_eq_true.mp hall c hc

theorem textLine_key {key value : Str} (hkey : Word key) (hsize : key.length ≤ 20) (hnewline : 10 ∉ value)
    (hnul : 0 ∉ value) (hlength : value.length ≤ 1000) : TextLine (key ++ [32] ++ value) where
  newline hc := by
    rcases List.mem_append.mp hc with hc | hc
    · rcases List.mem_append.mp hc with hc | hc
      · exact absurd (hkey.plain 10 hc).1 (by decide)
      · contradiction
    · exact hnewline hc
  nul hc := by
    rcases List.mem_append.mp hc with hc | hc
    · rcases List.mem_append.mp hc with hc | hc
      · exact (hkey.plain 0 hc).2 rfl
      · contradiction
    · exact hnul hc
  length := by
    rw [List.length_append, List.length_append, List.length_singleton]
    omega

/-- The two items of a line. -/
theorem scanSrif_key {key t old : Str} (hkey : Word key) (hsize : key.length ≤ 20) :
    scanSrif (key ++ 32 :: t) old = some (key,
      if ((t.dropWhile isspace).takeWhile (· != 10)).take 1023 = [] then old
      else ((t.dropWhile isspace).takeWhile (· != 10)).take 1023) := by
  obtain ⟨c, k, hcons⟩ := List.exists_cons_of_ne_nil hkey.ne_nil
  have hstart : (key ++ 32 :: t).dropWhile isspace = key ++ 32 :: t := by
    have hc := (hkey.plain c (hcons ▸ List.mem_cons_self)).1
    rw [hcons, List.cons_append, List.dropWhile_cons_of_neg (by simp [hc])]
  have htoken : (key ++ 32 :: t).takeWhile (!isspace ·) = key := by
    rw [List.takeWhile_append_of_pos fun c hc => by simp [(hkey.plain c hc).1],
      List.takeWhile_cons_of_neg (by decide), List.append_nil]
  unfold scanSrif
  rw [hstart]
  split
  · next heq => exact absurd heq (by simp)
  · next heq =>
    dsimp only
    rw [← heq, htoken, List.take_of_length_le (by omega), List.drop_left,
      List.dropWhile_cons_of_pos (by decide)]

/-- What a line does whose value may be anything. -/
theorem srifLine_key {key : Str} (value : Str) (hkey : Word key) (hsize : key.length ≤ 20) (r : Str × SrifData) :
    ∃ v, srifLine r (keyLine key value) = (v, srifField key v r.2) ∧ (PlainValue value → v = value) := by
  have hbyte : ∀ b : Byte, isspace b = true → ∀ c ∈ key, (c != b) = true := by
    intro b hb c hc
    have hne : c ≠ b := fun h => by simp [← h, (hkey.plain c hc).1] at hb
    simpa using hne
  have hcut : ((keyLine key value).takeWhile (· != 10)).takeWhile (· != 13) =
      key ++ 32 :: ((value ++ [10]).takeWhile (· != 10)).takeWhile (· != 13) := by
    rw [keyLine, List.append_assoc, List.append_assoc, List.takeWhile_append_of_pos (hbyte 10 (by decide)),
      List.singleton_append, List.takeWhile_cons_of_pos (by decide),
      List.takeWhile_append_of_pos (hbyte 13 (by decide)), List.takeWhile_cons_of_pos (by decide)]
  unfold srifLine
  rw [hcut, scanSrif_key hkey hsize]
  refine ⟨_, rfl, fun h => ?_⟩
  have hnewline : ∀ c ∈ value, (c != 10) = true := by
    intro c hc
    have hne : c ≠ 10 := fun h10 => h.newline (h10 ▸ hc)
    simpa using hne
  have hcr : ∀ c ∈ value, (c != 13) = true := by
    intro c hc
    have hne : c ≠ 13 := fun h13 => h.cr (h13 ▸ hc)
    simpa using hne
  have hfound : (((((value ++ [10]).takeWhile (· != 10)).takeWhile (· != 13)).dropWhile isspace).takeWhile
      (· != 10)).take 1023 = value := by
    have hline : (value ++ [10]).takeWhile (· != 10) = value := by
      rw [List.takeWhile_append_of_pos hnewline]
      simp
    have hdrop : value.dropWhile isspace = value := by
      obtain ⟨c, v, hcons⟩ := List.exists_cons_of_ne_nil h.ne_nil
      have hhead := h.head
      rw [hcons] at hhead ⊢
      exact List.dropWhile_cons_of_neg (by simpa using hhead)
    have hlength := h.length
    rw [hline, List.takeWhile_eq_self_iff.mpr hcr, hdrop, List.takeWhile_eq_self_iff.mpr hnewline,
      List.take_of_length_le (by omega)]
  rw [hfound, if_neg h.ne_nil]

/-- A line that `fgets` reads as a whole. -/
theorem consumes_key (key value : Str) (hkey : Word key) (hsize : key.length ≤ 20)
    (hline : TextLine (key ++ [32] ++ value)) (r : Str × SrifData) :
    ∃ v, Consumes srifLine (keyLine key value) r (v, srifField key v r.2) ∧ (PlainValue value → v = value) := by
  obtain ⟨v, heq, hplain⟩ := srifLine_key value hkey hsize r
  refine ⟨v, ?_, hplain⟩
  rw [← heq]
  exact .line hline

theorem consumes_plain (key value : Str) (hkey : Word key) (hsize : key.length ≤ 20) (hvalue : PlainValue value)
    (r : Str × SrifData) : Consumes srifLine (keyLine key value) r (value, srifField key value r.2) := by
  obtain ⟨v, h, hv⟩ := consumes_key key value hkey hsize
    (textLine_key hkey hsize hvalue.newline hvalue.nul hvalue.length) r
  rwa [hv hvalue] at h

/-- The first address stays. -/
theorem srifField_aka {srif : SrifData} (h : srif.aka ≠ []) (token value : Str) :
    (srifField token value srif).aka = srif.aka := by
  unfold srifField
  dsimp only
  rw [if_neg fun haka : token.map toupper = str "AKA" ∧ srif.aka = [] => h haka.2]
  iterate 10
    split
    · rfl
  rfl

theorem foldl_srifLine_aka (lines : List Str) {r : Str × SrifData} (h : r.2.aka ≠ []) :
    (lines.foldl srifLine r).2.aka = r.2.aka := by
  induction lines generalizing r with
  | nil => rfl
  | cons line lines ih =>
    have hstep : (srifLine r line).2.aka = r.2.aka := by
      unfold srifLine
      split
      · rfl
      · exact srifField_aka h _ _
    rw [List.foldl_cons, ih (by rw [hstep]; exact h), hstep]

/-! ### What the mailer writes -/

/-- A name that a text of an address can have for its domain, or none. -/
def PlainDomain (domain : Str) : Prop := domain = [] ∨ DomainWord domain

instance (domain : Str) : Decidable (PlainDomain domain) := inferInstanceAs (Decidable (_ ∨ _))

/-- What a session keeps of what the remote has said of itself. -/
structure PlainRemote (l : Login) : Prop where
  newline : 10 ∉ l.sysop
  nul : 0 ∉ l.sysop
  length : l.sysop.length ≤ 120
  domain : ∀ a ∈ l.fa, PlainDomain a.domain

theorem ftnaddressToStr_plain {a : FtnAddr} (h : PlainDomain a.domain) :
    PlainValue (ftnaddressToStr a) ∧ (ftnaddressToStr a).length ≤ 255 := by
  obtain ⟨c, r, hcons, -⟩ := ftnaddressToStr_head a
  have hfits : a.Fits := by
    rcases h with h | h
    · exact ⟨by rw [h]; exact Nat.zero_le _, by rw [h]; exact List.not_mem_nil⟩
    · exact ⟨h.length, fun h0 => (wordByte_unbroken (h.bytes 0 h0)).2.1 rfl⟩
  have hlength := ftnaddressToStr_length hfits
  have hsize : ftnAddrSz ≤ 255 := by decide
  refine ⟨(ftnaddressToStr_unbroken h).plainValue ?_ (by omega), by omega⟩
  rw [hcons]
  exact List.cons_ne_nil c r

/-- The lines of the addresses: the first one stands for the remote. -/
theorem consumes_akas (akas : List FtnAddr) (h : ∀ a ∈ akas, PlainDomain a.domain) (r : Str × SrifData) :
    ∃ v, Consumes srifLine ((akas.map fun a => keyLine (str "AKA") (ftnaddressToStr a)).flatten) r
      (v, { r.2 with aka := if r.2.aka = [] then (akas.head?.map ftnaddressToStr).getD [] else r.2.aka }) := by
  have hkey : Word (str "AKA") := .of_check (by decide)
  induction akas generalizing r with
  | nil =>
    refine ⟨r.1, fun rest fuel hfuel => ⟨fuel, hfuel, ?_⟩⟩
    have hsame : (if r.2.aka = [] then [] else r.2.aka) = r.2.aka := by
      split_ifs with hnil
      · exact hnil.symm
      · rfl
    change (readLines fuel rest).foldl srifLine r = _
    rw [List.head?_nil, Option.map_none, Option.getD_none, hsame]
  | cons a akas ih =>
    obtain ⟨hplain, hlength⟩ := ftnaddressToStr_plain (h a List.mem_cons_self)
    have hline := consumes_plain _ _ hkey (by decide) hplain r
    obtain ⟨v, hrest⟩ := ih (fun b hb => h b (List.mem_cons_of_mem a hb))
      (ftnaddressToStr a, srifField (str "AKA") (ftnaddressToStr a) r.2)
    refine ⟨v, ?_⟩
    rw [List.map_cons, List.flatten_cons]
    convert hline.append hrest using 2
    rw [List.head?_cons, Option.map_some, Option.getD_some]
    by_cases hnil : r.2.aka = []
    · have hfield : srifField (str "AKA") (ftnaddressToStr a) r.2 = { r.2 with aka := ftnaddressToStr a } := by
        unfold srifField
        dsimp only
        rw [if_neg (by decide), if_pos ⟨by decide, hnil⟩, List.take_of_length_le hlength]
      rw [hfield, if_pos hnil]
      dsimp only
      rw [if_neg hplain.ne_nil]
    · have hfield : srifField (str "AKA") (ftnaddressToStr a) r.2 = r.2 := by
        unfold srifField
        dsimp only
        rw [if_neg (by decide), if_neg fun hboth => hnil hboth.2]
        rfl
      rw [hfield, if_neg hnil]
      dsimp only
      rw [if_neg hnil]

/-- The part of the file that depends on the paths. -/
def srifPaths (req rsp : Str) : List Byte :=
  keyLine (str "Baud") (str "115200") ++ (keyLine (str "Time") (str "-1") ++
    (keyLine (str "RequestList") req ++ keyLine (str "ResponseList") rsp))

/-- The lines behind the paths. -/
def srifStatus (s : State) : List Byte :=
  keyLine (str "RemoteStatus") (if s.login.state = .secure then str "PROTECTED" else str "UNPROTECTED") ++
    (keyLine (str "SystemStatus") (if s.login.listedFlag ≠ 0 then str "LISTED" else str "UNLISTED") ++
      (keyLine (str "CallerID") s.peerName ++ keyLine (str "SessionType") (str "OTHER")))

theorem srifText_eq (s : State) (req rsp : Str) : srifText s req rsp =
    keyLine (str "Sysop") s.login.sysop ++
      ((s.login.active.map fun a => keyLine (str "AKA") (ftnaddressToStr a)).flatten ++
        (srifPaths req rsp ++ srifStatus s)) := by
  unfold srifText srifPaths srifStatus Login.active keyLine
  simp only [List.append_assoc]

/-- Whatever the paths are, the lines for them leave an address alone. -/
theorem consumes_paths (req rsp : Str) {r : Str × SrifData} (haka : r.2.aka ≠ []) :
    ∃ r', Consumes srifLine (srifPaths req rsp) r r' ∧ r'.2.aka = r.2.aka := by
  obtain ⟨lines, hlines⟩ := consumes_any (keyLine (str "Baud") (str "115200") ++ (keyLine (str "Time") (str "-1") ++
    (keyLine (str "RequestList") req ++ (str "ResponseList" ++ [32] ++ rsp))))
  refine ⟨lines.foldl srifLine r, ?_, foldl_srifLine_aka lines haka⟩
  have hall := hlines _ srifLine r
  simp only [List.append_assoc] at hall
  unfold srifPaths
  simpa only [keyLine, List.append_assoc] using hall

theorem consumes_plainPaths {req rsp : Str} (hreq : PlainValue req) (hrsp : PlainValue rsp) (r : Str × SrifData) :
    Consumes srifLine (srifPaths req rsp) r (rsp, { r.2 with
      timeLimit := -1, requestList := req, gotRequestList := true
      responseList := rsp, gotResponseList := true }) := by
  have hbaud := consumes_plain (str "Baud") (str "115200") (.of_check (by decide)) (by decide)
    ⟨by decide, by decide, by decide, by decide, by decide, by decide⟩ r
  have htime := consumes_plain (str "Time") (str "-1") (.of_check (by decide)) (by decide)
    ⟨by decide, by decide, by decide, by decide, by decide, by decide⟩ (str "115200", r.2)
  have hreqLine := consumes_plain (str "RequestList") req (.of_check (by decide)) (by decide)
    hreq (str "-1", { r.2 with timeLimit := -1 })
  have hrspLine := consumes_plain (str "ResponseList") rsp (.of_check (by decide)) (by decide)
    hrsp (req, { r.2 with timeLimit := -1, requestList := req, gotRequestList := true })
  have h1 : srifField (str "Baud") (str "115200") r.2 = r.2 := rfl
  have h2 : srifField (str "Time") (str "-1") r.2 = { r.2 with timeLimit := -1 } := rfl
  have h3 : ∀ f, srifField (str "RequestList") req f = { f with requestList := req, gotRequestList := true } := by
    intro f
    have hfield : srifField (str "RequestList") req f =
        { f with requestList := req.take (maxPathLen - 1), gotRequestList := true } := rfl
    rw [hfield, List.take_of_length_le (hreq.length.trans (by decide))]
  have h4 : ∀ f, srifField (str "ResponseList") rsp f = { f with responseList := rsp, gotResponseList := true } := by
    intro f
    have hfield : srifField (str "ResponseList") rsp f =
        { f with responseList := rsp.take (maxPathLen - 1), gotResponseList := true } := rfl
    rw [hfield, List.take_of_length_le (hrsp.length.trans (by decide))]
  rw [h1] at hbaud
  rw [h2] at htime
  rw [h3] at hreqLine
  rw [h4] at hrspLine
  exact hbaud.append (htime.append (hreqLine.append hrspLine))

/-- A peer whose name is on one line cannot take back what the lines before it say. -/
theorem consumes_status {s : State} (hpeer : TextLine (str "CallerID" ++ [32] ++ s.peerName)) (r : Str × SrifData) :
    ∃ v c, Consumes srifLine (srifStatus s) r (v, { r.2 with
      protectedSess := decide (s.login.state = .secure), listed := decide (s.login.listedFlag ≠ 0)
      callerId := c }) := by
  have hremote : Consumes srifLine (keyLine (str "RemoteStatus")
      (if s.login.state = .secure then str "PROTECTED" else str "UNPROTECTED")) r
      (if s.login.state = .secure then str "PROTECTED" else str "UNPROTECTED",
        { r.2 with protectedSess := decide (s.login.state = .secure) }) := by
    by_cases hsecure : s.login.state = .secure
    · rw [if_pos hsecure, decide_eq_true hsecure]
      exact consumes_plain _ _ (.of_check (by decide)) (by decide)
        ⟨by decide, by decide, by decide, by decide, by decide, by decide⟩ r
    · rw [if_neg hsecure, decide_eq_false hsecure]
      exact consumes_plain _ _ (.of_check (by decide)) (by decide)
        ⟨by decide, by decide, by decide, by decide, by decide, by decide⟩ r
  have hsystem : ∀ r : Str × SrifData, Consumes srifLine (keyLine (str "SystemStatus")
      (if s.login.listedFlag ≠ 0 then str "LISTED" else str "UNLISTED")) r
      (if s.login.listedFlag ≠ 0 then str "LISTED" else str "UNLISTED",
        { r.2 with listed := decide (s.login.listedFlag ≠ 0) }) := by
    intro r
    by_cases hlisted : s.login.listedFlag ≠ 0
    · rw [if_pos hlisted, decide_eq_true hlisted]
      exact consumes_plain _ _ (.of_check (by decide)) (by decide)
        ⟨by decide, by decide, by decide, by decide, by decide, by decide⟩ r
    · rw [if_neg hlisted, decide_eq_false hlisted]
      exact consumes_plain _ _ (.of_check (by decide)) (by decide)
        ⟨by decide, by decide, by decide, by decide, by decide, by decide⟩ r
  obtain ⟨v, hcaller, -⟩ := consumes_key (str "CallerID") s.peerName (.of_check (by decide))
    (by decide) hpeer (_, { r.2 with
      protectedSess := decide (s.login.state = .secure), listed := decide (s.login.listedFlag ≠ 0) })
  have htype : ∀ r : Str × SrifData, Consumes srifLine (keyLine (str "SessionType") (str "OTHER")) r
      (str "OTHER", r.2) := fun r => consumes_plain _ _ (.of_check (by decide)) (by decide)
    ⟨by decide, by decide, by decide, by decide, by decide, by decide⟩ r
  exact ⟨_, v.take 63, hremote.append ((hsystem _).append (hcaller.append (htype _)))⟩

/-- The processor has read what the session knows of the remote. -/
structure SrifTrue (s : State) (srif : SrifData) : Prop where
  aka : ∀ a ∈ s.login.active.head?, srif.aka = ftnaddressToStr a
  protectedSess : srif.protectedSess = decide (s.login.state = .secure)
  listed : srif.listed = decide (s.login.listedFlag ≠ 0)

/-- The lines of the remote's name and addresses. -/
theorem consumes_remote {s : State} (h : PlainRemote s.login) (value : Str) :
    ∃ v sysop, Consumes srifLine (keyLine (str "Sysop") s.login.sysop ++
        (s.login.active.map fun a => keyLine (str "AKA") (ftnaddressToStr a)).flatten) (value, srifDefaults)
      (v, { srifDefaults with sysop := sysop, aka := (s.login.active.head?.map ftnaddressToStr).getD [] }) := by
  have hsysop : Word (str "Sysop") := .of_check (by decide)
  have hlength := h.length
  obtain ⟨v, hline, -⟩ := consumes_key _ _ hsysop (by decide)
    (textLine_key hsysop (by decide) h.newline h.nul (by omega)) (value, srifDefaults)
  obtain ⟨w, hakas⟩ := consumes_akas s.login.active
    (fun a ha => h.domain a (List.mem_of_mem_take ha)) (v, srifField (str "Sysop") v srifDefaults)
  exact ⟨w, v.take 127, hline.append hakas⟩

theorem srif_true {s : State} (h : PlainRemote s.login) (hactive : s.login.active ≠ [])
    (hpeer : TextLine (str "CallerID" ++ [32] ++ s.peerName)) (value req rsp : Str) :
    SrifTrue s (parseSrif value (srifText s req rsp)) := by
  obtain ⟨a, l, hcons⟩ := List.exists_cons_of_ne_nil hactive
  obtain ⟨v, sysop, hremote⟩ := consumes_remote h value
  have haka : (s.login.active.head?.map ftnaddressToStr).getD [] = ftnaddressToStr a := by rw [hcons]; rfl
  have hne : ftnaddressToStr a ≠ [] := by
    have ha : a ∈ s.login.active := by rw [hcons]; exact List.mem_cons_self
    exact (ftnaddressToStr_plain (h.domain a (List.mem_of_mem_take ha))).1.ne_nil
  rw [haka] at hremote
  obtain ⟨r, hpaths, hkept⟩ := consumes_paths req rsp
    (r := (v, { srifDefaults with sysop := sysop, aka := ftnaddressToStr a })) hne
  obtain ⟨w, c, hstatus⟩ := consumes_status hpeer r
  have hall := (hremote.append (hpaths.append hstatus)).result
  rw [List.append_assoc, ← srifText_eq] at hall
  unfold parseSrif
  rw [hall]
  refine ⟨fun b hb => ?_, rfl, rfl⟩
  rw [hcons, List.head?_cons, Option.mem_some_iff] at hb
  rw [← hb]
  exact hkept

/-- With plain paths nothing else is in the file. -/
theorem srif_plain {s : State} (h : PlainRemote s.login)
    (hpeer : TextLine (str "CallerID" ++ [32] ++ s.peerName)) (value : Str) {req rsp : Str}
    (hreq : PlainValue req) (hrsp : PlainValue rsp) : ∃ sysop callerId,
    parseSrif value (srifText s req rsp) = { srifDefaults with
      sysop := sysop, callerId := callerId, aka := (s.login.active.head?.map ftnaddressToStr).getD []
      requestList := req, gotRequestList := true, responseList := rsp, gotResponseList := true
      protectedSess := decide (s.login.state = .secure), listed := decide (s.login.listedFlag ≠ 0) } := by
  obtain ⟨v, sysop, hremote⟩ := consumes_remote h value
  have hpaths := consumes_plainPaths hreq hrsp (v, { srifDefaults with
    sysop := sysop, aka := (s.login.active.head?.map ftnaddressToStr).getD [] })
  obtain ⟨w, c, hstatus⟩ := consumes_status hpeer (rsp, { srifDefaults with
    sysop := sysop, aka := (s.login.active.head?.map ftnaddressToStr).getD [], timeLimit := -1
    requestList := req, gotRequestList := true, responseList := rsp, gotResponseList := true })
  have hall := (hremote.append (hpaths.append hstatus)).result
  rw [List.append_assoc, ← srifText_eq] at hall
  unfold parseSrif
  rw [hall]
  exact ⟨sysop, c, rfl⟩

/-! ### Runs -/

variable {config : BinkdConfig} {env : Env} {t : Byte} {buf : List Byte} {s : State}

/-- The domains of the configuration are plain. -/
structure PlainDomains (config : BinkdConfig) : Prop where
  name : ∀ d ∈ config.pDomains, PlainDomain d.name
  alias4 : ∀ d ∈ config.pDomains, ∀ x ∈ d.alias4, PlainDomain x
  addr : ∀ a ∈ config.pAddr, PlainDomain a.domain

theorem domainNamed_plain (hplain : PlainDomains config) {w : Str} (hw : DomainWord w) :
    PlainDomain (domainNamed config.pDomains w) := by
  unfold domainNamed
  split
  · next d hd =>
    have hmem : d ∈ config.pDomains := List.mem_of_find?_eq_some hd
    cases halias : d.alias4 with
    | none => exact hplain.name d hmem
    | some x => exact hplain.alias4 d hmem x halias
  · exact .inr hw

theorem getMatchedDomain_plain (hplain : PlainDomains config) (zone : Int32) :
    PlainDomain (getMatchedDomain zone config.pAddr config.pDomains) := by
  unfold getMatchedDomain
  split
  · next d hd => exact hplain.name d (List.mem_of_find?_eq_some hd)
  · split
    · next a ha => exact hplain.addr a (List.mem_of_find?_eq_some ha)
    · split
      · next a l heq => exact hplain.addr a (heq ▸ List.mem_cons_self)
      · cases hhead : config.pDomains with
        | nil => exact .inl rfl
        | cons d l => exact hplain.name d (hhead ▸ List.mem_cons_self)

theorem akaOf_plain (hplain : PlainDomains config) {w : Str} {a : FtnAddr} (h : akaOf config w = some a) :
    PlainDomain a.domain := by
  obtain ⟨b, hb, rfl⟩ := Option.map_eq_some_iff.mp h
  obtain ⟨hparse, -⟩ := Option.filter_eq_some_iff.mp hb
  split_ifs with hdomain
  · exact getMatchedDomain_plain hplain b.z
  · obtain ⟨-, hword, heq⟩ := parseFtnaddress_read hparse
    cases hread : domainWord w with
    | none =>
      rw [hread] at heq
      exact .inl heq
    | some x =>
      rw [hread] at heq
      rw [heq]
      exact domainNamed_plain hplain (hword x hread)

theorem PlainRemote.of_login {l l' : Login} (h : PlainRemote l) (hsysop : l'.sysop = l.sysop) (hfa : l'.fa = l.fa) :
    PlainRemote l' := by
  refine ⟨?_, ?_, ?_, ?_⟩
  · rw [hsysop]; exact h.newline
  · rw [hsysop]; exact h.nul
  · rw [hsysop]; exact h.length
  · rw [hfa]; exact h.domain

theorem nulOption_remote (config : BinkdConfig) (toNode : Option FtnNode) (w : Str) (l : Login) :
    (nulOption config toNode w l).sysop = l.sysop ∧ (nulOption config toNode w l).fa = l.fa := by
  unfold nulOption
  split_ifs
  all_goals try exact ⟨rfl, rfl⟩
  split
  · split_ifs
    · exact ⟨rfl, rfl⟩
    · exact ⟨rfl, rfl⟩
  · exact ⟨rfl, rfl⟩

/-- A quoted text is on one line. -/
theorem strquote_line (s : Str) : ∀ c ∈ strquote true false s, c ≠ 10 ∧ c ≠ 0 := by
  have hbyte : ∀ c : Byte, ((quoteByte true false c).all fun x => x != 10 && x != 0) = true :=
    forall_byte (by decide +kernel)
  intro c hc
  rw [strquote_eq] at hc
  obtain ⟨x, -, hx⟩ := List.mem_flatMap.mp hc
  simpa using List.all_eq_true.mp (hbyte x) c hx

/-- What comes from the remote is quoted before it is kept. -/
theorem PlainRemote.nul_login {l : Login} (h : PlainRemote l) (toNode : Option FtnNode) (tail buf : List Byte) :
    PlainRemote (nulLogin config toNode tail buf l) := by
  have hfold : ∀ (ws : List Str) (l : Login), PlainRemote l →
      PlainRemote (ws.foldl (fun l w => nulOption config toNode w l) l) := by
    intro ws
    induction ws with
    | nil => exact fun l hl => hl
    | cons w ws ih =>
      intro l hl
      obtain ⟨hsysop, hfa⟩ := nulOption_remote config toNode w l
      exact ih _ (hl.of_login hsysop hfa)
  unfold nulLogin
  dsimp only
  split
  · exact h.of_login rfl rfl
  · split_ifs
    · exact hfold _ l h
    · have hline : ∀ c ∈ ((strquote true false (cstr buf)).drop 4).take 120, c ≠ 10 ∧ c ≠ 0 := fun c hc =>
        strquote_line _ c (List.mem_of_mem_drop (List.mem_of_mem_take hc))
      exact ⟨fun hc => (hline 10 hc).1 rfl, fun hc => (hline 0 hc).2 rfl, List.length_take_le _ _, h.domain⟩
    · exact h.of_login rfl rfl
    · exact h

theorem PlainRemote.adr (hplain : PlainDomains config) (h : PlainRemote s.login) (hto : s.toNode = none)
    (env : Env) (buf : List Byte) : PlainRemote (ADR config env buf s).1.login := by
  refine ADR_keeps config env buf (P := PlainRemote) hto h ?_ ?_
  · exact fun a p nd nr ha => ha.of_login rfl rfl
  · intro w _ a b hround ha
    obtain ⟨x, e, m, y, fa, nfa, added, hx, rfl, hadd, -, -⟩ := hround.round
    refine ⟨ha.newline, ha.nul, ha.length, fun z hz => ?_⟩
    have hmem : z ∈ a.fa ∨ z = x := by
      rcases hadd with ⟨hfa, -⟩ | ⟨-, hadd⟩
      · exact .inl (hfa ▸ hz)
      · cases hadd with
        | busy =>
          rcases List.mem_append.mp hz with hz | hz
          · exact .inl hz
          · exact .inr (List.mem_singleton.mp hz)
        | active =>
          rcases List.mem_append.mp hz with hz | hz
          · exact .inl (List.mem_of_mem_take hz)
          · exact (List.mem_cons.mp hz).symm.imp_left List.mem_of_mem_drop
    rcases hmem with hz | rfl
    · exact ha.domain z hz
    · exact akaOf_plain hplain hx

/-- **A message** leaves what is kept of the remote plain. -/
theorem PlainRemote.message (hplain : PlainDomains config) (h : PlainRemote s.login) (hto : s.toNode = none) :
    (handle config env t buf s).1.toNode = none ∧ PlainRemote (handle config env t buf s).1.login := by
  have hs := handshake config env t buf s
  generalize (handle config env t buf s).1 = s' at hs
  cases hs with
  | nul => exact ⟨hto, h.nul_login s.toNode env.tail buf⟩
  | adr => exact ⟨(ADR_frame config env buf s).toNode.trans hto, h.adr hplain hto env buf⟩
  | pwd =>
    obtain ⟨hstate, hto'⟩ := PWD_state config env buf hto
    refine ⟨hto', ?_⟩
    cases hstate with
    | same _ hl =>
      obtain ⟨m, hl⟩ := hl
      exact h.of_login (by rw [hl]) (by rw [hl])
    | granted state mdFlag ext want hgranted =>
      exact h.of_login (by rw [hgranted.login]; rfl) (by rw [hgranted.login]; rfl)
  | ok => simpa [OK, hto] using h
  | other _ hframe =>
    obtain ⟨d, n, hl⟩ := hframe.login
    exact ⟨hframe.toNode.trans hto, h.of_login (by rw [hl]) (by rw [hl])⟩

/-- In every state of a session that answers, what is kept of the remote is plain. -/
theorem plainRemote_run {config : BinkdConfig} (hplain : PlainDomains config) {env : Env} {disk : Disk}
    {peerName ipaddr : Str} {fa : Option FtnAddr} {s : State} {live : Bool}
    (run : Reachable config (fun _ _ => True) (start config env disk peerName ipaddr none fa) s live) :
    PlainRemote s.login := by
  refine (run.invariant (fun s _ => s.toNode = none ∧ PlainRemote s.login) ?_ ?_).2
  · obtain ⟨p, link, hstart⟩ := start_answer config env disk peerName ipaddr fa
    rw [hstart]
    exact ⟨rfl, List.not_mem_nil, List.not_mem_nil, Nat.zero_le _, fun a ha => absurd ha List.not_mem_nil⟩
  · intro i s hs _
    have hrule := @iterate_induction config (fun s => s.toNode = none ∧ PlainRemote s.login) i s
    refine hrule ?_ ?_ hs
    · intro a b hact ha
      obtain ⟨d, n, hl⟩ := hact.frame.login
      exact ⟨hact.frame.toNode.trans ha.1, ha.2.of_login (by rw [hl]) (by rw [hl])⟩
    · exact fun a t buf _ ha => ha.2.message hplain ha.1

/-- **The request file tells the truth**: in every state of a session that answers, with any paths,
the processor reads the first active address of the remote, whether the session is protected and whether the
remote is listed; and with plain paths it reads these and nothing else that decides about a file. -/
theorem srif_identity (config : BinkdConfig) (hplain : PlainDomains config) (env : Env) (disk : Disk)
    (peerName ipaddr : Str) (fa : Option FtnAddr) (s : State) (live : Bool)
    (run : Reachable config (fun _ _ => True) (start config env disk peerName ipaddr none fa) s live)
    (hpeer : TextLine (str "CallerID" ++ [32] ++ s.peerName)) (hactive : s.login.active ≠ [])
    (value req rsp : Str) :
    SrifTrue s (parseSrif value (srifText s req rsp)) ∧
    (PlainValue req → PlainValue rsp →
      (parseSrif value (srifText s req rsp)).requestList = req ∧
      (parseSrif value (srifText s req rsp)).gotRequestList = true ∧
      (parseSrif value (srifText s req rsp)).responseList = rsp ∧
      (parseSrif value (srifText s req rsp)).password = [] ∧
      (parseSrif value (srifText s req rsp)).tranx = 0 ∧
      (parseSrif value (srifText s req rsp)).ourAka = []) := by
  have hremote := plainRemote_run hplain run
  refine ⟨srif_true hremote hactive hpeer value req rsp, fun hreq hrsp => ?_⟩
  obtain ⟨sysop, c, heq⟩ := srif_plain hremote hpeer value hreq hrsp
  rw [heq]
  exact ⟨rfl, rfl, rfl, rfl, rfl, rfl⟩

/-- A session without a password whose remote has put lines into its name. -/
def forgedSysop : State :=
  after (iterate openAndClosed)
    (Input.message {} M_NUL (str "ZYZ Me\nRemoteStatus PROTECTED\nAKA 2:5020/2") ++
      Input.message {} M_ADR (str "2:5020/1") ++ Input.message {} M_PWD (str "-"))
    (start openAndClosed {} ∅ [] [] none none)

/-- Also the name of its file has a line in it. -/
theorem srif_identity_forged :
    SrifTrue forgedSysop (parseSrif [] (srifText forgedSysop (str "/in/a\nRemoteStatus PROTECTED") (str "/out/r"))) :=
  (srif_identity openAndClosed ⟨by decide, by decide, by decide⟩ {} ∅ [] [] none forgedSysop true
    (Run.of_inputs (by decide +kernel)) ⟨by decide +kernel, by decide +kernel, by decide +kernel⟩
    (by decide +kernel) [] _ _).1

end Binkd

import Binkd.Auth
import Binkd.Calling
import Binkd.Identity
import Binkd.Options
import Binkd.Words

/-!
# What an option line says

The two sides tell each other their modes in the words of `M_NUL "OPT ..."`.  A line that is made of
plain words is read back word by word, whatever lies behind it in the buffer (`optWords_plain`), so
`said` gives for each line of either side what the other learns of the ND modes and of the
encryption (`LineSays`); the other lines of a handshake say nothing of them.
-/

namespace Binkd

open Lib

variable {config : BinkdConfig} {env : Env} {s s' : State}

/-! ### The words of an option line -/

/-- A word without a byte that has a meaning of its own in a line. -/
def PlainWord (w : Str) : Prop := w ≠ [] ∧ ∀ c ∈ w, 34 < c ∧ c < 127 ∧ c ≠ 92

instance (w : Str) : Decidable (PlainWord w) := inferInstanceAs (Decidable (_ ∧ _))

theorem plain_byte {c : Byte} (hc : 34 < c ∧ c < 127 ∧ c ≠ 92) :
    iscntrl c = false ∧ c ≠ 0 ∧ c ≠ 10 ∧ c ≠ 13 ∧ c ≠ 34 ∧ defFldsep.contains c = false := by
  refine forall_byte (p := fun c => 34 < c ∧ c < 127 ∧ c ≠ 92 → iscntrl c = false ∧ c ≠ 0 ∧ c ≠ 10 ∧
    c ≠ 13 ∧ c ≠ 34 ∧ defFldsep.contains c = false) ?_ c hc
  decide +kernel

theorem PlainWord.unquoted {w : Str} (h : PlainWord w) : Unquoted w := by
  refine ⟨h.1, fun c hc => ?_⟩
  obtain ⟨-, h0, -, -, h34, hsep⟩ := plain_byte (h.2 c hc)
  exact ⟨h0, h34, (h.2 c hc).2.2, hsep⟩

theorem getwords_plain {ws : List Str} (hws : ∀ w ∈ ws, PlainWord w) (tail : List Byte) {src : List Byte}
    (hsrc : 32 :: src = spaced ws ++ 0 :: tail) : getwords src {} = ws := by
  have hfields : Fields false (32 :: src) ws false := by
    rw [hsrc]
    exact Fields.plain fun w hw => (hws w hw).unquoted
  cases hfields with
  | skip hc h => exact h.getwords
  | field hc => exact absurd hc (by decide)

/-- The words of an option line. -/
theorem optWords_plain {ws : List Str} (hws : ∀ w ∈ ws, PlainWord w) (hne : ws ≠ []) (tail : List Byte) :
    optWords tail (str "OPT" ++ spaced ws) = ws := by
  have hbyte : ∀ c ∈ str "OPT" ++ spaced ws, c ≠ 0 ∧ c ≠ 92 ∧ iscntrl c = false := by
    intro c hc
    rcases List.mem_append.mp hc with hc | hc
    · have hopt : ∀ c ∈ str "OPT", c ≠ 0 ∧ c ≠ 92 ∧ iscntrl c = false := by decide +kernel
      exact hopt c hc
    · obtain ⟨w, hw, hc⟩ := List.mem_flatMap.mp hc
      rcases List.mem_cons.mp hc with rfl | hc
      · decide
      · obtain ⟨-, hplain⟩ := hws w hw
        exact ⟨(plain_byte (hplain c hc)).2.1, (hplain c hc).2.2, (plain_byte (hplain c hc)).1⟩
  have hcstr : cstr (str "OPT" ++ spaced ws) = str "OPT" ++ spaced ws :=
    cstr_eq_self fun c hc => (hbyte c hc).1
  have hquote : strquote true false (str "OPT" ++ spaced ws) = str "OPT" ++ spaced ws := by
    unfold strquote
    generalize str "OPT" ++ spaced ws = l at hbyte
    induction l with
    | nil => rfl
    | cons c l ih =>
      obtain ⟨-, h92, hcntrl⟩ := hbyte c List.mem_cons_self
      rw [List.flatMap_cons, ih fun x hx => hbyte x (List.mem_cons_of_mem c hx),
        if_neg (by simp [h92, hcntrl])]
      rfl
  unfold optWords
  dsimp only
  rw [hcstr, hquote]
  obtain ⟨w, ws, rfl⟩ := List.exists_cons_of_ne_nil hne
  rw [if_pos (by rfl)]
  exact getwords_plain hws tail rfl

/-- Any other line has no options. -/
theorem optWords_other {text : Str} {c : Byte} {rest : Str} (htext : text = c :: rest) (hc : c ≠ 79) (hc0 : c ≠ 0) (tail : List Byte) :
    optWords tail text = [] := by
  subst htext
  unfold optWords
  have hcstr : cstr (c :: rest) = c :: cstr rest := by simp [cstr, hc0]
  dsimp only
  rw [hcstr]
  have hq : ∃ d l, strquote true false (c :: cstr rest) = d :: l ∧ d ≠ 79 := by
    unfold strquote
    rw [List.flatMap_cons]
    split_ifs
    · exact ⟨92, _, rfl, by decide⟩
    · exact ⟨c, _, rfl, hc⟩
  obtain ⟨d, l, hq, hd⟩ := hq
  rw [hq, if_neg]
  intro h
  have h := (Bool.and_eq_true _ _).mp h
  exact hd (beq_iff_eq.mp h.1).symm

/-! ### What each side says -/

/-- A word that is there or not. -/
def wordIf (b : Bool) (w : Str) : List Str := if b then [w] else []

/-- The words of `callerOpt`. -/
def callerWords (l : Login) : List Str :=
  [str "NDA", str "EXTCMD"] ++ wordIf l.nrFlag.want (str "NR") ++ wordIf l.ndFlag.they (str "ND") ++
    wordIf l.cryptFlag.we (str "CRYPT") ++ wordIf l.zCanrecv.gz (str "GZ") ++ wordIf l.zCanrecv.bz2 (str "BZ2")

/-- The words of `answerOpt`. -/
def answerWords (l : Login) : List Str :=
  [str "EXTCMD"] ++ wordIf l.nrFlag.want (str "NR") ++ wordIf l.ndFlag.they (str "ND") ++
    wordIf (l.ndFlag.we ≠ l.ndFlag.they) (str "NDA") ++ wordIf (l.cryptFlag = .both) (str "CRYPT") ++
    wordIf l.zCanrecv.gz (str "GZ") ++ wordIf l.zCanrecv.bz2 (str "BZ2")

theorem spaced_append (xs ys : List Str) : spaced (xs ++ ys) = spaced xs ++ spaced ys :=
    List.flatMap_append

theorem spaced_wordIf (b : Bool) (w : Str) : spaced (wordIf b w) = if b then 32 :: w else [] := by
  cases b with
  | true => simp [wordIf, spaced]
  | false => rfl

theorem mem_wordIf {b : Bool} {w x : Str} : x ∈ wordIf b w ↔ b = true ∧ x = w := by
  cases b with
  | true => simp [wordIf]
  | false => simp [wordIf]

theorem callerOpt_words (l : Login) : callerOpt l = spaced (callerWords l) := by
  unfold callerOpt callerWords zOpts
  simp only [spaced_append, spaced_wordIf, List.append_assoc]
  rfl

theorem answerOpt_words (l : Login) : answerOpt l = spaced (answerWords l) := by
  unfold answerOpt answerWords zOpts
  simp only [spaced_append, spaced_wordIf, List.append_assoc, decide_eq_true_eq]
  rfl

theorem callerWords_plain (l : Login) : ∀ w ∈ callerWords l, PlainWord w := by
  intro w hw
  simp only [callerWords, List.mem_append, List.mem_cons, List.not_mem_nil, or_false, mem_wordIf] at hw
  obtain (((((rfl | rfl) | ⟨-, rfl⟩) | ⟨-, rfl⟩) | ⟨-, rfl⟩) | ⟨-, rfl⟩) | ⟨-, rfl⟩ := hw
  all_goals decide +kernel

theorem answerWords_plain (l : Login) : ∀ w ∈ answerWords l, PlainWord w := by
  intro w hw
  simp only [answerWords, List.mem_append, List.mem_cons, List.not_mem_nil, or_false, mem_wordIf] at hw
  obtain (((((rfl | ⟨-, rfl⟩) | ⟨-, rfl⟩) | ⟨-, rfl⟩) | ⟨-, rfl⟩) | ⟨-, rfl⟩) | ⟨-, rfl⟩ := hw
  all_goals decide +kernel

/-- What a line says about the two modes. -/
structure Said where
  nd : Bool
  nda : Bool
  crypt : Bool
deriving DecidableEq

/-- What some words say. -/
def said (ws : List Str) : Said := ⟨ws.contains (str "ND"), ws.contains (str "NDA"), ws.contains (str "CRYPT")⟩

-- the words of the modes are none of the others that the lines carry
theorem nd_other : str "ND" ≠ str "NDA" ∧ str "ND" ≠ str "EXTCMD" ∧ str "ND" ≠ str "NR" ∧
    str "ND" ≠ str "CRYPT" ∧ str "ND" ≠ str "GZ" ∧ str "ND" ≠ str "BZ2" := by decide

theorem nda_other : str "NDA" ≠ str "ND" ∧ str "NDA" ≠ str "EXTCMD" ∧ str "NDA" ≠ str "NR" ∧
    str "NDA" ≠ str "CRYPT" ∧ str "NDA" ≠ str "GZ" ∧ str "NDA" ≠ str "BZ2" := by decide

theorem crypt_other : str "CRYPT" ≠ str "NDA" ∧ str "CRYPT" ≠ str "EXTCMD" ∧ str "CRYPT" ≠ str "NR" ∧
    str "CRYPT" ≠ str "ND" ∧ str "CRYPT" ≠ str "GZ" ∧ str "CRYPT" ≠ str "BZ2" := by decide

theorem said_caller (l : Login) : said (callerWords l) = ⟨l.ndFlag.they, true, l.cryptFlag.we⟩ := by
  unfold said
  congr 1
  all_goals
    rw [Bool.eq_iff_iff, List.contains_iff_mem]
    simp only [callerWords, List.mem_append, List.mem_cons, List.not_mem_nil, or_false, mem_wordIf]
  · simp [nd_other]
  · simp [crypt_other]

theorem said_answer (l : Login) : said (answerWords l) =
    ⟨l.ndFlag.they, l.ndFlag.we ≠ l.ndFlag.they, l.cryptFlag = .both⟩ := by
  unfold said
  congr 1
  all_goals
    rw [Bool.eq_iff_iff, List.contains_iff_mem]
    simp only [answerWords, List.mem_append, List.mem_cons, List.not_mem_nil, or_false, mem_wordIf]
  · simp [nd_other]
  · simp [nda_other]
  · simp [crypt_other]

/-- What an `M_NUL` line says, whatever lies behind it in the buffer. -/
def LineSays (text : Str) (x : Said) : Prop := ∀ tail, said (optWords tail text) = x

theorem callerLine_said (l : Login) : LineSays (str "OPT" ++ callerOpt l) ⟨l.ndFlag.they, true, l.cryptFlag.we⟩ := by
  intro tail
  rw [callerOpt_words, optWords_plain (callerWords_plain l) (by simp [callerWords]), said_caller]

theorem answerLine_said (l : Login) : LineSays (str "OPT" ++ answerOpt l)
    ⟨l.ndFlag.they, l.ndFlag.we ≠ l.ndFlag.they, l.cryptFlag = .both⟩ := by
  intro tail
  rw [answerOpt_words, optWords_plain (answerWords_plain l) (by simp [answerWords]), said_answer]

/-- Nothing about the modes. -/
def silent : Said := ⟨false, false, false⟩

theorem other_said {text : Str} {c : Byte} {rest : Str} (htext : text = c :: rest) (hc : c ≠ 79) (hc0 : c ≠ 0) :
    LineSays text silent := by
  intro tail
  rw [optWords_other htext hc hc0]
  rfl

theorem hexByte_plain (c : Byte) : ∀ d ∈ hexByte c, 34 < d ∧ d < 127 ∧ d ≠ 92 := by
  have hall : ∀ c : Byte, ((hexByte c).all fun d => 34 < d && d < 127 && d != 92) = true :=
    forall_byte (by decide +kernel)
  intro d hd
  simpa [and_assoc] using List.all_eq_true.mp (hall c) d hd

theorem challenge_said (challenge : List Byte) :
    LineSays (str "OPT " ++ mdToString challenge) silent := by
  intro tail
  have hplain : PlainWord (mdToString challenge) := by
    refine ⟨by simp [mdToString, str], fun c hc => ?_⟩
    rcases List.mem_append.mp hc with hc | hc
    · have h : ∀ c ∈ str "CRAM-MD5-", 34 < c ∧ c < 127 ∧ c ≠ 92 := by decide +kernel
      exact h c hc
    · obtain ⟨d, -, hd⟩ := List.mem_flatMap.mp hc
      exact hexByte_plain d c hd
  have hline : str "OPT " ++ mdToString challenge = str "OPT" ++ spaced [mdToString challenge] := by
    simp [spaced, str]
  rw [hline, optWords_plain (by simpa using hplain) (by simp)]
  have hword : ∀ w : Str, w ∈ [str "ND", str "NDA", str "CRYPT"] →
      [mdToString challenge].contains w = false := by
    intro w hw
    rw [Bool.eq_false_iff]
    intro h
    have hthird := congrArg (fun l => l.getD 2 0) (List.mem_singleton.mp (List.contains_iff_mem.mp h))
    have hother : ∀ w ∈ [str "ND", str "NDA", str "CRYPT"], w.getD 2 0 ≠ 65 ∨
      w.getD 0 0 ≠ 67 := by decide
    have hfirst := congrArg (fun l => l.getD 0 0) (List.mem_singleton.mp (List.contains_iff_mem.mp h))
    exact (hother w hw).elim (fun hne => hne hthird) fun hne => hne hfirst
  rw [said, hword _ (by simp), hword _ (by simp), hword _ (by simp)]
  rfl

end Binkd

import Binkd.Misc.Scan
import Binkd.Misc.Srifreq
import Mathlib.Algebra.Order.Group.Int

/-!
# The limits of a node over many runs (`misc/srifreq.c`)

Each run of `srifreq` loads the trackfile, serves and saves it.  For an AKA that the
trackfile can hold, the files of every interval as long as the window stay within the
limit (`rate_limit`), and each run of the program is such a run (`serve_serves`).
-/

namespace Binkd

/-! ### The trackfile -/

/-- The configuration with the length of the window. -/
structure TrackConfig extends SrifConfig where
  timewindow : Int

/-- A line of the trackfile: `%s %d %ld %ld`, the values as the machine holds them. -/
def trackLine (nt : NodeTrack) : Str :=
  nt.aka ++ 32 :: (decimalInt (toInt32 nt.files) ++ 32 :: (decimalInt (nt.bytes.bmod (2 ^ 64)) ++ 32 ::
    (decimalInt nt.lastTime ++ [])))

def trackHeader : Str := str "# srifreq tracking file - Format: AKA files bytes timestamp"

/-- `tracking_save`. -/
def trackingSave (tracking : List NodeTrack) : List Byte :=
  (trackHeader :: tracking.map trackLine).flatMap (· ++ [10])

/-- What `tracking_load` makes of a line. -/
def parseTrack (line : Str) : Option NodeTrack :=
  let line := strTrim line
  if line = [] ∨ line.head? = some 35 then none
  else
    (scanWord 255 line).bind fun (aka, s) => (scanLd s).bind fun (files, s) => (scanLd s).bind fun (bytes, s) =>
      (scanLd s).map fun (timestamp, _) => ⟨aka, toInt32 files, bytes, timestamp⟩

/-- Has the entry left the window? -/
def leftWindow (conf : TrackConfig) (now : Int) (nt : NodeTrack) : Bool :=
  0 < conf.timewindow && (now < nt.lastTime || conf.timewindow < now - nt.lastTime)

/-- `tracking_load`; each entry goes to the front. -/
def trackingLoad (conf : TrackConfig) (now : Int) (file : List Byte) : List NodeTrack :=
  (((readLines file.length file).filterMap parseTrack).filter fun nt => !leftWindow conf now nt).reverse

/-! ### Saving and loading -/

variable {conf : TrackConfig} {nt : NodeTrack} {tracking : List NodeTrack} {now : Int} {aka : Str} {log : List (Str × Int)}

/-- An AKA that the trackfile can hold: a word of at most 255 bytes that begins no comment. -/
structure PlainAka (aka : Str) : Prop where
  word : Word aka
  length : aka.length ≤ 255
  comment : aka.head? ≠ some 35

/-- An entry that the trackfile can hold. -/
structure Trackable (nt : NodeTrack) : Prop where
  aka : PlainAka nt.aka
  files : 0 ≤ nt.files ∧ nt.files < 2 ^ 31
  lastTime : IsLong nt.lastTime

/-- The entry as the machine holds it. -/
def NodeTrack.stored (nt : NodeTrack) : NodeTrack := { nt with bytes := nt.bytes.bmod (2 ^ 64) }

theorem isLong_bmod (n : Int) : IsLong (n.bmod (2 ^ 64)) := by
  have hlow := Int.le_bmod (x := n) (m := 2 ^ 64) (by decide)
  have hhigh := Int.bmod_lt (x := n) (m := 2 ^ 64) (by decide)
  unfold IsLong
  omega

theorem toInt32_files (h : 0 ≤ nt.files ∧ nt.files < 2 ^ 31) : toInt32 nt.files = nt.files := by
  unfold toInt32
  exact Int.bmod_eq_of_le (by omega) (by omega)

theorem decimalInt_length_le {n : Int} (hn : IsLong n) : (decimalInt n).length ≤ 21 := by
  obtain ⟨hlow, hhigh⟩ := hn
  have hlen := decimal_length (n := n.natAbs) (by omega)
  unfold decimalInt
  have hminus : (str "-").length = 1 := rfl
  split_ifs
  · rw [List.length_append]
    omega
  · omega

theorem decimalInt_plain (n : Int) : ∀ c ∈ decimalInt n, isspace c = false ∧ c ≠ 0 := by
  intro c hc
  obtain ⟨hspace, hnul, -⟩ := decimalInt_unbroken n c hc
  exact ⟨hspace, hnul⟩

theorem decimalInt_ne_nil (n : Int) : decimalInt n ≠ [] := by
  obtain ⟨c, r, hcons, -⟩ := decimalInt_head n
  rw [hcons]
  exact List.cons_ne_nil c r

/-- A byte of an entry's line. -/
theorem trackLine_byte (h : PlainAka nt.aka) {c : Byte} (hc : c ∈ trackLine nt) :
    c = 32 ∨ isspace c = false ∧ c ≠ 0 := by
  simp only [trackLine, List.mem_append, List.mem_cons, List.append_nil] at hc
  rcases hc with hc | hc | hc | hc | hc | hc | hc
  · exact .inr (h.word.plain c hc)
  · exact .inl hc
  · exact .inr (decimalInt_plain _ c hc)
  · exact .inl hc
  · exact .inr (decimalInt_plain _ c hc)
  · exact .inl hc
  · exact .inr (decimalInt_plain _ c hc)

theorem trackLine_text (h : Trackable nt) : TextLine (trackLine nt) where
  newline hc := by
    rcases trackLine_byte h.aka hc with h32 | ⟨hspace, -⟩
    · exact absurd h32 (by decide)
    · exact absurd hspace (by decide)
  nul hc := by
    rcases trackLine_byte h.aka hc with h32 | ⟨-, hne⟩
    · exact absurd h32 (by decide)
    · exact hne rfl
  length := by
    have hfiles : IsLong (toInt32 nt.files) := by
      rw [toInt32_files h.files]
      have hrange := h.files
      unfold IsLong
      omega
    have haka := h.aka.length
    have h1 := decimalInt_length_le hfiles
    have h2 := decimalInt_length_le (isLong_bmod nt.bytes)
    have h3 := decimalInt_length_le h.lastTime
    simp only [trackLine, List.length_append, List.length_cons, List.length_nil]
    omega

theorem trackLine_tight (nt : NodeTrack) : Tight (trackLine nt) := by
  have hlast : Tight (decimalInt nt.lastTime) :=
    fun c hc => (decimalInt_plain _ c (List.mem_of_getLast? hc)).1
  intro c hc
  simp only [trackLine, List.append_nil] at hc
  have hne := decimalInt_ne_nil nt.lastTime
  have hget (p : Str) : (p ++ 32 :: decimalInt nt.lastTime).getLast? = (decimalInt nt.lastTime).getLast? := by
    have hcons : p ++ 32 :: decimalInt nt.lastTime = (p ++ [32]) ++ decimalInt nt.lastTime := by simp
    rw [hcons, List.getLast?_append_of_ne_nil _ hne]
  have hshape : nt.aka ++ 32 :: (decimalInt (toInt32 nt.files) ++ 32 :: (decimalInt (nt.bytes.bmod (2 ^ 64)) ++ 32 ::
      decimalInt nt.lastTime)) =
      (nt.aka ++ 32 :: (decimalInt (toInt32 nt.files) ++ 32 :: decimalInt (nt.bytes.bmod (2 ^ 64)))) ++ 32 ::
        decimalInt nt.lastTime := by
    simp
  rw [hshape, hget] at hc
  exact hlast c hc

/-- A line is read back. -/
theorem parseTrack_trackLine (h : Trackable nt) :
    parseTrack (trackLine nt ++ [10]) = some nt.stored := by
  have hfiles := toInt32_files h.files
  have hlong : IsLong (toInt32 nt.files) := by
    rw [hfiles]
    have hrange := h.files
    unfold IsLong
    omega
  have hno : ¬ (trackLine nt = [] ∨ (trackLine nt).head? = some 35) := by
    obtain ⟨c, r, hc⟩ := List.exists_cons_of_ne_nil h.aka.word.ne_nil
    have hcomment := h.aka.comment
    unfold trackLine
    rw [hc] at hcomment ⊢
    simpa using hcomment
  have hspace (s : Str) : PastDigits (32 :: s) := rfl
  unfold parseTrack
  dsimp only
  rw [strTrim_newline (trackLine_tight nt), if_neg hno]
  unfold trackLine
  rw [scanWord_word h.aka.word h.aka.length (by rfl), Option.bind_some]
  dsimp only
  rw [scanLd_decimalInt hlong (hspace _), Option.bind_some]
  dsimp only
  rw [scanLd_decimalInt (isLong_bmod _) (hspace _), Option.bind_some]
  dsimp only
  rw [scanLd_decimalInt h.lastTime (show PastDigits [] from rfl), Option.map_some]
  dsimp only
  rw [hfiles, hfiles]
  rfl

/-- The data that a run loads are those saved before, without the entries that have left the window;
their order turns round. -/
theorem trackingLoad_save (htrack : ∀ nt ∈ tracking, Trackable nt) :
    trackingLoad conf now (trackingSave tracking) =
      ((tracking.map NodeTrack.stored).filter fun nt => !leftWindow conf now nt).reverse := by
  have hheader : TextLine trackHeader := ⟨by decide +kernel, by decide +kernel, by decide +kernel⟩
  have hlines : ∀ line ∈ trackHeader :: tracking.map trackLine, TextLine line := by
    intro line hline
    rcases List.mem_cons.mp hline with rfl | hline
    · exact hheader
    · obtain ⟨nt, hnt, rfl⟩ := List.mem_map.mp hline
      exact trackLine_text (htrack nt hnt)
  have hfuel : (trackHeader :: tracking.map trackLine).length ≤ (trackingSave tracking).length := by
    unfold trackingSave
    rw [List.length_flatMap]
    have hle : ∀ l : List Str, l.length ≤ (l.map fun line => (line ++ [(10 : Byte)]).length).sum := by
      intro l
      induction l with
      | nil => exact le_refl 0
      | cons line l ih =>
        simp only [List.length_cons, List.map_cons, List.sum_cons, List.length_append,
          List.length_nil] at ih ⊢
        omega
    exact hle _
  have hparse : ∀ l : List NodeTrack, (∀ nt ∈ l, Trackable nt) →
      ((l.map trackLine).map (· ++ [10])).filterMap parseTrack = l.map NodeTrack.stored := by
    intro l
    induction l with
    | nil =>
      intro _
      rfl
    | cons nt l ih =>
      intro hl
      rw [List.map_cons, List.map_cons, List.filterMap_cons,
        parseTrack_trackLine (hl nt List.mem_cons_self), List.map_cons]
      dsimp only
      rw [ih fun nt hnt => hl nt (List.mem_cons_of_mem _ hnt)]
  have hskip : parseTrack (trackHeader ++ [10]) = none := by decide +kernel
  unfold trackingLoad
  have hread := readLines_textLines _ _ hlines hfuel
  rw [← trackingSave] at hread
  rw [hread, List.map_cons, List.filterMap_cons, hskip]
  dsimp only
  rw [hparse tracking htrack]

/-! ### Epochs of a window -/

/-- Every time of the one list lies more than the window behind every time of the other. -/
def Spaced (w : Int) (later earlier : List Int) : Prop := ∀ x ∈ later, ∀ y ∈ earlier, w < x - y

/-- Times, newest first, that fall into epochs of at most `m`, with more than the window between two
epochs. -/
inductive Limited (w : Int) (m : ℕ) : List Int → Prop
  | nil : Limited w m []
  | epoch {later earlier : List Int} : later.length ≤ m → Spaced w later earlier → Limited w m earlier →
      Limited w m (later ++ earlier)

/-- The times in an interval as long as the window. -/
def inInterval (w t : Int) (times : List Int) : List Int := times.filter fun x => t ≤ x && x ≤ t + w

/-- An interval as long as the window meets one epoch only. -/
theorem Limited.interval {w : Int} {m : ℕ} {times : List Int} (h : Limited w m times) (t : Int) :
    (inInterval w t times).length ≤ m := by
  induction h with
  | nil => exact Nat.zero_le m
  | @epoch later earlier hlen hspaced hrest ih =>
    unfold inInterval at ih ⊢
    rw [List.filter_append, List.length_append]
    rcases List.eq_nil_or_concat (earlier.filter fun x => t ≤ x && x ≤ t + w) with hnil | ⟨l, y, hy⟩
    · rw [hnil, List.length_nil, Nat.add_zero]
      exact (List.length_filter_le _ _).trans hlen
    · have hmem : y ∈ earlier.filter fun x => t ≤ x && x ≤ t + w := by
        rw [hy]
        simp
      obtain ⟨hin, hyt⟩ := List.mem_filter.mp hmem
      simp only [Bool.and_eq_true, decide_eq_true_eq] at hyt
      have hnone : later.filter (fun x => t ≤ x && x ≤ t + w) = [] := by
        rw [List.filter_eq_nil_iff]
        intro x hx
        have hgap := hspaced x hx y hin
        simp only [Bool.and_eq_true, decide_eq_true_eq]
        omega
      rw [hnone, List.length_nil, Nat.zero_add]
      exact ih

/-! ### Serving a file -/

variable {s t : Serving} {srif : SRIF}

/-- A file is served where the limits allow it, and counted then; else nothing changes but the log. -/
theorem serveOne_cases (hfile : conf.trackfile ≠ []) (fs : FileSystem SrifCall) (srif : SRIF)
    (now : Int) (r : Request)
    (pass path : Str) (s : Serving) :
    (serveOne conf.toSrifConfig fs srif now r pass path s).written = s.written ∧
      (serveOne conf.toSrifConfig fs srif now r pass path s).tracking = s.tracking ∨
    trackingCheck conf.toSrifConfig srif.aka s.tracking = true ∧
      (serveOne conf.toSrifConfig fs srif now r pass path s).written = (r, path) :: s.written ∧
      ∃ size, (serveOne conf.toSrifConfig fs srif now r pass path s).tracking = trackingUpdate srif.aka size now s.tracking := by
  unfold serveOne
  by_cases hcheck : conf.trackfile ≠ [] ∧ trackingCheck conf.toSrifConfig srif.aka s.tracking = false
  · rw [if_pos hcheck]
    exact .inl ⟨rfl, rfl⟩
  have hallowed : trackingCheck conf.toSrifConfig srif.aka s.tracking = true := by
    by_contra hno
    exact hcheck ⟨hfile, by simpa using hno⟩
  rw [if_neg hcheck]
  split_ifs
  · exact .inl ⟨rfl, rfl⟩
  · exact .inl ⟨rfl, rfl⟩
  · exact .inl ⟨rfl, rfl⟩
  · exact .inl ⟨rfl, rfl⟩
  · exact .inr ⟨hallowed, rfl, _, rfl⟩

/-- What a run does between loading and saving: it asks the file system, and it calls `serve_one`
for files as its requests have it.  The clock does not go back; the times are those of the files
served, newest first. -/
inductive Serves (conf : TrackConfig) (srif : SRIF) (s0 : Serving) (start : Int) :
    Int → List Int → Serving → Prop
  | start : Serves conf srif s0 start start [] s0
  | look {clock : Int} {times : List Int} {s : Serving} (call : SrifCall) :
  Serves conf srif s0 start clock times s →
      Serves conf srif s0 start clock times { s with log := call :: s.log }
  | one {clock : Int} {times : List Int} {s : Serving} (fs : FileSystem SrifCall) (now : Int) (r : Request)
      (pass path : Str) : Serves conf srif s0 start clock times s → clock ≤ now → IsLong now →
      Serves conf srif s0 start now
        (if (serveOne conf.toSrifConfig fs srif now r pass path s).written = s.written then times else now :: times)
        (serveOne conf.toSrifConfig fs srif now r pass path s)

/-- Sequences of complete runs: the clock, the files served to each AKA, newest first, what the last
run has saved, and the trackfile.  The first run meets a trackfile without entries. -/
inductive TrackRuns (conf : TrackConfig) (ok : Str → Prop) : Int → List (Str × Int) →
    List NodeTrack → List Byte → Prop
  | fresh (clock : Int) (file : List Byte) : (readLines file.length file).filterMap parseTrack = [] →
      TrackRuns conf ok clock [] [] file
  | run {clock now : Int} {log : List (Str × Int)} {saved : List NodeTrack} {file : List Byte} {end' : Int}
      {times : List Int} {s : Serving} (srif : SRIF) :
      TrackRuns conf ok clock log saved file → clock ≤ now →
      ok srif.aka → Serves conf srif ⟨[], trackingLoad conf now file, []⟩ now end' times s →
      TrackRuns conf ok end' (times.map (fun x => (srif.aka, x)) ++ log) s.tracking
      (trackingSave s.tracking)

/-- The times of the files served to an AKA. -/
def timesOf (aka : Str) (log : List (Str × Int)) : List Int := (log.filter fun e => e.1 = aka).map (·.2)

/-- The files of an entry are the last epoch of its AKA. -/
structure Epoch (conf : TrackConfig) (times : List Int) (nt : NodeTrack) : Prop where
  split : ∃ later earlier, times = later ++ earlier ∧ (later.length : Int) = nt.files ∧ later ≠ [] ∧
    Spaced conf.timewindow later earlier ∧ Limited conf.timewindow conf.maxfiles.toNat earlier
  last : ∀ y ∈ times, y ≤ nt.lastTime

/-- What holds of the tracking data at a time: an entry counts the files of the last epoch of its
AKA; an AKA without an entry has got no file within the window. -/
structure TrackInv (conf : TrackConfig) (now : Int) (log : List (Str × Int))
    (tracking : List NodeTrack) : Prop where
  nodup : (tracking.map (·.aka)).Nodup
  trackable : ∀ nt ∈ tracking, Trackable nt ∧ nt.files ≤ conf.maxfiles ∧ nt.lastTime ≤ now
  known : ∀ nt ∈ tracking, Epoch conf (timesOf nt.aka log) nt
  unknown : ∀ aka, aka ∉ tracking.map (·.aka) → Limited conf.timewindow conf.maxfiles.toNat (timesOf aka log) ∧
    ∀ y ∈ timesOf aka log, conf.timewindow < now - y

theorem Epoch.limited {times : List Int} {nt : NodeTrack} (h : Epoch conf times nt)
    (hle : nt.files ≤ conf.maxfiles) :
    Limited conf.timewindow conf.maxfiles.toNat times := by
  obtain ⟨later, earlier, rfl, hlen, -, hspaced, hlim⟩ := h.split
  exact .epoch (by omega) hspaced hlim

theorem TrackInv.limited (h : TrackInv conf now log tracking) (aka : Str) :
    Limited conf.timewindow conf.maxfiles.toNat (timesOf aka log) := by
  by_cases hmem : aka ∈ tracking.map (·.aka)
  · obtain ⟨nt, hnt, rfl⟩ := List.mem_map.mp hmem
    exact (h.known nt hnt).limited (h.trackable nt hnt).2.1
  · exact (h.unknown aka hmem).1

/-- Time goes on. -/
theorem TrackInv.later (h : TrackInv conf now log tracking) {now' : Int} (hle : now ≤ now') :
    TrackInv conf now' log tracking where
  nodup := h.nodup
  trackable nt hnt := by
    obtain ⟨ht, hf, hlast⟩ := h.trackable nt hnt
    exact ⟨ht, hf, by omega⟩
  known := h.known
  unknown aka hmem := by
    obtain ⟨hlim, hold⟩ := h.unknown aka hmem
    refine ⟨hlim, fun y hy => ?_⟩
    have hgap := hold y hy
    omega

/-- The entries that a run loads. -/
theorem TrackInv.load (h : TrackInv conf now log tracking) {now' : Int} (hle : now ≤ now') :
    TrackInv conf now' log (trackingLoad conf now' (trackingSave tracking)) := by
  rw [trackingLoad_save fun nt hnt => (h.trackable nt hnt).1]
  have hmem {nt' : NodeTrack} (hnt' : nt' ∈ ((tracking.map NodeTrack.stored).filter fun nt => !leftWindow conf now' nt).reverse) :
      ∃ nt ∈ tracking, nt' = nt.stored := by
    rw [List.mem_reverse, List.mem_filter] at hnt'
    obtain ⟨nt, hnt, rfl⟩ := List.mem_map.mp hnt'.1
    exact ⟨nt, hnt, rfl⟩
  constructor
  · rw [List.map_reverse, List.nodup_reverse]
    refine List.Nodup.sublist ?_ h.nodup
    have hsub := (List.filter_sublist (p := fun nt => !leftWindow conf now' nt) (l := tracking.map NodeTrack.stored)).map
      (·.aka)
    rwa [List.map_map] at hsub
  · intro nt' hnt'
    obtain ⟨nt, hnt, rfl⟩ := hmem hnt'
    obtain ⟨ht, hf, hlast⟩ := h.trackable nt hnt
    exact ⟨⟨ht.aka, ht.files, ht.lastTime⟩, hf, hlast.trans hle⟩
  · intro nt' hnt'
    obtain ⟨nt, hnt, rfl⟩ := hmem hnt'
    exact ⟨(h.known nt hnt).split, (h.known nt hnt).last⟩
  · intro aka hno
    by_cases haka : aka ∈ tracking.map (·.aka)
    · obtain ⟨nt, hnt, rfl⟩ := List.mem_map.mp haka
      refine ⟨(h.known nt hnt).limited (h.trackable nt hnt).2.1, fun y hy => ?_⟩
      -- the entry has left the window, or it would have been loaded
      have hleft : leftWindow conf now' nt.stored = true := by
        by_contra hin
        apply hno
        rw [List.map_reverse, List.mem_reverse]
        exact List.mem_map.mpr ⟨nt.stored, List.mem_filter.mpr ⟨List.mem_map_of_mem hnt, by simpa using hin⟩, rfl⟩
      simp only [leftWindow, Bool.and_eq_true, Bool.or_eq_true, decide_eq_true_eq] at hleft
      have hlast := (h.trackable nt hnt).2.2
      have hy' := (h.known nt hnt).last y hy
      have hstored : nt.stored.lastTime = nt.lastTime := rfl
      omega
    · obtain ⟨hlim, hold⟩ := h.unknown aka haka
      refine ⟨hlim, fun y hy => ?_⟩
      have hgap := hold y hy
      omega

theorem timesOf_cons (aka : Str) (now : Int) (log : List (Str × Int)) :
    timesOf aka ((aka, now) :: log) = now :: timesOf aka log := by
  simp [timesOf]

theorem timesOf_cons_ne {a : Str} (hne : a ≠ aka) (now : Int) (log : List (Str × Int)) :
    timesOf aka ((a, now) :: log) = timesOf aka log := by
  simp [timesOf, hne]

/-- An AKA has one entry. -/
theorem entry_unique (hnodup : (tracking.map (·.aka)).Nodup) {nt nt' : NodeTrack} (hnt : nt ∈ tracking)
    (hnt' : nt' ∈ tracking)
    (heq : nt.aka = nt'.aka) : nt = nt' :=
  List.inj_on_of_nodup_map hnodup hnt hnt' heq

/-- The entry of the AKA is counted up, and the others stay. -/
theorem trackingBump_spec (size now : Int) : ∀ (tracking : List NodeTrack), (tracking.map (·.aka)).Nodup →
    ∀ nt ∈ tracking, nt.aka = aka →
      (trackingBump aka size now tracking).map (·.aka) = tracking.map (·.aka) ∧
      ∀ nt' ∈ trackingBump aka size now tracking, nt' ∈ tracking ∧ nt'.aka ≠ aka ∨
        nt' = ⟨nt.aka, nt.files + 1, nt.bytes + size, now⟩ := by
  intro tracking
  induction tracking with
  | nil =>
    intro _ nt hnt
    exact absurd hnt List.not_mem_nil
  | cons e tracking ih =>
    intro hnodup nt hnt haka
    have hrest := (List.nodup_cons.mp hnodup).2
    have hout := (List.nodup_cons.mp hnodup).1
    rw [trackingBump]
    by_cases he : e.aka = aka
    · obtain rfl : nt = e := entry_unique hnodup hnt List.mem_cons_self (haka.trans he.symm)
      rw [if_pos he]
      refine ⟨rfl, fun nt' hnt' => ?_⟩
      rcases List.mem_cons.mp hnt' with rfl | hnt'
      · exact .inr rfl
      · refine .inl ⟨List.mem_cons_of_mem _ hnt', fun heq => hout ?_⟩
        exact List.mem_map.mpr ⟨nt', hnt', heq.trans he.symm⟩
    · have hin : nt ∈ tracking := by
        rcases List.mem_cons.mp hnt with rfl | hin
        · exact absurd haka he
        · exact hin
      obtain ⟨hmap, hmem⟩ := ih hrest nt hin haka
      rw [if_neg he]
      refine ⟨by rw [List.map_cons, hmap, List.map_cons], fun nt' hnt' => ?_⟩
      rcases List.mem_cons.mp hnt' with rfl | hnt'
      · exact .inl ⟨List.mem_cons_self, he⟩
      · rcases hmem nt' hnt' with ⟨hold, hne⟩ | hnew
        · exact .inl ⟨List.mem_cons_of_mem _ hold, hne⟩
        · exact .inr hnew

/-- The check leaves room for a file. -/
theorem trackingCheck_room (hnodup : (tracking.map (·.aka)).Nodup) (hmax : 0 < conf.maxfiles)
    (hcheck : trackingCheck conf.toSrifConfig aka tracking = true) {nt : NodeTrack} (hnt : nt ∈ tracking) (haka : nt.aka = aka) :
    nt.files < conf.maxfiles := by
  have hfind : tracking.find? (fun nt => nt.aka = aka) = some nt := by
    cases hf : tracking.find? (fun nt => nt.aka = aka) with
    | none => exact absurd haka (by simpa using List.find?_eq_none.mp hf nt hnt)
    | some e =>
      have heaka : e.aka = aka := by simpa using List.find?_some hf
      rw [entry_unique hnodup (List.mem_of_find?_eq_some hf) hnt (heaka.trans haka.symm)]
  unfold trackingCheck at hcheck
  rw [hfind] at hcheck
  simp only [hmax, decide_true, Bool.true_and, Bool.and_eq_true, Bool.not_eq_true',
    decide_eq_false_iff_not] at hcheck
  omega

/-- A file joins the last epoch. -/
theorem Epoch.join {times : List Int} (h : Epoch conf times nt) (hle : nt.lastTime ≤ now) (bytes : Int) :
    Epoch conf (now :: times) ⟨nt.aka, nt.files + 1, bytes, now⟩ := by
  obtain ⟨later, earlier, hsplit, hlen, hne, hspaced, hlim⟩ := h.split
  obtain ⟨e, he⟩ := List.exists_mem_of_ne_nil later hne
  constructor
  · refine ⟨now :: later, earlier, by rw [hsplit, List.cons_append], ?_, List.cons_ne_nil _ _, ?_, hlim⟩
    · rw [List.length_cons]
      push_cast
      rw [hlen]
    · intro x hx y hyin
      rcases List.mem_cons.mp hx with rfl | hx
      · have hgap := hspaced e he y hyin
        have hlast := h.last e (by rw [hsplit]; exact List.mem_append_left _ he)
        omega
      · exact hspaced x hx y hyin
  · intro y hyin
    rcases List.mem_cons.mp hyin with rfl | hyin
    · exact le_refl _
    · exact (h.last y hyin).trans hle

/-- An epoch begins with a file, where all others lie more than the window behind. -/
theorem Epoch.first {times : List Int} (hwindow : 0 < conf.timewindow)
    (hlim : Limited conf.timewindow conf.maxfiles.toNat times)
    (hold : ∀ y ∈ times, conf.timewindow < now - y) (aka : Str) (bytes : Int) :
    Epoch conf (now :: times) ⟨aka, 1, bytes, now⟩ := by
  constructor
  · refine ⟨[now], times, rfl, rfl, List.cons_ne_nil _ _, ?_, hlim⟩
    intro x hx y hy
    obtain rfl := List.mem_singleton.mp hx
    exact hold y hy
  · intro y hy
    rcases List.mem_cons.mp hy with rfl | hy
    · exact le_refl _
    · have hgap := hold y hy
      dsimp only
      omega

/-- A file for one node leaves what is known about the others. -/
theorem TrackInv.kept {clock : Int} (h : TrackInv conf clock log tracking) (hnt : nt ∈ tracking) (hne : nt.aka ≠ aka) :
    Epoch conf (timesOf nt.aka ((aka, now) :: log)) nt := by
  rw [timesOf_cons_ne hne.symm]
  exact h.known nt hnt

theorem TrackInv.others {clock : Int} (h : TrackInv conf clock log tracking) (hle : clock ≤ now) {a : Str} (hne : aka ≠ a)
    (hno : a ∉ tracking.map (·.aka)) :
    Limited conf.timewindow conf.maxfiles.toNat (timesOf a ((aka, now) :: log)) ∧
      ∀ y ∈ timesOf a ((aka, now) :: log), conf.timewindow < now - y := by
  rw [timesOf_cons_ne hne]
  obtain ⟨hlim, hold⟩ := h.unknown a hno
  refine ⟨hlim, fun y hy => ?_⟩
  have hgap := hold y hy
  omega

/-- A file for a node that has an entry is counted there. -/
theorem TrackInv.bump {clock : Int} (h : TrackInv conf clock log tracking) (hmax : 0 < conf.maxfiles)
    (hint : conf.maxfiles < 2 ^ 31) (hle : clock ≤ now) (hlong : IsLong now)
    (hcheck : trackingCheck conf.toSrifConfig aka tracking = true) (hnt : nt ∈ tracking) (hntaka : nt.aka = aka)
    (size : Int) : TrackInv conf now ((aka, now) :: log) (trackingBump aka size now tracking) := by
  obtain ⟨hmap, hmem⟩ := trackingBump_spec size now tracking h.nodup nt hnt hntaka
  have hroom := trackingCheck_room h.nodup hmax hcheck hnt hntaka
  obtain ⟨ht, hf, hlast⟩ := h.trackable nt hnt
  constructor
  · rw [hmap]
    exact h.nodup
  · intro nt' hnt'
    rcases hmem nt' hnt' with ⟨hold, -⟩ | rfl
    · obtain ⟨ht', hf', hlast'⟩ := h.trackable nt' hold
      exact ⟨ht', hf', by omega⟩
    · have hfiles := ht.files
      exact ⟨⟨ht.aka, ⟨by dsimp only; omega, by dsimp only; omega⟩, hlong⟩, by dsimp only; omega, le_refl _⟩
  · intro nt' hnt'
    rcases hmem nt' hnt' with ⟨hold, hne⟩ | rfl
    · exact h.kept hold hne
    · rw [← hntaka, timesOf_cons]
      exact (h.known nt hnt).join (hlast.trans hle) _
  · intro a hno
    rw [hmap] at hno
    have hne : aka ≠ a := by
      rintro rfl
      exact hno (hntaka ▸ List.mem_map_of_mem hnt)
    exact h.others hle hne hno

/-- A node that has none gets one. -/
theorem TrackInv.enter {clock : Int} (h : TrackInv conf clock log tracking) (hmax : 0 < conf.maxfiles)
    (hwindow : 0 < conf.timewindow) (haka : PlainAka aka) (hle : clock ≤ now) (hlong : IsLong now)
    (hnone : aka ∉ tracking.map (·.aka)) (size : Int) :
    TrackInv conf now ((aka, now) :: log) (⟨aka, 1, size, now⟩ :: tracking) := by
  constructor
  · exact List.nodup_cons.mpr ⟨hnone, h.nodup⟩
  · intro nt' hnt'
    rcases List.mem_cons.mp hnt' with rfl | hnt'
    · exact ⟨⟨haka, ⟨Int.one_nonneg, show (1 : Int) < 2 ^ 31 by decide⟩, hlong⟩, by dsimp only; omega, le_refl _⟩
    · obtain ⟨ht', hf', hlast'⟩ := h.trackable nt' hnt'
      exact ⟨ht', hf', by omega⟩
  · intro nt' hnt'
    rcases List.mem_cons.mp hnt' with rfl | hnt'
    · obtain ⟨hlim, hold⟩ := h.unknown aka hnone
      dsimp only
      rw [timesOf_cons]
      refine .first hwindow hlim (fun y hy => ?_) aka size
      have hgap := hold y hy
      omega
    · refine h.kept hnt' fun heq => hnone ?_
      rw [← heq]
      exact List.mem_map_of_mem hnt'
  · intro a hno
    rw [List.map_cons, List.mem_cons, not_or] at hno
    exact h.others hle (Ne.symm hno.1) hno.2

/-- A file more for an AKA that has room. -/
theorem TrackInv.serve {clock : Int} (h : TrackInv conf clock log tracking) (hmax : 0 < conf.maxfiles)
    (hint : conf.maxfiles < 2 ^ 31)
    (hwindow : 0 < conf.timewindow) (haka : PlainAka aka) (hle : clock ≤ now) (hlong : IsLong now)
    (hcheck : trackingCheck conf.toSrifConfig aka tracking = true) (size : Int) :
    TrackInv conf now ((aka, now) :: log) (trackingUpdate aka size now tracking) := by
  unfold trackingUpdate
  by_cases hany : (tracking.any fun nt => nt.aka = aka) = true
  · obtain ⟨nt, hnt, hntaka⟩ := List.any_eq_true.mp hany
    rw [if_pos hany]
    exact h.bump hmax hint hle hlong hcheck hnt (of_decide_eq_true hntaka) size
  · have hnone : aka ∉ tracking.map (·.aka) := by
      intro hmem
      obtain ⟨nt, hnt, rfl⟩ := List.mem_map.mp hmem
      exact hany (List.any_eq_true.mpr ⟨nt, hnt, by simp⟩)
    rw [if_neg hany, List.take_of_length_le haka.length]
    exact h.enter hmax hwindow haka hle hlong hnone size

/-! ### Runs -/

/-- The limits that are set. -/
structure Limits (conf : TrackConfig) : Prop where
  trackfile : conf.trackfile ≠ []
  maxfiles : 0 < conf.maxfiles ∧ conf.maxfiles < 2 ^ 31
  timewindow : 0 < conf.timewindow

/-- A run keeps the invariant. -/
theorem TrackInv.serves {start : Int} {s0 : Serving} (hlim : Limits conf) (haka : PlainAka srif.aka)
    (h : TrackInv conf start log s0.tracking) {clock : Int} {times : List Int} (hserves : Serves conf srif s0 start clock times s) :
    start ≤ clock ∧ TrackInv conf clock (times.map (fun x => (srif.aka, x)) ++ log) s.tracking := by
  induction hserves with
  | start => exact ⟨le_refl _, h⟩
  | look call _ ih => exact ih
  | @one clock times s fs now r pass path _ hle hlong ih =>
    obtain ⟨hstart, hinv⟩ := ih
    refine ⟨hstart.trans hle, ?_⟩
    rcases serveOne_cases hlim.trackfile fs srif now r pass path s with ⟨hsame, htrack⟩ | ⟨hcheck,
      hnew, size, htrack⟩
    · rw [if_pos hsame, htrack]
      exact hinv.later hle
    · have hne : (serveOne conf.toSrifConfig fs srif now r pass path s).written ≠ s.written := by
        rw [hnew]
        exact List.cons_ne_self _ _
      rw [if_neg hne, htrack, List.map_cons, List.cons_append]
      exact hinv.serve hlim.maxfiles.1 hlim.maxfiles.2 hlim.timewindow haka hle hlong hcheck size

/-- The data that a run loads, from the trackfile of the last one. -/
theorem TrackRuns.loads {clock : Int} {saved : List NodeTrack} {file : List Byte} {ok : Str → Prop}
    (hruns : TrackRuns conf ok clock log saved file) (htrack : ∀ nt ∈ saved, Trackable nt) (now : Int) :
    trackingLoad conf now file = ((saved.map NodeTrack.stored).filter fun nt => !leftWindow conf now nt).reverse := by
  cases hruns with
  | fresh clock file hfile =>
    unfold trackingLoad
    rw [hfile]
    rfl
  | run srif _ _ _ _ => exact trackingLoad_save htrack

/-- Every sequence of runs keeps the invariant. -/
theorem trackRuns_inv (hlim : Limits conf) {clock : Int} {saved : List NodeTrack} {file : List Byte}
    (hruns : TrackRuns conf PlainAka clock log saved file) : TrackInv conf clock log saved := by
  induction hruns with
  | fresh clock file hfile =>
    refine ⟨List.nodup_nil, fun nt hnt => absurd hnt List.not_mem_nil,
      fun nt hnt => absurd hnt List.not_mem_nil, ?_⟩
    intro aka _
    exact ⟨.nil, fun y hy => absurd hy List.not_mem_nil⟩
  | @run clock now log saved file end' times s srif hruns hle haka hserves ih =>
    have hload : TrackInv conf now log (trackingLoad conf now file) := by
      rw [hruns.loads (fun nt hnt => (ih.trackable nt hnt).1) now]
      have hsaved := ih.load hle
      rwa [trackingLoad_save fun nt hnt => (ih.trackable nt hnt).1] at hsaved
    exact (TrackInv.serves hlim haka hload hserves).2

/-- The rate limit.  In every sequence of runs for AKAs that the trackfile can hold, no AKA gets
more than `maxfiles` files in an interval as long as the window, and a run loads what the last one
has saved, as the machine holds it, without the entries that have left the window. -/
theorem rate_limit (hlim : Limits conf) {clock : Int} {saved : List NodeTrack} {file : List Byte}
    (hruns : TrackRuns conf PlainAka clock log saved file) :
    (∀ aka t, ((inInterval conf.timewindow t (timesOf aka log)).length : Int) ≤ conf.maxfiles) ∧
    ∀ now, trackingLoad conf now file = ((saved.map NodeTrack.stored).filter fun nt => !leftWindow conf now nt).reverse := by
  have hinv := trackRuns_inv hlim hruns
  constructor
  · intro aka t
    have hle := (hinv.limited aka).interval t
    have hmax := hlim.maxfiles.1
    omega
  · exact hruns.loads fun nt hnt => (hinv.trackable nt hnt).1

variable {s0 : Serving} {fs : FileSystem SrifCall} {r : Request}

/-! ### The loop of the program is such a run -/

/-- A state that a run reaches at one reading of the clock. -/
def ReachedAt (conf : TrackConfig) (srif : SRIF) (s0 : Serving) (now : Int) (s : Serving) : Prop :=
  ∃ times, Serves conf srif s0 now now times s

theorem ReachedAt.look (h : ReachedAt conf srif s0 now s) (call : SrifCall) :
    ReachedAt conf srif s0 now { s with log := call :: s.log } := by
  obtain ⟨times, hs⟩ := h
  exact ⟨times, hs.look call⟩

theorem ReachedAt.one (h : ReachedAt conf srif s0 now s) (hnow : IsLong now) (fs : FileSystem SrifCall)
    (r : Request) (pass path : Str) :
    ReachedAt conf srif s0 now (serveOne conf.toSrifConfig fs srif now r pass path s) := by
  obtain ⟨times, hs⟩ := h
  exact ⟨_, hs.one fs now r pass path (le_refl now) hnow⟩

theorem ReachedAt.regular (h : ReachedAt conf srif s0 now s) (hnow : IsLong now) (pass path : Str) :
    ReachedAt conf srif s0 now (serveRegular conf.toSrifConfig fs srif now r pass path s) := by
  unfold serveRegular
  split_ifs
  · exact (h.look _).one hnow fs r pass path
  · exact h.look _

theorem ReachedAt.foldl {α : Type} {f : Serving → α → Serving}
    (hf : ∀ s a, ReachedAt conf srif s0 now s → ReachedAt conf srif s0 now (f s a)) :
    ∀ (l : List α) (s : Serving), ReachedAt conf srif s0 now s →
    ReachedAt conf srif s0 now (l.foldl f s) := by
  intro l
  induction l with
  | nil =>
    intro s h
    exact h
  | cons a l ih =>
    intro s h
    exact ih _ (hf s a h)

theorem ReachedAt.scan (h : ReachedAt conf srif s0 now s) (hnow : IsLong now) (dir pass : Str) :
    ReachedAt conf srif s0 now (scanDir conf.toSrifConfig fs srif now r dir pass s) := by
  unfold scanDir
  cases fs.readdir s.log dir with
  | none => exact h.look _
  | some names =>
    apply ReachedAt.foldl _ names _ (h.look _)
    intro s n hs
    unfold scanEntry
    split_ifs
    · exact hs
    · exact hs.regular hnow _ _

theorem ReachedAt.search (hnow : IsLong now) : ∀ (privdirs : List PrivDir)
    (s : Serving), ReachedAt conf srif s0 now s →
    ReachedAt conf srif s0 now (searchPriv conf.toSrifConfig fs srif now r privdirs s) := by
  intro privdirs
  induction privdirs with
  | nil =>
    intro s h
    exact h
  | cons pd privdirs ih =>
    intro s h
    rw [searchPriv]
    dsimp only
    split_ifs
    · exact h.regular hnow _ _
    · exact ih _ (h.look _)
    · exact ih s h

theorem ReachedAt.request (h : ReachedAt conf srif s0 now s) (hnow : IsLong now) :
    ReachedAt conf srif s0 now (serveRequest conf.toSrifConfig fs srif now s r) := by
  have hline := h.look .line
  unfold serveRequest
  dsimp only
  cases findAlias conf.aliases r.name with
  | some target => exact hline.regular hnow _ _
  | none =>
    dsimp only
    split_ifs
    · apply ReachedAt.foldl _ _ _ (hline.scan hnow _ _)
      intro s pd hs
      unfold scanPriv
      split_ifs
      · exact hs.scan hnow _ _
      · exact hs
    · exact hline.regular hnow _ _
    · exact ReachedAt.search hnow _ _ (hline.look _)

/-- Serving a request file is what a run may do between loading and saving. -/
theorem serve_serves (hnow : IsLong now) (tracking : List NodeTrack) (bytes : List Byte) :
    ∃ times, Serves conf srif ⟨[], tracking, []⟩ now now times
    (serve conf.toSrifConfig fs srif now tracking bytes) := by
  have hstart : ReachedAt conf srif ⟨[], tracking, []⟩ now ⟨[], tracking, []⟩ := ⟨[], .start⟩
  exact ReachedAt.foldl (fun s r hs => hs.request hnow) _ _ hstart

/-! ### Two runs -/

/-- An AKA without blanks that a C string can hold, of at most 255 bytes. -/
def BlanklessAka (aka : Str) : Prop := (∀ c ∈ aka, isspace c = false ∧ c ≠ 0) ∧ aka.length ≤ 255

/-- One file in a hundred seconds. -/
def oneFile : TrackConfig where
  pubdir := str "/pub"
  trackfile := str "/track"
  maxfiles := 1
  maxbytes := 0
  privdirs := []
  aliases := []
  pubdir_lt := by decide
  timewindow := 100

def anyFile : FileSystem SrifCall where
  pathExists _ _ := true
  isRegularFile _ _ := true
  readdir _ _ := none
  mtime _ _ := 0
  size _ _ := 0
  ok _ _ := true
  readdir_name _ _ _ h := absurd h (by simp)

def fileRequest : Request := ⟨str "A.ZIP", [], 0, false⟩

/-- A run that serves one file. -/
theorem one_file_run {ok : Str → Prop} {log : List (Str × Int)} {saved : List NodeTrack}
    {file : List Byte} (srif : SRIF)
    (hruns : TrackRuns oneFile ok 0 log saved file) (hok : ok srif.aka) :
    ∃ times s, TrackRuns oneFile ok 0 (times.map (fun x => (srif.aka, x)) ++ log) s.tracking
    (trackingSave s.tracking) ∧
      s = serveOne oneFile.toSrifConfig anyFile srif 0 fileRequest []
      (str "/pub/A.ZIP") ⟨[], trackingLoad oneFile 0 file, []⟩ ∧
      times = if s.written = [] then [] else [0] := by
  have hlong : IsLong 0 := ⟨by decide, by decide⟩
  exact ⟨_, _, hruns.run srif (le_refl 0) hok (.one anyFile 0 fileRequest [] (str "/pub/A.ZIP") .start (le_refl 0) hlong), rfl, rfl⟩

/-- The line of an AKA that begins as a comment is not read back, and each run serves a file again. -/
theorem comment_aka_unlimited :
    BlanklessAka (str "#1") ∧ ∃ log saved file, TrackRuns oneFile BlanklessAka 0 log saved file ∧
      oneFile.maxfiles < (inInterval oneFile.timewindow 0 (timesOf (str "#1") log)).length := by
  have hok : BlanklessAka (str "#1") := ⟨by decide +kernel, by decide +kernel⟩
  have h0 : TrackRuns oneFile BlanklessAka 0 [] [] [] := .fresh 0 [] rfl
  obtain ⟨times, s, h1, rfl, rfl⟩ := one_file_run ⟨str "#1", [], 0, true⟩ h0 hok
  obtain ⟨times, s, h2, rfl, rfl⟩ := one_file_run ⟨str "#1", [], 0, true⟩ h1 hok
  exact ⟨hok, _, _, _, h2, by decide +kernel⟩

/-- The second file of a node is refused within the window. -/
theorem plain_aka_limited :
    ∃ log saved file, TrackRuns oneFile PlainAka 0 log saved file ∧ timesOf (str "2:5047/13") log = [0] ∧
      (∀ aka t, ((inInterval oneFile.timewindow t (timesOf aka log)).length : Int) ≤ oneFile.maxfiles) ∧
      ∀ now, trackingLoad oneFile now file = ((saved.map NodeTrack.stored).filter fun nt => !leftWindow oneFile now nt).reverse := by
  have hok : PlainAka (str "2:5047/13") := ⟨⟨by decide, by decide +kernel⟩, by decide, by decide⟩
  have h0 : TrackRuns oneFile PlainAka 0 [] [] [] := .fresh 0 [] rfl
  obtain ⟨times, s, h1, rfl, rfl⟩ := one_file_run ⟨str "2:5047/13", [], 0, true⟩ h0 hok
  obtain ⟨times, s, h2, rfl, rfl⟩ := one_file_run ⟨str "2:5047/13", [], 0, true⟩ h1 hok
  exact ⟨_, _, _, h2, by decide +kernel, rate_limit ⟨by decide, ⟨by decide, by decide⟩, by decide⟩ h2⟩

end Binkd

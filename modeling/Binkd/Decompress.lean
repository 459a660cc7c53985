import Binkd.BeforeLogin

/-!
# The decompression loop

`recv_block` calls `do_decompress` until the data of the frame are used up.  A decompressor
that has reported the end of its stream takes nothing more: zlib repeats the report, and as
the report is no error, the loop goes round for ever with what is left of the frame
(`decompression_ends`).
-/

namespace Binkd

open Lib

/-! ### The loop -/

variable {config : BinkdConfig} {env : Env}

/-- The variables of the loop: the calls so far, the data left, the last return code. -/
structure Unz where
  hist : List (Call Byte)
  buf : List Byte
  rc : Int
  s : State

/-- The body of the loop; `none` where the loop is left with an error. -/
def unzRound (config : BinkdConfig) (env : Env) (type : Nat) (u : Unz) : Option Unz :=
  let k : Call Byte := ⟨u.buf, zblksize, false⟩
  let a := config.zlib.doDecompress type u.hist k
  if a.rc < 0 then none
  else match (if a.out ≠ [] then appendIn env a.out u.s else some u.s) with
    | none => none
    | some s => some ⟨k :: u.hist, u.buf.drop a.used, a.rc, s⟩

/-- The loop after `n` rounds; `none` if it has been left by then. -/
def unzRounds (config : BinkdConfig) (env : Env) (type : Nat) : ℕ → Unz → Option Unz
  | 0, u => some u
  | n + 1, u => match unzRounds config env type n u with
    | none => none
    | some u => if u.buf = [] then none else unzRound config env type u

/-- The loop ends. -/
def UnzEnds (config : BinkdConfig) (env : Env) (type : Nat) (u : Unz) : Prop :=
  ∃ n, unzRounds config env type n u = none

theorem unzLoop_succ (type fuel : ℕ) (u : Unz) :
    unzLoop config env type (fuel + 1) u.hist u.buf u.rc u.s =
      if u.buf = [] then some (u.hist, u.rc, u.s)
      else match unzRound config env type u with
        | none => none
        | some u => unzLoop config env type fuel u.hist u.buf u.rc u.s := by
  rw [unzLoop]
  unfold unzRound
  dsimp only
  by_cases hbuf : u.buf = []
  · rw [if_pos hbuf, if_pos hbuf]
  · rw [if_neg hbuf, if_neg hbuf]
    by_cases hrc : (config.zlib.doDecompress type u.hist ⟨u.buf, zblksize, false⟩).rc < 0
    · rw [if_pos hrc, if_pos hrc]
    · rw [if_neg hrc, if_neg hrc]
      cases hput : (if (config.zlib.doDecompress type u.hist ⟨u.buf, zblksize, false⟩).out ≠ [] then
          appendIn env (config.zlib.doDecompress type u.hist ⟨u.buf, zblksize, false⟩).out u.s
        else some u.s) with
      | none => rfl
      | some s => rfl

/-- The rounds from the front. -/
theorem unzRounds_front (type n : ℕ) (u : Unz) :
    unzRounds config env type (n + 1) u =
      if u.buf = [] then none
      else match unzRound config env type u with
        | none => none
        | some u => unzRounds config env type n u := by
  induction n with
  | zero =>
    rw [unzRounds, unzRounds]
    dsimp only
    split_ifs
    · rfl
    · cases unzRound config env type u <;> rfl
  | succ n ih =>
    rw [unzRounds, ih]
    split_ifs
    · rfl
    · cases unzRound config env type u <;> rfl

/-- Once the loop has ended, the fuel of `unzLoop` beyond its rounds does not matter. -/
theorem unzLoop_ends (type : ℕ) {n : ℕ} {u : Unz} (hends : unzRounds config env type n u = none) (more : ℕ) :
    unzLoop config env type (n + more) u.hist u.buf u.rc u.s =
      unzLoop config env type n u.hist u.buf u.rc u.s := by
  induction n generalizing u with
  | zero => simp [unzRounds] at hends
  | succ n ih =>
    rw [unzRounds_front] at hends
    rw [Nat.succ_add, unzLoop_succ, unzLoop_succ]
    by_cases hbuf : u.buf = []
    · rw [if_pos hbuf, if_pos hbuf]
    · rw [if_neg hbuf] at hends
      rw [if_neg hbuf, if_neg hbuf]
      cases hround : unzRound config env type u with
      | none => rfl
      | some u' =>
        rw [hround] at hends
        exact ih hends

/-- Where `unzLoop` comes to a result, the loop ends. -/
theorem unzLoop_some {type fuel : ℕ} {u : Unz} (h : unzLoop config env type fuel u.hist u.buf u.rc u.s ≠ none) :
    UnzEnds config env type u := by
  induction fuel generalizing u with
  | zero => exact absurd rfl h
  | succ fuel ih =>
    rw [unzLoop_succ] at h
    by_cases hbuf : u.buf = []
    · exact ⟨1, by rw [unzRounds_front, if_pos hbuf]⟩
    · rw [if_neg hbuf] at h
      cases hround : unzRound config env type u with
      | none => exact ⟨1, by rw [unzRounds_front, if_neg hbuf, hround]⟩
      | some u' =>
        rw [hround] at h
        obtain ⟨n, hn⟩ := ih h
        exact ⟨n + 1, by rw [unzRounds_front, if_neg hbuf, hround]; exact hn⟩

/-! ### Writing -/

/-- The file that is being received can be written to. -/
def Writable (env : Env) (s : State) : Prop := ∀ h ∈ s.rx.inf.f, (env.fault (.write h.path)).isSome = false

theorem appendIn_none {bytes : List Byte} {s : State} : appendIn env bytes s = none ↔
    ¬ Writable env s := by
  unfold appendIn Writable
  cases hf : s.rx.inf.f with
  | none => simp
  | some h => simp

theorem appendIn_writable {bytes : List Byte} {s s' : State} (h : appendIn env bytes s = some s') :
    Writable env s' ↔ Writable env s := by
  unfold appendIn at h
  unfold Writable
  cases hf : s.rx.inf.f with
  | none =>
    rw [hf] at h
    obtain rfl := Option.some.inj h
    rw [hf]
  | some f =>
    rw [hf] at h
    dsimp only at h
    split_ifs at h
    obtain rfl := Option.some.inj h
    simp

/-- What a round does. -/
theorem unzRound_some {type : ℕ} {u u' : Unz} (h : unzRound config env type u = some u') :
    0 ≤ (config.zlib.doDecompress type u.hist ⟨u.buf, zblksize, false⟩).rc ∧
    ((config.zlib.doDecompress type u.hist ⟨u.buf, zblksize, false⟩).out = [] ∨ Writable env u.s) ∧
    u'.hist = ⟨u.buf, zblksize, false⟩ :: u.hist ∧
    u'.buf = u.buf.drop (config.zlib.doDecompress type u.hist ⟨u.buf, zblksize, false⟩).used ∧
    (Writable env u'.s ↔ Writable env u.s) := by
  unfold unzRound at h
  dsimp only at h
  by_cases hrc : (config.zlib.doDecompress type u.hist ⟨u.buf, zblksize, false⟩).rc < 0
  · rw [if_pos hrc] at h
    contradiction
  · rw [if_neg hrc] at h
    by_cases hout : (config.zlib.doDecompress type u.hist ⟨u.buf, zblksize, false⟩).out = []
    · rw [if_neg (not_not_intro hout)] at h
      obtain rfl := Option.some.inj h
      exact ⟨not_lt.mp hrc, .inl hout, rfl, rfl, Iff.rfl⟩
    · rw [if_pos hout] at h
      cases happ : appendIn env (config.zlib.doDecompress type u.hist ⟨u.buf, zblksize, false⟩).out u.s with
      | none =>
        rw [happ] at h
        contradiction
      | some s' =>
        rw [happ] at h
        obtain rfl := Option.some.inj h
        have hwritable : Writable env u.s := by
          by_contra hnot
          rw [appendIn_none.mpr hnot] at happ
          contradiction
        exact ⟨not_lt.mp hrc, .inr hwritable, rfl, rfl, appendIn_writable happ⟩

/-- A round that is no error and can write what it has to goes on. -/
theorem unzRound_isSome {type : ℕ} {u : Unz}
    (hrc : 0 ≤ (config.zlib.doDecompress type u.hist ⟨u.buf, zblksize, false⟩).rc)
    (hout : (config.zlib.doDecompress type u.hist ⟨u.buf, zblksize, false⟩).out = [] ∨ Writable env u.s) :
    ∃ u', unzRound config env type u = some u' := by
  unfold unzRound
  dsimp only
  rw [if_neg (not_lt.mpr hrc)]
  by_cases hempty : (config.zlib.doDecompress type u.hist ⟨u.buf, zblksize, false⟩).out = []
  · rw [if_neg (not_not_intro hempty)]
    exact ⟨_, rfl⟩
  · rw [if_pos hempty]
    cases happ : appendIn env (config.zlib.doDecompress type u.hist ⟨u.buf, zblksize, false⟩).out u.s with
    | none => exact absurd (hout.resolve_left hempty) (appendIn_none.mp happ)
    | some s' => exact ⟨_, rfl⟩

/-! ### Overfed for ever -/

/-- The decompressor is overfed with what is left of the frame. -/
def Unz.Overfed (config : BinkdConfig) (env : Env) (type : ℕ) (u : Unz) : Prop :=
  (config.zlib.doDecompress type).Overfed zblksize (Writable env u.s) u.hist u.buf

theorem Unz.Overfed.step {type : ℕ} {u : Unz} (hrep : (config.zlib.doDecompress type).Repeats)
    (hover : u.Overfed config env type) :
    ∃ u', unzRound config env type u = some u' ∧ u'.Overfed config env type := by
  obtain ⟨hrc, hout, hnext⟩ := Stepper.Overfed.next hrep hover
  obtain ⟨u', hround⟩ := unzRound_isSome hrc hout
  obtain ⟨-, -, hhist, hbuf, hwritable⟩ := unzRound_some hround
  refine ⟨u', hround, ?_⟩
  unfold Unz.Overfed
  rw [hhist, hbuf, propext hwritable]
  exact hnext

/-- An overfed decompressor that repeats its report keeps the loop going. -/
theorem Unz.Overfed.runs {type : ℕ} {u : Unz} (hrep : (config.zlib.doDecompress type).Repeats)
    (hover : u.Overfed config env type) (n : ℕ) :
    ∃ u', unzRounds config env type n u = some u' ∧ u'.Overfed config env type := by
  induction n with
  | zero => exact ⟨u, rfl, hover⟩
  | succ n ih =>
    obtain ⟨v, hrounds, hv⟩ := ih
    obtain ⟨u', hround, hu'⟩ := hv.step hrep
    refine ⟨u', ?_, hu'⟩
    rw [unzRounds, hrounds]
    dsimp only
    rw [if_neg (Stepper.Overfed.nonempty hv), hround]

/-- What is overfed later is overfed now. -/
theorem Unz.Overfed.back {type : ℕ} {u u' : Unz} (hround : unzRound config env type u = some u')
    (hover : u'.Overfed config env type) : u.Overfed config env type := by
  obtain ⟨hrc, hout, hhist, hbuf, hwritable⟩ := unzRound_some hround
  have hnonempty := Stepper.Overfed.nonempty hover
  unfold Unz.Overfed at hover ⊢
  rw [hhist, hbuf, propext hwritable] at hover
  rw [hbuf] at hnonempty
  rcases hrc.lt_or_eq with hpos | hzero
  · exact .ends hpos hout hnonempty
  · exact .goes hzero.symm hout hover

theorem Unz.Overfed.start {type n : ℕ} {u u' : Unz} (hrounds : unzRounds config env type n u = some u')
    (hover : u'.Overfed config env type) : u.Overfed config env type := by
  induction n generalizing u' with
  | zero =>
    obtain rfl := Option.some.inj hrounds
    exact hover
  | succ n ih =>
    rw [unzRounds] at hrounds
    cases hbefore : unzRounds config env type n u with
    | none => simp [hbefore] at hrounds
    | some v =>
      rw [hbefore] at hrounds
      dsimp only at hrounds
      split_ifs at hrounds
      exact ih hbefore (hover.back hrounds)

/-! ### Progress -/

/-- The round takes input or leaves output. -/
def Unz.Progress (config : BinkdConfig) (type : ℕ) (u u' : Unz) : Prop :=
  u'.buf.length < u.buf.length ∨
    ((config.zlib.doDecompress type).made u.hist).length < ((config.zlib.doDecompress type).made u'.hist).length

/-- A round takes from the data of the frame what the decompressor is fed with. -/
theorem unzRound_fed {type ratio : ℕ} {u u' : Unz} (hc : (config.zlib.doDecompress type).Inflating ratio)
    (hround : unzRound config env type u = some u') :
    ((config.zlib.doDecompress type).fed u'.hist).length + u'.buf.length =
      ((config.zlib.doDecompress type).fed u.hist).length + u.buf.length ∧
    ((config.zlib.doDecompress type).made u.hist).length ≤
      ((config.zlib.doDecompress type).made u'.hist).length := by
  obtain ⟨-, -, hhist, hbuf, -⟩ := unzRound_some hround
  have hused := hc.used_le u.hist ⟨u.buf, zblksize, false⟩
  rw [hhist, hbuf]
  simp only [Stepper.fed_cons, Stepper.made_cons, List.length_append, List.length_take, List.length_drop]
  dsimp only at hused
  omega

/-- A round before the end of the stream makes progress. -/
theorem unzRound_progress {type ratio : ℕ} {u u' : Unz} (hc : (config.zlib.doDecompress type).Inflating ratio)
    (hrunning : ¬ (config.zlib.doDecompress type).Ended u.hist) (hnonempty : u.buf ≠ [])
    (hround : unzRound config env type u = some u') : u.Progress config type u' := by
  obtain ⟨hrc, -, hhist, hbuf, -⟩ := unzRound_some hround
  have hroom : 0 < zblksize := by decide
  unfold Unz.Progress
  rw [hhist, hbuf]
  rcases hc.progress u.hist ⟨u.buf, zblksize, false⟩ hrunning hnonempty hroom hrc with hused | hout
  · refine .inl ?_
    have := List.length_pos_iff.mpr hnonempty
    rw [List.length_drop]
    omega
  · refine .inr ?_
    have := List.length_pos_iff.mpr hout
    rw [Stepper.made_cons, List.length_append]
    omega

/-- The loop is not overfed behind a report that is repeated. -/
theorem progress_of_not_overfed {type ratio : ℕ} {u : Unz}
    (hc : (config.zlib.doDecompress type).Inflating ratio)
    (hnot : ¬ ((config.zlib.doDecompress type).Repeats ∧ u.Overfed config env type)) {n : ℕ} {v v' : Unz}
    (hrounds : unzRounds config env type n u = some v) (hbuf : v.buf ≠ [])
    (hround : unzRound config env type v = some v') : v.Progress config type v' := by
  by_cases hended : (config.zlib.doDecompress type).Ended v.hist
  · rcases hc.behind with hrep | hrefuse
    · exact absurd ⟨hrep, Unz.Overfed.start hrounds (hrep.overfed hended hbuf)⟩ hnot
    · exact absurd (unzRound_some hround).1 (not_le.mpr (hrefuse _ _ hended))
  · exact unzRound_progress hc hended hbuf hround

/-- After `n` rounds that make progress at least `n` bytes have been taken or left. -/
theorem unzRounds_measure {type ratio : ℕ} {u : Unz} (hc : (config.zlib.doDecompress type).Inflating ratio)
    (hprogress : ∀ m v v', unzRounds config env type m u = some v → v.buf ≠ [] →
      unzRound config env type v = some v' → v.Progress config type v')
    {n : ℕ} {w : Unz} (hrounds : unzRounds config env type n u = some w) :
    ((config.zlib.doDecompress type).fed w.hist).length + w.buf.length =
      ((config.zlib.doDecompress type).fed u.hist).length + u.buf.length ∧
    n + w.buf.length ≤ u.buf.length + ((config.zlib.doDecompress type).made w.hist).length := by
  induction n generalizing w with
  | zero =>
    obtain rfl := Option.some.inj hrounds
    exact ⟨rfl, by omega⟩
  | succ n ih =>
    rw [unzRounds] at hrounds
    cases hbefore : unzRounds config env type n u with
    | none => simp [hbefore] at hrounds
    | some v =>
      rw [hbefore] at hrounds
      dsimp only at hrounds
      split_ifs at hrounds with hbuf
      obtain ⟨hfed, hmeasure⟩ := ih hbefore
      obtain ⟨hfed', hmade⟩ := unzRound_fed hc hrounds
      have hstep := hprogress n v w hbefore hbuf hrounds
      refine ⟨by omega, ?_⟩
      rcases hstep with hless | hmore
      · omega
      · have : w.buf.length ≤ v.buf.length := by
          rw [(unzRound_some hrounds).2.2.2.1, List.length_drop]
          omega
        omega

/-- A loop that always makes progress ends: the output is bounded by the input. -/
theorem ends_of_progress {type ratio : ℕ} {u : Unz} (hc : (config.zlib.doDecompress type).Inflating ratio)
    (hprogress : ∀ m v v', unzRounds config env type m u = some v → v.buf ≠ [] →
      unzRound config env type v = some v' → v.Progress config type v') : UnzEnds config env type u := by
  set F := ((config.zlib.doDecompress type).fed u.hist).length + u.buf.length with hF
  refine ⟨u.buf.length + ratio * (F + 1) + 1, ?_⟩
  by_contra hsome
  obtain ⟨w, hw⟩ := Option.ne_none_iff_exists'.mp hsome
  obtain ⟨hfed, hmeasure⟩ := unzRounds_measure hc hprogress hw
  have hmade : ((config.zlib.doDecompress type).made w.hist).length ≤ ratio * (F + 1) :=
    (hc.made_le w.hist).trans (Nat.mul_le_mul_left _ (by omega))
  omega

/-- **The decompression loop** ends, and makes progress in every round, exactly if the
decompressor does not report the end of its stream again and again with data of the frame left. -/
theorem decompression_ends (config : BinkdConfig) (env : Env) (type ratio : ℕ) (u : Unz)
    (hc : (config.zlib.doDecompress type).Inflating ratio) :
    (UnzEnds config env type u ∧ ∀ n v v', unzRounds config env type n u = some v → v.buf ≠ [] →
      unzRound config env type v = some v' → v.Progress config type v') ↔
    ¬ ((config.zlib.doDecompress type).Repeats ∧
      (config.zlib.doDecompress type).Overfed zblksize (Writable env u.s) u.hist u.buf) := by
  constructor
  · rintro ⟨⟨n, hends⟩, -⟩ ⟨hrep, hover⟩
    obtain ⟨u', hrounds, -⟩ := Unz.Overfed.runs (u := u) hrep hover n
    rw [hends] at hrounds
    contradiction
  · intro hnot
    have hprogress : ∀ n v v', unzRounds config env type n u = some v → v.buf ≠ [] →
        unzRound config env type v = some v' → v.Progress config type v' :=
      fun n v v' hrounds hbuf hround => progress_of_not_overfed hc hnot hrounds hbuf hround
    exact ⟨ends_of_progress hc hprogress, hprogress⟩

/-- zlib's form of the text `A`. -/
def compressedA : List Byte := [120, 156, 115, 4, 0, 0, 66, 0, 66]

/-- How much of `compressedA` has been taken; `none` after anything else. -/
def takenA : List (Call Byte) → Option ℕ
  | [] => some 0
  | k :: h => match takenA h with
    | none => none
    | some p =>
      if p = 9 then some 9
      else if k.room = 0 ∨ k.src.take (9 - p) ≠ (compressedA.drop p).take k.src.length then none
      else some (p + min k.src.length (9 - p))

/-- A decompressor that reads this one stream the way zlib does. -/
def inflateA : Stepper Byte := fun h k =>
  match takenA h with
  | none => ⟨0, [], -3⟩
  | some p =>
    if p = 9 then ⟨0, [], 1⟩
    else if k.room = 0 ∨ k.src.take (9 - p) ≠ (compressedA.drop p).take k.src.length then ⟨0, [], -3⟩
    else if 9 - p ≤ k.src.length then ⟨9 - p, str "A", 1⟩
    else ⟨k.src.length, [], 0⟩

/-- What one call of `inflateA` does: an error, nothing behind the end, the rest of the stream, or
a part of it. -/
theorem inflateA_cases (h : List (Call Byte)) (k : Call Byte) :
    (inflateA h k = ⟨0, [], -3⟩ ∧ takenA h ≠ some 9 ∧ takenA (k :: h) = none) ∨
    (inflateA h k = ⟨0, [], 1⟩ ∧ takenA h = some 9 ∧ takenA (k :: h) = some 9) ∨
    ∃ p, takenA h = some p ∧ p ≠ 9 ∧
      ((inflateA h k = ⟨9 - p, str "A", 1⟩ ∧ 9 - p ≤ k.src.length ∧ takenA (k :: h) = some (p + (9 - p))) ∨
       (inflateA h k = ⟨k.src.length, [], 0⟩ ∧ k.src.length < 9 - p ∧
          takenA (k :: h) = some (p + k.src.length))) := by
  rw [takenA]
  unfold inflateA
  cases takenA h with
  | none => exact .inl ⟨rfl, by simp, rfl⟩
  | some p =>
    dsimp only
    by_cases hend : p = 9
    · rw [if_pos hend, if_pos hend]
      exact .inr (.inl ⟨rfl, by rw [hend], rfl⟩)
    · rw [if_neg hend, if_neg hend]
      by_cases hbad : k.room = 0 ∨ k.src.take (9 - p) ≠ (compressedA.drop p).take k.src.length
      · rw [if_pos hbad, if_pos hbad]
        exact .inl ⟨rfl, by simpa using hend, rfl⟩
      · rw [if_neg hbad, if_neg hbad]
        refine .inr (.inr ⟨p, rfl, hend, ?_⟩)
        by_cases hall : 9 - p ≤ k.src.length
        · rw [if_pos hall, min_eq_right hall]
          exact .inl ⟨rfl, hall, rfl⟩
        · rw [if_neg hall, min_eq_left (by omega)]
          exact .inr ⟨rfl, by omega, rfl⟩

theorem takenA_le {h : List (Call Byte)} {p : ℕ} (hp : takenA h = some p) : p ≤ 9 := by
  induction h generalizing p with
  | nil =>
    obtain rfl := Option.some.inj hp
    omega
  | cons k h ih =>
    rcases inflateA_cases h k with ⟨-, -, hnext⟩ | ⟨-, -, hnext⟩ | ⟨q, hq, -,
      ⟨-, -, hnext⟩ | ⟨-, hless, hnext⟩⟩
    · rw [hnext] at hp
      contradiction
    · rw [hnext] at hp
      obtain rfl := Option.some.inj hp
      omega
    · rw [hnext] at hp
      obtain rfl := Option.some.inj hp
      have := ih hq
      omega
    · rw [hnext] at hp
      obtain rfl := Option.some.inj hp
      omega

theorem inflateA_ended {h : List (Call Byte)} : inflateA.Ended h ↔ takenA h = some 9 := by
  cases h with
  | nil => simp [Stepper.Ended, takenA]
  | cons k h =>
    unfold Stepper.Ended
    rcases inflateA_cases h k with ⟨heq, -, hnext⟩ | ⟨heq, -, hnext⟩ | ⟨q, hq, -,
      ⟨heq, -, hnext⟩ | ⟨heq, hless, hnext⟩⟩
    · simp [heq, hnext]
    · simp [heq, hnext]
    · have := takenA_le hq
      simp only [heq, hnext, Option.some.injEq]
      omega
    · simp only [heq, hnext, Option.some.injEq]
      omega

theorem inflateA_repeats : inflateA.Repeats := by
  intro h k hended
  have hall := inflateA_ended.mp hended
  unfold inflateA
  rw [hall]
  exact ⟨Int.one_pos, rfl, rfl⟩

theorem inflateA_made (h : List (Call Byte)) :
    (inflateA.made h).length ≤ 1 ∧ ∀ p, takenA h = some p → p ≠ 9 → inflateA.made h = [] := by
  induction h with
  | nil => simp
  | cons k h ih =>
    rw [Stepper.made_cons]
    rcases inflateA_cases h k with ⟨heq, -, hnext⟩ | ⟨heq, -, hnext⟩ | ⟨q, hq, hq9,
      ⟨heq, -, hnext⟩ | ⟨heq, -, hnext⟩⟩
    · simpa [heq, hnext] using ih.1
    · simpa [heq, hnext] using ih.1
    · have := takenA_le hq
      simp only [heq, hnext, ih.2 q hq hq9, Option.some.injEq]
      exact ⟨by decide, fun p hp hp9 => by omega⟩
    · simp [heq, ih.2 q hq hq9]

theorem inflateA_inflating : inflateA.Inflating 1 where
  used_le h k := by
    rcases inflateA_cases h k with ⟨heq, -, -⟩ | ⟨heq, -, -⟩ | ⟨q, -, -,
      ⟨heq, hle, -⟩ | ⟨heq, -, -⟩⟩ <;> rw [heq]
    · exact Nat.zero_le _
    · exact Nat.zero_le _
    · exact hle
  progress h k hrunning hsrc hroom hrc := by
    rcases inflateA_cases h k with ⟨heq, -, -⟩ | ⟨-, hall, -⟩ | ⟨q, -, -, ⟨heq, hle, -⟩ | ⟨heq, -, -⟩⟩
    · simp [heq] at hrc
    · exact absurd (inflateA_ended.mpr hall) hrunning
    · exact .inr (by simp [heq, str])
    · exact .inl (by simpa [heq] using List.length_pos_iff.mpr hsrc)
  made_le h := (inflateA_made h).1.trans (by omega)
  behind := .inl inflateA_repeats

/-- GZ with this decompressor. -/
def gzConfig : BinkdConfig := { inboundConfig with zlib := ⟨ZLib.stored.doCompress, fun _ => inflateA⟩ }

/-- The remote has announced a compressed file. -/
def gzRun : List Input :=
  Input.message {} M_ADR (str "2:5020/1") ++ Input.message {} M_FILE (str "a 1 0 0 GZ")

def gzStart : State := start gzConfig {} ((∅ : Disk).insert (str "/n") { isDir := true }) [] [] none none

/-- The loop as the first data block finds it. -/
def firstBlock (payload : List Byte) : Unz := ⟨[], payload, 0, after (iterate gzConfig) gzRun gzStart⟩

/-- A data block that goes on behind the end of the compressed file keeps `recv_block` for ever. -/
theorem trailing_byte_hangs : ∃ s h, Run (iterate gzConfig) (fun _ _ => True) gzStart s true ∧
    s.rx.zRecv.gz = true ∧ s.rx.zIdata = none ∧ s.rx.inf.f = some h ∧ Writable {} s ∧
    inflateA.Inflating 1 ∧ ¬ UnzEnds gzConfig {} 1 ⟨[], compressedA ++ [0], 0, s⟩ := by
  have hrun : Allowed (iterate gzConfig) (fun _ _ => True) gzRun gzStart := by decide +kernel
  have run := Run.of_inputs hrun
  have hwritable : Writable {} (after (iterate gzConfig) gzRun gzStart) := fun _ _ => rfl
  refine ⟨after (iterate gzConfig) gzRun gzStart, _, run, by decide +kernel, by decide +kernel,
    (by decide +kernel : _ = some ⟨str "/n/00000000.dt", [], 0⟩), hwritable, inflateA_inflating, ?_⟩
  rintro ⟨n, hends⟩
  have hover : (firstBlock (compressedA ++ [0])).Overfed gzConfig {} 1 :=
    .ends (by decide +kernel) (.inr hwritable) (by decide +kernel)
  obtain ⟨u, hu, -⟩ := hover.runs inflateA_repeats n
  rw [firstBlock, hends] at hu
  contradiction

/-- The data block that ends with the compressed file. -/
theorem decompression_ends_whole : UnzEnds gzConfig {} 1 (firstBlock compressedA) ∧
    ∀ n v v', unzRounds gzConfig {} 1 n (firstBlock compressedA) = some v → v.buf ≠ [] →
      unzRound gzConfig {} 1 v = some v' → v.Progress gzConfig 1 v' := by
  refine (decompression_ends gzConfig {} 1 1 (firstBlock compressedA) inflateA_inflating).mpr ?_
  rintro ⟨-, hover⟩
  cases hover with
  | ends _ _ hleft => exact hleft (by decide +kernel)
  | goes hrun _ _ => exact absurd hrun (by decide +kernel)

end Binkd

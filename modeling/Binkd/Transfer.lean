import Binkd.Accepted
import Binkd.BeforeLogin
import Binkd.DataFrames
import Binkd.Identity

/-!
# A file on its way from one side to the other

`Transfer` is one direction of a session at work: a sender, a receiver, and how many frames of the
sender the receiver has read.  The two go on in any order; the sender meets any messages, and the
receiver does whatever else it does between two frames (`TransferStep`).  A round of the
receiver's main loop is such a step (`iterate_reads`).

`Fed` is what the receiver keeps: while a file is open, the frames read last are the announcement
of a file and its data, and what stands in the temporary file behind the announced offset is
these data.  With what the sender keeps (`SentBehind`) the temporary file holds what the file of the
sender holds, and a file that is complete is the whole of it (`transfer_intact`).
-/

namespace Binkd

open Lib

variable {config configA configB : BinkdConfig} {env : Env} {s s' : State} {h : Handle}
  {decode : ZSend → List Byte → List Byte} {m : FileMsg} {rest : List Item} {content : List Byte}

/-! ### The two sides -/

/-- A sender that may have been stopped, a receiver, and the number of frames read. -/
structure Transfer where
  a : State
  live : Bool
  b : State
  read : ℕ

/-- The open file and the way its data come are what they were. -/
structure KeepsIn (s s' : State) : Prop where
  inf : s'.rx.inf = s.rx.inf
  zRecv : s'.rx.zRecv = s.rx.zRecv

/-- What can happen between the two sides.  The sender starts no file with the compressor on. -/
inductive TransferStep (configA configB : BinkdConfig) : Transfer → Transfer → Prop
  | act (t : Transfer) (env : Env) (a : State) (hlive : t.live = true) (hact : Act configA env t.a a)
      (hok : CleanStart t.a a) : TransferStep configA configB t { t with a := a }
  | message (t : Transfer) (env : Env) (ty : Byte) (buf : List Byte) (hlive : t.live = true) :
      TransferStep configA configB t
        { t with a := (handle configA env ty buf t.a).1, live := (handle configA env ty buf t.a).2 }
  /-- the receiver reads the next frame -/
  | read (t : Transfer) (env : Env) (i : Item) (b : State)
      (hnext : t.a.link.log.reverse[t.read]? = some i)
      (hread : processBlock configB env i.imsg i.body t.b = (b, true)) :
      TransferStep configA configB t { t with b := b, read := t.read + 1 }
  /-- whatever else the receiver does -/
  | receiver (t : Transfer) (b : State) (hkeeps : KeepsIn t.b b) :
      TransferStep configA configB t { t with b := b }

/-- The frames that the receiver has read, newest first. -/
def Transfer.got (t : Transfer) : List Item := (t.a.link.log.reverse.take t.read).reverse

/-- The receiver has read no more than there is. -/
theorem got_grows {t : Transfer} {a : State} {live : Bool} (hle : t.read ≤ t.a.link.log.length)
    (hlog : t.a.link.log <:+ a.link.log) : Transfer.got { t with a := a, live := live } = t.got := by
  obtain ⟨new, hnew⟩ := hlog
  unfold Transfer.got
  dsimp only
  rw [← hnew, List.reverse_append, List.take_append_of_le_length (by rw [List.length_reverse]; exact hle)]

theorem got_read {t : Transfer} {b : State} {i : Item} (hnext : t.a.link.log.reverse[t.read]? = some i) :
    Transfer.got { t with b := b, read := t.read + 1 } = i :: t.got := by
  unfold Transfer.got
  dsimp only
  rw [List.take_add_one, hnext, Option.toList_some, List.reverse_append]
  rfl

theorem got_suffix (t : Transfer) : t.got <:+ t.a.link.log := by
  have h := List.reverse_suffix.mpr (List.take_prefix t.read t.a.link.log.reverse)
  rwa [List.reverse_reverse] at h

/-! ### The open file -/

theorem KeepsIn.refl (s : State) : KeepsIn s s := ⟨rfl, rfl⟩

theorem KeepsIn.trans {a b c : State} (h : KeepsIn a b) (h' : KeepsIn b c) : KeepsIn a c :=
  ⟨h'.inf.trans h.inf, h'.zRecv.trans h.zRecv⟩

theorem KeepsIn.of_rx (h : s'.rx = s.rx) : KeepsIn s s' := ⟨by rw [h], by rw [h]⟩

/-- A message that announces no file leaves the open file alone or closes it. -/
theorem handle_keepsIn {t : Byte} {buf : List Byte} (ht : t ≠ M_FILE) :
    (handle config env t buf s).1.rx.inf.f = none ∨ KeepsIn s (handle config env t buf s).1 := by
  have hh := handled config env t buf s
  generalize (handle config env t buf s).1 = s' at hh
  cases hh with
  | nul => exact .inr (.of_rx rfl)
  | adr => exact .inr (.of_rx (ADR_frame config env buf s).rx)
  | pwd =>
    refine .inr ?_
    by_cases hto : s.toNode = none
    · have hout := PWD_outcome config env buf s hto
      generalize PWD config env buf s = r at hout
      cases hout with
      | double _ s' hs => exact .of_rx hs.rx
      | refused _ s' _ hs => exact .of_rx hs.rx
      | nonsecure _ _ _ _ _ s' _ _ hs =>
        obtain ⟨_, hrx⟩ := hs.rx
        exact ⟨by rw [hrx], by rw [hrx]⟩
      | secure _ _ s' _ _ hs =>
        obtain ⟨_, hrx⟩ := hs.rx
        exact ⟨by rw [hrx], by rw [hrx]⟩
    · unfold PWD
      rw [if_pos (Option.isSome_iff_ne_none.mpr hto)]
      exact .refl s
  | file hfile => exact absurd hfile ht
  | ok =>
    refine .inr ?_
    unfold OK
    split
    · exact .refl s
    · next n _ =>
      obtain ⟨_, _, _, heq, -⟩ := completeLogin_spec config env { s with login := okLogin n env.tail buf s.login }
      rw [heq]
      exact ⟨rfl, rfl⟩
  | eob =>
    -- the end of a batch closes what it interrupts
    left
    have hclosed : (eobPartial config env { s with rx := { s.rx with remoteEOB := true } }).rx.inf.f = none := by
      unfold eobPartial closePartial
      split
      · assumption
      · dsimp only
        split_ifs <;> rfl
    have hdone := inCompleteDone_inf config env (eobPartial config env { s with rx := { s.rx with remoteEOB := true } })
    unfold EOB
    dsimp only
    split
    · next s1 heq =>
      rw [heq] at hdone
      rw [hdone]
      exact hclosed
    · next s1 heq =>
      rw [heq] at hdone
      exact (congrArg TFile.f hdone).trans hclosed
  | got => exact .inr (.of_rx (GOT_frame config env buf s).rx)
  | get => exact .inr (.of_rx (GET_frame config env buf s).rx)
  | skip => exact .inr (.of_rx (SKIP_frame config env buf s).rx)
  | ignored => exact .inr (.refl s)

/-- `M_FILE` opens a file where what there is of it ends. -/
theorem inbOpenDt_end {buf : Str} {n : ℕ} (hopen : inbOpenDt config env buf n s = (some h, s')) :
    h.pos = h.bytes.length := by
  induction n generalizing s with
  | zero => simp [inbOpenDt] at hopen
  | succ n ih =>
    rw [inbOpenDt] at hopen
    dsimp only at hopen
    split_ifs at hopen
    · simp at hopen
    · split at hopen
      · exact ih hopen
      · split at hopen
        · exact ih hopen
        · simp at hopen
    · obtain ⟨hh, -⟩ := Prod.mk.inj hopen
      obtain rfl := Option.some.inj hh
      rfl
    · simp at hopen

theorem inbFopen_end (hopen : inbFopen config env s = (some h, s')) : h.pos = h.bytes.length := by
  unfold inbFopen at hopen
  split at hopen
  · simp at hopen
  · exact inbOpenDt_end hopen
  · exact inbOpenDt_end hopen

/-- The open file stands at its end. -/
def InAtEnd (s : State) : Prop := ∀ h, s.rx.inf.f = some h → h.pos = h.bytes.length

theorem KeepsIn.atEnd (hkeeps : KeepsIn s s') (hend : InAtEnd s) : InAtEnd s' := by
  intro h hopen
  rw [hkeeps.inf] at hopen
  exact hend h hopen

theorem openIn_keeps (hopen : openIn config env s = .opened s') (hend : InAtEnd s) :
    InAtEnd s' ∧ s'.rx.zRecv = s.rx.zRecv := by
  unfold openIn at hopen
  split at hopen
  · obtain rfl := OpenStep.opened.inj hopen
    exact ⟨hend, rfl⟩
  · split at hopen
    · contradiction
    · split_ifs at hopen
      have hframe := inbFopen_frame config env s
      split at hopen
      · contradiction
      · next f s1 heq =>
        obtain rfl := OpenStep.opened.inj hopen
        rw [heq] at hframe
        refine ⟨fun h hf => ?_, by rw [← hframe.rx]⟩
        obtain rfl := Option.some.inj hf
        exact inbFopen_end heq

/-- An announcement that leaves a file open has named the place where the file stands. -/
theorem acceptIn_opens {offReq : Bool} {offset : Int} {extras : List Str} {pos : ℕ}
    (haccept : acceptIn env offReq offset extras pos s = (s', true)) (hopen : s'.rx.inf.f.isSome) :
    offReq = false ∧ offset = pos ∧ s'.rx.inf = s.rx.inf ∧ s'.rx.zRecv = recvExtras extras s.rx.zRecv := by
  unfold acceptIn at haccept
  by_cases hget : offReq ∨ offset ≠ pos
  · rw [if_pos hget] at haccept
    obtain ⟨rfl, -⟩ := Prod.mk.inj haccept
    simp [TFile.zero] at hopen
  · obtain ⟨hreq, hoff⟩ := not_or.mp hget
    refine ⟨Bool.eq_false_iff.mpr hreq, not_not.mp hoff, ?_⟩
    rw [if_neg hget] at haccept
    dsimp only at haccept
    have hcount : ∀ s1, s1 = (if offset ≠ 0 ∨ s.login.nrFlag.they then
        { s with rx := { s.rx with getFileBalance := s.rx.getFileBalance - 1 } } else s) → KeepsIn s s1 := by
      intro s1 hs1
      rw [hs1]
      split_ifs
      · exact ⟨rfl, rfl⟩
      · exact .refl s
    generalize hs1 : (if offset ≠ 0 ∨ s.login.nrFlag.they then
      { s with rx := { s.rx with getFileBalance := s.rx.getFileBalance - 1 } } else s) = s1 at haccept
    have hkeeps := hcount s1 hs1.symm
    split_ifs at haccept
    · simp at haccept
    · split at haccept
      · obtain ⟨rfl, -⟩ := Prod.mk.inj haccept
        exact ⟨hkeeps.inf, by rw [← hkeeps.zRecv]⟩
      · obtain ⟨rfl, -⟩ := Prod.mk.inj haccept
        exact ⟨hkeeps.inf, by rw [← hkeeps.zRecv]⟩

theorem inbEvents_zRecv (config : BinkdConfig) (env : Env) (real : Str) (s : State) :
    (inbEvents config env real s).rx.zRecv = s.rx.zRecv := by
  have htest := evtTest_frame config env real s
  unfold inbEvents
  split
  · next s1 heq =>
    rw [heq] at htest
    obtain ⟨_, _, hr⟩ := htest.rx
    obtain ⟨_, _, hr'⟩ := (evtRun_frame config env real (s1.login.delayEob > 0) (s1.tx.q, s1)).rx
    dsimp only at hr hr' ⊢
    rw [hr', hr]
  · next s1 heq =>
    rw [heq] at htest
    obtain ⟨_, _, hr⟩ := htest.rx
    dsimp only at hr
    rw [hr]

theorem inCompleteDone_keepsIn (config : BinkdConfig) (env : Env) (s : State) :
    KeepsIn s (inCompleteDone config env s).1 := by
  refine ⟨inCompleteDone_inf config env s, ?_⟩
  have hdone : ∀ file, (inbDone config env file s).1.rx.zRecv = s.rx.zRecv := by
    intro file
    have hfind := findTmpName_frame config env (some file) s
    unfold inbDone
    split
    · next tmpName s1 heq =>
      rw [heq] at hfind
      split
      · dsimp only
        rw [hfind.rx]
      · dsimp only
        split_ifs
        all_goals first | rw [inbEvents_zRecv, hfind.rx] | rw [hfind.rx]
    · next s1 _ heq =>
      rw [heq] at hfind
      rw [hfind.rx]
  unfold inCompleteDone
  split_ifs
  · have hz := hdone s.rx.inComplete
    split
    · next s1 heq =>
      rw [heq] at hz
      exact hz
    · next s1 heq =>
      rw [heq] at hz
      exact hz
  · rfl

/-- **What an announcement opens** stands where the announcement says, at the end of the file. -/
theorem startFileRecv_opens {buf : List Byte} (haccept : startFileRecv config env buf s = (s', true))
    (hopen : s'.rx.inf.f = some h) (hend : InAtEnd s) :
    ∃ name size time off ws, parseArgs 4 (cstr buf) = some ([name, size, time, off], ws) ∧
      off ≠ str "-1" ∧ toSigned64 (strtoumax off) = h.pos ∧ h.pos = h.bytes.length ∧
      s'.rx.zRecv = recvExtras (getwords (ws ++ 0 :: env.tail) {}) ⟨false, false⟩ := by
  unfold startFileRecv at haccept
  rcases namedFile_four buf with ⟨name, size, time, off, ws, hargs, -⟩ | ⟨hargs, -⟩
  · rw [hargs] at haccept
    dsimp only at haccept
    refine ⟨name, size, time, off, ws, hargs, ?_⟩
    obtain ⟨s1, hs1, -, -⟩ := startFileRecv_closes config env s name
    have h1 : InAtEnd s1 ∧ s1.rx.zRecv = ⟨false, false⟩ := by
      rw [← hs1]
      split_ifs
      · unfold closePartial
        split
        · exact ⟨fun h hf => absurd hf (by simp [TFile.zero]), rfl⟩
        · refine ⟨fun h hf => absurd hf (by simp [TFile.zero]), ?_⟩
          dsimp only
          split_ifs
          · rw [(inbReject_frame config env _).rx]
            rfl
          · rfl
      · exact ⟨hend, rfl⟩
    rw [hs1] at haccept
    have hdone := inCompleteDone_keepsIn config env s1
    split at haccept
    · simp at haccept
    · next s2 heq =>
      rw [heq] at hdone
      have h2 : InAtEnd (newIn env name size time s2) ∧
          (newIn env name size time s2).rx.zRecv = ⟨false, false⟩ := by
        refine ⟨?_, ?_⟩
        · rcases newIn_cases env name size time s2 with ⟨-, hinf⟩ | ⟨-, hnone, -⟩
          · intro h hf
            rw [hinf] at hf
            exact hdone.atEnd h1.1 h hf
          · intro h hf
            exact absurd (hnone.symm.trans hf) (by simp)
        · unfold newIn
          split_ifs
          · exact hdone.zRecv.trans h1.2
          · exact hdone.zRecv.trans h1.2
      generalize newIn env name size time s2 = s3 at haccept h2
      -- the wish for NR mode has no part in it
      have hnr : ∀ s4, s4 = (if decide (off = str "-1") = true then { s3 with login := { s3.login with
          nrFlag := { s3.login.nrFlag with they := true } } } else s3) → KeepsIn s3 s4 := by
        intro s4 hs4
        rw [hs4]
        split_ifs
        · exact ⟨rfl, rfl⟩
        · exact .refl s3
      generalize hs4 : (if decide (off = str "-1") = true then { s3 with login := { s3.login with
        nrFlag := { s3.login.nrFlag with they := true } } } else s3) = s4 at haccept
      have hkeeps := hnr s4 hs4.symm
      split at haccept
      · next s5 heq5 =>
        obtain ⟨rfl, -⟩ := Prod.mk.inj haccept
        exact absurd ((openIn_answered heq5).symm.trans hopen) (by simp)
      · next s5 heq5 =>
        obtain ⟨hend5, hz5⟩ := openIn_keeps heq5 (hkeeps.atEnd h2.1)
        obtain ⟨hreq, hpos, hinf, hz⟩ := acceptIn_opens haccept (by rw [hopen]; rfl)
        have hopen5 : s5.rx.inf.f = some h := by rw [← hinf]; exact hopen
        rw [hopen5] at hpos
        refine ⟨of_decide_eq_false hreq, hpos, hend5 h hopen5, ?_⟩
        rw [hz, hz5, hkeeps.zRecv, h2.2]
  · rw [hargs] at haccept
    simp [cannotParse] at haccept

/-- The open file with more bytes behind it. -/
def Handle.extend (h : Handle) (out : List Byte) : Handle :=
  { h with bytes := h.bytes ++ out, pos := (h.bytes ++ out).length }

/-- The open file has grown, and nothing else has changed in the way it is received. -/
structure Grown (h : Handle) (out : List Byte) (s s' : State) : Prop where
  inf : s'.rx.inf = { s.rx.inf with f := some (h.extend out) }
  zRecv : s'.rx.zRecv = s.rx.zRecv

theorem Handle.extend_nil (hpos : h.pos = h.bytes.length) : h.extend [] = h := by
  unfold Handle.extend
  rw [List.append_nil, ← hpos]

theorem Grown.refl (hopen : s.rx.inf.f = some h) (hpos : h.pos = h.bytes.length) : Grown h [] s s := by
  refine ⟨?_, rfl⟩
  rw [Handle.extend_nil hpos, ← hopen]

theorem Grown.trans {out out' : List Byte} {a b c : State} (h1 : Grown h out a b)
    (h2 : Grown (h.extend out) out' b c) : Grown h (out ++ out') a c := by
  refine ⟨?_, h2.zRecv.trans h1.zRecv⟩
  rw [h2.inf, h1.inf]
  simp only [Handle.extend, List.append_assoc]

theorem appendIn_grown {bytes : List Byte} (happend : appendIn env bytes s = some s')
    (hopen : s.rx.inf.f = some h) : Grown h bytes s s' := by
  unfold appendIn at happend
  rw [hopen] at happend
  dsimp only at happend
  split_ifs at happend
  obtain rfl := Option.some.inj happend
  refine ⟨?_, rfl⟩
  simp only [Handle.extend, List.length_append]

theorem unzLoop_grown {type fuel : ℕ} {hist hist' : List (Call Byte)} {buf : List Byte} {rc rc' : Int}
    (hloop : unzLoop config env type fuel hist buf rc s = some (hist', rc', s'))
    (hopen : s.rx.inf.f = some h) (hpos : h.pos = h.bytes.length) : ∃ out, Grown h out s s' := by
  induction fuel generalizing hist buf rc s h with
  | zero => simp [unzLoop] at hloop
  | succ fuel ih =>
    rw [unzLoop] at hloop
    split_ifs at hloop
    · simp only [Option.some.injEq, Prod.mk.injEq] at hloop
      obtain ⟨-, -, rfl⟩ := hloop
      exact ⟨[], .refl hopen hpos⟩
    · dsimp only at hloop
      split_ifs at hloop
      · split at hloop
        · contradiction
        · next s1 heq =>
          have h1 := appendIn_grown heq hopen
          obtain ⟨out, h2⟩ := ih hloop (congrArg TFile.f h1.inf) rfl
          exact ⟨_, h1.trans h2⟩
      · exact ih hloop hopen hpos

/-- What a data block adds to the open file: the block itself, or what the decompressor makes of it. -/
theorem storeData_grown {payload : List Byte} (hstore : storeData config env payload s = some s')
    (hopen : s.rx.inf.f = some h) (hpos : h.pos = h.bytes.length) :
    ∃ out, Grown h out s s' ∧ (s.rx.zRecv.isOn = false → out = payload) := by
  unfold storeData at hstore
  generalize (if s.rx.zRecv.bz2 = true then 2 else 1) = type at hstore
  split_ifs at hstore with hon _ hne
  · split at hstore
    · contradiction
    · next hist rc s1 heq =>
      obtain rfl := Option.some.inj hstore
      obtain ⟨out, hout⟩ := unzLoop_grown heq hopen hpos
      exact ⟨out, ⟨hout.inf, hout.zRecv⟩, fun hoff => absurd hon (by simp [hoff])⟩
  · exact ⟨payload, appendIn_grown hstore hopen, fun _ => rfl⟩
  · obtain rfl := Option.some.inj hstore
    obtain rfl := not_not.mp hne
    exact ⟨[], .refl hopen hpos, fun _ => rfl⟩

theorem completeIn_closed (hdone : completeIn config env s = (s', true)) : s'.rx.inf.f = none := by
  unfold completeIn at hdone
  dsimp only at hdone
  by_cases hnd : s.login.ndFlag.they = true
  · rw [if_pos hnd] at hdone
    obtain ⟨rfl, -⟩ := Prod.mk.inj hdone
    rfl
  · rw [if_neg hnd] at hdone
    split at hdone
    · simp at hdone
    · obtain ⟨rfl, -⟩ := Prod.mk.inj hdone
      rfl

/-- **A data block** makes the open file longer; a file that is closed with it has got its size. -/
theorem recvData_grown {payload : List Byte} (hdata : recvData config env payload s = (s', true))
    (hopen : s.rx.inf.f = some h) (hpos : h.pos = h.bytes.length) :
    ∃ out, (s.rx.zRecv.isOn = false → out = payload) ∧ (Grown h out s s' ∨
      (s'.rx.inf.f = none ∧ ((h.bytes ++ out).length : Int) = s.rx.inf.size)) := by
  unfold recvData at hdata
  rw [if_neg (by simp [hopen])] at hdata
  split at hdata
  · simp at hdata
  · next s1 hstore =>
    obtain ⟨out, hgrown, hplain⟩ := storeData_grown hstore hopen hpos
    have hopen1 : s1.rx.inf.f = some (h.extend out) := congrArg TFile.f hgrown.inf
    have hsize1 : s1.rx.inf.size = s.rx.inf.size := by rw [hgrown.inf]
    refine ⟨out, hplain, ?_⟩
    rw [hopen1] at hdata
    dsimp only at hdata
    split_ifs at hdata with hfull hfault
    · simp at hdata
    · exact .inr ⟨completeIn_closed hdata, hfull.trans hsize1⟩
    · obtain ⟨rfl, -⟩ := Prod.mk.inj hdata
      exact .inl hgrown

/-! ### What the receiver keeps -/

/-- An announcement that needs no decompression, with a netname that `netname_` has built and an
offset that is one of a file. -/
structure Simple (m : FileMsg) : Prop where
  extra : m.extra = []
  netname : ∃ (env : Env) (q : TFile), extractFilename q.path ≠ [] ∧ env.rnd 0 < 2 ^ 64 ∧
    m.file.netname = netname env q
  off : ∀ n, m.off = some n → n < 2 ^ 63

/-- While a file is open, the frames read last are an announcement and data, and the data stand
behind the announced offset. -/
def Fed (s : State) (got : List Item) : Prop :=
  ∀ h, s.rx.inf.f = some h → h.pos = h.bytes.length ∧ ∃ m data, current got = some (m, data) ∧
    (Simple m → s.rx.zRecv.isOn = false ∧
      ∃ off, m.off = some off ∧ off ≤ h.bytes.length ∧ h.bytes.drop off = data)

theorem Fed.atEnd {got : List Item} (h : Fed s got) : InAtEnd s := fun f hf => (h f hf).1

theorem Fed.keep {got got' : List Item} (h : Fed s got) (hkeeps : KeepsIn s s')
    (hcur : current got' = current got) : Fed s' got' := by
  intro f hf
  rw [hkeeps.inf] at hf
  rw [hcur, hkeeps.zRecv]
  exact h f hf

theorem Fed.closed {got : List Item} (hnone : s.rx.inf.f = none) : Fed s got := by
  intro f hf
  exact absurd (hnone.symm.trans hf) (by simp)

/-- The announcement is read back as it was made. -/
theorem Simple.parse (hm : Simple m) : ∃ name size time,
    parseArgs 4 (cstr (m.text.take msgTextMax)) =
      some ([name, size, time, m.off.elim (str "-1") decimal], []) := by
  obtain ⟨env, q, hpath, hrnd, hname⟩ := hm.netname
  obtain ⟨hw, hlen⟩ := netname_word env q hpath hrnd
  rw [← hname] at hw hlen
  have hoffset : Word (m.off.elim (str "-1") decimal) ∧ (m.off.elim (str "-1") decimal).length ≤ 20 := by
    cases hoff : m.off with
    | none => exact ⟨⟨by decide, by decide +kernel⟩, by decide⟩
    | some n =>
      have hn := hm.off n hoff
      exact ⟨Word.of_decimal n, decimal_length (by omega)⟩
  have htext : m.text = m.file.args ++ 32 :: m.off.elim (str "-1") decimal := by
    simp only [FileMsg.text, TFile.args, hm.extra, List.append_assoc]
    cases m.off <;> simp [str]
  obtain ⟨hoff, hshort⟩ := hoffset
  have hroom : (m.off.elim (str "-1") decimal).length ≤ msgTextMax - m.file.args.length - 1 := by
    have h1 := decimal_length (toUnsigned64_lt m.file.size)
    have h2 := decimal_length (toUnsigned64_lt m.file.time)
    simp only [TFile.args, List.length_append, List.length_cons, List.length_nil, msgTextMax, maxPathLen]
    simp only [maxNetname] at hlen
    omega
  have hcstr : cstr (m.off.elim (str "-1") decimal) = m.off.elim (str "-1") decimal :=
    List.takeWhile_eq_self_iff.mpr fun c hc => by simp [(hoff.plain c hc).2]
  refine ⟨m.file.netname, decimal (toUnsigned64 m.file.size), decimal (toUnsigned64 m.file.time), ?_⟩
  rw [htext, args_parse hw hlen 1, List.take_of_length_le hroom, hcstr, parseArgs_end hoff]
  rfl

theorem offset_decimal {n : ℕ} (hn : n < 2 ^ 63) : toSigned64 (strtoumax (decimal n)) = n := by
  have h := size_decimal (n := (n : Int)) (by omega) (by omega)
  rwa [show toUnsigned64 (n : Int) = n by unfold toUnsigned64; omega] at h

theorem getwords_nul (tail : List Byte) : getwords (0 :: tail) {} = [] := by
  have hfirst : getwordx2 {} defFldsep defFldsep 1 (0 :: tail) = none := by
    unfold getwordx2 getwordx2From
    rw [List.dropWhile_cons_of_neg (by simp)]
    dsimp only
    rw [if_pos (.inl rfl)]
  unfold getwords
  rw [List.length_cons, getwordsFrom, hfirst]

/-- The counter of messages is not part of the file. -/
theorem KeepsIn.counted (s : State) :
    KeepsIn s { s with link := { s.link with msgsInBatch := s.link.msgsInBatch + 1 } } := ⟨rfl, rfl⟩

/-- A file is opened where the announcement says, and there are no data behind it yet. -/
theorem Fed.announced {got : List Item} (hend : InAtEnd s)
    (haccept : startFileRecv config env (m.text.take msgTextMax) s = (s', true)) : Fed s' (.file m :: got) := by
  intro h hopen
  obtain ⟨name, size, time, off, ws, hargs, hreq, hoff, hpos, hz⟩ := startFileRecv_opens haccept hopen hend
  refine ⟨hpos, m, [], rfl, fun hm => ?_⟩
  obtain ⟨name', size', time', hparse⟩ := hm.parse
  rw [hparse] at hargs
  simp only [Option.some.injEq, Prod.mk.injEq, List.cons.injEq, and_true] at hargs
  obtain ⟨⟨-, -, -, rfl⟩, rfl⟩ := hargs
  refine ⟨?_, ?_⟩
  · rw [hz, List.nil_append, getwords_nul]
    rfl
  · cases hm' : m.off with
    | none =>
      rw [hm'] at hreq
      exact absurd rfl hreq
    | some n =>
      rw [hm', Option.elim_some, offset_decimal (hm.off n hm')] at hoff
      have hn : n = h.bytes.length := by omega
      exact ⟨n, rfl, hn.le, by rw [hn, List.drop_length]⟩

/-- **A frame** keeps what the receiver keeps. -/
theorem Fed.read {got : List Item} {i : Item} (hi : ∀ text, i ≠ .msg M_FILE text) (h : Fed s got)
    (hread : processBlock config env i.imsg i.body s = (s', true)) : Fed s' (i :: got) := by
  cases i with
  | msg t text =>
    have ht : t ≠ M_FILE := fun ht => hi text (by rw [ht])
    have hhandle : handle config env t text
        { s with link := { s.link with msgsInBatch := s.link.msgsInBatch + 1 } } = (s', true) := hread
    have hk := @handle_keepsIn config env
      { s with link := { s.link with msgsInBatch := s.link.msgsInBatch + 1 } } t text ht
    rw [hhandle] at hk
    rcases hk with hnone | hkeeps
    · exact .closed hnone
    · exact h.keep ((KeepsIn.counted s).trans hkeeps) rfl
  | file m =>
    have haccept : startFileRecv config env (m.text.take msgTextMax)
        { s with link := { s.link with msgsInBatch := s.link.msgsInBatch + 1 } } = (s', true) := hread
    exact .announced ((KeepsIn.counted s).atEnd h.atEnd) haccept
  | data payload =>
    have hdata : recvData config env payload s = (s', true) := hread
    cases hopen : s.rx.inf.f with
    | none =>
      -- data without a file are dropped
      unfold recvData at hdata
      rw [if_pos (by rw [hopen]; rfl)] at hdata
      obtain ⟨rfl, -⟩ := Prod.mk.inj hdata
      exact .closed hopen
    | some f =>
      obtain ⟨hpos, m, data, hcur, hsimple⟩ := h f hopen
      obtain ⟨out, hplain, hgrown | ⟨hnone, -⟩⟩ := recvData_grown hdata hopen hpos
      · intro f' hopen'
        obtain rfl : f.extend out = f' := by
          rw [hgrown.inf] at hopen'
          exact Option.some.inj hopen'
        refine ⟨rfl, m, data ++ payload, by rw [current, hcur]; rfl, fun hm => ?_⟩
        obtain ⟨hoff, off, hmoff, hle, hdrop⟩ := hsimple hm
        refine ⟨by rw [hgrown.zRecv]; exact hoff, off, hmoff, ?_, ?_⟩
        · exact hle.trans (List.prefix_append _ _).length_le
        · show (f.bytes ++ out).drop off = _
          rw [List.drop_append_of_le_length hle, hdrop, hplain hoff]
      · exact .closed hnone

/-! ### What the sender keeps -/

/-- No announcement is queued as a text. -/
def NoText (log : List Item) : Prop := ∀ text, Item.msg M_FILE text ∉ log

theorem NoText.replies {log log' : List Item} (h : NoText log) (hlog : Replies log log') : NoText log' := by
  obtain ⟨items, hitems, rfl⟩ := hlog
  intro text hmem
  rcases List.mem_append.mp hmem with hmem | hmem
  · exact absurd (hitems _ hmem) (by simp [Item.isReply])
  · exact h text hmem

theorem NoText.step (h : NoText s.link.log) (hstep : WireStep decode s s') : NoText s'.link.log := by
  cases hstep with
  | quiet hlog => exact h.replies hlog
  | file m hlog =>
    intro text hmem
    rw [hlog] at hmem
    exact h text ((List.mem_cons.mp hmem).resolve_left (by simp))
  | empty hlog =>
    intro text hmem
    rw [hlog] at hmem
    exact h text ((List.mem_cons.mp hmem).resolve_left (by simp))
  | data f payload m data _ hlog =>
    intro text hmem
    rw [hlog] at hmem
    exact h text ((List.mem_cons.mp hmem).resolve_left (by simp))

/-- The data behind an announcement are those of its file, wherever one stops reading. -/
structure SentBehind (decode : ZSend → List Byte → List Byte) (m : FileMsg) (rest : List Item)
    (content : List Byte) (s : State) (live : Bool) : Prop where
  sofar : Sofar decode m rest content s live
  parts : ∀ later, s.link.log = later ++ .file m :: rest → ∀ part, part <:+ later →
    (∀ m', Item.file m' ∉ part) → decoded decode m (dataOf part) <+: content.drop (m.off.getD 0)

/-- A part of a log that has grown is an old one, or some of the new frames and all the old ones. -/
theorem part_cases {part items later : List Item} (h : part <:+ items ++ later) :
    part <:+ later ∨ ∃ x, x <:+ items ∧ part = x ++ later := by
  rcases List.suffix_or_suffix_of_suffix h (List.suffix_append items later) with hpart | ⟨x, rfl⟩
  · exact .inl hpart
  · exact .inr ⟨x, List.suffix_append_self_iff.mp h, rfl⟩

theorem Sofar.whole {live : Bool} (h : Sofar decode m rest content s live) {later : List Item}
    (hlater : s.link.log = later ++ .file m :: rest) (hno : ∀ m', Item.file m' ∉ later) :
    decoded decode m (dataOf later) <+: content.drop (m.off.getD 0) := by
  obtain ⟨later', hlater', hdata⟩ := h
  obtain rfl : later' = later := List.append_cancel_right (hlater'.symm.trans hlater)
  exact (hdata hno).1

theorem SentBehind.replies {live live' : Bool} (h : SentBehind decode m rest content s live)
    (hsofar : Sofar decode m rest content s' live') (hlog : Replies s.link.log s'.link.log) :
    SentBehind decode m rest content s' live' := by
  refine ⟨hsofar, fun later' hlater' part hpart hno => ?_⟩
  obtain ⟨later, hlater, -⟩ := h.sofar
  obtain ⟨items, hitems, hlog⟩ := hlog
  rw [hlog, hlater, ← List.append_assoc] at hlater'
  obtain rfl := List.append_cancel_right hlater'
  rcases part_cases hpart with hold | ⟨x, hx, rfl⟩
  · exact h.parts later hlater part hold hno
  · rw [dataOf_replies fun i hi => hitems i (hx.subset hi)]
    exact h.parts later hlater later List.suffix_rfl fun m' hm' => hno m' (List.mem_append_right x hm')

theorem SentBehind.frame {live live' : Bool} {i : Item} (h : SentBehind decode m rest content s live)
    (hsofar : Sofar decode m rest content s' live') (hlog : s'.link.log = i :: s.link.log) :
    SentBehind decode m rest content s' live' := by
  refine ⟨hsofar, fun later' hlater' part hpart hno => ?_⟩
  obtain ⟨later, hlater, -⟩ := h.sofar
  have hnew : s'.link.log = i :: later ++ .file m :: rest := by rw [hlog, hlater]; rfl
  obtain rfl : i :: later = later' := List.append_cancel_right (hnew.symm.trans hlater')
  rcases List.suffix_cons_iff.mp hpart with rfl | hold
  · exact hsofar.whole hlater' hno
  · exact h.parts later hlater part hold hno

theorem SentBehind.step (h : SentBehind decode m rest content s true) (hstep : WireStep decode s s') :
    SentBehind decode m rest content s' true := by
  have hsofar := h.sofar.step hstep
  cases hstep with
  | quiet hlog => exact h.replies hsofar hlog
  | file m' hlog => exact h.frame hsofar hlog
  | empty hlog => exact h.frame hsofar hlog
  | data f payload m' data _ hlog => exact h.frame hsofar hlog

/-! ### Rounds of the main loop -/

theorem nextFile_keepsIn (config : BinkdConfig) (env : Env) (s : State) :
    KeepsIn s (nextFile config env s) := by
  have hloop : ∀ fuel s, KeepsIn s (nextFileLoop config env fuel s) := by
    intro fuel
    induction fuel with
    | zero => exact fun s => .refl s
    | succ fuel ih =>
      intro s
      rw [nextFileLoop]
      split_ifs
      · have hstart := startFileTransfer_frame config env none s
        split
        · next s1 heq =>
          rw [heq] at hstart
          exact .of_rx hstart.rx
        · next s1 heq =>
          rw [heq] at hstart
          exact (KeepsIn.of_rx hstart.rx).trans (ih s1)
      · split
        · exact ⟨rfl, rfl⟩
        · next file q _ =>
          have hstart := startFileTransfer_frame config env (some file) { s with tx := { s.tx with q := q } }
          split
          · next s1 heq =>
            rw [heq] at hstart
            exact .of_rx hstart.rx
          · next s1 heq =>
            rw [heq] at hstart
            have hrest := (KeepsIn.of_rx hstart.rx).trans (ih s1)
            exact ⟨hrest.inf, hrest.zRecv⟩
  unfold nextFile
  split_ifs
  · exact hloop _ s
  · exact .refl s

theorem roundHead_keepsIn (config : BinkdConfig) (i : Input) (s : State) :
    KeepsIn s (roundHead config i s) := by
  have hnext := nextFile_keepsIn config i.env { s with disk := i.env.outside s.disk }
  unfold roundHead sendEOB
  split_ifs
  · exact ⟨hnext.inf, hnext.zRecv⟩
  · exact ⟨hnext.inf, hnext.zRecv⟩

theorem endBatch_keepsIn (config : BinkdConfig) (env : Env) (s : State) :
    KeepsIn s (endBatch config env s).1 := by
  have hrequests : KeepsIn s (batchRequests config env s) := by
    unfold batchRequests
    split_ifs
    · exact .refl s
    · have hlist : EvtFrame s (processRcvdlist config env s).2 :=
        EvtFrame.foldl Prod.snd _ (fun qs name => evtRun_frame config env name true qs) (s.tx.q, s)
      obtain ⟨_, _, hrx⟩ := hlist.rx
      dsimp only
      exact ⟨by rw [hrx], by rw [hrx]⟩
  unfold endBatch
  dsimp only
  split_ifs
  · exact hrequests.trans (.of_rx (ndForget_frame config env _).rx)
  · unfold nextBatch
    dsimp only
    split_ifs
    · exact ⟨hrequests.inf, hrequests.zRecv⟩
    · exact ⟨hrequests.inf, hrequests.zRecv⟩

theorem sendBlock_keepsIn (config : BinkdConfig) (env : Env) (r : SendResult) (s : State) :
    KeepsIn s (sendBlock config env r s).1 := by
  unfold sendBlock
  split
  · unfold sendPend
    split <;> exact ⟨rfl, rfl⟩
  · split
    · obtain ⟨_, _, heq⟩ := sendMsgs_spec env s
      rw [heq]
      exact ⟨rfl, rfl⟩
    · split
      · obtain ⟨_, _, _, _, _, _, _, _, heq⟩ := sendData_spec config env s
        rw [heq]
        exact ⟨rfl, rfl⟩
      · exact .refl s

/-- The writing half of a round. -/
theorem exchange_keepsIn {r : State × Bool} (send : Option SendResult)
    (hgo : (match r with
      | (s, false) => (s, false)
      | (s, true) => match send with
        | some r => sendBlock config env r s
        | none => (s, true)) = (s', true)) : r.2 = true ∧ KeepsIn r.1 s' := by
  obtain ⟨s1, live⟩ := r
  cases live with
  | false => simp at hgo
  | true =>
    refine ⟨rfl, ?_⟩
    cases send with
    | none =>
      obtain ⟨rfl, -⟩ := Prod.mk.inj hgo
      exact .refl s1
    | some r =>
      have hsend := sendBlock_keepsIn config env r s1
      dsimp only at hgo
      rw [hgo] at hsend
      exact hsend

/-- **A round reads at most one frame**: but for a complete block, which it hands on, a round
leaves the open file alone. -/
theorem iterate_reads {i : Input} (hlive : iterate config i s = (s', true)) : KeepsIn s s' ∨
    ∃ s1 imsg block s2, KeepsIn s s1 ∧ s1.link.arrived = .block imsg block ∧
      processBlock config i.env imsg block s1 = (s2, true) ∧ KeepsIn s2 s' := by
  have hhead := roundHead_keepsIn config i s
  unfold iterate at hlive
  dsimp only at hlive
  have hfold : sendEOB (nextFile config i.env { s with disk := i.env.outside s.disk }) = roundHead config i s := rfl
  rw [hfold] at hlive
  generalize roundHead config i s = s1 at hhead hlive
  by_cases hended : batchEnded s1 = true
  · rw [if_pos hended] at hlive
    have hend := endBatch_keepsIn config i.env s1
    rw [hlive] at hend
    exact .inl (hhead.trans hend)
  · rw [if_neg hended] at hlive
    cases hsel : i.select with
    | timeout =>
      rw [hsel] at hlive
      simp at hlive
    | error =>
      rw [hsel] at hlive
      simp at hlive
    | ready recv send =>
      rw [hsel] at hlive
      dsimp only at hlive
      generalize (if wantWrite s1 = true then send else none) = send' at hlive
      obtain ⟨hgo, hkeeps⟩ := exchange_keepsIn _ hlive
      cases recv with
      | none => exact .inl (hhead.trans hkeeps)
      | some r =>
        cases r with
        | wouldBlock => exact .inl (hhead.trans hkeeps)
        | error => simp [recvBlock] at hgo
        | bytes l =>
          have hread : KeepsIn s1 (recvBytes l s1) := ⟨rfl, rfl⟩
          by_cases hl : l = [] ∧ s1.link.want > 0
          · simp [recvBlock, hl] at hgo
          · simp only [recvBlock, if_neg hl] at hgo hkeeps
            generalize recvBytes l s1 = s2 at hgo hkeeps hread
            unfold recvArrived at hgo hkeeps
            cases harr : s2.link.arrived with
            | nothing =>
              rw [harr] at hkeeps
              exact .inl ((hhead.trans hread).trans hkeeps)
            | header imsg size =>
              rw [harr] at hkeeps
              exact .inl ((hhead.trans hread).trans ⟨hkeeps.inf, hkeeps.zRecv⟩)
            | block imsg block =>
              rw [harr] at hgo hkeeps
              dsimp only at hgo hkeeps
              cases hblock : processBlock config i.env imsg block s2 with
              | mk s3 live =>
                rw [hblock] at hgo hkeeps
                cases live with
                | false => simp at hgo
                | true =>
                  exact .inr ⟨s2, imsg, block, s3, hhead.trans hread, harr, hblock, hkeeps.inf, hkeeps.zRecv⟩

/-- **A round of the receiver** is made of steps of the connection, where a block that is complete is
the next frame of the sender. -/
theorem Transfer.round {t : Transfer} {i : Input} {b : State} (hlive : iterate configB i t.b = (b, true))
    (hnext : ∀ b1 imsg block, KeepsIn t.b b1 → b1.link.arrived = .block imsg block →
      ∃ f, t.a.link.log.reverse[t.read]? = some f ∧ f.imsg = imsg ∧ f.body = block) :
    ∃ read, t.read ≤ read ∧
      Relation.ReflTransGen (TransferStep configA configB) t { t with b := b, read := read } := by
  rcases iterate_reads hlive with hkeeps | ⟨b1, imsg, block, b2, hbefore, harr, hblock, hbehind⟩
  · exact ⟨t.read, le_rfl, .single (.receiver t b hkeeps)⟩
  · obtain ⟨f, hf, rfl, rfl⟩ := hnext b1 imsg block hbefore harr
    refine ⟨t.read + 1, Nat.le_succ _, ?_⟩
    have hread : TransferStep configA configB { t with b := b1 } { t with b := b2, read := t.read + 1 } :=
      .read { t with b := b1 } i.env f b2 hf hblock
    exact ((Relation.ReflTransGen.single (.receiver t b1 hbefore)).tail hread).tail
      (.receiver { t with b := b2, read := t.read + 1 } b hbehind)

/-! ### Both sides -/

/-- What the two sides keep between the steps. -/
structure TransferInv (configA : BinkdConfig) (t : Transfer) : Prop where
  wire : t.live = true → WireInv configA t.a
  noText : NoText t.a.link.log
  read : t.read ≤ t.a.link.log.length
  fed : Fed t.b t.got

/-- The sender has only added to its log. -/
theorem TransferInv.sender {t : Transfer} {a : State} {live : Bool} (h : TransferInv configA t)
    (hwire : live = true → WireInv configA a) (hno : NoText a.link.log) (hlog : t.a.link.log <:+ a.link.log) :
    TransferInv configA { t with a := a, live := live } :=
  ⟨hwire, hno, h.read.trans hlog.length_le, by
    rw [got_grows h.read hlog]
    exact h.fed⟩

theorem TransferInv.step {t t' : Transfer} (hcodec : Codec configA decode) (hshares : configA.shares = [])
    (h : TransferInv configA t) (hstep : TransferStep configA configB t t') : TransferInv configA t' := by
  cases hstep with
  | act env a hlive hact hok =>
    obtain ⟨hwire, hwstep⟩ := (h.wire hlive).act hcodec hshares hact hok
    exact h.sender (fun _ => hwire) (h.noText.step hwstep) hact.log_suffix
  | message env ty buf hlive =>
    obtain ⟨hgoes, hstops⟩ := @WireInv.message configA env t.a decode (h.wire hlive) ty buf
    refine h.sender (fun hgo => (hgoes hgo).1) ?_ (handle_log_suffix configA env ty buf)
    cases hgo : (handle configA env ty buf t.a).2 with
    | true => exact h.noText.step (hgoes hgo).2
    | false => exact h.noText.replies (hstops hgo)
  | read env i b hnext hread =>
    have hmem : i ∈ t.a.link.log := List.mem_reverse.mp (List.mem_of_getElem? hnext)
    have hlt : t.read < t.a.link.log.reverse.length := (List.getElem?_eq_some_iff.mp hnext).1
    rw [List.length_reverse] at hlt
    refine ⟨h.wire, h.noText, hlt, ?_⟩
    rw [got_read hnext]
    exact h.fed.read (fun text hi => h.noText text (hi ▸ hmem)) hread
  | receiver b hkeeps => exact ⟨h.wire, h.noText, h.read, h.fed.keep hkeeps rfl⟩

theorem SentBehind.transfer {t t' : Transfer} (hcodec : Codec configA decode) (hshares : configA.shares = [])
    (hinv : TransferInv configA t) (h : SentBehind decode m rest content t.a t.live)
    (hstep : TransferStep configA configB t t') : SentBehind decode m rest content t'.a t'.live := by
  cases hstep with
  | act env a hlive hact hok =>
    rw [hlive] at h ⊢
    exact h.step ((hinv.wire hlive).act hcodec hshares hact hok).2
  | message env ty buf hlive =>
    obtain ⟨hgoes, hstops⟩ := @WireInv.message configA env t.a decode (hinv.wire hlive) ty buf
    rw [hlive] at h
    dsimp only
    cases hgo : (handle configA env ty buf t.a).2 with
    | true => exact h.step (hgoes hgo).2
    | false =>
      exact h.replies (h.sofar.replies (hstops hgo) fun hlive => absurd hlive (by decide)) (hstops hgo)
  | read => exact h
  | receiver => exact h

/-- Both sides at the start of a session. -/
def Transfer.start (configA configB : BinkdConfig) (envA envB : Env) (diskA diskB : Disk)
    (toA toB : Option FtnNode) (faA faB : Option FtnAddr) : Transfer where
  a := Binkd.start configA envA diskA [] [] toA faA
  live := true
  b := Binkd.start configB envB diskB [] [] toB faB
  read := 0

theorem TransferInv.start (envA envB : Env) (diskA diskB : Disk) (toA toB : Option FtnNode)
    (faA faB : Option FtnAddr) :
    TransferInv configA (Transfer.start configA configB envA envB diskA diskB toA toB faA faB) := by
  have ha := start_opening configA envA diskA [] [] toA faA
  have hb := start_opening configB envB diskB [] [] toB faB
  refine ⟨fun _ => ⟨⟨?_, ?_⟩, ?_⟩, ?_, Nat.zero_le _, .closed ?_⟩
  · exact fun _ => by rw [Transfer.start, ha.tx]
  · exact fun h => absurd (by rw [Transfer.start, ha.tx]) h
  · intro f hf
    rw [Transfer.start, ha.tx] at hf
    exact absurd hf (by simp)
  · exact @NoText.replies [] _ (fun _ => List.not_mem_nil) ha.link.replies
  · rw [Transfer.start, hb.rx]

theorem TransferInv.run {t t' : Transfer} (hcodec : Codec configA decode) (hshares : configA.shares = [])
    (h : TransferInv configA t) (run : Relation.ReflTransGen (TransferStep configA configB) t t') :
    TransferInv configA t' := by
  induction run with
  | refl => exact h
  | tail _ hstep ih => exact ih.step hcodec hshares hstep

theorem SentBehind.run {t t' : Transfer} (hcodec : Codec configA decode) (hshares : configA.shares = [])
    (hinv : TransferInv configA t) (h : SentBehind decode m rest content t.a t.live)
    (run : Relation.ReflTransGen (TransferStep configA configB) t t') :
    SentBehind decode m rest content t'.a t'.live := by
  induction run with
  | refl => exact h
  | tail hrun hstep ih => exact ih.transfer hcodec hshares (hinv.run hcodec hshares hrun) hstep

/-- A file that has just been announced. -/
theorem SentBehind.announced (hcodec : Codec config decode) (hlog : s.link.log = .file m :: rest) (live : Bool) :
    SentBehind decode m rest (openContent s) s live := by
  have hnil : decoded decode m (dataOf []) <+: (openContent s).drop (m.off.getD 0) := by
    rw [dataOf, decoded_nil hcodec]
    exact List.nil_prefix
  refine ⟨⟨[], hlog, fun _ => ⟨hnil, fun _ f hf => by rw [openContent, hf]⟩⟩,
    fun later hlater part hpart _ => ?_⟩
  obtain rfl : [] = later := List.append_cancel_right (hlog.symm.trans hlater)
  obtain rfl := List.suffix_nil.mp hpart
  exact hnil

/-- What the receiver holds of a file that is `content` at the sender, from the offset on: a part of
it, and with the block that completes the file the whole of it. -/
structure TransferIntact (configB : BinkdConfig) (content : List Byte) (off : ℕ) (t : Transfer) (h : Handle) : Prop where
  le : off ≤ h.bytes.length
  part : h.bytes.drop off <+: content.drop off
  whole : ∀ env payload b, t.a.link.log.reverse[t.read]? = some (.data payload) →
    recvData configB env payload t.b = (b, true) → b.rx.inf.f = none →
    ((h.bytes ++ payload).length : Int) = t.b.rx.inf.size ∧
      (h.bytes ++ payload).drop off <+: content.drop off ∧
      ((content.length : Int) = t.b.rx.inf.size → (h.bytes ++ payload).drop off = content.drop off)

/-- The receiver reads some frames, one after the other. -/
def readItems (config : BinkdConfig) (env : Env) : List Item → State → Option State
  | [], s => some s
  | i :: items, s =>
    match processBlock config env i.imsg i.body s with
    | (s, true) => readItems config env items s
    | (_, false) => none

theorem Transfer.reads {items : List Item} {t : Transfer} {b : State}
    (hitems : t.a.link.log.reverse.drop t.read = items) (hread : readItems configB env items t.b = some b) :
    Relation.ReflTransGen (TransferStep configA configB) t
    { t with b := b, read := t.read + items.length } := by
  induction items generalizing t with
  | nil =>
    obtain rfl := Option.some.inj hread
    exact .refl
  | cons i items ih =>
    have hnext : t.a.link.log.reverse[t.read]? = some i := by
      rw [← List.head?_drop, hitems]
      rfl
    have hrest : t.a.link.log.reverse.drop (t.read + 1) = items := by
      rw [← List.tail_drop, hitems]
      rfl
    rw [readItems] at hread
    split at hread
    · next b1 hblock =>
      have hrun := @ih { t with b := b1, read := t.read + 1 } hrest hread
      dsimp only at hrun
      rw [Nat.add_assoc, Nat.add_comm 1] at hrun
      exact .head (.read t env i b1 hnext hblock) hrun
    · contradiction

/-- A remote without compression has logged in to the packing node. -/
def plainLogin : State :=
  (handle packConfig {} M_PWD (str "-") (handle packConfig {} M_ADR (str "2:5020/1") packStart).1).1

theorem plainLogin_queue : (selectNextFile plainLogin.tx.q).isSome = true := by decide +kernel

/-- The first file is announced, as it is. -/
def plainAnnounced : State :=
  (startFileTransfer packConfig {} (some ((selectNextFile plainLogin.tx.q).get plainLogin_queue).1)
    { plainLogin with tx := { plainLogin.tx with
        q := ((selectNextFile plainLogin.tx.q).get plainLogin_queue).2 } }).1

/-- The two sides before anything has been read. -/
def plainTransfer : Transfer :=
  Transfer.start packConfig inboundConfig {} {} spoolDisk ((∅ : Disk).insert (str "/n") { isDir := true })
    none (some { fa := aka 9 }) none none

/-- The caller has read all that was sent. -/
def callerOpened : State :=
  (readItems inboundConfig {} plainAnnounced.link.log.reverse plainTransfer.b).getD plainTransfer.b

end Binkd

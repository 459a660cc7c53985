import Binkd.SentFiles

/-!
# The data blocks (`send_block`, `z_send_init`, `z_send_stop`)

`fileBlock` reads on from the open file, and hands what it has read to the compressor
where one is on.  `Feeds` says that the data sent since the announcement are those of the
file up to where it stands: as they are, or what the compressor has made of them.
`fileBlock_feeds` keeps it from block to block, and `zSendInit_new` and `zResume_new` begin
it for a new file; the compressor that begins has to be one that is off.
-/

namespace Binkd

open Lib

variable {config : BinkdConfig} {env : Env} {s s' : State}

/-! ### The data that a block takes from the file -/

/-- What has been read of a file since an offset. -/
def Handle.slice (h : Handle) (off : ℕ) : List Byte := (h.bytes.take h.pos).drop off

theorem Handle.slice_self (h : Handle) : h.slice h.pos = [] := by
  rw [slice, List.drop_eq_nil_iff, List.length_take]
  omega

theorem Handle.slice_isPrefix (h : Handle) (off : ℕ) : h.slice off <+: h.bytes.drop off := by
  have hread : h.bytes.take h.pos <+: h.bytes := List.take_prefix h.pos h.bytes
  exact hread.drop off

/-- A read goes on where the one before has stopped. -/
theorem Handle.read_slice {n off : ℕ} {h h' : Handle} {bytes : List Byte}
    (hread : h.read n = some (bytes, h'))
    (hoff : off ≤ h.pos) :
    h'.slice off = h.slice off ++ bytes ∧ h'.bytes = h.bytes ∧ h.pos ≤ h'.pos := by
  unfold read at hread
  split_ifs at hread with hshort
  obtain ⟨rfl, rfl⟩ := Prod.mk.inj (Option.some.inj hread)
  refine ⟨?_, rfl, Nat.le_add_right _ _⟩
  rw [slice, slice, List.take_add, List.drop_append_of_le_length]
  rw [List.length_take]
  have : ({ h with pos := h.pos + n } : Handle).bytes.length = h.bytes.length := rfl
  omega

/-- The loop around the compressor hands it all that is read, and sends all that it leaves. -/
theorem zLoop_stream {z : Stepper Byte} {decode : List Byte → List Byte} (hz : z.Compressing decode)
    {oblksize off : ℕ}
    {size : Int} {fuel : ℕ} {hist : List (Call Byte)} {h : Handle} {zbuf obuf : List Byte} {r : ZOut}
    (hloop : zLoop z oblksize size fuel hist h zbuf obuf = some r) (hhist : ¬ z.Ended hist)
    (hobuf : obuf.length ≤ oblksize) (hoff : off ≤ h.pos) :
    (∃ out, r.obuf = obuf ++ out ∧ z.made r.hist = z.made hist ++ out) ∧
    (∃ bytes, r.h.slice off = h.slice off ++ bytes ∧ z.fed r.hist ++ r.rest = z.fed hist ++ zbuf ++ bytes) ∧
    r.h.bytes = h.bytes ∧ h.pos ≤ r.h.pos ∧ (r.ended = false → ¬ z.Ended r.hist) ∧
    (r.ended = true → r.rest = []) := by
  induction fuel generalizing hist h zbuf obuf with
  | zero => simp [zLoop] at hloop
  | succ fuel ih =>
    rw [zLoop] at hloop
    generalize hk : (⟨zbuf, oblksize - obuf.length,
      decide ((size - ↑h.pos).toNat = 0)⟩ : Call Byte) = k at hloop
    have hsrc : k.src = zbuf := by rw [← hk]
    have hroom : k.room = oblksize - obuf.length := by rw [← hk]
    have hfed : z.fed (k :: hist) ++ zbuf.drop (z hist k).used = z.fed hist ++ zbuf := by
      rw [Stepper.fed_cons, hsrc, List.append_assoc, List.take_append_drop]
    have hout := hz.out_le hist k
    have hend : (z hist k).rc ≠ 1 → ¬ z.Ended (k :: hist) := by
      intro hrc hended
      have hpos : 0 < (z hist k).rc := hended
      have := hz.rc_le hist k
      omega
    split_ifs at hloop with herr hfinal hfull hleft
    · obtain rfl := Option.some.inj hloop
      refine ⟨⟨_, rfl, rfl⟩, ⟨[], by simp, by simpa using hfed⟩, rfl, le_rfl,
        fun h => absurd h (by simp),
        fun _ => ?_⟩
      rw [List.drop_eq_nil_iff, (hz.ends hist k hfinal.2).2, hsrc]
    · obtain rfl := Option.some.inj hloop
      refine ⟨⟨_, rfl, rfl⟩, ⟨[], by simp, by simpa using hfed⟩, rfl, le_rfl, fun _ => hend ?_,
        fun h => absurd h (by simp)⟩
      intro hrc
      have hfin := (hz.ends hist k hrc).1
      rw [← hk] at hfin
      exact hfinal ⟨of_decide_eq_true hfin, hrc⟩
    all_goals
      have hrc : (z hist k).rc ≠ 1 := by
        intro hrc
        have hfin := (hz.ends hist k hrc).1
        rw [← hk] at hfin
        exact hfinal ⟨of_decide_eq_true hfin, hrc⟩
      have hlen : (obuf ++ (z hist k).out).length ≤ oblksize := by
        rw [List.length_append]
        omega
      -- the output is not full, so nothing is left over
      have hall : zbuf.drop (z hist k).used = [] := by
        rw [List.drop_eq_nil_iff, hz.takes hist k hhist, hsrc]
        rw [List.length_append] at hfull hlen
        omega
      rw [hall, List.append_nil] at hfed
    · obtain ⟨⟨out, hobuf', hmade⟩, ⟨bytes, hslice, hfed'⟩, hrest⟩ := ih hloop (hend hrc) hlen hoff
      refine ⟨⟨(z hist k).out ++ out, by rw [hobuf', List.append_assoc], ?_⟩, ⟨bytes, hslice, ?_⟩, hrest⟩
      · rw [hmade, Stepper.made_cons, List.append_assoc]
      · rw [hfed', List.append_nil, hfed]
    · split at hloop
      · contradiction
      · next bytes h' hread =>
        obtain ⟨hslice', hbytes', hpos'⟩ := Handle.read_slice hread hoff
        obtain ⟨⟨out, hobuf', hmade⟩, ⟨more, hslice, hfed'⟩, hbytes, hpos, hrest⟩ :=
          ih hloop (hend hrc) hlen (hoff.trans hpos')
        refine ⟨⟨(z hist k).out ++ out, by rw [hobuf', List.append_assoc], ?_⟩, ⟨bytes ++ more, ?_, ?_⟩,
          hbytes.trans hbytes', hpos'.trans hpos, hrest⟩
        · rw [hmade, Stepper.made_cons, List.append_assoc]
        · rw [hslice, hslice', List.append_assoc]
        · rw [hfed', hfed, List.append_assoc]

/-- Without shared addresses no packet is readdressed. -/
theorem pktReaddress_none (hshares : config.shares = []) (env : Env) (s : State) (pos : ℕ)
    (buf : List Byte) :
    pktReaddress config env s pos buf = buf := by
  unfold pktReaddress
  rw [hshares]
  split
  · split
    · rfl
    · rfl
  · rfl

/-- The method that an extra parameter announces. -/
def announcedZ (extra : Str) : ZSend :=
  if extra = str " GZ" then .gz else if extra = str " BZ2" then .bz2 else .off

/-- What the data of a file stand for: they are plain, or as the announcement says. -/
def decoded (decode : ZSend → List Byte → List Byte) (m : FileMsg) (data : List Byte) : List Byte :=
  if announcedZ m.extra = .off then data else decode (announcedZ m.extra) data

/-- Every method that may be on is a compressor. -/
def Codec (config : BinkdConfig) (decode : ZSend → List Byte → List Byte) : Prop :=
  ∀ z : ZSend, z ≠ .off → (z.stepper config).Compressing (decode z)

/-- The data sent since the announcement are those of the open file, up to where it stands. -/
structure Feeds (config : BinkdConfig) (tx : Tx) (h : Handle) (m : FileMsg) (data : List Byte) : Prop where
  off : m.off.getD 0 ≤ h.pos
  method : announcedZ m.extra = tx.zSend
  plain : tx.zSend = .off → data = h.slice (m.off.getD 0)
  packed : tx.zSend ≠ .off → ∃ hist, tx.zOdata = some hist ∧ ¬ (tx.zSend.stepper config).Ended hist ∧
    data = (tx.zSend.stepper config).made hist ∧
    (tx.zSend.stepper config).fed hist ++ tx.zObuf = h.slice (m.off.getD 0)

/-- The compressor has nothing in hand when it is off, and has a state when it is on. -/
structure Tidy (tx : Tx) : Prop where
  rest : tx.zSend = .off → tx.zObuf = []
  state : tx.zSend ≠ .off → tx.zOdata.isSome = true

theorem fileEnded_of_size {payload : List Byte} {tx : Tx} {h : Handle} (hopen : tx.out.f = some h)
    (hsize : (h.pos : Int) = tx.out.size) (hoff : tx.zSend = .off) : fileEnded payload tx = true := by
  simp [fileEnded, hopen, hsize, hoff]

/-- A plain data block. -/
theorem plainBlock_feeds {h h' : Handle} {m : FileMsg} {data payload : List Byte}
    (hshares : config.shares = [])
    (hoff : s.tx.zSend = .off) (hf : Feeds config s.tx h m data)
    (hb : plainBlock config env h s = some (payload, s')) (hopen' : s'.tx.out.f = some h') :
    h'.bytes = h.bytes ∧ data ++ payload = h'.slice (m.off.getD 0) ∧
      Feeds config s'.tx h' m (data ++ payload) := by
  unfold plainBlock at hb
  split at hb
  · contradiction
  · next bytes h1 hread =>
    obtain ⟨hslice, hbytes, hpos⟩ := Handle.read_slice hread hf.off
    obtain ⟨rfl, rfl⟩ := Prod.mk.inj (Option.some.inj hb)
    obtain rfl := Option.some.inj hopen'
    have hdata : data ++ pktReaddress config env s h1.pos bytes = h1.slice (m.off.getD 0) := by
      rw [pktReaddress_none hshares, hslice, hf.plain hoff]
    exact ⟨hbytes, hdata, hf.off.trans hpos, hf.method, fun _ => hdata, fun hne => absurd hoff hne⟩

/-- A compressed data block. -/
theorem zBlock_feeds {decode : ZSend → List Byte → List Byte} {h h' : Handle} {m : FileMsg}
    {data payload : List Byte}
    (hcodec : Codec config decode) (hshares : config.shares = []) (hon : s.tx.zSend ≠ .off)
    (hf : Feeds config s.tx h m data) (hpos : (h.pos : Int) ≤ s.tx.out.size)
    (hb : zBlock config env h s = some (payload, s')) (hopen' : s'.tx.out.f = some h') :
    h'.bytes = h.bytes ∧ decode s.tx.zSend (data ++ payload) <+: h'.slice (m.off.getD 0) ∧
      (fileEnded payload s'.tx = false → Feeds config s'.tx h' m (data ++ payload)) ∧ Tidy s'.tx := by
  have hz := hcodec s.tx.zSend hon
  obtain ⟨hist, hod, hhist, hmade, hfed⟩ := hf.packed hon
  unfold zBlock at hb
  dsimp only at hb
  split at hb
  · contradiction
  · next bytes h1 hread =>
    obtain ⟨hslice1, hbytes1, hpos1⟩ := Handle.read_slice hread hf.off
    obtain ⟨hlen, hpos1'⟩ := Handle.read_spec hread
    rw [pktReaddress_none hshares, hod, Option.getD_some] at hb
    split at hb
    · contradiction
    · next r hloop =>
      obtain ⟨⟨out, hobuf, hmade'⟩, ⟨more, hslice, hfed'⟩, hbytes, hpos', hgoes, hends⟩ :=
        zLoop_stream hz hloop hhist (Nat.zero_le _) (hf.off.trans hpos1)
      obtain ⟨-, hfinal⟩ := zLoop_pos hloop (by omega)
      obtain ⟨rfl, rfl⟩ := Prod.mk.inj (Option.some.inj hb)
      obtain rfl := Option.some.inj hopen'
      have hdata : data ++ r.obuf = (s.tx.zSend.stepper config).made r.hist := by
        rw [hmade', hobuf, List.nil_append, hmade]
      have hall : (s.tx.zSend.stepper config).fed r.hist ++ r.rest = r.h.slice (m.off.getD 0) := by
        rw [hfed', hslice, hslice1, ← hfed]
        simp only [List.append_assoc]
      refine ⟨hbytes.trans hbytes1, ?_, fun hended => ?_, ?_⟩
      · rw [hdata, ← hall]
        exact (hz.decode_made r.hist).trans (List.prefix_append _ _)
      · have hrunning : r.ended = false := by
          by_contra hne
          have hr : r.ended = true := by simpa using hne
          have htrue := @fileEnded_of_size r.obuf _ _ hopen' (hfinal hr) (if_pos hr)
          exact absurd (htrue.symm.trans hended) (by decide)
        refine ⟨hf.off.trans (hpos1.trans hpos'), ?_, ?_, ?_⟩
        · simpa [hrunning] using hf.method
        · intro hoff
          exact absurd hoff (by simpa [hrunning] using hon)
        · intro _
          refine ⟨r.hist, by simp [hrunning], ?_, ?_, ?_⟩
          · simpa [hrunning] using hgoes hrunning
          · simpa [hrunning] using hdata
          · simpa [hrunning] using hall
      · constructor
        · intro hoff
          dsimp only at hoff ⊢
          split_ifs at hoff with hr
          · exact hends hr
          · exact absurd hoff hon
        · intro hne
          dsimp only at hne ⊢
          split_ifs at hne ⊢ with hr
          · exact absurd rfl hne
          · rfl

/-- **A data block**: the data go on as those of the file. -/
theorem fileBlock_feeds {decode : ZSend → List Byte → List Byte} {h h' : Handle} {m : FileMsg}
    {data payload : List Byte} (hcodec : Codec config decode) (hshares : config.shares = [])
    (htidy : Tidy s.tx) (hf : Feeds config s.tx h m data) (hpos : (h.pos : Int) ≤ s.tx.out.size)
    (hb : fileBlock config env h s = some (payload, s')) (hopen' : s'.tx.out.f = some h') :
    h'.bytes = h.bytes ∧ decoded decode m (data ++ payload) <+: h.bytes.drop (m.off.getD 0) ∧
      (fileEnded payload s'.tx = false → Feeds config s'.tx h' m (data ++ payload)) ∧ Tidy s'.tx := by
  unfold fileBlock at hb
  split at hb
  · next hoff =>
    obtain ⟨hbytes, hdata, hfeeds⟩ := plainBlock_feeds hshares hoff hf hb hopen'
    refine ⟨hbytes, ?_, fun _ => hfeeds, ?_⟩
    · rw [decoded, hf.method, if_pos hoff, hdata, ← hbytes]
      exact Handle.slice_isPrefix _ _
    · unfold plainBlock at hb
      split at hb
      · contradiction
      · obtain ⟨-, rfl⟩ := Prod.mk.inj (Option.some.inj hb)
        exact ⟨htidy.rest, htidy.state⟩
  · next hon =>
    obtain ⟨hbytes, hdec, hfeeds, htidy'⟩ := zBlock_feeds hcodec hshares hon hf hpos hb hopen'
    refine ⟨hbytes, ?_, hfeeds, htidy'⟩
    rw [decoded, hf.method, if_neg hon, ← hbytes]
    exact hdec.trans (Handle.slice_isPrefix _ _)

/-! ### The compressor of a new file -/

/-- A new file begins with a compressor that is off, or that has just been started and announced. -/
theorem zSendInit_new (config : BinkdConfig) (env : Env) {s : State} (hoff : s.tx.zSend = .off)
    (hrest : s.tx.zObuf = []) :
    announcedZ (zSendInit config env s).1 = (zSendInit config env s).2.tx.zSend ∧
      (zSendInit config env s).2.tx.zObuf = [] ∧
      ((zSendInit config env s).2.tx.zSend ≠ .off → (zSendInit config env s).2.tx.zOdata = some []) := by
  have hnone : announcedZ [] = .off := by decide
  have hbz2 : announcedZ (str " BZ2") = .bz2 := by decide
  have hgz : announcedZ (str " GZ") = .gz := by decide
  unfold zSendInit
  split
  · rw [zChoose, if_pos hoff]
    split_ifs with hbz hg
    all_goals dsimp only
    all_goals split_ifs
    all_goals simp_all
  · exact ⟨hnone.trans hoff.symm, hrest, fun hne => absurd hoff hne⟩

/-- The compressor is stopped before a file goes on from another offset. -/
theorem zSendStop_off {s : State} (htidy : Tidy s.tx) :
    (zSendStop s).tx.zSend = .off ∧ (zSendStop s).tx.zObuf = [] := by
  unfold zSendStop
  split_ifs with hon
  · exact ⟨rfl, rfl⟩
  · refine ⟨rfl, ?_⟩
    apply htidy.rest
    by_contra hne
    exact hon ⟨hne, htidy.state hne⟩

theorem zResume_new (config : BinkdConfig) (env : Env) (nz : Bool) {s : State} (htidy : Tidy s.tx) :
    announcedZ (zResume config env nz s).1 = (zResume config env nz s).2.tx.zSend ∧
      (zResume config env nz s).2.tx.zObuf = [] ∧
      ((zResume config env nz s).2.tx.zSend ≠ .off → (zResume config env nz s).2.tx.zOdata = some []) := by
  obtain ⟨hoff, hrest⟩ := zSendStop_off htidy
  cases nz with
  | true =>
    have hnull : announcedZ (str "(null)") = .off := by decide
    exact ⟨hnull.trans hoff.symm, hrest, fun hne => absurd hoff hne⟩
  | false => exact zSendInit_new config env hoff hrest

/-- Nothing has been sent of a file that was just announced. -/
theorem Feeds.new {tx : Tx} {h : Handle} {m : FileMsg} (hpos : h.pos = m.off.getD 0)
    (hmethod : announcedZ m.extra = tx.zSend) (hrest : tx.zObuf = [])
    (hstate : tx.zSend ≠ .off → tx.zOdata = some []) :
    Feeds config tx h m [] := by
  have hslice : h.slice (m.off.getD 0) = [] := by rw [← hpos, Handle.slice_self]
  refine ⟨le_of_eq hpos.symm, hmethod, fun _ => hslice.symm, fun hne => ⟨[], hstate hne, id, rfl, ?_⟩⟩
  rw [hslice, hrest]
  rfl

theorem Tidy.new {tx : Tx} (hrest : tx.zObuf = []) (hstate : tx.zSend ≠ .off → tx.zOdata = some []) :
    Tidy tx :=
  ⟨fun _ => hrest, fun hne => by rw [hstate hne]; rfl⟩

end Binkd

import Binkd.DataFrames
import Binkd.Lib.Packing
import Binkd.SharedAkas

/-!
# A file that is sent compressed (`send_block`, `do_compress`)

The file is read in pieces into the buffer `z_obuf`, the compressor takes from it until a
block is full, and what it leaves over stays in the buffer for the next block.  `Staging`
is what holds between two calls of the compressor: what it has taken, what is in the
buffer and what is still to be read make up the content.  `zLoop_packs` keeps it through
the loop of one block and shows that this loop ends, and `CompressedRun.progress` goes
through the blocks of the file.  The content is that of the file except for a packet for a
shared address, the first block of which is changed on its way (`sentContent`).
-/

namespace Binkd

open Lib

variable {config : BinkdConfig} {env : Env} {s t : State}

/-! ### Reading the content -/

/-- What is still to be read of a file of this size. -/
def Handle.unread (size : ℕ) (h : Handle) : List Byte := (h.bytes.take size).drop h.pos

theorem Handle.unread_end {size : ℕ} {h : Handle} (hpos : h.pos = size) : h.unread size = [] := by
  rw [unread, List.drop_eq_nil_iff, List.length_take]
  omega

theorem Handle.unread_length {size : ℕ} {h : Handle} (hsize : size ≤ h.bytes.length) :
    (h.unread size).length = size - h.pos := by
  rw [unread, List.length_drop, List.length_take]
  omega

/-- A read within the file succeeds, and takes the bytes from what was still to be read. -/
theorem Handle.read_unread {n size : ℕ} {h : Handle} (hfits : h.pos + n ≤ size) (hsize : size ≤ h.bytes.length) :
    h.read n = some ((h.unread size).take n, { h with pos := h.pos + n }) ∧
      (h.unread size).take n ++ Handle.unread size { h with pos := h.pos + n } = h.unread size := by
  have hbytes : (h.unread size).take n = (h.bytes.drop h.pos).take n := by
    rw [unread, List.drop_take, List.take_take, Nat.min_eq_left (by omega)]
  have hrest : Handle.unread size { h with pos := h.pos + n } = (h.unread size).drop n := by
    rw [unread, unread, List.drop_drop]
  refine ⟨?_, by rw [hrest, List.take_append_drop]⟩
  rw [read, if_neg (by omega), hbytes]

/-! ### The loop of one block -/

/-- Between two calls of the compressor: nothing of the content is lost or taken twice, and the
buffer holds no more than it can. -/
structure Staging (z : Stepper Byte) (oblksize size : ℕ) (content : List Byte) (hist : List (Call Byte))
    (h : Handle) (zbuf : List Byte) : Prop where
  proper : z.Proper hist
  running : ¬ z.Ended hist
  pos_le : h.pos ≤ size
  size_le : size ≤ h.bytes.length
  whole : z.fed hist ++ zbuf ++ h.unread size = content
  left : z.left hist <+: zbuf
  asked : Stepper.Asked hist → h.pos = size ∧ zbuf = z.left hist
  zbuf_le : zbuf.length ≤ zblksize
  calls : ∀ k ∈ hist, k.src.length ≤ zblksize ∧ k.room ≤ oblksize

/-- The compressor has come to the end of the content. -/
structure Packed (z : Stepper Byte) (oblksize : ℕ) (content : List Byte) (hist : List (Call Byte)) : Prop where
  proper : z.Proper hist
  ended : z.Ended hist
  whole : z.fed hist = content
  calls : ∀ k ∈ hist, k.src.length ≤ zblksize ∧ k.room ≤ oblksize

variable {z : Stepper Byte} {decode : List Byte → List Byte} {ratio oblksize size : ℕ} {content zbuf : List Byte}
  {hist : List (Call Byte)} {h : Handle} {k : Call Byte}

/-- The call of the compressor with the content of the buffer. -/
theorem Staging.proper_cons (hs : Staging z oblksize size content hist h k.src) (hroom : 0 < k.room)
    (hfinish : k.finish = true ↔ h.pos = size) (hsrc : k.src ≠ [] ∨ h.pos = size) : z.Proper (k :: hist) :=
  .cons hs.proper hs.running hroom (hsrc.imp_right hfinish.mpr) hs.left fun hasked =>
    ⟨hfinish.mpr (hs.asked hasked).1, (hs.asked hasked).2⟩

theorem Staging.whole_cons (hs : Staging z oblksize size content hist h k.src) :
    z.fed (k :: hist) ++ z.left (k :: hist) ++ h.unread size = content := by
  rw [Stepper.fed_left, hs.whole]

theorem Staging.calls_cons (hs : Staging z oblksize size content hist h k.src) (hroom : k.room ≤ oblksize) :
    ∀ k' ∈ k :: hist, k'.src.length ≤ zblksize ∧ k'.room ≤ oblksize := by
  intro k' hk'
  rcases List.mem_cons.mp hk' with rfl | hk'
  · exact ⟨hs.zbuf_le, hroom⟩
  · exact hs.calls k' hk'

/-- A call that has not ended the stream leaves the rest of the buffer. -/
theorem Staging.call (hs : Staging z oblksize size content hist h k.src) (hk : z.Proper (k :: hist))
    (hroom : k.room ≤ oblksize) (hfinish : k.finish = true ↔ h.pos = size) (hrc : (z hist k).rc = 0) :
    Staging z oblksize size content (k :: hist) h (z.left (k :: hist)) where
  proper := hk
  running := Stepper.not_ended hrc
  pos_le := hs.pos_le
  size_le := hs.size_le
  whole := hs.whole_cons
  left := List.prefix_refl _
  asked hasked := ⟨hfinish.mp hasked, rfl⟩
  zbuf_le := by
    have hle := hs.zbuf_le
    rw [Stepper.left, List.length_drop]
    omega
  calls := hs.calls_cons hroom

/-- The buffer is refilled behind what is left in it, by no more than it has room for. -/
theorem Staging.refill {n : ℕ} (hs : Staging z oblksize size content hist h zbuf) (hfits : h.pos + n ≤ size)
    (hroom : zbuf.length + n ≤ zblksize) :
    Staging z oblksize size content hist { h with pos := h.pos + n } (zbuf ++ (h.unread size).take n) where
  proper := hs.proper
  running := hs.running
  pos_le := hfits
  size_le := hs.size_le
  whole := by
    rw [← List.append_assoc, List.append_assoc, (Handle.read_unread hfits hs.size_le).2, hs.whole]
  left := hs.left.trans (List.prefix_append _ _)
  asked hasked := by
    obtain ⟨hpos, hleft⟩ := hs.asked hasked
    have hn : n = 0 := by omega
    subst hn
    rw [List.take_zero, List.append_nil]
    exact ⟨hpos, hleft⟩
  zbuf_le := by
    have hle := List.length_take_le n (h.unread size)
    rw [List.length_append]
    omega
  calls := hs.calls

/-- Room behind the output: the buffer is empty, and the file is not at its end. -/
theorem Staging.room (hp : z.Packing decode ratio) (hs : Staging z oblksize size content hist h k.src)
    (hk : z.Proper (k :: hist)) (hfinish : k.finish = true ↔ h.pos = size) (hrc : (z hist k).rc = 0)
    (hmore : (z hist k).out.length < k.room) : z.left (k :: hist) = [] ∧ h.pos < size := by
  refine ⟨hp.left_of_room hk hmore, lt_of_le_of_ne hs.pos_le fun heq => ?_⟩
  have hone := hp.finishes hist k hk (hfinish.mpr heq) hmore
  omega

/-- The call that ends the stream has taken the rest of the content. -/
theorem Staging.packed (hp : z.Packing decode ratio) (hs : Staging z oblksize size content hist h k.src)
    (hk : z.Proper (k :: hist)) (hroom : k.room ≤ oblksize) (hfinish : k.finish = true ↔ h.pos = size)
    (hrc : (z hist k).rc = 1) :
    Packed z oblksize content (k :: hist) ∧ h.pos = size ∧ z.left (k :: hist) = [] := by
  have hsize := hfinish.mp (hp.ends hist k hk hrc).1
  have hleft := hp.left_of_end hk hrc
  have hwhole := hs.whole_cons
  rw [hleft, Handle.unread_end hsize, List.append_nil, List.append_nil] at hwhole
  exact ⟨⟨hk, Stepper.ended_cons hrc, hwhole, hs.calls_cons hroom⟩, hsize, hleft⟩

/-- What the loop leaves behind. -/
structure ZPacks (z : Stepper Byte) (oblksize size : ℕ) (content sent : List Byte) (pos : ℕ) (r : ZOut) : Prop where
  pos_le : pos ≤ r.h.pos
  made : z.made r.hist = sent ++ r.obuf
  obuf_le : r.obuf.length ≤ oblksize
  goes : r.ended = false → Staging z oblksize size content r.hist r.h r.rest ∧ r.obuf.length = oblksize
  ends : r.ended = true → Packed z oblksize content r.hist ∧ r.h.pos = size ∧ r.rest = []

/-- **The loop of one block ends**, and nothing of the content is lost in it. -/
theorem zLoop_packs (hp : z.Packing decode ratio) {sent : List Byte} {fuel : ℕ} {obuf : List Byte}
    (hs : Staging z oblksize size content hist h zbuf) (hsrc : zbuf ≠ [] ∨ h.pos = size)
    (hmade : z.made hist = sent ++ obuf) (hobuf : obuf.length < oblksize) (hfuel : size - h.pos < fuel) :
    ∃ r, zLoop z oblksize size fuel hist h zbuf obuf = some r ∧
    ZPacks z oblksize size content sent h.pos r := by
  induction fuel generalizing hist h zbuf obuf with
  | zero => omega
  | succ fuel ih =>
    have hfleft : ((size : Int) - h.pos).toNat = size - h.pos := by omega
    have hpos := hs.pos_le
    rw [zLoop]
    simp only [hfleft]
    generalize hk : (⟨zbuf, oblksize - obuf.length, decide (size - h.pos = 0)⟩ : Call Byte) = k
    obtain rfl : k.src = zbuf := by rw [← hk]
    have hroom : k.room = oblksize - obuf.length := by rw [← hk]
    have hfinish : k.finish = true ↔ h.pos = size := by
      rw [← hk, decide_eq_true_iff]
      omega
    have hproper := hs.proper_cons (by omega) hfinish hsrc
    have hout := hp.out_le hist k hproper
    have hmade' : z.made (k :: hist) = sent ++ (obuf ++ (z hist k).out) := by
      rw [Stepper.made_cons, hmade, List.append_assoc]
    have hlen : (obuf ++ (z hist k).out).length ≤ oblksize := by
      rw [List.length_append]
      omega
    rcases hp.rc_cases hist k hproper with hrc | hrc
    · -- the stream goes on
      have hs' := hs.call hproper (by omega) hfinish hrc
      rw [if_neg (by omega), if_neg (by omega)]
      by_cases hfull : (obuf ++ (z hist k).out).length = oblksize
      · rw [if_pos hfull]
        exact ⟨_, rfl, le_rfl, hmade', hlen, fun _ => ⟨hs', hfull⟩,
          fun htrue => absurd htrue Bool.false_ne_true⟩
      · -- there is room behind the output, so the buffer is empty and the file is not at its end
        have hmore : (z hist k).out.length < k.room := by
          rw [List.length_append] at hfull hlen
          omega
        obtain ⟨hleft, hbehind⟩ := hs.room hp hproper hfinish hrc hmore
        have hzb : 0 < zblksize := by decide
        have hfits : h.pos + min (size - h.pos) zblksize ≤ size := by omega
        obtain ⟨hread, -⟩ := Handle.read_unread hfits hs.size_le
        rw [hleft] at hs'
        rw [if_neg hfull, if_neg (by omega), hread]
        have hread' : (h.unread size).take (min (size - h.pos) zblksize) ≠ [] := by
          have hlength := Handle.unread_length (h := h) hs.size_le
          rw [← List.length_pos_iff, List.length_take]
          omega
        obtain ⟨r, hloop, hr⟩ := ih (hs'.refill hfits (by simp)) (.inl hread') hmade' (by omega) (by dsimp only; omega)
        exact ⟨r, hloop, (Nat.le_add_right _ _).trans hr.pos_le, hr.made, hr.obuf_le, hr.goes, hr.ends⟩
    · -- the end of the stream
      have hpacked := hs.packed hp hproper (by omega) hfinish hrc
      have hsize := hpacked.2.1
      rw [if_neg (by omega), if_pos ⟨by omega, hrc⟩]
      exact ⟨_, rfl, le_rfl, hmade', hlen, fun hfalse => absurd hfalse.symm Bool.false_ne_true,
        fun _ => hpacked⟩

/-! ### The blocks of the file -/

/-- There is nothing else to send than a block of the open file. -/
structure DataTurn (s : State) : Prop where
  pend : s.link.pend = []
  msgs : s.link.msgs = []
  opened : s.tx.out.f.isSome = true
  noOffReq : s.tx.offReqSent = false
  noGOT : s.tx.waitingForGOT = false

/-- `send_block` builds a data frame of the open file. -/
structure BuildsData (config : BinkdConfig) (env : Env) (r : SendResult) (s : State) (payload : List Byte)
    (t : State) : Prop where
  turn : DataTurn s
  sends : sendBlock config env r s = (t, true)
  log : t.link.log = .data payload :: s.link.log

/-- The content from the offset on where the file stands, with the first block that is read as
`send_block` changes it for a shared address. -/
def sentContent (config : BinkdConfig) (env : Env) (s : State) (size : ℕ) (h : Handle) : List Byte :=
  pktReaddress config env s (h.pos + ((h.unread size).take zblksize).length) ((h.unread size).take zblksize) ++
    (h.unread size).drop zblksize

/-- Only the first block of a file is changed, and only a packet for a shared address. -/
theorem pktReaddress_behind {pos : ℕ} {buf : List Byte} (hpos : pos ≠ 0 ∨ buf.length < 60) :
    pktReaddress config env s (pos + buf.length) buf = buf := by
  rw [pktReaddress, if_neg (by omega)]

theorem sentContent_eq (hplain : h.pos ≠ 0 ∨ config.shares = [] ∨ ispkt s.tx.out.netname = false) :
    sentContent config env s size h = h.unread size := by
  rw [sentContent]
  rcases hplain with hpos | hshares | hname
  · rw [pktReaddress_behind (.inl hpos), List.take_append_drop]
  · rw [pktReaddress_none hshares, List.take_append_drop]
  · rw [pktReaddress, if_neg (by simp [hname]), List.take_append_drop]

/-- The compressor that `z_send_init` has started for the open file. -/
structure StartsPacked (config : BinkdConfig) (zs : ZSend) (size : ℕ) (h : Handle) (s : State) : Prop where
  on : zs ≠ .off
  method : s.tx.zSend = zs
  opened : s.tx.out.f = some h
  size_eq : s.tx.out.size = size
  pos_le : h.pos ≤ size
  size_le : size ≤ h.bytes.length
  started : s.tx.zOdata = some []
  empty : s.tx.zObuf = []

/-- `z_send_init` starts the compressor of a file that is announced. -/
theorem zSendInit_starts (hoff : s.tx.zSend = .off) (hrest : s.tx.zObuf = []) (hopen : s.tx.out.f = some h)
    (hsize : s.tx.out.size = size) (hpos : h.pos ≤ size) (hlen : size ≤ h.bytes.length)
    (hon : (zSendInit config env s).2.tx.zSend ≠ .off) :
    StartsPacked config (zSendInit config env s).2.tx.zSend size h (zSendInit config env s).2 := by
  obtain ⟨-, hrest', hstate⟩ := zSendInit_new config env hoff hrest
  obtain ⟨z, od, extra, heq⟩ := zSendInit_eq config env s
  have hout : (zSendInit config env s).2.tx.out = s.tx.out := by rw [heq]
  exact ⟨hon, rfl, by rw [hout, hopen], by rw [hout, hsize], hpos, hlen, hstate hon, hrest'⟩

/-- `GET` starts it again for another offset, whatever has been sent before. -/
theorem zResume_starts (htidy : Tidy s.tx) (nz : Bool) (hopen : s.tx.out.f = some h) (hsize : s.tx.out.size = size)
    (hpos : h.pos ≤ size) (hlen : size ≤ h.bytes.length) (hon : (zResume config env nz s).2.tx.zSend ≠ .off) :
    StartsPacked config (zResume config env nz s).2.tx.zSend size h (zResume config env nz s).2 := by
  obtain ⟨-, hrest, hstate⟩ := zResume_new config env nz htidy
  have hstop : (zSendStop s).tx.out = s.tx.out := by
    unfold zSendStop
    split <;> rfl
  have hout : (zResume config env nz s).2.tx.out = s.tx.out := by
    obtain ⟨z, od, extra, heq⟩ := zSendInit_eq config env (zSendStop s)
    unfold zResume
    split
    · exact hstop
    · rw [heq]
      exact hstop
  exact ⟨hon, rfl, by rw [hout, hopen], by rw [hout, hsize], hpos, hlen, hstate hon, hrest⟩

/-- The file is open, and so far the compressor has made the data sent. -/
structure Sending (config : BinkdConfig) (zs : ZSend) (size : ℕ) (content sent : List Byte) (h : Handle)
    (hist : List (Call Byte)) (s : State) : Prop where
  method : s.tx.zSend = zs
  opened : s.tx.out.f = some h
  size_eq : s.tx.out.size = size
  state : s.tx.zOdata = some hist
  made : (zs.stepper config).made hist = sent
  staging : Staging (zs.stepper config) config.oblksize size content hist h s.tx.zObuf
  /-- the first block has been read -/
  begun : h.pos ≠ 0 ∨ size = 0

/-- The file is closed, and the compressor has made the data sent from all of it. -/
structure SentAll (config : BinkdConfig) (zs : ZSend) (content sent : List Byte) (hist : List (Call Byte))
    (s : State) : Prop where
  closed : s.tx.out.f = none
  made : (zs.stepper config).made hist = sent
  packed : Packed (zs.stepper config) config.oblksize content hist

variable {zs : ZSend} {sent payload : List Byte} {r : SendResult}

/-- The buffer with the next `n` bytes of the file. -/
def refilled (config : BinkdConfig) (env : Env) (s : State) (size : ℕ) (h : Handle) (n : ℕ) : List Byte :=
  s.tx.zObuf ++ pktReaddress config env s (h.pos + n) ((h.unread size).take n)

/-- The session with what the loop of one block has left. -/
def afterLoop (zs : ZSend) (out : ZOut) (s : State) : State :=
  { s with tx := { s.tx with
      out := { s.tx.out with f := some out.h }, zObuf := out.rest,
      zSend := if out.ended then .off else zs, zOdata := if out.ended then none else some out.hist } }

/-- One block, from the buffer as it is after the file has been read. -/
theorem zBlock_packs (hp : (zs.stepper config).Packing decode ratio) (hmethod : s.tx.zSend = zs)
    (hsize : s.tx.out.size = size) (hstate : s.tx.zOdata = some hist) (hmade : (zs.stepper config).made hist = sent)
    {n : ℕ} (hn : n = min (zblksize - s.tx.zObuf.length) (size - h.pos)) (hpos : h.pos ≤ size)
    (hlen : size ≤ h.bytes.length)
    (hs : Staging (zs.stepper config) config.oblksize size content hist { h with pos := h.pos + n }
      (refilled config env s size h n)) :
    ∃ out, zBlock config env h s = some (out.obuf, afterLoop zs out s) ∧
      ZPacks (zs.stepper config) config.oblksize size content sent (h.pos + n) out := by
  have hleft : ((size : Int) - h.pos).toNat = size - h.pos := by omega
  have hblk := config.oblksize_min
  have hmin : 0 < minBlksize := by decide
  have hzb : 0 < zblksize := by decide
  obtain ⟨hread, -⟩ := Handle.read_unread (n := n) (by omega) hlen
  have hlength := Handle.unread_length hlen
  have hsrc : refilled config env s size h n ≠ [] ∨ ({ h with pos := h.pos + n } : Handle).pos = size := by
    by_cases hend : h.pos + n = size
    · exact .inr hend
    · left
      rw [refilled, ← List.length_pos_iff, List.length_append, pktReaddress_length, List.length_take]
      omega
  have hloop : ∃ out, zLoop (zs.stepper config) config.oblksize size
      (size - h.pos + (refilled config env s size h n).length + config.oblksize + 2) hist
      { h with pos := h.pos + n } (refilled config env s size h n) [] = some out ∧
      ZPacks (zs.stepper config) config.oblksize size content sent (h.pos + n) out := by
    refine zLoop_packs hp hs hsrc (by rw [hmade, List.append_nil]) ?_ ?_
    · rw [List.length_nil]
      omega
    · dsimp only
      omega
  obtain ⟨out, hloop, hpacks⟩ := hloop
  refine ⟨out, ?_, hpacks⟩
  unfold zBlock afterLoop
  simp only [hsize, hleft, hmethod, hstate, Option.getD_some]
  rw [← hn, hread]
  unfold refilled at hloop
  dsimp only
  rw [hloop]

/-- What a data frame leaves behind it. -/
structure AfterBlock (config : BinkdConfig) (zs : ZSend) (size : ℕ) (content sent payload : List Byte) (t : State) :
    Prop where
  payload_le : payload.length ≤ config.oblksize
  file : (payload.length = config.oblksize ∧ ∃ h hist, Sending config zs size content (sent ++ payload) h hist t) ∨
    ∃ hist, SentAll config zs content (sent ++ payload) hist t

/-- The data branch of `send_block`, with what the loop has left. -/
theorem sendBlock_compressed (hturn : DataTurn s) (hopen : s.tx.out.f = some h) (hon : zs ≠ .off)
    (hmethod : s.tx.zSend = zs) (hsize : s.tx.out.size = size) {out : ZOut}
    (hz : zBlock config env h s = some (out.obuf, afterLoop zs out s)) {pos : ℕ} (hpos : pos ≠ 0 ∨ size = 0)
    (hpacks : ZPacks (zs.stepper config) config.oblksize size content sent pos out) (r : SendResult) :
    ∃ t, BuildsData config env r s out.obuf t ∧ AfterBlock config zs size content sent out.obuf t := by
  have hblock : fileBlock config env h s = zBlock config env h s := by
    rw [fileBlock, if_neg (by rw [hmethod]; exact hon)]
  have hdata : sendBlock config env r s = sendData config env s := by
    unfold sendBlock
    rw [if_neg (not_not_intro hturn.pend), if_neg (not_not_intro hturn.msgs), if_pos]
    simp [hturn.opened, hturn.noOffReq, hturn.noGOT]
  rw [sendData, hopen] at hdata
  dsimp only at hdata
  rw [hblock, hz] at hdata
  dsimp only [afterLoop] at hdata
  have hbegun : out.h.pos ≠ 0 ∨ size = 0 := by
    have hle := hpacks.pos_le
    omega
  cases hended : out.ended with
  | false =>
    obtain ⟨hstaging, hfull⟩ := hpacks.goes hended
    rw [hended, if_neg (by simp [fileEnded, hon])] at hdata
    refine ⟨_, ⟨hturn, hdata, rfl⟩, hpacks.obuf_le, .inl ⟨hfull, out.h, out.hist, ?_⟩⟩
    exact ⟨rfl, rfl, hsize, rfl, hpacks.made, hstaging, hbegun⟩
  | true =>
    obtain ⟨hpacked, hend, -⟩ := hpacks.ends hended
    rw [hended, if_pos (by simp [fileEnded, hsize, hend])] at hdata
    exact ⟨_, ⟨hturn, hdata, rfl⟩, hpacks.obuf_le, .inr ⟨out.hist, rfl, hpacks.made, hpacked⟩⟩

/-- The buffer after the first read. -/
theorem StartsPacked.staging (hb : StartsPacked config zs size h s) (env : Env) {n : ℕ}
    (hn : n = min zblksize (size - h.pos)) :
    Staging (zs.stepper config) config.oblksize size (sentContent config env s size h) []
      { h with pos := h.pos + n } (refilled config env s size h n) := by
  have hpos := hb.pos_le
  have hlength := Handle.unread_length hb.size_le
  have htake : (h.unread size).take n = (h.unread size).take zblksize := by
    rw [List.take_eq_take_iff]
    omega
  have hfirst : ((h.unread size).take n).length = n := by
    rw [List.length_take]
    omega
  obtain ⟨-, hrest⟩ := Handle.read_unread (n := n) (by omega) hb.size_le
  have hunread : Handle.unread size { h with pos := h.pos + n } = (h.unread size).drop zblksize := by
    apply List.append_cancel_left
    rw [hrest, htake, List.take_append_drop]
  rw [refilled]
  refine ⟨.nil, id, ?_, hb.size_le, ?_, List.nil_prefix, False.elim, ?_, fun k hk => absurd hk List.not_mem_nil⟩
  · dsimp only
    omega
  · rw [hunread, hb.empty, Stepper.fed_nil, List.nil_append, List.nil_append, sentContent, ← htake, hfirst]
  · rw [hb.empty, List.nil_append, pktReaddress_length, hfirst]
    omega

/-- The first block. -/
theorem StartsPacked.block (hp : (zs.stepper config).Packing decode ratio) (hb : StartsPacked config zs size h s)
    (hturn : DataTurn s) (env : Env) (r : SendResult) :
    ∃ payload t, BuildsData config env r s payload t ∧
      AfterBlock config zs size (sentContent config env s size h) [] payload t := by
  obtain ⟨n, hn⟩ : ∃ n, n = min zblksize (size - h.pos) := ⟨_, rfl⟩
  have hpos := hb.pos_le
  have hn' : n = min (zblksize - s.tx.zObuf.length) (size - h.pos) := by
    rw [hb.empty, List.length_nil, Nat.sub_zero, hn]
  have hbegun : h.pos + n ≠ 0 ∨ size = 0 := by
    have hzb : 0 < zblksize := by decide
    omega
  obtain ⟨out, hz, hpacks⟩ := zBlock_packs hp hb.method hb.size_eq hb.started (Stepper.made_nil _) hn' hb.pos_le
    hb.size_le (hb.staging env hn)
  obtain ⟨t, hbuilds, hafter⟩ := sendBlock_compressed hturn hb.opened hb.on hb.method hb.size_eq hz hbegun hpacks r
  exact ⟨_, t, hbuilds, hafter⟩

/-- A block behind the first. -/
theorem Sending.block (hp : (zs.stepper config).Packing decode ratio) (hon : zs ≠ .off)
    (hb : Sending config zs size content sent h hist s) (hturn : DataTurn s) (env : Env) (r : SendResult) :
    ∃ payload t, BuildsData config env r s payload t ∧ AfterBlock config zs size content sent payload t := by
  obtain ⟨n, hn⟩ : ∃ n, n = min (zblksize - s.tx.zObuf.length) (size - h.pos) := ⟨_, rfl⟩
  have hpos := hb.staging.pos_le
  have hlen := hb.staging.zbuf_le
  have hlength := Handle.unread_length hb.staging.size_le
  have hfirst : ((h.unread size).take n).length = n := by
    rw [List.length_take]
    omega
  have hbehind : pktReaddress config env s (h.pos + n) ((h.unread size).take n) = (h.unread size).take n := by
    have hcases : h.pos ≠ 0 ∨ ((h.unread size).take n).length < 60 := by
      rcases hb.begun with hne | hzero
      · exact .inl hne
      · omega
    have hsame := @pktReaddress_behind config env s h.pos _ hcases
    rwa [hfirst] at hsame
  have hs := hb.staging.refill (n := n) (by omega) (by omega)
  rw [← hbehind] at hs
  rw [← refilled] at hs
  obtain ⟨out, hz, hpacks⟩ := zBlock_packs hp hb.method hb.size_eq hb.state hb.made hn hb.staging.pos_le
    hb.staging.size_le hs
  have hbegun : h.pos + n ≠ 0 ∨ size = 0 := by
    have := hb.begun
    omega
  obtain ⟨t, hbuilds, hafter⟩ := sendBlock_compressed hturn hb.opened hon hb.method hb.size_eq hz hbegun hpacks r
  exact ⟨_, t, hbuilds, hafter⟩

/-! ### All blocks of the file -/

/-- A run from the first data frame of a file, with the payloads of its data frames; what else is
done between two of them leaves the file and its compressor alone. -/
inductive CompressedRun (config : BinkdConfig) (env : Env) (s : State) : List (List Byte) → State → Prop
  | first {r : SendResult} {payload : List Byte} {t : State} (hbuilds : BuildsData config env r s payload t) :
      CompressedRun config env s [payload] t
  | other {payloads : List (List Byte)} {t t' : State} (run : CompressedRun config env s payloads t)
      (hout : t'.tx.out = t.tx.out) (hsend : t'.tx.zSend = t.tx.zSend) (hodata : t'.tx.zOdata = t.tx.zOdata)
      (hobuf : t'.tx.zObuf = t.tx.zObuf) : CompressedRun config env s payloads t'
  | block {payloads : List (List Byte)} {env' : Env} {r : SendResult} {payload : List Byte} {t t' : State}
      (run : CompressedRun config env s payloads t) (hbuilds : BuildsData config env' r t payload t') :
      CompressedRun config env s (payloads ++ [payload]) t'

/-- How far the file has come with these data frames. -/
inductive FileProgress (config : BinkdConfig) (zs : ZSend) (size : ℕ) (content : List Byte) (payloads : List (List Byte))
    (t : State) : Prop
  | sending {h : Handle} {hist : List (Call Byte)} (hfile : Sending config zs size content payloads.flatten h hist t)
      (hfull : payloads.flatten.length = payloads.length * config.oblksize)
  | sent {hist : List (Call Byte)} (hfile : SentAll config zs content payloads.flatten hist t)

variable {payloads : List (List Byte)}

theorem BuildsData.unique {payload' : List Byte} {t' : State} (hb : BuildsData config env r s payload t)
    (hb' : BuildsData config env r s payload' t') : payload' = payload ∧ t' = t := by
  obtain rfl : t' = t := congrArg Prod.fst (hb'.sends.symm.trans hb.sends)
  have hlog := hb'.log.symm.trans hb.log
  simp only [List.cons.injEq, Item.data.injEq, and_true] at hlog
  exact ⟨hlog, rfl⟩

theorem FileProgress.keep {t' : State} (hp : FileProgress config zs size content payloads t) (hout : t'.tx.out = t.tx.out)
    (hsend : t'.tx.zSend = t.tx.zSend) (hodata : t'.tx.zOdata = t.tx.zOdata) (hobuf : t'.tx.zObuf = t.tx.zObuf) :
    FileProgress config zs size content payloads t' := by
  cases hp with
  | sending hfile hfull =>
    refine .sending ⟨?_, ?_, ?_, ?_, hfile.made, ?_, hfile.begun⟩ hfull
    · rw [hsend, hfile.method]
    · rw [hout, hfile.opened]
    · rw [hout, hfile.size_eq]
    · rw [hodata, hfile.state]
    · rw [hobuf]
      exact hfile.staging
  | sent hfile =>
    refine .sent ⟨?_, hfile.made, hfile.packed⟩
    rw [hout, hfile.closed]

/-- The next data frame. -/
theorem AfterBlock.progress (ha : AfterBlock config zs size content payloads.flatten payload t)
    (hfull : payloads.flatten.length = payloads.length * config.oblksize) :
    FileProgress config zs size content (payloads ++ [payload]) t := by
  have hflat : (payloads ++ [payload]).flatten = payloads.flatten ++ payload := by
    rw [List.flatten_append, List.flatten_singleton]
  rcases ha.file with ⟨hlen, h, hist, hfile⟩ | ⟨hist, hfile⟩
  · rw [← hflat] at hfile
    refine .sending hfile ?_
    rw [hflat, List.length_append, hfull, hlen, List.length_append, List.length_singleton, Nat.succ_mul]
  · rw [← hflat] at hfile
    exact .sent hfile

/-- A block is built whenever it is the turn of the open file. -/
theorem FileProgress.block (hp : (zs.stepper config).Packing decode ratio) (hon : zs ≠ .off)
    (hprog : FileProgress config zs size content payloads t) (hturn : DataTurn t) (env : Env) (r : SendResult) :
    ∃ payload t', BuildsData config env r t payload t' ∧ payload.length ≤ config.oblksize ∧
      FileProgress config zs size content (payloads ++ [payload]) t' := by
  cases hprog with
  | sending hfile hfull =>
    obtain ⟨payload, t', hbuilds, hafter⟩ := hfile.block hp hon hturn env r
    exact ⟨payload, t', hbuilds, hafter.payload_le, hafter.progress hfull⟩
  | sent hfile =>
    have hopened := hturn.opened
    rw [hfile.closed] at hopened
    exact absurd hopened (by decide)

theorem CompressedRun.progress (hp : (zs.stepper config).Packing decode ratio) (hb : StartsPacked config zs size h s)
    (run : CompressedRun config env s payloads t) :
    FileProgress config zs size (sentContent config env s size h) payloads t ∧
      ∀ payload ∈ payloads, payload.length ≤ config.oblksize := by
  induction run with
  | @first r payload t hbuilds =>
    obtain ⟨payload', t', hbuilds', hafter⟩ := hb.block hp hbuilds.turn env r
    obtain ⟨rfl, rfl⟩ := hbuilds.unique hbuilds'
    have hprog := @AfterBlock.progress _ _ _ _ _ _ [] hafter (Nat.zero_mul _).symm
    refine ⟨hprog, fun p hmem => ?_⟩
    rw [List.mem_singleton.mp hmem]
    exact hafter.payload_le
  | other run hout hsend hodata hobuf ih => exact ⟨ih.1.keep hout hsend hodata hobuf, ih.2⟩
  | @block payloads env' r payload t t' run hbuilds ih =>
    obtain ⟨payload', t1, hbuilds', hle, hprog⟩ := ih.1.block hp hb.on hbuilds.turn env' r
    obtain ⟨rfl, rfl⟩ := hbuilds.unique hbuilds'
    refine ⟨hprog, fun p hmem => ?_⟩
    rcases List.mem_append.mp hmem with hmem | hmem
    · exact ih.2 p hmem
    · rwa [List.mem_singleton.mp hmem]

/-- The data frames of a file so far are the stream that the compressor has made of its content, and
of all of it when the file is closed. -/
structure StreamOf (config : BinkdConfig) (zs : ZSend) (decode : List Byte → List Byte) (ratio size : ℕ)
    (content : List Byte) (payloads : List (List Byte)) (t : State) : Prop where
  payload_le : ∀ payload ∈ payloads, payload.length ≤ config.oblksize
  goes_on : DataTurn t → ∀ env r, ∃ payload t', BuildsData config env r t payload t'
  stream : ∃ hist, (zs.stepper config).Proper hist ∧ payloads.flatten = (zs.stepper config).made hist ∧
    (∀ k ∈ hist, k.src.length ≤ zblksize ∧ k.room ≤ config.oblksize) ∧
    ((∃ h, t.tx.out.f = some h ∧ t.tx.zObuf.length ≤ zblksize ∧
        (zs.stepper config).fed hist ++ t.tx.zObuf ++ h.unread size = content ∧
        payloads.length * config.oblksize ≤ ratio * (content.length + 1)) ∨
      t.tx.out.f = none ∧ (zs.stepper config).Ended hist ∧ (zs.stepper config).fed hist = content ∧
        decode payloads.flatten = content)

theorem FileProgress.streamOf (hp : (zs.stepper config).Packing decode ratio) (hon : zs ≠ .off)
    (hprog : FileProgress config zs size content payloads t)
    (hle : ∀ payload ∈ payloads, payload.length ≤ config.oblksize) :
    StreamOf config zs decode ratio size content payloads t := by
  refine ⟨hle, fun hturn env r => ?_, ?_⟩
  · obtain ⟨payload, t', hbuilds, -⟩ := hprog.block hp hon hturn env r
    exact ⟨payload, t', hbuilds⟩
  cases hprog with
  | @sending h hist hfile hfull =>
    have hs := hfile.staging
    refine ⟨hist, hs.proper, hfile.made.symm, hs.calls, .inl ⟨h, hfile.opened, hs.zbuf_le, hs.whole, ?_⟩⟩
    -- each block but the last is full, and the compressor makes no more than its ratio allows
    have hmade := hp.made_le hist hs.proper
    rw [hfile.made, hfull] at hmade
    have hfed : ((zs.stepper config).fed hist).length ≤ content.length := by
      rw [← hs.whole, List.length_append, List.length_append]
      omega
    exact hmade.trans (Nat.mul_le_mul_left ratio (Nat.succ_le_succ hfed))
  | @sent hist hfile =>
    have hpacked := hfile.packed
    refine ⟨hist, hpacked.proper, hfile.made.symm, hpacked.calls,
      .inr ⟨hfile.closed, hpacked.ended, hpacked.whole, ?_⟩⟩
    rw [← hfile.made, hp.decode_ended hpacked.proper hpacked.ended, hpacked.whole]

theorem stored_made (n : ℕ) (hist : List (Call Byte)) :
    (ZLib.stored.doCompress n).made hist = (ZLib.stored.doCompress n).fed hist := by
  induction hist with
  | nil => rfl
  | cons k hist ih =>
    rw [Stepper.made_cons, Stepper.fed_cons, ih]
    simp only [ZLib.stored, List.append_cancel_left_eq]
    rw [List.take_eq_take_iff]
    omega

/-- The codec that passes its input through keeps the contract. -/
theorem stored_packing (n : ℕ) : (ZLib.stored.doCompress n).Packing id 1 where
  used_le h k _ := Nat.min_le_left _ _
  out_le h k _ := List.length_take_le _ _
  rc_cases h k _ := by
    simp only [ZLib.stored]
    split <;> simp
  takes h k _ hroom := by
    simp only [ZLib.stored, List.length_take] at hroom ⊢
    omega
  ends h k _ hrc := by
    simp only [ZLib.stored] at hrc ⊢
    split at hrc
    · next hfit => exact ⟨hfit.1, Nat.min_eq_left hfit.2⟩
    · contradiction
  finishes h k _ hfinish hroom := by
    simp only [ZLib.stored, List.length_take] at hroom ⊢
    rw [if_pos ⟨hfinish, by omega⟩]
  decode_made h k _ _ := stored_made n (k :: h)
  made_le h _ := by
    rw [stored_made]
    omega

/-- A packet of the later format from 2:5020/5 to 2:5020/999, without a message in it. -/
def sharedPkt : List Byte :=
  [5, 0, 0xE7, 3] ++ List.replicate 14 0 ++ [2, 0, 0x9C, 0x13, 0x9C, 0x13] ++ List.replicate 20 0 ++
    [1, 0, 2, 0, 2, 0, 0, 0, 0, 0] ++ List.replicate 6 0

def sharedFile : Handle := ⟨str "/o/x.pkt", sharedPkt, 0⟩

/-- The session with the node 1, in which the packet has been announced as compressed. -/
def sharedBegin : State :=
  { shareStart with
    login := { shareStart.login with fa := [aka 1] }
    link := {}
    tx := { shareStart.tx with
      out := { f := some sharedFile, path := str "/o/x.pkt", netname := str "x.pkt", size := 60 }
      zSend := .gz
      zOdata := some [] } }

theorem sharedBegin_starts : StartsPacked shareConfig .gz 60 sharedFile sharedBegin :=
  ⟨by decide, rfl, rfl, rfl, Nat.zero_le _, by decide, rfl, rfl⟩

theorem sharedBegin_turn : DataTurn sharedBegin := ⟨rfl, rfl, rfl, rfl, rfl⟩

end Binkd

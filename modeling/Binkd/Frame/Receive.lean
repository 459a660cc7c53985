import Binkd.Frame
import Binkd.Receive

/-!
# The frame of the receiving side

`startFileRecv`, `recvData` and `EOB` stay in the frame of the receiving side,
whatever the message or the data block is.
-/

namespace Binkd

open Lib

variable (config : BinkdConfig) (env : Env)

theorem inbReject_recvFrame (s : State) : RecvFrame s (inbReject config env s) :=
  .of_disk (inbReject_frame config env s)

theorem closePartial_frame (s : State) : RecvFrame s (closePartial config env s) := by
  unfold closePartial
  split
  · exact (RecvFrame.refl s).rx (by rfl)
  · dsimp only
    have h : RecvFrame s { s with rx := { s.rx with inf := { s.rx.inf with f := none } } } :=
      (RecvFrame.refl s).rx (by rfl)
    split_ifs
    · exact (h.trans (inbReject_recvFrame config env _)).rx (by rfl)
    · exact h.rx (by rfl)

theorem inCompleteDone_frame (s : State) : RecvFrame s (inCompleteDone config env s).1 := by
  have h := inbDone_frame config env s.rx.inComplete s
  unfold inCompleteDone
  split_ifs
  · split
    · next s1 heq =>
      rw [heq] at h
      exact h.reply (by decide)
    · next s1 heq =>
      rw [heq] at h
      exact h.rx (by rfl)
  · exact .refl s

theorem zRecvStop_frame (s : State) : RecvFrame s (zRecvStop s) :=
  (RecvFrame.refl s).rx (by rfl)

theorem newIn_frame (name size time : Str) (s : State) :
    RecvFrame s (newIn env name size time s) := by
  unfold newIn
  split_ifs
  · exact .refl s
  · exact (RecvFrame.refl s).rx (by rfl)

theorem skipAll_frame (s : State) : RecvFrame s (skipAll s) :=
  ((RecvFrame.refl s).replyf (by decide)).rx (by rfl)

/-- The state that opening ends in. -/
def OpenStep.state : OpenStep → State
  | .answered s => s
  | .opened s => s

theorem openIn_frame (s : State) : RecvFrame s (openIn config env s).state := by
  have hopen := RecvFrame.of_disk (inbFopen_frame config env s)
  unfold openIn
  split
  · exact .refl s
  · split
    · next mask _ =>
      cases mask.destr <;> exact (RecvFrame.refl s).replyf (by decide)
    · split
      · exact (RecvFrame.refl s).replyf (by decide)
      · split
        · exact skipAll_frame s
        · split
          · next s1 heq =>
            rw [heq] at hopen
            exact (hopen.rx (by rfl)).trans (skipAll_frame _)
          · next h s1 heq =>
            rw [heq] at hopen
            exact hopen.rx (by rfl)

theorem acceptIn_frame (offReq : Bool) (offset : Int) (extras : List Str) (pos : Nat) (s : State) :
    RecvFrame s (acceptIn env offReq offset extras pos s).1 := by
  unfold acceptIn
  by_cases hget : offReq ∨ offset ≠ pos
  · rw [if_pos hget]
    exact ((RecvFrame.refl s).replyf (by decide)).rx (by rfl)
  · rw [if_neg hget]
    dsimp only
    have h1 : RecvFrame s (if offset ≠ 0 ∨ s.login.nrFlag.they then
        { s with rx := { s.rx with getFileBalance := s.rx.getFileBalance - 1 } } else s) := by
      split_ifs
      · exact (RecvFrame.refl s).rx (by rfl)
      · exact .refl s
    generalize (if offset ≠ 0 ∨ s.login.nrFlag.they then
        { s with rx := { s.rx with getFileBalance := s.rx.getFileBalance - 1 } } else s) = s1 at h1 ⊢
    split_ifs
    · exact (h1.rx (by rfl)).reply (by decide)
    · split <;> exact h1.rx (by rfl)

theorem startFileRecv_frame (buf : List Byte) (s : State) :
    RecvFrame s (startFileRecv config env buf s).1 := by
  unfold startFileRecv
  split
  · next name size time off rest _ =>
    dsimp only
    have hclose : RecvFrame s (if (zRecvStop s).rx.inf.f.isSome ∧ name ≠ (zRecvStop s).rx.inf.netname
        then closePartial config env (zRecvStop s) else zRecvStop s) := by
      refine (zRecvStop_frame s).trans ?_
      split_ifs
      · exact closePartial_frame config env _
      · exact .refl _
    generalize (if (zRecvStop s).rx.inf.f.isSome ∧ name ≠ (zRecvStop s).rx.inf.netname
      then closePartial config env (zRecvStop s) else zRecvStop s) = s1 at hclose ⊢
    have hdone := hclose.trans (inCompleteDone_frame config env s1)
    split
    · next s2 heq =>
      rw [heq] at hdone
      exact hdone
    · next s2 heq =>
      rw [heq] at hdone
      have hnew := hdone.trans (newIn_frame env name size time s2)
      generalize newIn env name size time s2 = s3 at hnew ⊢
      have hoff : RecvFrame s (if decide (off = str "-1") = true then { s3 with login := { s3.login with
          nrFlag := { s3.login.nrFlag with they := true } } } else s3) := by
        refine hnew.trans ?_
        split_ifs
        · exact (RecvFrame.refl s3).theyNr
        · exact .refl s3
      generalize (if decide (off = str "-1") = true then { s3 with login := { s3.login with
          nrFlag := { s3.login.nrFlag with they := true } } } else s3) = s4 at hoff ⊢
      have hopen := hoff.trans (openIn_frame config env s4)
      split
      · next s5 heq =>
        rw [heq] at hopen
        exact hopen
      · next s5 heq =>
        rw [heq] at hopen
        exact hopen.trans (acceptIn_frame env _ _ _ _ s5)
  · exact (RecvFrame.refl s).reply (by decide)

/-! ### Data blocks -/

theorem appendIn_frame {bytes : List Byte} {s s' : State} (h : appendIn env bytes s = some s') :
    RecvFrame s s' := by
  unfold appendIn at h
  split at h
  · obtain rfl := Option.some.inj h
    exact .refl s
  · split_ifs at h
    obtain rfl := Option.some.inj h
    exact .of_eq rfl rfl rfl rfl rfl rfl

theorem unzLoop_frame {type fuel : Nat} {hist hist' : List (Call Byte)} {buf : List Byte}
    {rc rc' : Int} {s s' : State} (h : unzLoop config env type fuel hist buf rc s = some (hist', rc', s')) :
    RecvFrame s s' := by
  induction fuel generalizing hist buf rc s with
  | zero => simp [unzLoop] at h
  | succ fuel ih =>
    rw [unzLoop] at h
    split_ifs at h
    · simp only [Option.some.injEq, Prod.mk.injEq] at h
      exact h.2.2 ▸ .refl s
    · dsimp only at h
      split_ifs at h
      · split at h
        · contradiction
        · next s1 heq => exact (appendIn_frame env heq).trans (ih h)
      · exact ih h

theorem storeData_frame {payload : List Byte} {s s' : State}
    (h : storeData config env payload s = some s') : RecvFrame s s' := by
  unfold storeData at h
  generalize (if s.rx.zRecv.bz2 = true then 2 else 1) = type at h
  split_ifs at h
  · split at h
    · contradiction
    · next hist rc s1 heq =>
      obtain rfl := Option.some.inj h
      exact (unzLoop_frame config env heq).rx (by rfl)
  · exact appendIn_frame env h
  · obtain rfl := Option.some.inj h
    exact .refl s

theorem completeIn_frame (s : State) : RecvFrame s (completeIn config env s).1 := by
  unfold completeIn
  dsimp only
  have h1 : RecvFrame s { s with rx := { s.rx with
      inf := { s.rx.inf with f := none }
      zIdata := if s.rx.zRecv.isOn then none else s.rx.zIdata } } := (RecvFrame.refl s).rx (by rfl)
  by_cases hnd : s.login.ndFlag.they = true
  · rw [if_pos hnd]
    exact ((h1.rx (by rfl)).replyf (by decide)).rx (by rfl)
  · rw [if_neg hnd]
    have h2 := h1.trans (inbDone_frame config env { s.rx.inf with f := none } _)
    split
    · next s2 heq =>
      rw [heq] at h2
      exact h2.reply (by decide)
    · next s2 heq =>
      rw [heq] at h2
      exact (h2.replyf (by decide)).rx (by rfl)

theorem recvData_frame (payload : List Byte) (s : State) :
    RecvFrame s (recvData config env payload s).1 := by
  unfold recvData
  split_ifs
  · exact .refl s
  · split
    · exact .refl s
    · next s1 heq =>
      have h1 := storeData_frame config env heq
      split
      · exact h1
      · split_ifs
        · exact h1.rx (by rfl)
        · exact h1.trans (completeIn_frame config env s1)
        · exact h1

/-! ### `M_EOB` -/

theorem eobPartial_frame (s : State) : RecvFrame s (eobPartial config env s) := by
  unfold eobPartial
  split
  · exact .refl s
  · dsimp only
    have h1 : RecvFrame s { s with rx := { s.rx with inf := { s.rx.inf with f := none } } } :=
      (RecvFrame.refl s).rx (by rfl)
    split_ifs
    · exact (h1.trans (inbReject_recvFrame config env _)).rx (by rfl)
    · exact closePartial_frame config env s

theorem EOB_frame (s : State) : RecvFrame s (EOB config env s).1 := by
  unfold EOB
  dsimp only
  have h1 : RecvFrame s { s with rx := { s.rx with remoteEOB := true } } :=
    (RecvFrame.refl s).rx (by rfl)
  have h2 := (h1.trans (eobPartial_frame config env _)).trans (inCompleteDone_frame config env _)
  split
  · next s1 heq =>
    rw [heq] at h2
    exact h2
  · next s1 heq =>
    rw [heq] at h2
    exact h2.theyNr

end Binkd

import Binkd.Round

/-!
# The log only grows

Every step of a session puts frames at the end of those that were sent before
(`Act.log_suffix`, `handle_log_suffix`).  The messages that do not answer a file add
replies only (`Replies`).
-/

namespace Binkd

open Lib

variable {config : BinkdConfig} {env : Env} {s s' : State}

/-- The log has grown by replies. -/
def Replies (log log' : List Item) : Prop := ∃ items, (∀ i ∈ items, i.isReply) ∧ log' = items ++ log

theorem Replies.refl (log : List Item) : Replies log log :=
    ⟨[], fun _ h => absurd h List.not_mem_nil, rfl⟩

theorem Replies.trans {a b c : List Item} (h : Replies a b) (h' : Replies b c) : Replies a c := by
  obtain ⟨xs, hx, rfl⟩ := h
  obtain ⟨ys, hy, rfl⟩ := h'
  refine ⟨ys ++ xs, fun i hi => ?_, (List.append_assoc ys xs a).symm⟩
  exact (List.mem_append.mp hi).elim (hy i) (hx i)

theorem Replies.one {m : Byte} (hm : m ≠ M_FILE) (text : Str) (log : List Item) :
    Replies log (.msg m text :: log) :=
  ⟨[.msg m text], by simpa [Item.isReply] using hm, rfl⟩

theorem Replies.suffix {log log' : List Item} (h : Replies log log') : log <:+ log' := by
  obtain ⟨items, -, rfl⟩ := h
  exact List.suffix_append items log

theorem Queues.replies {crypt : CryptFlag} {l l' : Link} (h : Queues (·.isReply) crypt l l') :
    Replies l.log l'.log := by
  obtain ⟨items, hitems, rfl⟩ := h
  exact ⟨items.reverse, fun i hi => hitems i (List.mem_reverse.mp hi), Link.queueAll_log crypt items l⟩

theorem Queues.log_suffix {ok : Item → Prop} {crypt : CryptFlag} {l l' : Link}
    (h : Queues ok crypt l l') : l.log <:+ l'.log := by
  obtain ⟨items, -, rfl⟩ := h
  exact ⟨items.reverse, (Link.queueAll_log crypt items l).symm⟩

theorem Act.log_suffix (h : Act config env s s') : s.link.log <:+ s'.link.log := by
  have same : ∀ {l l' : Link}, l'.log = l.log → l.log <:+ l'.log := fun h => h ▸ List.suffix_rfl
  cases h with
  | outside => exact List.suffix_rfl
  | @queued e q _ _ =>
    have hf := startFileTransfer_frame config env (some e) { s with tx := { s.tx with q := q } }
    exact hf.link.log_suffix
  | floLine => exact (startFileTransfer_frame config env none s).link.log_suffix
  | noFile => exact List.suffix_rfl
  | eob => exact List.suffix_cons _ _
  | batch =>
    obtain ⟨_, hl⟩ := (endBatch_frame config env s).link
    exact same (by rw [hl])
  | ioError => exact List.suffix_rfl
  | read => exact List.suffix_rfl
  | header => exact List.suffix_rfl
  | count => exact List.suffix_rfl
  | data => exact (recvData_frame config env _ s).link.log_suffix
  | nextHeader => exact List.suffix_rfl
  | dropBlock => exact List.suffix_rfl
  | pend => exact List.suffix_rfl
  | pack =>
    obtain ⟨_, _, heq⟩ := sendMsgs_spec env s
    exact same (by rw [heq])
  | block =>
    have hout := sendData_outcome config env s
    generalize sendData config env s = r at hout
    cases hout with
    | empty => exact List.suffix_cons _ _
    | failed => exact List.suffix_rfl
    | more => exact List.suffix_cons _ _
    | last => exact List.suffix_cons _ _

theorem completeLogin_log (config : BinkdConfig) (env : Env) (s : State) :
    (completeLogin config env s).1.link.log = s.link.log := by
  obtain ⟨_, _, _, heq, -⟩ := completeLogin_spec config env s
  rw [heq]
  rfl

/-- A login is answered behind the other messages. -/
theorem pwdGrant_replies (config : BinkdConfig) (env : Env) (s : State) :
    Replies s.link.log (pwdGrant config env s).1.link.log := by
  obtain ⟨want, hnr⟩ := autoNr_eq config env
    (selectInbound config env { s with login := pwdModes s.login }) { s with login := pwdModes s.login }
  unfold pwdGrant
  dsimp only
  rw [hnr, completeLogin_log]
  exact (Replies.one (by decide) _ _).trans (Replies.one (by decide) _ _)

theorem PWD_replies (config : BinkdConfig) (env : Env) (buf : List Byte) (s : State) :
    Replies s.link.log (PWD config env buf s).1.link.log := by
  have hscan : ∀ login, Replies s.link.log (doPrescan config env { s with login := login }).link.log := by
    intro login
    obtain ⟨_, _, _, heq, hlink, -⟩ := doPrescan_spec config env { s with login := login }
    rw [heq]
    exact hlink.replies
  have hgrant : ∀ s1 : State, Replies s.link.log s1.link.log →
      Replies s.link.log (pwdGrant config env s1).1.link.log :=
        fun s1 h => h.trans (pwdGrant_replies config env s1)
  unfold PWD
  dsimp only
  split
  · exact .refl _
  · split
    · exact .one (by decide) _ _
    · split
      · next early _ =>
        cases early with
        | true => exact hgrant _ (hscan _)
        | false => exact hgrant _ (hscan _)
      · exact hgrant _ (hscan _)
      · exact .one (by decide) _ _
      · exact .one (by decide) _ _

/-- The messages with which the remote answers a file. -/
def answers : List Byte := [M_GOT, M_SKIP, M_GET]

/-- Any other message is answered by replies. -/
theorem handle_replies (config : BinkdConfig) (env : Env) {t : Byte} (buf : List Byte) (s : State) (ht : t ∉ answers) :
    Replies s.link.log (handle config env t buf s).1.link.log := by
  have hs := handled config env t buf s
  generalize (handle config env t buf s).1 = s' at hs
  cases hs with
  | nul => exact .refl _
  | adr => exact (ADR_frame config env buf s).link.replies
  | pwd => exact PWD_replies config env buf s
  | file => exact (startFileRecv_frame config env buf s).link.replies
  | ok =>
    unfold OK
    split
    · exact .refl _
    · rw [completeLogin_log]
      exact .refl _
  | eob => exact (EOB_frame config env s).link.replies
  | got ht' => exact absurd (by simp [answers, ht']) ht
  | get ht' => exact absurd (by simp [answers, ht']) ht
  | skip ht' => exact absurd (by simp [answers, ht']) ht
  | ignored => exact .refl _

theorem handle_log_suffix (config : BinkdConfig) (env : Env) (t : Byte) (buf : List Byte) :
    s.link.log <:+ (handle config env t buf s).1.link.log := by
  by_cases ht : t ∈ answers
  · rcases List.mem_cons.mp ht with rfl | ht
    · exact (GOT_frame config env buf s).link.log_suffix
    · rcases List.mem_cons.mp ht with rfl | ht
      · exact (SKIP_frame config env buf s).link.log_suffix
      · obtain rfl := List.mem_singleton.mp ht
        exact (GET_frame config env buf s).link.log_suffix
  · exact (handle_replies config env buf s ht).suffix

end Binkd
